import Porthop.Git.Document

/- The codec as a whole: messages, values, and streams of frames. -/
namespace Porthop.Git.Wire
open MessagePack (Primitives)

section
variable (P : Primitives)

/-- Messages written one after the other. -/
def writeFrames : List Message → Option (List UInt8)
  | [] => some []
  | m :: ms => do
    let a ← encodeFrame P m
    let b ← writeFrames ms
    some (a ++ b)

/-- As many messages read one after the other. -/
def readFrames (n : Nat) : Parser UInt8 (List Message) :=
  Parser.items (fun _ => readFrame P) 0 n

end

section
variable {P : Primitives}

theorem encode_ok {m : Message} {bs : List UInt8} (h : encode P m = some bs) :
    writeMessage P m = some bs ∧ bs.length ≤ maxDiff := by
  obtain ⟨bs', hbs, h'⟩ := Option.bind_eq_some_iff.mp h
  split at h'
  · cases h'
  · next hlen =>
    obtain rfl := Option.some.inj h'
    exact ⟨hbs, Nat.not_lt.mp hlen⟩

theorem encodeValue_ok {v : Value} {bs : List UInt8} (h : encodeValue P v = some bs) :
    writeBody P .normal 0 v = some bs ∧ bs.length ≤ maxDiff := by
  obtain ⟨bs', hbs, h'⟩ := Option.bind_eq_some_iff.mp h
  split at h'
  · cases h'
  · next hlen =>
    obtain rfl := Option.some.inj h'
    exact ⟨hbs, Nat.not_lt.mp hlen⟩

theorem maxDiff_lt {n : Nat} (h : n ≤ maxDiff) : n < 2 ^ 32 := by
  have : maxDiff = 20971520 := rfl
  omega

theorem writeTag_pos (items tag : Nat) : 1 ≤ (writeTag P items tag).length := by
  have := @write_pos P (.arr (UInt32.ofNat items))
  rw [writeTag, List.length_append]
  omega

/-- Every message starts with its tag. -/
theorem writeMessage_tagged {m : Message} {bs : List UInt8} (h : writeMessage P m = some bs) :
    ∃ items tag rest, bs = writeTag P items tag ++ rest := by
  cases m with
  | hello protocol versions instanceId limits =>
    obtain ⟨body, -, h'⟩ := Option.bind_eq_some_iff.mp h
    exact ⟨_, _, _, (Option.some.inj h').symm⟩
  | ready id version capabilities =>
    obtain ⟨body, -, h'⟩ := Option.bind_eq_some_iff.mp h
    exact ⟨_, _, _, (Option.some.inj h').symm⟩
  | request id method params =>
    obtain ⟨body, -, h'⟩ := Option.bind_eq_some_iff.mp h
    exact ⟨_, _, _, (Option.some.inj h').symm⟩
  | response id result error =>
    cases result with
    | some v =>
      cases error with
      | some e => cases h
      | none =>
        obtain ⟨body, -, h'⟩ := Option.bind_eq_some_iff.mp h
        exact ⟨_, _, _, (Option.some.inj h').symm⟩
    | none =>
      cases error with
      | some e => exact ⟨_, _, _, (Option.some.inj h).symm⟩
      | none => cases h
  | chunk id streamId seq bytesB64 =>
    obtain ⟨bytes, -, h'⟩ := Option.bind_eq_some_iff.mp h
    exact ⟨_, _, _, (Option.some.inj h').symm⟩
  | _ => exact ⟨_, _, _, (Option.some.inj h).symm⟩

/-- **Messages.** -/
theorem encode_exact : Parser.Exact Subtype.val
    (fun m : {m : Message // m.Distinct} => encode P m.1) (decode P) := by
  refine Parser.exact_whole fun m bs h => ?_
  obtain ⟨hwrite, hlen⟩ := encode_ok h
  exact ⟨hlen, reads_message hwrite m.2 (maxDiff_lt hlen)⟩

/-- **Values.** -/
theorem encodeValue_exact : Parser.Exact Subtype.val
    (fun v : {v : Value // v.Distinct} => encodeValue P v.1) (decodeValue P) := by
  refine Parser.exact_whole fun v bs h => ?_
  obtain ⟨hwrite, hlen⟩ := encodeValue_ok h
  exact ⟨hlen, reads_body v.1 hwrite v.2 (maxDiff_lt hlen) rfl⟩

/-- **A name given twice** is refused in a message and in a value. -/
theorem decode_repeats {d : Document P} (hf : d.Formed) (hr : d.Repeats) :
    decode P d.bytes = none := by
  unfold decode
  split
  · rfl
  · cases hm : (readMessage P).whole d.bytes with
    | none => rfl
    | some m => exact absurd hr ((refuses_message d hf).whole hm)

theorem decodeValue_repeats {d : Document P} (hf : d.Formed) (hr : d.Repeats) :
    decodeValue P d.bytes = none := by
  unfold decodeValue
  split
  · rfl
  · cases hv : (readBody P (maxDepth + 1) .normal).whole d.bytes with
    | none => rfl
    | some v => exact absurd hr ((refuses_body _ _ d hf).whole hv)

/-! ## Frames -/

/-- The header of a frame. -/
theorem reads_payloadLength {n : Nat} (hpos : 0 < n) (hmax : n ≤ maxFrame) :
    payloadLength.Reads (marker :: MessagePack.be 4 n) n := by
  have hn : n < 256 ^ 4 := by
    have : maxFrame = 1048576 := rfl
    omega
  refine (MessagePack.reads_item marker).bind ((MessagePack.reads_be hn).map ?_)
  rw [if_neg]
  · rfl
  · rintro (h | h | h)
    · exact h rfl
    · omega
    · omega

/-- **A frame** is read as the message it was written for. -/
theorem reads_frame {m : Message} {bs : List UInt8} (h : encodeFrame P m = some bs)
    (hd : m.Distinct) : (readFrame P).Reads bs m := by
  obtain ⟨payload, hpayload, h'⟩ := Option.bind_eq_some_iff.mp h
  split at h'
  · cases h'
  next hmax =>
  obtain rfl := Option.some.inj h'
  obtain ⟨hwrite, hlen⟩ := encode_ok hpayload
  have hpos : 0 < payload.length := by
    obtain ⟨items, tag, rest, rfl⟩ := writeMessage_tagged hwrite
    have := @writeTag_pos P items tag
    rw [List.length_append]
    omega
  have hback : decodeFrame P payload = some m := by
    unfold decodeFrame decode
    rw [if_neg hmax, if_neg (Nat.not_lt.mpr hlen)]
    exact (reads_message hwrite hd (maxDiff_lt hlen)).whole
  have hheader := reads_payloadLength hpos (Nat.not_lt.mp hmax)
  refine hheader.bind ((MessagePack.reads_bytes payload).map ?_)
  rw [hback]
  rfl

/-- **A stream** of frames is read as its messages, to the end of the last. -/
theorem reads_frames {ms : List {m : Message // m.Distinct}} {bs : List UInt8}
    (h : writeFrames P (ms.map Subtype.val) = some bs) :
    (readFrames P ms.length).Reads bs (ms.map Subtype.val) := by
  have hitems : ∀ (ms : List {m : Message // m.Distinct}) (bs : List UInt8) (i : Nat),
      writeFrames P (ms.map Subtype.val) = some bs →
      (Parser.items (fun _ => readFrame P) i ms.length).Reads bs (ms.map Subtype.val) := by
    intro ms
    induction ms with
    | nil =>
      intro bs i h
      obtain rfl := Option.some.inj h
      rfl
    | cons m ms ih =>
      intro bs i h
      obtain ⟨a, ha, h₁⟩ := Option.bind_eq_some_iff.mp h
      obtain ⟨b, hb, h₂⟩ := Option.bind_eq_some_iff.mp h₁
      obtain rfl := Option.some.inj h₂
      exact (reads_frame ha m.2).bind ((ih b (i + 1) hb).map rfl)
  exact hitems ms bs 0 h

end

/-- **The codec.** For any primitives that agree: messages and values are read as they were
    written, and no part of them and nothing longer is accepted; a frame, and any number of
    them, is read to exactly its end whatever follows; and a document that names a field
    twice is refused, whatever form its names are in. -/
theorem codec_round_trip (P : Primitives) :
    Parser.Exact Subtype.val
      (fun m : {m : Message // m.Distinct} => encode P m.1) (decode P) ∧
    Parser.Exact Subtype.val
      (fun v : {v : Value // v.Distinct} => encodeValue P v.1) (decodeValue P) ∧
    (∀ (m : {m : Message // m.Distinct}) frame rest, encodeFrame P m.1 = some frame →
      (readFrame P).run (frame ++ rest) = some (m.1, rest)) ∧
    (∀ (ms : List {m : Message // m.Distinct}) stream rest,
      writeFrames P (ms.map Subtype.val) = some stream →
      (readFrames P ms.length).run (stream ++ rest) = some (ms.map Subtype.val, rest)) ∧
    ∀ d : Document P, d.Formed → d.Repeats →
      decode P d.bytes = none ∧ decodeValue P d.bytes = none := by
  refine ⟨encode_exact, encodeValue_exact, ?_, ?_, ?_⟩
  · intro m frame rest h
    exact (reads_frame h m.2).run rest
  · intro ms stream rest h
    exact (reads_frames h).run rest
  · intro d hf hr
    exact ⟨decode_repeats hf hr, decodeValue_repeats hf hr⟩

/-- A token as it is written. -/
def Lexeme.written {P : Primitives} (t : MessagePack.Token) (h : t.Proper) : Lexeme P :=
  ⟨P.write t, t, P.reads t h⟩

/-- A request whose members travel by number, as bytes and by name. -/
def sampleRequest : Message :=
  .request "1" "diff" (.obj [("repoId", .str "r"), ("bytesB64", .str "AAEC"),
    ("x", .num (.neg 0))])

/-- `repoId` by its name and by its number. -/
def twiceMembers : List (Document MessagePack.compact × Document MessagePack.compact) :=
  [(.leaf (.written (.str "repoId") (show String.utf8ByteSize "repoId" < 2 ^ 32 by decide)),
      .leaf (.written .nil trivial)),
    (.leaf (.written (.uint 9) trivial), .leaf (.written .nil trivial))]

def twice : Document MessagePack.compact := .map (.written (.map 2) trivial) twiceMembers

theorem sampleRequest_round_trip :
    decode MessagePack.compact [148, 3, 161, 49, 164, 100, 105, 102, 102, 131, 9, 161, 114, 14,
      196, 3, 0, 1, 2, 161, 120, 255] = some sampleRequest ∧
    decodeValue MessagePack.compact [130, 166, 114, 101, 112, 111, 73, 100, 192, 9, 192] = none := by
  have hd : sampleRequest.Distinct := ⟨by decide, trivial, trivial, trivial, trivial⟩
  have hencode : encode MessagePack.compact sampleRequest = some [148, 3, 161, 49, 164, 100, 105,
      102, 102, 131, 9, 161, 114, 14, 196, 3, 0, 1, 2, 161, 120, 255] := by decide +kernel
  have hformed : twice.Formed :=
    ⟨⟨2, rfl, rfl⟩, trivial, trivial, trivial, trivial, trivial⟩
  have hrepeats : twice.Repeats := by
    have hnames : Document.names twiceMembers = ["repoId", "repoId"] := rfl
    refine Or.inl ?_
    rw [hnames]
    decide
  have hbytes : twice.bytes = [130, 166, 114, 101, 112, 111, 73, 100, 192, 9, 192] := by
    decide +kernel
  obtain ⟨hmessages, -, -, -, hdocuments⟩ := codec_round_trip MessagePack.compact
  refine ⟨(hmessages ⟨sampleRequest, hd⟩ _ hencode).1, ?_⟩
  rw [← hbytes]
  exact (hdocuments twice hformed hrepeats).2

end Porthop.Git.Wire
