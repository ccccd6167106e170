import Porthop.Agent.Accepted

/- What one end sends the other reads.

   A frame is read to its end however the stream is cut into reads, and a frame that is cut
   short, too long or padded is refused. -/
namespace Porthop.Agent
open MessagePack (compact)

section
variable {limit : Nat} {kind : UInt8} {data : Bytes}

theorem length_payload_le (kind : UInt8) (data : Bytes) :
    (framePayload kind data).length ≤ data.length + 10 := by
  have hitems := @length_arr_le 2 (by decide)
  have hkind := length_u8_le kind
  have hdata : (compact.write (.bin data)).length ≤ data.length + 5 :=
    MessagePack.length_write_bin data
  unfold framePayload
  simp only [List.length_append]
  calc _ ≤ 3 + (2 + (data.length + 5)) :=
        Nat.add_le_add hitems (Nat.add_le_add hkind hdata)
    _ = data.length + 10 := by omega

theorem length_payload_pos (kind : UInt8) (data : Bytes) : 0 < (framePayload kind data).length := by
  have hpos := @Git.Wire.write_pos compact (.arr 2)
  unfold framePayload
  rw [List.length_append]
  omega

theorem length_payload_gt (kind : UInt8) (data : Bytes) :
    data.length < (framePayload kind data).length := by
  have hsize : data.length + 1 ≤ (compact.write (.bin data)).length := compact.size_le (.bin data)
  unfold framePayload
  simp only [List.length_append]
  omega

theorem reads_payload (h : data.length < 2 ^ 32) :
    readPayload.Reads (framePayload kind data) (kind, data) :=
  Git.Wire.reads_tuple (by decide) ((reads_u8 kind).bind ((reads_bin h).map rfl))

theorem decode_payload (h : data.length ≤ min limit maxFrame) :
    decode limit (framePayload kind data) = some (kind, data) := by
  have hlen := length_payload_le kind data
  have hmax : min limit maxFrame ≤ maxFrame := Nat.min_le_right _ _
  have hsmall : data.length < 2 ^ 32 := Nat.lt_of_le_of_lt (Nat.le_trans h hmax) (by decide)
  have hle : (framePayload kind data).length ≤ min limit maxFrame + overhead := by
    have : overhead = 16 := rfl
    omega
  unfold decode
  rw [deserialize_reads (reads_payload hsmall) hle]
  exact if_neg (Nat.not_lt.mpr h)

/-- Bytes that are too long for the limit are not decoded. -/
theorem decode_long (h : min limit maxFrame < data.length) (hsmall : data.length < 2 ^ 32) :
    decode limit (framePayload kind data) = none := by
  unfold decode deserialize
  split
  · rfl
  · rw [(reads_payload hsmall).whole]
    exact if_pos h

theorem decode_trailing (h : data.length < 2 ^ 32) {extra : Bytes} (hextra : extra ≠ []) :
    decode limit (framePayload kind data ++ extra) = none := by
  unfold decode
  rw [deserialize_trailing (reads_payload h) hextra]
  rfl

/-! ## The header -/

theorem length_header (n : Nat) : (header n).length = 5 := by
  rw [header, List.length_cons, MessagePack.length_be]

/-- A header is taken for its length, if the length is within the limit. -/
theorem payloadLength_header {n : Nat} (h : n < 2 ^ 32) : payloadLength limit (header n) =
    if n = 0 ∨ n > min limit maxFrame + overhead then none else some n := by
  have hread := (MessagePack.reads_be (k := 4) (n := n) h).whole
  have hmarker : ¬ marker ≠ marker := fun hne => hne rfl
  simp only [payloadLength, header, hread, Option.bind_eq_bind, Option.bind_some, if_neg hmarker]

/-- The header comes first. -/
theorem readLimited_bind {s s' : Source UInt8} {head : Bytes}
    (hread : s.readExact 5 = some (head, s')) : readLimited limit s =
      (payloadLength limit head).bind fun n =>
        (s'.readExact n).bind fun r => (decode limit r.1).map fun frame => (frame, r.2) := by
  simp only [readLimited, hread, Option.bind_eq_bind, Option.bind_some, Option.map_eq_bind]
  rfl

/-- A stream that starts with a header. -/
theorem readLimited_header {n : Nat} (hn : n < 2 ^ 32) {s : Source UInt8} {bytes : Bytes}
    (hs : s.flatten = header n ++ bytes) : ∃ s' : Source UInt8, s'.flatten = bytes ∧
      readLimited limit s =
        if n = 0 ∨ n > min limit maxFrame + overhead then none
        else (s'.readExact n).bind fun r => (decode limit r.1).map fun frame => (frame, r.2) := by
  obtain ⟨s', hread, hrest⟩ := Source.readExact_append hs
  rw [length_header] at hread
  refine ⟨s', hrest, ?_⟩
  rw [readLimited_bind hread, payloadLength_header hn]
  split
  · rw [Option.bind_none]
  · rw [Option.bind_some]

theorem encode_some {frame : Bytes} (h : encode kind data = some frame) :
    data.length ≤ maxFrame ∧
      frame = header (framePayload kind data).length ++ framePayload kind data := by
  unfold encode at h
  split at h
  · cases h
  · next hle => exact ⟨Nat.not_lt.mp hle, (Option.some.inj h).symm⟩

theorem payload_lt {frame : Bytes} (h : encode kind data = some frame) :
    (framePayload kind data).length < 2 ^ 32 := by
  have hlen := length_payload_le kind data
  have hmax := (encode_some h).1
  have hbound : maxFrame + 10 < 2 ^ 32 := by decide
  omega

/-- **A frame** within the limit is read, whatever reads it comes in and whatever follows. -/
theorem readLimited_frame {frame rest : Bytes} (h : encode kind data = some frame)
    (hle : data.length ≤ min limit maxFrame) {s : Source UInt8} (hs : s.flatten = frame ++ rest) :
    ∃ s' : Source UInt8, readLimited limit s = some ((kind, data), s') ∧ s'.flatten = rest := by
  obtain ⟨-, rfl⟩ := encode_some h
  rw [List.append_assoc] at hs
  obtain ⟨s₁, hs₁, hread⟩ := @readLimited_header limit _ (payload_lt h) s _ hs
  obtain ⟨s₂, hread₂, hs₂⟩ := Source.readExact_append hs₁
  refine ⟨s₂, ?_, hs₂⟩
  have hlen := length_payload_le kind data
  have hpos := length_payload_pos kind data
  have hover : overhead = 16 := rfl
  have hinside : ¬ ((framePayload kind data).length = 0 ∨
      (framePayload kind data).length > min limit maxFrame + overhead) := by omega
  rw [hread, if_neg hinside, hread₂, Option.bind_some, decode_payload hle, Option.map_some]

/-- **A truncated frame** is not read. -/
theorem readLimited_truncated {frame part more : Bytes} (h : encode kind data = some frame)
    (hpart : frame = part ++ more) (hmore : more ≠ []) {s : Source UInt8} (hs : s.flatten = part) :
    readLimited limit s = none := by
  obtain ⟨-, hframe⟩ := encode_some h
  by_cases hshort : part.length < 5
  · have hnone : Source.readExact 5 s = none := Source.readExact_none (by rw [hs]; exact hshort)
    simp only [readLimited, hnone, Option.bind_eq_bind, Option.bind_none]
  · -- The header is whole, and what follows is less than it says.
    have hlen : (header (framePayload kind data).length).length ≤ part.length := by
      rw [length_header]
      exact Nat.not_lt.mp hshort
    obtain ⟨rest, hrest⟩ := List.prefix_of_prefix_length_le
      (by rw [← hpart, hframe]; exact List.prefix_append _ _) (List.prefix_append part more) hlen
    have hpayload : framePayload kind data = rest ++ more := by
      rw [hframe, ← hrest, List.append_assoc] at hpart
      exact List.append_cancel_left hpart
    obtain ⟨s₁, hs₁, hread⟩ :=
      @readLimited_header limit _ (payload_lt h) s rest (by rw [hs, hrest])
    have hless : s₁.flatten.length < (framePayload kind data).length := by
      have hpos := List.length_pos_iff.mpr hmore
      rw [hs₁, hpayload, List.length_append]
      omega
    rw [hread, Source.readExact_none hless, Option.bind_none, ite_self]

/-- **A padded frame**, whose length counts bytes behind its message, is not read. -/
theorem readLimited_padded {extra rest : Bytes} (hextra : extra ≠ [])
    (hlength : (framePayload kind data).length + extra.length < 2 ^ 32) {s : Source UInt8}
    (hs : s.flatten = header ((framePayload kind data).length + extra.length) ++
      (framePayload kind data ++ extra) ++ rest) : readLimited limit s = none := by
  have hsmall : data.length < 2 ^ 32 := by
    have := length_payload_gt kind data
    omega
  rw [List.append_assoc] at hs
  obtain ⟨s₁, hs₁, hread⟩ := @readLimited_header limit _ hlength s _ hs
  obtain ⟨s₂, hread₂, -⟩ := Source.readExact_append hs₁
  rw [List.length_append] at hread₂
  rw [hread, hread₂, Option.bind_some, decode_trailing hsmall hextra, Option.map_none, ite_self]

/-- **A long frame** is not read: neither one whose header says so nor one whose bytes are. -/
theorem readLimited_long {n : Nat} (hn : n < 2 ^ 32) (h : n > min limit maxFrame + overhead)
    {s : Source UInt8} {rest : Bytes} (hs : s.flatten = header n ++ rest) :
    readLimited limit s = none := by
  obtain ⟨s₁, -, hread⟩ := @readLimited_header limit n hn s rest hs
  rw [hread, if_pos (.inr h)]

theorem readLimited_long_data {frame rest : Bytes} (h : encode kind data = some frame)
    (hlong : min limit maxFrame < data.length) {s : Source UInt8} (hs : s.flatten = frame ++ rest) :
    readLimited limit s = none := by
  obtain ⟨hmax, rfl⟩ := encode_some h
  rw [List.append_assoc] at hs
  obtain ⟨s₁, hs₁, hread⟩ := @readLimited_header limit _ (payload_lt h) s _ hs
  obtain ⟨s₂, hread₂, -⟩ := Source.readExact_append hs₁
  have hsmall : data.length < 2 ^ 32 := Nat.lt_of_le_of_lt hmax (by decide)
  rw [hread, hread₂, Option.bind_some, decode_long hlong hsmall, Option.map_none, ite_self]

end

/-! ## Messages over a stream -/

section
variable {parses : String → Bool} {Z : Clipboard.Zlib} {r : Receiver}

theorem frame_some {m : Message} (h : m.encode.length ≤ maxFrame) : ∃ frame, m.frame = some frame :=
  ⟨_, if_neg (Nat.not_lt.mpr h)⟩

/-- One message is received. -/
theorem receive_sent {m : Message} (h : Sent parses Z r m) (hnamed : m.Named) {frame : Bytes}
    (hframe : m.frame = some frame) {s : Source UInt8} {rest : Bytes}
    (hs : s.flatten = frame ++ rest) :
    ∃ s' : Source UInt8, r.receive parses s = some (m, s') ∧ s'.flatten = rest := by
  obtain ⟨-, hle, haccept⟩ := sent_accepted h hnamed
  obtain ⟨s', hread, hrest⟩ := readLimited_frame hframe hle hs
  refine ⟨s', ?_, hrest⟩
  simp only [Receiver.receive, hread, haccept, Option.bind_eq_bind, Option.bind_some]

/-- The frames of a run of messages. -/
def frames : List Message → Option Bytes
  | [] => some []
  | m :: ms => do
    let frame ← m.frame
    let rest ← frames ms
    some (frame ++ rest)

theorem receiveAll_sent {ms : List Message} (h : ∀ m ∈ ms, Sent parses Z r m ∧ m.Named)
    {stream rest : Bytes} (hstream : frames ms = some stream) {s : Source UInt8}
    (hs : s.flatten = stream ++ rest) :
    ∃ s' : Source UInt8, r.receiveAll parses ms.length s = some (ms, s') ∧ s'.flatten = rest := by
  induction ms generalizing stream s with
  | nil =>
    obtain rfl := Option.some.inj hstream
    exact ⟨s, rfl, hs⟩
  | cons m ms ih =>
    obtain ⟨frame, hframe, hmore⟩ := Option.bind_eq_some_iff.mp hstream
    obtain ⟨tail, htail, heq⟩ := Option.bind_eq_some_iff.mp hmore
    obtain rfl := Option.some.inj heq
    obtain ⟨hsent, hnamed⟩ := h m List.mem_cons_self
    rw [List.append_assoc] at hs
    obtain ⟨s₁, hread, hs₁⟩ := receive_sent hsent hnamed hframe hs
    obtain ⟨s₂, hrest, hs₂⟩ := ih (fun x hx => h x (List.mem_cons_of_mem _ hx)) htail hs₁
    refine ⟨s₂, ?_, hs₂⟩
    simp only [List.length_cons, Receiver.receiveAll, hread, hrest, Option.bind_eq_bind,
      Option.bind_some]

end

/-- **The wire.** What any of the ends sends, a request of a local reader only if it may name
    a format, the other end reads as it was sent, message by message, whatever reads the
    stream comes in. A frame is not read if it is truncated, if its bytes or its length are
    over the limit, or if its length counts bytes that follow the message; and neither a part
    of a message nor a message with bytes behind it is accepted as one. -/
theorem wire_round_trip (parses : String → Bool) (Z : Clipboard.Zlib) (r : Receiver) :
    (∀ ms, (∀ m ∈ ms, Sent parses Z r m ∧ m.Named) → ∃ stream, frames ms = some stream ∧
      ∀ (s : Source UInt8) rest, s.flatten = stream ++ rest →
        ∃ s' : Source UInt8, r.receiveAll parses ms.length s = some (ms, s') ∧ s'.flatten = rest) ∧
    (∀ m, Sent parses Z r m ∧ m.Named →
      (∀ extra, extra ≠ [] → r.accept parses (m.kind, m.encode ++ extra) = none) ∧
      ∀ part more, m.encode = part ++ more → more ≠ [] → r.accept parses (m.kind, part) = none) ∧
    (∀ kind data frame, encode kind data = some frame →
      (∀ part more, frame = part ++ more → more ≠ [] → ∀ s : Source UInt8, s.flatten = part →
        r.receive parses s = none) ∧
      (r.limit < data.length → ∀ (s : Source UInt8) rest, s.flatten = frame ++ rest →
        r.receive parses s = none) ∧
      ∀ extra, extra ≠ [] → (framePayload kind data).length + extra.length < 2 ^ 32 →
        ∀ (s : Source UInt8) rest, s.flatten =
          header ((framePayload kind data).length + extra.length) ++
            (framePayload kind data ++ extra) ++ rest → r.receive parses s = none) ∧
    ∀ n < 2 ^ 32, n > r.limit + overhead → ∀ (s : Source UInt8) rest,
      s.flatten = header n ++ rest → r.receive parses s = none := by
  have hnone : ∀ {s : Source UInt8}, readLimited r.limit s = none → r.receive parses s = none := by
    intro s h
    simp only [Receiver.receive, h, Option.bind_eq_bind, Option.bind_none]
  have hmin : min r.limit maxFrame ≤ r.limit := Nat.min_le_left _ _
  refine ⟨?_, ?_, ?_, ?_⟩
  · intro ms h
    have hframes : ∃ stream, frames ms = some stream := by
      clear hnone
      induction ms with
      | nil => exact ⟨[], rfl⟩
      | cons m ms ih =>
        obtain ⟨hsent, hnamed⟩ := h m List.mem_cons_self
        obtain ⟨-, hle, -⟩ := sent_accepted hsent hnamed
        obtain ⟨frame, hframe⟩ := frame_some (Nat.le_trans hle (Nat.min_le_right _ _))
        obtain ⟨stream, hstream⟩ := ih fun x hx => h x (List.mem_cons_of_mem _ hx)
        refine ⟨frame ++ stream, ?_⟩
        simp only [frames, hframe, hstream, Option.bind_eq_bind, Option.bind_some]
    obtain ⟨stream, hstream⟩ := hframes
    exact ⟨stream, hstream, fun s rest hs => receiveAll_sent h hstream hs⟩
  · rintro m ⟨hsent, hnamed⟩
    obtain ⟨hfits, -, -⟩ := sent_accepted hsent hnamed
    obtain ⟨htrailing, hpart⟩ := hfits.exact
    exact ⟨fun extra he => accept_unread (htrailing extra he),
      fun part more heq hm => accept_unread (hpart part more heq hm)⟩
  · intro kind data frame hframe
    refine ⟨?_, ?_, ?_⟩
    · intro part more hpart hmore s hs
      exact hnone (readLimited_truncated hframe hpart hmore hs)
    · intro hlong s rest hs
      exact hnone (readLimited_long_data hframe (Nat.lt_of_le_of_lt hmin hlong) hs)
    · intro extra hextra hlength s rest hs
      exact hnone (readLimited_padded hextra hlength hs)
  · intro n hn hlong s rest hs
    have hover : n > min r.limit maxFrame + overhead := by omega
    exact hnone (readLimited_long hn hover hs)

/-- An offer and the outcome of a browser request, one after the other. -/
def pastedImage : List Message :=
  [.offer (clipboardOffer 7 (macFormats ["public.png", "public.tiff"])),
    .browserReply (Opened.failed.reply 1)]

theorem pastedImage_arrives : ∃ stream, frames pastedImage = some stream ∧
    ∃ s' : Source UInt8, Receiver.agent.receiveAll (fun _ => true) 2 [stream] =
      some (pastedImage, s') ∧ s'.flatten = [] := by
  have hsent : ∀ m ∈ pastedImage, Sent (fun _ => true) ⟨id, fun _ => none⟩ .agent m ∧ m.Named := by
    intro m hm
    rcases List.mem_cons.mp hm with rfl | hm
    · exact ⟨.macOffer 7 _, trivial⟩
    · rw [List.mem_singleton.mp hm]
      exact ⟨.opened 1 .failed, trivial⟩
  obtain ⟨stream, hstream, hread⟩ :=
    (wire_round_trip (fun _ => true) ⟨id, fun _ => none⟩ .agent).1 pastedImage hsent
  exact ⟨stream, hstream, hread [stream] [] (by simp)⟩

/-- A local reader started with an empty target sends a request that is refused. -/
theorem emptyTarget_refused : ∃ m frame, Sent (fun _ => true) ⟨id, fun _ => none⟩ .service m ∧
    m.frame = some frame ∧ Receiver.service.receive (fun _ => true) [frame] = none := by
  have hsmall : (Request.mk 0 0 "").encode.length ≤ 512 := by decide +kernel
  obtain ⟨frame, hframe⟩ :=
    @frame_some (.request ⟨0, 0, ""⟩) (Nat.le_trans hsmall (by decide))
  refine ⟨_, frame, .localRequest 0 "", hframe, ?_⟩
  obtain ⟨s', hread, -⟩ :=
    @readLimited_frame 512 _ _ frame [] hframe hsmall [frame] (by simp)
  have hrefused : Request.decode (Request.mk 0 0 "").encode = none :=
    Request.decode_invalid (by decide +kernel) (by decide +kernel)
  have hnone : Receiver.service.accept (fun _ => true)
      (67, (Request.mk 0 0 "").encode) = none := by
    rw [Receiver.accept, hrefused, Option.map_none]
  have hread : readLimited Receiver.service.limit [frame] =
      some ((67, (Request.mk 0 0 "").encode), s') := hread
  simp only [Receiver.receive, hread, hnone, Option.bind_eq_bind, Option.bind_some,
    Option.bind_none]

end Porthop.Agent
