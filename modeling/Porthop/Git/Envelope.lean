import Porthop.Git.Codec

/- Messages in MessagePack, and the frames they travel in.

   A message is an array: its tag, then its fields by position. The typed readers take what
   the derived ones of the source take: an integer in either form if it is in range, bytes
   for a text if they are UTF-8, a text or an array of bytes for bytes. An array with more
   or fewer items than the tag has fields is refused; the source sees that after it has
   read the fields, which makes no difference to the outcome. -/
namespace Porthop.Git.Wire
open MessagePack (Token Primitives)

def intToken (i : Int) : Token :=
  if 0 ≤ i then .uint (UInt64.ofNat i.toNat) else .sint (Int64.ofInt i)

section
variable (P : Primitives)

def writeText (s : String) : List UInt8 := P.write (.str s)

def writeU32 (n : UInt32) : List UInt8 := P.write (.uint (UInt64.ofNat n.toNat))

/-- The start of a message: how many items, and its tag. -/
def writeTag (items tag : Nat) : List UInt8 :=
  P.write (.arr (UInt32.ofNat items)) ++ P.write (.uint (UInt64.ofNat tag))

def writeU32s (ns : List UInt32) : List UInt8 :=
  P.write (.arr (UInt32.ofNat ns.length)) ++ (ns.map (writeU32 P)).flatten

def writeEntry (e : CommandLog) : List UInt8 :=
  P.write (.arr 5) ++ (writeText P e.command ++ (P.write (.uint e.durationMs) ++
    (P.write (match e.exitCode with
      | none => .nil
      | some i => intToken i.toInt) ++
      (writeText P e.output ++ P.write (.bool e.interrupted)))))

def writeError (e : Error) : List UInt8 :=
  P.write (.arr 3) ++ (writeText P e.code ++ (writeText P e.message ++ writeText P e.retry))

def writeMessage : Message → Option (List UInt8)
  | .hello protocol versions instanceId limits => do
    let limits ← writeBody P .normal 0 limits
    some (writeTag P 5 0 ++ (writeText P protocol ++ (writeU32s P versions ++
      (writeText P instanceId ++ limits))))
  | .initialization id version clientId clientVersion commandLogs =>
    some (writeTag P 6 1 ++ (writeText P id ++ (writeU32 P version ++ (writeText P clientId ++
      (writeText P clientVersion ++ P.write (.bool commandLogs))))))
  | .ready id version capabilities => do
    let capabilities ← writeBody P .normal 0 capabilities
    some (writeTag P 4 2 ++ (writeText P id ++ (writeU32 P version ++ capabilities)))
  | .request id method params => do
    let params ← writeBody P .normal 0 params
    some (writeTag P 4 3 ++ (writeText P id ++ (writeText P method ++ params)))
  | .response id (some v) none => do
    let v ← writeBody P .normal 0 v
    some (writeTag P 3 4 ++ (writeText P id ++ v))
  | .response id none (some e) => some (writeTag P 3 5 ++ (writeText P id ++ writeError P e))
  | .response _ _ _ => none
  | .commandLog id entry => some (writeTag P 3 6 ++ (writeText P id ++ writeEntry P entry))
  | .ping nonce => some (writeTag P 2 7 ++ writeText P nonce)
  | .pong nonce => some (writeTag P 2 8 ++ writeText P nonce)
  | .begin id streamId snapshot =>
    some (writeTag P 4 9 ++ (writeText P id ++ (writeText P streamId ++ writeText P snapshot)))
  | .chunk id streamId seq bytesB64 => do
    let bytes ← Base64.standard.decode bytesB64.toList
    some (writeTag P 5 10 ++ (writeText P id ++ (writeText P streamId ++ (writeU32 P seq ++
      P.write (.bin bytes)))))
  | .ack streamId seq => some (writeTag P 3 11 ++ (writeText P streamId ++ writeU32 P seq))

/-! ## The typed readers -/

/-- An integer from `low` up to `high`, signed or not. -/
def ofInteger (low high : Int) : Token → Parser UInt8 Int
  | .uint n => if (n.toNat : Int) < high then pure n.toNat else Parser.fail
  | .sint i => if low ≤ i.toInt ∧ i.toInt < high then pure i.toInt else Parser.fail
  | _ => Parser.fail

def readInteger (low high : Int) : Parser UInt8 Int := do ofInteger low high (← P.read)

def readU32 : Parser UInt8 UInt32 := do
  let n ← readInteger P 0 (2 ^ 32)
  pure (UInt32.ofNat n.toNat)

def readU64 : Parser UInt8 UInt64 := do
  let n ← readInteger P 0 (2 ^ 64)
  pure (UInt64.ofNat n.toNat)

def ofText : Token → Parser UInt8 String
  | .str s => pure s
  | .bin bs => Parser.ofOption (MessagePack.ofUtf8 bs)
  | _ => Parser.fail

def readText : Parser UInt8 String := do ofText (← P.read)

def ofBool : Token → Parser UInt8 Bool
  | .bool b => pure b
  | _ => Parser.fail

def readBool : Parser UInt8 Bool := do ofBool (← P.read)

def ofExitCode : Token → Parser UInt8 (Option Int32)
  | .nil => pure none
  | t => do
    let i ← ofInteger (-2 ^ 31) (2 ^ 31) t
    pure (some (Int32.ofInt i))

def readExitCode : Parser UInt8 (Option Int32) := do ofExitCode (← P.read)

def readU32s : Parser UInt8 (List UInt32) := do
  match ← P.read with
  | .arr n => Parser.items (fun _ => readU32 P) 0 n.toNat
  | _ => Parser.fail

def readByteBuf : Parser UInt8 (List UInt8) := do
  match ← P.read with
  | .bin bs => pure bs
  | .str s => pure (MessagePack.utf8 s)
  | .arr n => do
    let ns ← Parser.items (fun _ => readInteger P 0 256) 0 n.toNat
    pure (ns.map fun n => UInt8.ofNat n.toNat)
  | _ => Parser.fail

/-- A tuple: an array with as many items as it has fields. -/
def readTuple {α : Type} (items : Nat) (fields : Parser UInt8 α) : Parser UInt8 α := do
  match ← P.read with
  | .arr n => if n.toNat = items then fields else Parser.fail
  | _ => Parser.fail

def readError : Parser UInt8 Error := readTuple P 3 do
  let code ← readText P
  let message ← readText P
  let retry ← readText P
  pure ⟨code, message, retry⟩

def readEntry : Parser UInt8 CommandLog := readTuple P 5 do
  let command ← readText P
  let durationMs ← readU64 P
  let exitCode ← readExitCode P
  let output ← readText P
  let interrupted ← readBool P
  pure ⟨command, durationMs, exitCode, output, interrupted⟩

/-- A payload. -/
def readPayload : Parser UInt8 Value := readBody P (maxDepth + 1) .normal

/-- The fields of each tag, and how many items it has with the tag. -/
def readFields : Nat → Nat × Parser UInt8 Message
  | 0 => (5, do
    let protocol ← readText P
    let versions ← readU32s P
    let instanceId ← readText P
    let limits ← readPayload P
    pure (.hello protocol versions instanceId limits))
  | 1 => (6, do
    let id ← readText P
    let version ← readU32 P
    let clientId ← readText P
    let clientVersion ← readText P
    let commandLogs ← readBool P
    pure (.initialization id version clientId clientVersion commandLogs))
  | 2 => (4, do
    let id ← readText P
    let version ← readU32 P
    let capabilities ← readPayload P
    pure (.ready id version capabilities))
  | 3 => (4, do
    let id ← readText P
    let method ← readText P
    let params ← readPayload P
    pure (.request id method params))
  | 4 => (3, do
    let id ← readText P
    let v ← readPayload P
    pure (.success id v))
  | 5 => (3, do
    let id ← readText P
    let e ← readError P
    pure (.failure id e))
  | 6 => (3, do
    let id ← readText P
    let entry ← readEntry P
    pure (.commandLog id entry))
  | 7 => (2, do
    let nonce ← readText P
    pure (.ping nonce))
  | 8 => (2, do
    let nonce ← readText P
    pure (.pong nonce))
  | 9 => (4, do
    let id ← readText P
    let streamId ← readText P
    let snapshot ← readText P
    pure (.begin id streamId snapshot))
  | 10 => (5, do
    let id ← readText P
    let streamId ← readText P
    let seq ← readU32 P
    let bytes ← readByteBuf P
    pure (.chunk id streamId seq (String.ofList (Base64.standard.encode bytes))))
  | 11 => (3, do
    let streamId ← readText P
    let seq ← readU32 P
    pure (.ack streamId seq))
  | _ => (0, Parser.fail)

def readMessage : Parser UInt8 Message := do
  match ← P.read with
  | .arr n => do
    let tag ← readInteger P 0 256
    let fields := readFields P tag.toNat
    if n.toNat = fields.1 then fields.2 else Parser.fail
  | _ => Parser.fail

def encode (m : Message) : Option (List UInt8) := do
  let bs ← writeMessage P m
  if bs.length > maxDiff then none else some bs

def decode (bs : List UInt8) : Option Message :=
  if bs.length > maxDiff then none else (readMessage P).whole bs

/-! ## Frames -/

/-- The letter that starts a frame. -/
def marker : UInt8 := 77

def encodeFrame (m : Message) : Option (List UInt8) := do
  let bs ← encode P m
  if bs.length > maxFrame then none
  else some (marker :: MessagePack.be 4 bs.length ++ bs)

def payloadLength : Parser UInt8 Nat := do
  let letter ← Parser.item
  let length ← MessagePack.readBe 4
  if letter ≠ marker ∨ length = 0 ∨ length > maxFrame then Parser.fail else pure length

def decodeFrame (bs : List UInt8) : Option Message :=
  if bs.length > maxFrame then none else decode P bs

/-- One frame off a stream. -/
def readFrame : Parser UInt8 Message := do
  let length ← payloadLength
  let bs ← MessagePack.readBytes length
  Parser.ofOption (decodeFrame P bs)

end

/-! ## What is written is read -/

/-- The payload of a message names each of its fields once. -/
def Message.Distinct : Message → Prop
  | .hello _ _ _ v | .ready _ _ v | .request _ _ v | .response _ (some v) _ => Json.Distinct v
  | _ => True

section
variable {P : Primitives}

theorem reads_text {s : String} (h : (writeText P s).length < 2 ^ 32) :
    (readText P).Reads (writeText P s) s := by
  have hsize : s.utf8ByteSize + 1 ≤ (writeText P s).length := P.size_le (.str s)
  have hproper : (Token.str s).Proper := by
    show s.utf8ByteSize < 2 ^ 32
    omega
  exact (P.reads _ hproper).map rfl

theorem reads_integer {n : Nat} {low high : Int} (hn : n < 2 ^ 64) (h : (n : Int) < high) :
    (readInteger P low high).Reads (P.write (.uint (UInt64.ofNat n))) n := by
  refine (P.reads (.uint (UInt64.ofNat n)) trivial).map ?_
  have hback : (UInt64.ofNat n).toNat = n := by
    rw [UInt64.toNat_ofNat']
    exact Nat.mod_eq_of_lt hn
  show Parser.Reads (if ((UInt64.ofNat n).toNat : Int) < high then pure _ else Parser.fail) [] _
  rw [hback, if_pos h]
  rfl

theorem reads_u32 (n : UInt32) : (readU32 P).Reads (writeU32 P n) n := by
  have hn := n.toNat_lt
  refine (reads_integer (by omega) (by omega)).map ?_
  show some (UInt32.ofNat ((n.toNat : Nat) : Int).toNat, ([] : List UInt8)) = _
  rw [Int.toNat_natCast, UInt32.ofNat_toNat]

theorem reads_u64 (n : UInt64) : (readU64 P).Reads (P.write (.uint n)) n := by
  have hn := n.toNat_lt
  have hint := @reads_integer P n.toNat 0 (2 ^ 64) (by omega) (by omega)
  rw [UInt64.ofNat_toNat] at hint
  refine hint.map ?_
  show some (UInt64.ofNat ((n.toNat : Nat) : Int).toNat, ([] : List UInt8)) = _
  rw [Int.toNat_natCast, UInt64.ofNat_toNat]

theorem reads_bool (b : Bool) : (readBool P).Reads (P.write (.bool b)) b :=
  (P.reads (.bool b) trivial).map rfl

theorem ofInteger_intToken {low high i : Int} (hlow : low ≤ i) (hhigh : i < high)
    (hmin : -2 ^ 63 ≤ i) (hmax : i < 2 ^ 63) : ofInteger low high (intToken i) = pure i := by
  unfold intToken
  split
  · have hback : ((UInt64.ofNat i.toNat).toNat : Int) = i := by
      rw [UInt64.toNat_ofNat', Nat.mod_eq_of_lt (by omega)]
      omega
    show (if ((UInt64.ofNat i.toNat).toNat : Int) < high then pure _ else Parser.fail) = _
    rw [hback, if_pos hhigh]
  · have hback : (Int64.ofInt i).toInt = i := Int64.toInt_ofInt_of_le hmin hmax
    show (if low ≤ (Int64.ofInt i).toInt ∧ (Int64.ofInt i).toInt < high then pure _
      else Parser.fail) = _
    rw [hback, if_pos ⟨hlow, hhigh⟩]

theorem intToken_proper {i : Int} (hmin : -2 ^ 63 ≤ i) (hmax : i < 2 ^ 63) :
    (intToken i).Proper := by
  unfold intToken
  split
  · trivial
  · show (Int64.ofInt i).toInt < 0
    rw [Int64.toInt_ofInt_of_le hmin hmax]
    omega

theorem ofExitCode_intToken (i : Int32) : ofExitCode (intToken i.toInt) = pure (some i) := by
  have hlow := i.le_toInt
  have hhigh := i.toInt_lt
  have hint := ofInteger_intToken hlow hhigh (by omega) (by omega)
  have hsome : ofExitCode (intToken i.toInt) = ofInteger (-2 ^ 31) (2 ^ 31) (intToken i.toInt) >>=
      fun i => pure (some (Int32.ofInt i)) := by
    unfold intToken
    split <;> rfl
  rw [hsome, hint]
  show pure (some (Int32.ofInt i.toInt)) = _
  rw [Int32.ofInt_toInt]

theorem reads_exitCode (code : Option Int32) :
    (readExitCode P).Reads (P.write (match code with
      | none => .nil
      | some i => intToken i.toInt)) code := by
  cases code with
  | none => exact (P.reads .nil trivial).map rfl
  | some i =>
    have hlow := i.le_toInt
    have hhigh := i.toInt_lt
    refine (P.reads _ (intToken_proper (by omega) (by omega))).map ?_
    rw [ofExitCode_intToken]
    rfl

theorem reads_u32s {ns : List UInt32} (h : (writeU32s P ns).length < 2 ^ 32) :
    (readU32s P).Reads (writeU32s P ns) ns := by
  have hitems : ∀ (ns : List UInt32) i,
      (Parser.items (fun _ => readU32 P) i ns.length).Reads ((ns.map (writeU32 P)).flatten) ns := by
    intro ns
    induction ns with
    | nil => intro i; rfl
    | cons n ns ih => intro i; exact (reads_u32 n).bind ((ih (i + 1)).map rfl)
  have hcount : ns.length ≤ ((ns.map (writeU32 P)).flatten).length := by
    clear h hitems
    induction ns with
    | nil => exact Nat.zero_le _
    | cons n ns ih =>
      have := @write_pos P (.uint (UInt64.ofNat n.toNat))
      simp only [List.map_cons, List.flatten_cons, List.length_append, List.length_cons, writeU32]
        at ih ⊢
      omega
  unfold writeU32s at h ⊢
  rw [List.length_append] at h
  refine (P.reads (.arr (UInt32.ofNat ns.length)) trivial).bind ?_
  show (Parser.items (fun _ => readU32 P) 0 (UInt32.ofNat ns.length).toNat).Reads _ _
  rw [header_toNat (by omega)]
  exact hitems ns 0

theorem reads_tuple {α : Type} {items : Nat} {fields : Parser UInt8 α} {bs : List UInt8} {a : α}
    (hitems : items < 2 ^ 32) (h : fields.Reads bs a) :
    (readTuple P items fields).Reads (P.write (.arr (UInt32.ofNat items)) ++ bs) a := by
  refine (P.reads (.arr (UInt32.ofNat items)) trivial).bind ?_
  show Parser.Reads (if (UInt32.ofNat items).toNat = items then fields else Parser.fail) _ _
  rw [if_pos (header_toNat hitems)]
  exact h

theorem reads_error {e : Error} (h : (writeError P e).length < 2 ^ 32) :
    (readError P).Reads (writeError P e) e := by
  unfold writeError at h ⊢
  simp only [List.length_append] at h
  have hcode := @reads_text P e.code (by omega)
  have hmessage := @reads_text P e.message (by omega)
  have hretry := @reads_text P e.retry (by omega)
  exact reads_tuple (by decide) (hcode.bind (hmessage.bind (hretry.map rfl)))

theorem reads_entry {e : CommandLog} (h : (writeEntry P e).length < 2 ^ 32) :
    (readEntry P).Reads (writeEntry P e) e := by
  unfold writeEntry at h ⊢
  simp only [List.length_append] at h
  have hcommand := @reads_text P e.command (by omega)
  have houtput := @reads_text P e.output (by omega)
  exact reads_tuple (by decide) (hcommand.bind ((reads_u64 e.durationMs).bind
    ((reads_exitCode e.exitCode).bind (houtput.bind ((reads_bool e.interrupted).map rfl)))))

/-- A byte string is read as it was written. -/
theorem reads_byteBuf {bs : List UInt8} (h : (P.write (.bin bs)).length < 2 ^ 32) :
    (readByteBuf P).Reads (P.write (.bin bs)) bs := by
  have hsize : bs.length + 1 ≤ (P.write (.bin bs)).length := P.size_le (.bin bs)
  have hproper : (Token.bin bs).Proper := by
    show bs.length < 2 ^ 32
    omega
  exact (P.reads _ hproper).map rfl

/-- A message's tag and what follows. -/
theorem reads_tagged {items tag : Nat} {fields : Parser UInt8 Message} {bs : List UInt8}
    {m : Message} (htag : tag < 256) (hitems : items < 2 ^ 32)
    (hfields : readFields P tag = (items, fields)) (h : fields.Reads bs m) :
    (readMessage P).Reads (writeTag P items tag ++ bs) m := by
  rw [writeTag, List.append_assoc]
  refine (P.reads (.arr (UInt32.ofNat items)) trivial).bind
    ((reads_integer (by omega) (by omega)).bind ?_)
  show Parser.Reads (if (UInt32.ofNat items).toNat = (readFields P ((tag : Nat) : Int).toNat).1
    then _ else Parser.fail) _ _
  rw [Int.toNat_natCast, hfields, if_pos (header_toNat hitems)]
  exact h

theorem reads_payload {v : Value} {bs : List UInt8} (h : writeBody P .normal 0 v = some bs)
    (hd : v.Distinct) (hlen : bs.length < 2 ^ 32) : (readPayload P).Reads bs v :=
  reads_body v h hd hlen rfl

/-- **What is written is read.** -/
theorem reads_message {m : Message} {bs : List UInt8} (h : writeMessage P m = some bs)
    (hd : m.Distinct) (hlen : bs.length < 2 ^ 32) : (readMessage P).Reads bs m := by
  cases m with
  | hello protocol versions instanceId limits =>
    obtain ⟨body, hbody, h'⟩ := Option.bind_eq_some_iff.mp h
    obtain rfl := Option.some.inj h'
    simp only [List.length_append] at hlen
    exact reads_tagged (by decide) (by decide) rfl ((reads_text (by omega)).bind
      ((reads_u32s (by omega)).bind ((reads_text (by omega)).bind
        ((reads_payload hbody hd (by omega)).map rfl))))
  | initialization id version clientId clientVersion commandLogs =>
    obtain rfl := Option.some.inj h
    simp only [List.length_append] at hlen
    exact reads_tagged (by decide) (by decide) rfl ((reads_text (by omega)).bind
      ((reads_u32 version).bind ((reads_text (by omega)).bind ((reads_text (by omega)).bind
        ((reads_bool commandLogs).map rfl)))))
  | ready id version capabilities =>
    obtain ⟨body, hbody, h'⟩ := Option.bind_eq_some_iff.mp h
    obtain rfl := Option.some.inj h'
    simp only [List.length_append] at hlen
    exact reads_tagged (by decide) (by decide) rfl ((reads_text (by omega)).bind
      ((reads_u32 version).bind ((reads_payload hbody hd (by omega)).map rfl)))
  | request id method params =>
    obtain ⟨body, hbody, h'⟩ := Option.bind_eq_some_iff.mp h
    obtain rfl := Option.some.inj h'
    simp only [List.length_append] at hlen
    exact reads_tagged (by decide) (by decide) rfl ((reads_text (by omega)).bind
      ((reads_text (by omega)).bind ((reads_payload hbody hd (by omega)).map rfl)))
  | response id result error =>
    cases result with
    | some v =>
      cases error with
      | some e => cases h
      | none =>
        obtain ⟨body, hbody, h'⟩ := Option.bind_eq_some_iff.mp h
        obtain rfl := Option.some.inj h'
        simp only [List.length_append] at hlen
        exact reads_tagged (by decide) (by decide) rfl ((reads_text (by omega)).bind
          ((reads_payload hbody hd (by omega)).map rfl))
    | none =>
      cases error with
      | none => cases h
      | some e =>
        obtain rfl := Option.some.inj h
        simp only [List.length_append] at hlen
        exact reads_tagged (by decide) (by decide) rfl ((reads_text (by omega)).bind
          ((reads_error (by omega)).map rfl))
  | commandLog id entry =>
    obtain rfl := Option.some.inj h
    simp only [List.length_append] at hlen
    exact reads_tagged (by decide) (by decide) rfl ((reads_text (by omega)).bind
      ((reads_entry (by omega)).map rfl))
  | ping nonce =>
    obtain rfl := Option.some.inj h
    simp only [List.length_append] at hlen
    exact reads_tagged (by decide) (by decide) rfl ((reads_text (by omega)).map rfl)
  | pong nonce =>
    obtain rfl := Option.some.inj h
    simp only [List.length_append] at hlen
    exact reads_tagged (by decide) (by decide) rfl ((reads_text (by omega)).map rfl)
  | begin id streamId snapshot =>
    obtain rfl := Option.some.inj h
    simp only [List.length_append] at hlen
    exact reads_tagged (by decide) (by decide) rfl ((reads_text (by omega)).bind
      ((reads_text (by omega)).bind ((reads_text (by omega)).map rfl)))
  | chunk id streamId seq bytesB64 =>
    obtain ⟨bytes, hbytes, h'⟩ := Option.bind_eq_some_iff.mp h
    obtain rfl := Option.some.inj h'
    simp only [List.length_append] at hlen
    refine reads_tagged (by decide) (by decide) rfl ((reads_text (by omega)).bind
      ((reads_text (by omega)).bind ((reads_u32 seq).bind ((reads_byteBuf (by omega)).map ?_))))
    rw [Base64.Engine.encode_decode hbytes, String.ofList_toList]
    rfl
  | ack streamId seq =>
    obtain rfl := Option.some.inj h
    simp only [List.length_append] at hlen
    exact reads_tagged (by decide) (by decide) rfl ((reads_text (by omega)).bind
      ((reads_u32 seq).map rfl))

end

end Porthop.Git.Wire
