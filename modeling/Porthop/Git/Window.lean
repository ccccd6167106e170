import Porthop.Git.Stream

/- One request for a diff, message by message.

   Everything the agent writes for the request is numbered: the logs, the `begin`, the
   chunks. `sender` and `receiver` are the two parties' states when the one has written up
   to `p` and the other has read up to `q`; the lemmas say that each turn moves its party
   from one number to the next. Nothing is said here of how the turns interleave. -/
namespace Porthop.Git.Wire
open MessagePack (Primitives)

/-- The messages numbered from `i` up to `j`. -/
def span (f : Nat → Message) (i j : Nat) : List Message := (List.range' i (j - i)).map f

section
variable {f : Nat → Message} {i j : Nat}

theorem span_self : span f i i = [] := by rw [span, Nat.sub_self]; rfl

theorem span_cons (h : i < j) : span f i j = f i :: span f (i + 1) j := by
  have hlen : j - i = (j - (i + 1)) + 1 := by omega
  rw [span, hlen, List.range'_succ]
  rfl

theorem span_concat (h : i ≤ j) : span f i (j + 1) = span f i j ++ [f j] := by
  have hlen : j + 1 - i = (j - i) + 1 := by omega
  have hlast : i + (j - i) = j := by omega
  rw [span, hlen, List.range'_1_concat, List.map_append, hlast]
  rfl

theorem length_span : (span f i j).length = j - i := by
  rw [span, List.length_map, List.length_range']

end

/-! ## Chunks -/

/-- How many chunks the payload makes. -/
def chunks (bytes : List UInt8) : Nat := (bytes.length + chunkSize - 1) / chunkSize

theorem chunkSize_eq : chunkSize = 65536 := rfl

theorem maxDiff_eq : maxDiff = 20971520 := rfl

theorem lt_chunks {bytes : List UInt8} {i : Nat} :
    i * chunkSize < bytes.length ↔ i < chunks bytes := by
  unfold chunks
  rw [chunkSize_eq]
  omega

/-- All the chunks there are hold the payload. -/
theorem length_le_chunks (bytes : List UInt8) : bytes.length ≤ chunks bytes * chunkSize := by
  unfold chunks
  rw [chunkSize_eq]
  omega

theorem chunks_le {bytes : List UInt8} (h : bytes.length ≤ maxDiff) : chunks bytes ≤ 320 := by
  unfold chunks
  rw [chunkSize_eq]
  rw [maxDiff_eq] at h
  omega

theorem length_chunk_le (bytes : List UInt8) (i : Nat) : (chunk bytes i).length ≤ chunkSize :=
  List.length_take_le _ _

theorem chunk_ne_nil {bytes : List UInt8} {i : Nat} (h : i < chunks bytes) :
    chunk bytes i ≠ [] := by
  have hlen : (chunk bytes i).length = min chunkSize (bytes.length - i * chunkSize) := by
    rw [chunk, List.length_take, List.length_drop]
  have hpos := lt_chunks.mpr h
  have hsize := chunkSize_eq
  intro hnil
  rw [hnil, List.length_nil] at hlen
  omega

/-- A chunk continues what came before it. -/
theorem take_chunk (bytes : List UInt8) (i : Nat) :
    bytes.take (i * chunkSize) ++ chunk bytes i = bytes.take ((i + 1) * chunkSize) := by
  rw [chunk, Nat.succ_mul, List.take_add]

theorem decode_base64 (bs : List UInt8) :
    Base64.standard.decode (base64 bs).toList = some bs := by
  rw [base64, String.toList_ofList]
  exact Base64.standard.decode_encode bs

/-- The `i`-th chunk message of a stream, from 0. -/
def streamChunk (id stream : String) (i : Nat) (bytes : List UInt8) : Message :=
  .chunk id stream (UInt32.ofNat (i + 1)) (base64 bytes)

def streamAck (stream : String) (i : Nat) : Message := .ack stream (UInt32.ofNat (i + 1))

/-- The bytes of the chunks among some messages. -/
def assembled (ms : List Message) : List UInt8 :=
  ms.flatMap fun m =>
    match m with
    | .chunk _ _ _ bytesB64 => (Base64.standard.decode bytesB64.toList).getD []
    | _ => []

theorem assembled_append (ms ns : List Message) :
    assembled (ms ++ ns) = assembled ms ++ assembled ns := List.flatMap_append

/-! ## The agent's next move -/

namespace Sender
variable {s : Sender}

theorem move_preface {m : Message} {rest : List Message} (h : s.preface = m :: rest) :
    s.move = .write m { s with preface := rest } := by
  rw [move, h]

theorem move_chunk {bytes : List UInt8} (h : s.preface = []) (hnext : s.nextChunk = some bytes) :
    s.move = .write (.chunk s.id s.streamId (UInt32.ofNat (s.sent + 1)) (base64 bytes))
      { s with sent := s.sent + 1 } := by
  rw [move, h, hnext]

theorem move_finish (h : s.preface = []) (hnext : s.nextChunk = none)
    (hall : s.acknowledged = s.sent) :
    s.move = .finish (.success s.id
      (.obj [("bytes", ofNat s.bytes.length), ("lastSeq", ofNat s.sent)])) := by
  rw [move, h, hnext]
  exact if_pos hall

theorem move_wait (h : s.preface = []) (hnext : s.nextChunk = none)
    (hall : s.acknowledged ≠ s.sent) : s.move = .wait := by
  rw [move, h, hnext]
  exact if_neg hall

end Sender

namespace Agent
variable {P : Primitives} {svc : Service P} {fresh : Uuid} {s s' : Sender} {m : Message}
  {inbox out : List Message}

theorem act_write (h : s.move = .write m s') :
    (streaming s).act svc fresh inbox = some ⟨streaming s', [], [m]⟩ := by
  rw [act.eq_def]
  simp only [h]

theorem act_finish (h : s.move = .finish m) :
    (streaming s).act svc fresh inbox = some ⟨serving, [], [m]⟩ := by
  rw [act.eq_def]
  simp only [h]

theorem act_wait (h : s.move = .wait) : (streaming s).act svc fresh [] = none := by
  rw [act.eq_def]
  simp only [h]

theorem act_receive (h : s.move = .wait) (hm : s.receive m = some (s', out)) :
    (streaming s).act svc fresh (m :: inbox) = some ⟨streaming s', [m], out⟩ := by
  rw [act.eq_def]
  simp only [h, hm]

theorem act_refuse (h : s.move = .wait) (hm : s.receive m = none) :
    (streaming s).act svc fresh (m :: inbox) = some ⟨failed, [m], []⟩ := by
  rw [act.eq_def]
  simp only [h, hm]

end Agent

/-! ## What the client accepts -/

namespace Receiver
variable {P : Primitives} {r : Receiver}

theorem receive_log {entry : CommandLog} (hcount : r.logCount < 32)
    (hcommand : entry.command.utf8ByteSize ≤ 256) (houtput : entry.output.utf8ByteSize ≤ 32768) :
    r.receive P (.commandLog r.id entry) =
      (.reading { r with logCount := r.logCount + 1 }, []) := by
  rw [receive, if_pos rfl, if_neg (by omega)]

theorem receive_begin {streamId snapshot : String} (hnone : r.streamId = none)
    (hsnapshot : r.expected = some snapshot) :
    r.receive P (.begin r.id streamId snapshot) =
      (.reading { r with streamId := some streamId }, []) := by
  rw [receive, if_pos ⟨rfl, hnone, hsnapshot⟩]

theorem receive_chunk {streamId bytesB64 : String} {seq : UInt32} {bytes : List UInt8}
    (hstream : r.streamId = some streamId) (hseq : seq.toNat = r.lastSeq + 1)
    (hbytes : Base64.standard.decode bytesB64.toList = some bytes) (hnil : bytes ≠ [])
    (hsize : bytes.length ≤ chunkSize) (hfits : r.data.length + bytes.length ≤ maxDiff) :
    r.receive P (.chunk r.id streamId seq bytesB64) =
      (.reading { r with data := r.data ++ bytes, lastSeq := seq.toNat },
        [.ack streamId seq]) := by
  have hok : ¬ (bytes = [] ∨ bytes.length > chunkSize ∨ r.data.length + bytes.length > maxDiff) := by
    rintro (h | h | h)
    · exact hnil h
    · exact absurd hsize (Nat.not_le.mpr h)
    · exact absurd hfits (Nat.not_le.mpr h)
  rw [receive, if_pos ⟨rfl, hstream, hseq⟩, hbytes]
  exact if_neg hok

theorem respond_stream {v diff : Value} (hstream : r.streamId.isSome)
    (hseq : asU64 (member "lastSeq" v) = some (UInt64.ofNat r.lastSeq))
    (hbytes : asU64 (member "bytes" v) = some (UInt64.ofNat r.data.length))
    (hdiff : decodeValue P r.data = some diff) :
    r.respond P v =
      .idle (some (.ok (.obj [("diff", diff), ("snapshot", (r.expected.map .str).getD .null)]))) := by
  rw [respond, if_pos hstream, if_neg (by rw [hseq, hbytes]; exact fun h => h.elim (· rfl) (· rfl)),
    hdiff]

end Receiver

/-! ## The messages of a request -/

/-- A request for a diff that the service answers with one. -/
structure Job {P : Primitives} (svc : Service P) where
  id : Uuid
  method : String
  params : Value
  snapshot : String
  payload : Payload P
  answers : svc.output method params = .diff snapshot payload

namespace Job
variable {P : Primitives} {svc : Service P} (j : Job svc)

def key : String := uuidText j.id

def logs : List CommandLog := svc.logs j.method j.params

def preface (stream : String) : List Message :=
  j.logs.map (.commandLog j.key) ++ [.begin j.key stream j.snapshot]

/-- How many messages come before the chunks. -/
def head : Nat := j.logs.length + 1

/-- How many messages come before the response. -/
def total : Nat := j.head + chunks j.payload.bytes

def chunkMessage (stream : String) (i : Nat) : Message :=
  streamChunk j.key stream i (chunk j.payload.bytes i)

def message (stream : String) (i : Nat) : Message :=
  ((j.preface stream)[i]?).getD (j.chunkMessage stream (i - j.head))

def response : Message :=
  .success j.key (.obj [("bytes", ofNat j.payload.bytes.length),
    ("lastSeq", ofNat (chunks j.payload.bytes))])

/-- What the client hands on in the end. -/
def result : Value := .obj [("diff", j.payload.diff), ("snapshot", .str j.snapshot)]

/-- The agent, when it has written `p` messages and `a` chunks have been acknowledged. -/
def sender (stream : String) (p a : Nat) : Sender :=
  ⟨j.key, stream, j.payload.bytes, (j.preface stream).drop p, p - j.head, a⟩

/-- The client, when it has read `q` messages. -/
def receiver (stream : String) (q : Nat) : Receiver :=
  ⟨j.key, some j.snapshot, if q < j.head then none else some stream,
    j.payload.bytes.take ((q - j.head) * chunkSize), q - j.head, min q j.logs.length⟩

theorem length_preface (stream : String) : (j.preface stream).length = j.head := by
  rw [preface, List.length_append, List.length_map, head, List.length_singleton]

theorem length_bytes : j.payload.bytes.length ≤ maxDiff := (encodeValue_ok j.payload.encoded).2

theorem chunks_le : chunks j.payload.bytes ≤ 320 := Wire.chunks_le j.length_bytes

/-- An encoded value has at least a byte. -/
theorem chunks_pos : 1 ≤ chunks j.payload.bytes := by
  have hpos := writeBody_pos (encodeValue_ok j.payload.encoded).1
  have hlt : 0 * chunkSize < j.payload.bytes.length := by rw [Nat.zero_mul]; exact hpos
  exact lt_chunks.mp hlt

theorem message_log {stream : String} {i : Nat} (h : i < j.logs.length) :
    j.message stream i = .commandLog j.key j.logs[i] := by
  have hget : (j.preface stream)[i]? = some (.commandLog j.key j.logs[i]) := by
    rw [preface, List.getElem?_append_left (by rwa [List.length_map]), List.getElem?_map,
      List.getElem?_eq_getElem h]
    rfl
  rw [message, hget]
  rfl

theorem message_begin {stream : String} :
    j.message stream j.logs.length = .begin j.key stream j.snapshot := by
  have hget : (j.preface stream)[j.logs.length]? = some (.begin j.key stream j.snapshot) := by
    rw [preface, List.getElem?_append_right (by rw [List.length_map]), List.length_map,
      Nat.sub_self]
    rfl
  rw [message, hget]
  rfl

theorem message_chunk {stream : String} {i : Nat} (h : j.head ≤ i) :
    j.message stream i = j.chunkMessage stream (i - j.head) := by
  have hget : (j.preface stream)[i]? = none :=
    List.getElem?_eq_none (by rw [j.length_preface]; exact h)
  rw [message, hget]
  rfl

/-! ## The agent's turns -/

theorem seq_toNat {i : Nat} (h : i < chunks j.payload.bytes) :
    (UInt32.ofNat (i + 1)).toNat = i + 1 := by
  have hle := j.chunks_le
  exact header_toNat (by omega)

theorem preface_drop {stream : String} {p : Nat} (h : j.head ≤ p) :
    (j.preface stream).drop p = [] :=
  List.drop_eq_nil_of_le (by rw [j.length_preface]; exact h)

theorem nextChunk_some {stream : String} {p a : Nat} (hp : p - j.head < chunks j.payload.bytes)
    (hwindow : p - j.head - a < streamWindow) :
    (j.sender stream p a).nextChunk = some (chunk j.payload.bytes (p - j.head)) :=
  if_pos ⟨hwindow, lt_chunks.mpr hp⟩

theorem nextChunk_none {stream : String} {p a : Nat}
    (h : chunks j.payload.bytes ≤ p - j.head ∨ streamWindow ≤ p - j.head - a) :
    (j.sender stream p a).nextChunk = none := by
  refine if_neg fun hnext => ?_
  have hroom : p - j.head - a < streamWindow := hnext.1
  have hlt : p - j.head < chunks j.payload.bytes := lt_chunks.mp hnext.2
  omega

/-- The agent writes on before the chunks and while the window has room. -/
theorem move_write {stream : String} {p a : Nat} (hp : p < j.total)
    (hwindow : p < j.head ∨ p - j.head < a + streamWindow) (ha : a ≤ p - j.head) :
    (j.sender stream p a).move =
      .write (j.message stream p) (j.sender stream (p + 1) a) := by
  by_cases hhead : p < j.head
  · have hlen : p < (j.preface stream).length := by rw [j.length_preface]; exact hhead
    have hdrop : (j.sender stream p a).preface =
        (j.preface stream)[p] :: (j.preface stream).drop (p + 1) := List.drop_eq_getElem_cons hlen
    have hsent : p - j.head = p + 1 - j.head := by omega
    have hmessage : j.message stream p = (j.preface stream)[p] := by
      rw [message, List.getElem?_eq_getElem hlen]
      rfl
    rw [Sender.move_preface hdrop, hmessage, sender, sender, hsent]
  · have hnext := @nextChunk_some P svc j stream p a (by unfold total at hp; omega) (by omega)
    have hsent : p - j.head + 1 = p + 1 - j.head := by omega
    rw [Sender.move_chunk (j.preface_drop (by omega)) hnext, j.message_chunk (by omega), sender,
      sender, j.preface_drop (by omega), j.preface_drop (by omega), hsent, chunkMessage, ← hsent]
    rfl

/-- With nothing to write and everything acknowledged, the agent answers the request. -/
theorem move_finish (stream : String) :
    (j.sender stream j.total (chunks j.payload.bytes)).move = .finish j.response := by
  have hhead : j.head ≤ j.total := Nat.le_add_right _ _
  have hsent : (j.sender stream j.total (chunks j.payload.bytes)).sent =
      chunks j.payload.bytes := Nat.add_sub_cancel_left _ _
  have hnext := @nextChunk_none P svc j stream j.total (chunks j.payload.bytes)
    (Or.inl (Nat.le_of_eq hsent.symm))
  rw [Sender.move_finish (j.preface_drop hhead) hnext hsent.symm, hsent]
  rfl

/-- With nothing to write and chunks on their way, the agent waits. -/
theorem move_wait {stream : String} {p a : Nat} (hhead : j.head ≤ p)
    (hfull : j.total ≤ p ∨ a + streamWindow ≤ p - j.head) (ha : a < p - j.head) :
    (j.sender stream p a).move = .wait := by
  have hnext := @nextChunk_none P svc j stream p a (by unfold total at hfull; omega)
  exact Sender.move_wait (j.preface_drop hhead) hnext (Nat.ne_of_lt ha)

theorem receive_ack {stream : String} {p a : Nat} (ha : a < chunks j.payload.bytes) :
    (j.sender stream p a).receive (streamAck stream a) =
      some (j.sender stream p (a + 1), []) := by
  have hseq := j.seq_toNat ha
  show (if stream = stream ∧ (UInt32.ofNat (a + 1)).toNat = a + 1 then _ else _) = _
  rw [if_pos ⟨rfl, hseq⟩, hseq]
  rfl

/-! ## The client's turns -/

theorem receiver_zero (stream stream' : String) : j.receiver stream 0 = j.receiver stream' 0 := by
  have hhead : 0 < j.head := Nat.succ_pos _
  rw [receiver, receiver, if_pos hhead, if_pos hhead]

/-- The position of the client in the fields of its state. -/
theorem receiver_eq {stream : String} {q : Nat} {r : Receiver} (hid : r.id = j.key)
    (hexpected : r.expected = some j.snapshot)
    (hstream : r.streamId = if q < j.head then none else some stream)
    (hdata : r.data = j.payload.bytes.take ((q - j.head) * chunkSize))
    (hseq : r.lastSeq = q - j.head) (hcount : r.logCount = min q j.logs.length) :
    r = j.receiver stream q := by
  cases r
  simp only at hid hexpected hstream hdata hseq hcount
  rw [hid, hexpected, hstream, hdata, hseq, hcount, receiver]

theorem receive_log {stream : String} {q : Nat} (h : q < j.logs.length) :
    (j.receiver stream q).receive P (j.message stream q) =
      (.reading (j.receiver stream (q + 1)), []) := by
  have hlogs : j.logs.length ≤ 32 := svc.logs_length j.method j.params
  obtain ⟨hcommand, houtput⟩ := svc.logs_size j.method j.params j.logs[q] (List.getElem_mem h)
  have hcount : (j.receiver stream q).logCount < 32 := by
    show min q j.logs.length < 32
    omega
  have hq : q < j.head := by unfold head; omega
  have hq' : q + 1 < j.head := by unfold head; omega
  have hseq : q - j.head = q + 1 - j.head := by omega
  rw [j.message_log h]
  refine (Receiver.receive_log hcount hcommand houtput).trans ?_
  congr 2
  refine j.receiver_eq rfl rfl ?_ ?_ hseq ?_
  · rw [if_pos hq']
    exact if_pos hq
  · rw [← hseq]
    rfl
  · show min q j.logs.length + 1 = _
    omega

theorem receive_begin {stream : String} :
    (j.receiver stream j.logs.length).receive P (j.message stream j.logs.length) =
      (.reading (j.receiver stream j.head), []) := by
  have hhead : j.logs.length < j.head := Nat.lt_succ_self _
  have hseq : j.logs.length - j.head = j.head - j.head := by omega
  rw [j.message_begin]
  refine (Receiver.receive_begin (if_pos hhead) rfl).trans ?_
  congr 2
  refine j.receiver_eq rfl rfl (if_neg (Nat.lt_irrefl _)).symm ?_ hseq ?_
  · rw [← hseq]
    rfl
  · show min j.logs.length j.logs.length = _
    omega

theorem receive_chunk {stream : String} {q : Nat} (hhead : j.head ≤ q) (hq : q < j.total) :
    (j.receiver stream q).receive P (j.message stream q) =
      (.reading (j.receiver stream (q + 1)), [streamAck stream (q - j.head)]) := by
  have hlt : q - j.head < chunks j.payload.bytes := by unfold total at hq; omega
  have hlen := j.length_bytes
  have hsent : q + 1 - j.head = q - j.head + 1 := by omega
  have hdata := take_chunk j.payload.bytes (q - j.head)
  have hfits : (j.receiver stream q).data.length +
      (chunk j.payload.bytes (q - j.head)).length ≤ maxDiff := by
    have happend : (j.receiver stream q).data ++ chunk j.payload.bytes (q - j.head) =
        j.payload.bytes.take ((q - j.head + 1) * chunkSize) := hdata
    rw [← List.length_append, happend]
    exact (List.length_take_le' _ _).trans hlen
  rw [j.message_chunk hhead]
  refine (Receiver.receive_chunk (if_neg (Nat.not_lt.mpr hhead)) (j.seq_toNat hlt)
    (decode_base64 _) (chunk_ne_nil hlt) (length_chunk_le _ _) hfits).trans ?_
  congr 2
  refine j.receiver_eq rfl rfl ?_ ?_ ?_ ?_
  · rw [if_neg (by omega)]
    exact if_neg (Nat.not_lt.mpr hhead)
  · rw [hsent]
    exact hdata
  · rw [hsent]
    exact j.seq_toNat hlt
  · show min q j.logs.length = _
    unfold head at hhead
    omega

/-- What the client answers to the `q`-th message. -/
def answer (stream : String) (q : Nat) : List Message :=
  if j.head ≤ q then [streamAck stream (q - j.head)] else []

/-- **The client takes every message of the agent in its turn.** -/
theorem receive_message {stream : String} {q : Nat} (hq : q < j.total) :
    (j.receiver stream q).receive P (j.message stream q) =
      (.reading (j.receiver stream (q + 1)), j.answer stream q) := by
  unfold answer
  split
  · next hhead => exact j.receive_chunk hhead hq
  · next hhead =>
    have hle : q ≤ j.logs.length := by unfold head at hhead; omega
    cases Nat.lt_or_eq_of_le hle with
    | inl hlt => exact j.receive_log hlt
    | inr heq =>
      subst heq
      exact j.receive_begin

/-- The payload is whole when the response comes, and the totals are right. -/
theorem receive_response (stream : String) :
    (j.receiver stream j.total).receive P j.response = (.idle (some (.ok j.result)), []) := by
  have hhead : ¬ j.total < j.head := by unfold total; omega
  have hsent : j.total - j.head = chunks j.payload.bytes := Nat.add_sub_cancel_left _ _
  have hstream : (j.receiver stream j.total).streamId = some stream := if_neg hhead
  have hdata : (j.receiver stream j.total).data = j.payload.bytes := by
    show j.payload.bytes.take ((j.total - j.head) * chunkSize) = _
    rw [hsent]
    exact List.take_of_length_le (length_le_chunks _)
  have hseq : (j.receiver stream j.total).lastSeq = chunks j.payload.bytes := hsent
  have hdecode : decodeValue P j.payload.bytes = some j.payload.diff :=
    (encodeValue_exact ⟨j.payload.diff, j.payload.distinct⟩ _ j.payload.encoded).1
  rw [response, Message.success, Receiver.receive]
  refine (if_pos rfl).trans ?_
  rw [Receiver.respond_stream (by rw [hstream]; rfl) (by rw [hseq]; rfl) (by rw [hdata]; rfl)
    (by rw [hdata]; exact hdecode)]
  rfl

/-- What the client has put together after `q` messages. -/
theorem assembled_span (stream : String) {q : Nat} (hq : q ≤ j.total) :
    assembled (span (j.message stream) 0 q) =
      j.payload.bytes.take ((q - j.head) * chunkSize) := by
  induction q with
  | zero =>
    rw [span_self, Nat.zero_sub, Nat.zero_mul, List.take_zero]
    rfl
  | succ q ih =>
    rw [span_concat (Nat.zero_le q), assembled_append, ih (by omega)]
    by_cases hhead : j.head ≤ q
    · have hsent : q + 1 - j.head = q - j.head + 1 := by omega
      have hone : assembled [j.chunkMessage stream (q - j.head)] =
          chunk j.payload.bytes (q - j.head) := by
        show (Base64.standard.decode (base64 _).toList).getD [] ++ [] = _
        rw [decode_base64, List.append_nil]
        rfl
      rw [j.message_chunk hhead, hone, hsent, take_chunk]
    · have hzero : q - j.head = 0 := by omega
      have hzero' : q + 1 - j.head = 0 := by omega
      have hone : assembled [j.message stream q] = [] := by
        have hle : q ≤ j.logs.length := by unfold head at hhead; omega
        cases Nat.lt_or_eq_of_le hle with
        | inl hlt =>
          rw [j.message_log hlt]
          rfl
        | inr heq =>
          subst heq
          rw [j.message_begin]
          rfl
      rw [hone, hzero, hzero', List.append_nil]

end Job

end Porthop.Git.Wire
