import Mathlib.Algebra.Ring.Nat
import Mathlib.Data.List.Basic
import Porthop.Lib.Pieces

/- The clipboard store of the agent (`demand.rs`).

   Readers ask for a format of a revision and wait; a request is sent for each format once
   and every reader of it shares the reply. Each function is one stretch of the code under
   the store's lock. Times are the readings of one clock, in milliseconds. -/
namespace Porthop.Clipboard

abbrev Bytes := List UInt8

/-- The longest chunk of a reply. -/
def chunkSize : Nat := 64 * 1024

/-- The most bytes the store holds. -/
def limit : Nat := 32 * 1024 * 1024

def timeout : Nat := 15000

/-- How long a failed request is remembered. -/
def failedFor : Nat := 1000

/-- The most requests without a result. -/
def maxPending : Nat := 8

structure Offer where
  revision : Int
  formats : List String

structure Request where
  id : Nat
  revision : Int
  format : String
  deriving DecidableEq

structure Reply where
  id : Nat
  revision : Int
  status : Nat
  done : Bool
  bytes : Bytes
  deriving DecidableEq

structure Entry where
  request : Request
  sent : Bool
  started : Nat
  bytes : Bytes
  result : Option (Except Unit Bytes)

namespace Entry

def pending (e : Entry) : Bool := e.result.isNone

/-- The reply is complete. -/
def answer (e : Entry) : Option Bytes :=
  match e.result with
  | some (.ok bytes) => some bytes
  | _ => none

def failed (e : Entry) : Bool :=
  match e.result with
  | some (.error ()) => true
  | _ => false

/-- The bytes an entry holds. -/
def held (e : Entry) : Nat := e.bytes.length + (e.answer.getD []).length

def fail (now : Nat) (e : Entry) : Entry :=
  { e with bytes := [], result := some (.error ()), started := now }

end Entry

/-- `Inner`: the entries are the values of a map by format. -/
structure Store where
  offer : Offer
  entries : List Entry
  next : Nat
  closed : Bool

namespace Store

def new : Store := ⟨⟨0, []⟩, [], 0, false⟩

/-- A new offer: requests for another one are dropped. -/
def update (s : Store) (offer : Offer) : Store :=
  let changed := s.offer.revision ≠ offer.revision ∨ s.offer.formats ≠ offer.formats
  { s with offer, entries := if changed then [] else s.entries }

def close (s : Store) : Store := { s with closed := true, entries := [] }

def find (s : Store) (format : String) : Option Entry :=
  s.entries.find? fun e => e.request.format = format

/-- The request for a format that has none. -/
def ask (s : Store) (revision : Int) (format : String) (now : Nat) : Store :=
  { s with
    next := s.next + 1
    entries := s.entries ++ [⟨⟨s.next + 1, revision, format⟩, false, now, [], none⟩] }

/-- One turn of the loop of `get`: what it returns, or nothing if it waits. -/
def get (s : Store) (revision : Int) (format : String) (now : Nat) (expired : Bool) :
    Store × Option (Except String Bytes) :=
  let wait (s : Store) : Store × Option (Except String Bytes) :=
    (s, if expired then some (.error "clipboard request timed out") else none)
  if s.closed ∨ s.offer.revision ≠ revision ∨ format ∉ s.offer.formats then
    (s, some (.error "clipboard changed or unavailable"))
  else
    match s.find format with
    | some e =>
      match e.result with
      | some (.ok bytes) => (s, some (.ok bytes))
      | some (.error ()) => (s, some (.error "clipboard request failed; retry"))
      | none => wait s
    | none =>
      if (s.entries.filter Entry.pending).length ≥ maxPending then
        (s, some (.error "too many clipboard requests"))
      else wait (s.ask revision format now)

/-- A failed request is forgotten after a while, so that it may be asked for again. -/
def forgotten (now : Nat) (e : Entry) : Bool := e.failed && decide (now - e.started > failedFor)

def late (now : Nat) (e : Entry) : Bool := e.pending && decide (now - e.started ≥ timeout)

def age (now : Nat) (e : Entry) : Entry := if late now e then e.fail now else e

def wanted (e : Entry) : Bool := !e.sent && e.pending

def markSent (e : Entry) : Entry := if wanted e then { e with sent := true } else e

/-- The store, the requests to send and whether the readers are woken. -/
def poll (s : Store) (now : Nat) : Store × List Request × Bool :=
  let kept := s.entries.filter fun e => !forgotten now e
  let aged := kept.map (age now)
  ({ s with entries := aged.map markSent }, (aged.filter wanted).map Entry.request,
    kept.any (late now))

/-- The first entry that fits, changed. -/
def modifyFirst (p : Entry → Bool) (f : Entry → Entry) : List Entry → List Entry
  | [] => []
  | e :: es => if p e then f e :: es else e :: modifyFirst p f es

def awaits (id : Nat) (e : Entry) : Bool := decide (e.request.id = id) && e.pending

/-- A chunk for an entry. -/
def take (bytes : Bytes) (done : Bool) (e : Entry) : Entry :=
  if done then { e with bytes := [], result := some (.ok (e.bytes ++ bytes)) }
  else { e with bytes := e.bytes ++ bytes }

def held (entries : List Entry) : Nat := (entries.map Entry.held).sum

/-- Complete replies are dropped where there is no room for a chunk. -/
def room (entries : List Entry) (size : Nat) : List Entry :=
  if held entries + size > limit then entries.filter fun e => e.answer.isNone else entries

/-- A reply: the store and whether the readers are woken. A chunk that does not decode fails
    its request. -/
def reply (decode : Nat → Bytes → Option Bytes) (s : Store) (r : Reply) (now : Nat) :
    Store × Bool :=
  if r.revision ≠ s.offer.revision then (s, false)
  else if s.entries.any (awaits r.id) then
    let decoded := decode r.status r.bytes
    let bytes := decoded.getD []
    let entries := room s.entries bytes.length
    let act : Entry → Entry :=
      if decoded.isNone ∨ held entries + bytes.length > limit then Entry.fail now
      else take bytes r.done
    ({ s with entries := modifyFirst (awaits r.id) act entries }, true)
  else (s, false)

end Store

end Porthop.Clipboard

/- The desktop's side of the clipboard (`clipboard.rs`, `clipboard_wire.rs`).

   A value is sent in chunks of 64 KiB, each compressed on its own where that makes it
   shorter. The compressor is a parameter. -/
namespace Porthop.Clipboard

/-- Zlib: `inflate` gives the bytes it read and what they decompress to, if the stream ends
    within a chunk. -/
structure Zlib where
  deflate : Bytes → Bytes
  inflate : Bytes → Option (Nat × Bytes)

/-- What is compressed decompresses to what it was. -/
def Zlib.Lossless (Z : Zlib) : Prop :=
  ∀ bytes, bytes.length ≤ chunkSize →
    Z.inflate (Z.deflate bytes) = some ((Z.deflate bytes).length, bytes)

/-- The longest value that is sent. -/
def maxData : Nat := 32 * 1024 * 1024

/-- The most requests the sender works on. -/
def maxReads : Nat := 8

section
variable (Z : Zlib)

def compressChunk (bytes : Bytes) : Option (Nat × Bytes) :=
  if bytes.length > chunkSize then none
  else if 1024 ≤ bytes.length ∧ (Z.deflate bytes).length < bytes.length then
    some (2, Z.deflate bytes)
  else some (0, bytes)

def decompressChunk (status : Nat) (bytes : Bytes) : Option Bytes :=
  if bytes.length > chunkSize then none
  else if status = 0 then some bytes
  else if status ≠ 2 then none
  else
    match Z.inflate bytes with
    | some (read, output) =>
      if read ≠ bytes.length ∨ output.length > chunkSize then none else some output
    | none => none

/-- The chunks of a value. -/
def compressed (bytes : Bytes) : Option (List (Nat × Bytes)) :=
  if bytes = [] then some [(0, [])] else (pieces chunkSize bytes).mapM (compressChunk Z)

/-- What the platform says of its clipboard: the revision and the formats. -/
abbrev Platform := Option (Int × List String)

/-- The value of a request, if the clipboard still is what was offered. -/
def readFormat (platform : Platform) (content : Option Bytes) (request : Request) :
    Option Bytes :=
  match platform with
  | some (current, formats) =>
    if current ≠ request.revision ∨ request.format ∉ formats then none
    else content.filter fun bytes => bytes.length ≤ maxData
  | none => none

/-- A reply that is being sent: the chunks that are left, or none if the read failed. -/
structure Job where
  request : Request
  chunks : Option (List (Nat × Bytes))

def readRequested (platform : Platform) (content : Option Bytes) (request : Request) : Job :=
  ⟨request, (readFormat platform content request).bind (compressed Z)⟩

/-- The next chunk of a reply and the rest of it. A clipboard that has changed fails the
    reply. -/
def Job.turn (j : Job) (current : Option Int) : Reply × Option Job :=
  let chunks := if current = some j.request.revision then j.chunks else none
  match chunks with
  | some ((status, bytes) :: rest) =>
    (⟨j.request.id, j.request.revision, status, rest.isEmpty, bytes⟩,
      if rest.isEmpty then none else some ⟨j.request, some rest⟩)
  | some [] => (⟨j.request.id, j.request.revision, 1, true, []⟩, none)
  | none => (⟨j.request.id, j.request.revision, 1, true, []⟩, none)

/-- The refusal of a request that is one too many. -/
def busy (request : Request) : Reply := ⟨request.id, request.revision, 1, true, []⟩

end

/-! ## Chunks decode to what they were -/

section
variable {Z : Zlib}

theorem decompress_compress (hZ : Z.Lossless) {bytes : Bytes} (h : bytes.length ≤ chunkSize) :
    ∃ c, compressChunk Z bytes = some c ∧ decompressChunk Z c.1 c.2 = some bytes := by
  unfold compressChunk
  rw [if_neg (Nat.not_lt.mpr h)]
  by_cases hshort : 1024 ≤ bytes.length ∧ (Z.deflate bytes).length < bytes.length
  · refine ⟨_, if_pos hshort, ?_⟩
    have hlen : ¬ (Z.deflate bytes).length > chunkSize := by omega
    have hout : ¬ bytes.length > chunkSize := by omega
    unfold decompressChunk
    rw [if_neg hlen, hZ bytes h]
    simp [hout]
  · refine ⟨_, if_neg hshort, ?_⟩
    unfold decompressChunk
    rw [if_neg (Nat.not_lt.mpr h)]
    rfl

/-- What a list of chunks decodes to. -/
def decoded (Z : Zlib) (chunks : List (Nat × Bytes)) : Option Bytes :=
  (chunks.mapM fun c => decompressChunk Z c.1 c.2).map List.flatten

theorem decoded_nil : decoded Z [] = some [] := rfl

theorem decoded_append (xs ys : List (Nat × Bytes)) : decoded Z (xs ++ ys) =
    (decoded Z xs).bind fun a => (decoded Z ys).map (a ++ ·) := by
  unfold decoded
  rw [List.mapM_append]
  cases xs.mapM fun c => decompressChunk Z c.1 c.2 with
  | none => rfl
  | some as =>
    cases ys.mapM fun c => decompressChunk Z c.1 c.2 with
    | none => rfl
    | some bs => simp

theorem decoded_singleton (status : Nat) (bytes : Bytes) :
    decoded Z [(status, bytes)] = decompressChunk Z status bytes := by
  unfold decoded
  rw [List.mapM_cons, List.mapM_nil]
  cases decompressChunk Z status bytes with
  | none => rfl
  | some a => simp

theorem mapM_compress (hZ : Z.Lossless) {parts : List Bytes}
    (h : ∀ p ∈ parts, p.length ≤ chunkSize) :
    ∃ chunks, parts.mapM (compressChunk Z) = some chunks ∧
      chunks.length = parts.length ∧ decoded Z chunks = some parts.flatten := by
  induction parts with
  | nil => exact ⟨[], rfl, rfl, rfl⟩
  | cons p parts ih =>
    obtain ⟨chunks, hchunks, hlen, hdec⟩ := ih fun q hq => h q (List.mem_cons_of_mem _ hq)
    obtain ⟨c, hc, hdc⟩ := decompress_compress hZ (h p List.mem_cons_self)
    refine ⟨c :: chunks, ?_, by rw [List.length_cons, List.length_cons, hlen], ?_⟩
    · rw [List.mapM_cons, hc, hchunks]
      rfl
    · have happend := decoded_append (Z := Z) [c] chunks
      rw [decoded_singleton, hdc, hdec] at happend
      exact happend

/-- A value has chunks, and they decode to it. -/
theorem compressed_decoded (hZ : Z.Lossless) (bytes : Bytes) :
    ∃ chunks, compressed Z bytes = some chunks ∧ chunks ≠ [] ∧
      decoded Z chunks = some bytes := by
  unfold compressed
  by_cases h : bytes = []
  · subst h
    exact ⟨_, if_pos rfl, List.cons_ne_nil _ _, rfl⟩
  · rw [if_neg h]
    obtain ⟨chunks, hchunks, hlen, hdec⟩ :=
      mapM_compress hZ fun p (hp : p ∈ pieces chunkSize bytes) => length_of_mem_pieces hp
    refine ⟨chunks, hchunks, ?_, ?_⟩
    · rintro rfl
      exact pieces_ne_nil h (List.length_eq_zero_iff.mp hlen.symm)
    · rw [hdec, flatten_pieces (by decide)]

/-- A refusal does not decode. -/
theorem decompress_refused (bytes : Bytes) : decompressChunk Z 1 bytes = none := by
  unfold decompressChunk
  split <;> simp

end

end Porthop.Clipboard
