import Porthop.Git.DiffRenderer
import Porthop.Git.Responses
import Porthop.Lib.TextDecoder

/- The text of a blob that is loaded page by page (`blobText.ts`).

   A page holds every chunk loaded so far, and chunks are objects: the reader goes on where the
   page begins with the chunks of the one before, and otherwise starts afresh. -/
namespace Porthop.Git.BlobText

open DiffRenderer (atob)
open Response (Oid)

/-- A chunk, as a page that was checked has it. -/
structure Chunk where
  bytesB64 : String
  decoded : (atob bytesB64).isSome

def Chunk.bytes (c : Chunk) : List UInt8 := (atob c.bytesB64).get c.decoded

/-- A chunk object. -/
abbrev ChunkRef := Nat

structure Metadata where
  oid : Oid
  size : Nat
  deriving DecidableEq

structure BlobPage where
  snapshot : String
  metadata : Metadata
  entries : List ChunkRef
  nextCursor : Option String
  deriving DecidableEq

/-- What the reader keeps between calls. No text stands for binary data. -/
structure Reader where
  previous : Option BlobPage
  decoder : TextDecoder
  result : Option (List Char)
  ended : Bool

def createBlobTextReader : Reader := ⟨none, TextDecoder.new, some [], false⟩

namespace Reader

def extendsPage (ended : Bool) (previous page : BlobPage) : Bool :=
  previous.snapshot = page.snapshot ∧ previous.metadata.size = page.metadata.size ∧
    previous.metadata.oid.hex = page.metadata.oid.hex ∧
    previous.metadata.oid.algorithm = page.metadata.oid.algorithm ∧
    previous.entries.length ≤ page.entries.length ∧
    (previous.entries.zipIdx.all fun e => page.entries[e.2]? = some e.1) ∧
    (ended = false ∨ previous.entries.length = page.entries.length)

/-- The reader that the page is read with, and the first chunk that is new to it. -/
def begins (r : Reader) (page : BlobPage) : Reader × Nat :=
  match r.previous with
  | none => ({ r with decoder := TextDecoder.new, result := some [], ended := false }, 0)
  | some previous =>
    if extendsPage r.ended previous page then (r, previous.entries.length)
    else ({ r with decoder := TextDecoder.new, result := some [], ended := false }, 0)

variable (chunk : ChunkRef → Chunk)

/-- The loop over the chunks, which ends at the first one with a zero byte. -/
def readChunks : List ChunkRef → TextDecoder → List Char → Option (List Char) × TextDecoder
  | [], decoder, result => (some result, decoder)
  | e :: entries, decoder, result =>
    if 0 ∈ (chunk e).bytes then (none, decoder)
    else
      let text := decoder.decode (chunk e).bytes true
      readChunks entries text.2 (result ++ text.1)

/-- The bytes of an unfinished character wait until the blob ends. -/
def finish (r : Reader) (page : BlobPage) : Reader :=
  match r.result with
  | none => r
  | some result =>
    if page.nextCursor = none ∧ r.ended = false then
      let text := r.decoder.decode [] false
      { r with result := some (result ++ text.1), decoder := text.2, ended := true }
    else r

def read (r : Reader) (page : BlobPage) : Reader :=
  let begun := r.begins page
  let r := match begun.1.result with
    | none => begun.1
    | some result =>
      let chunks := readChunks chunk (page.entries.drop begun.2) begun.1.decoder result
      finish { begun.1 with result := chunks.1, decoder := chunks.2 } page
  { r with previous := some page }

/-- What a reader gives for one page after the other. -/
def readAll : Reader → List BlobPage → List (Option (List Char))
  | _, [] => []
  | r, page :: pages =>
    let next := r.read chunk page
    next.result :: readAll next pages

end Reader

def blobText (chunk : ChunkRef → Chunk) (page : BlobPage) : Option (List Char) :=
  (createBlobTextReader.read chunk page).result

/-! ## The text of a page -/

section
variable (chunk : ChunkRef → Chunk)

def BlobPage.pieces (page : BlobPage) : List (List UInt8) :=
  page.entries.map fun e => (chunk e).bytes

/-- All bytes that are there. -/
def BlobPage.bytes (page : BlobPage) : List UInt8 := (page.pieces chunk).flatten

/-- The bytes read at once, those of an unfinished character left out or shown as one that cannot
    be read. -/
def decodeUtf8 (bytes : List UInt8) (last : Bool) : List Char :=
  (TextDecoder.new.decode bytes (!last)).1

/-- No text where any byte is zero. -/
def BlobPage.text (page : BlobPage) : Option (List Char) :=
  if 0 ∈ page.bytes chunk then none
  else some (decodeUtf8 (page.bytes chunk) page.nextCursor.isNone)

end

variable {chunk : ChunkRef → Chunk} {page : BlobPage} {r : Reader}

theorem mem_bytes {b : UInt8} :
    b ∈ page.bytes chunk ↔ ∃ e ∈ page.entries, b ∈ (chunk e).bytes := by
  rw [BlobPage.bytes, BlobPage.pieces, List.mem_flatten]
  constructor
  · rintro ⟨piece, hpiece, hb⟩
    obtain ⟨e, he, rfl⟩ := List.mem_map.mp hpiece
    exact ⟨e, he, hb⟩
  · rintro ⟨e, he, hb⟩
    exact ⟨_, List.mem_map_of_mem he, hb⟩

/-- The loop gives what the pieces give the decoder, unless a byte is zero. -/
theorem readChunks_eq (entries : List ChunkRef) (decoder : TextDecoder) (result : List Char) :
    (∃ e ∈ entries, 0 ∈ (chunk e).bytes) ∧
      (Reader.readChunks chunk entries decoder result).1 = none ∨
    (∀ e ∈ entries, 0 ∉ (chunk e).bytes) ∧
      Reader.readChunks chunk entries decoder result =
        (some (result ++ (decoder.streamed (entries.map fun e => (chunk e).bytes)).1),
          (decoder.streamed (entries.map fun e => (chunk e).bytes)).2) := by
  induction entries generalizing decoder result with
  | nil =>
    refine Or.inr ⟨fun e he => absurd he List.not_mem_nil, ?_⟩
    rw [Reader.readChunks, List.map_nil, TextDecoder.streamed, List.append_nil]
  | cons e entries ih =>
    rw [Reader.readChunks]
    by_cases hzero : 0 ∈ (chunk e).bytes
    · rw [if_pos hzero]
      exact Or.inl ⟨⟨e, List.mem_cons_self, hzero⟩, rfl⟩
    · rw [if_neg hzero]
      rcases ih (decoder.decode (chunk e).bytes true).2
        (result ++ (decoder.decode (chunk e).bytes true).1) with ⟨⟨e', he', hb⟩, hnone⟩ | ⟨hno, heq⟩
      · exact Or.inl ⟨⟨e', List.mem_cons_of_mem e he', hb⟩, hnone⟩
      · refine Or.inr ⟨List.forall_mem_cons.mpr ⟨hzero, hno⟩, ?_⟩
        rw [heq, List.map_cons]
        simp only [TextDecoder.streamed, List.append_assoc]

/-- The reader has read the page last: it holds the text, and the decoder waits behind the pages
    that may follow. -/
structure Current (chunk : ChunkRef → Chunk) (r : Reader) (page : BlobPage) : Prop where
  previous : r.previous = some page
  result : r.result = page.text chunk
  ended : 0 ∉ page.bytes chunk → r.ended = page.nextCursor.isNone
  decoder : 0 ∉ page.bytes chunk → r.ended = false →
    r.decoder = (TextDecoder.new.streamed (page.pieces chunk)).2

/-- One object is there with the same chunks only up to the same place. -/
def Agree (p q : BlobPage) : Prop :=
  p.snapshot = q.snapshot → p.metadata = q.metadata → p.entries = q.entries →
    p.nextCursor = q.nextCursor

theorem metadata_eq {m n : Metadata} (hsize : m.size = n.size) (hhex : m.oid.hex = n.oid.hex)
    (halgorithm : m.oid.algorithm = n.oid.algorithm) : m = n := by
  obtain ⟨⟨algorithm, hex⟩, size⟩ := m
  obtain ⟨⟨algorithm', hex'⟩, size'⟩ := n
  cases hsize
  cases hhex
  cases halgorithm
  rfl

theorem extendsPage_iff {ended : Bool} {previous : BlobPage}
    (h : Reader.extendsPage ended previous page = true) :
    previous.snapshot = page.snapshot ∧ previous.metadata = page.metadata ∧
      (∃ rest, page.entries = previous.entries ++ rest) ∧
      (ended = true → previous.entries = page.entries) := by
  rw [Reader.extendsPage, decide_eq_true_eq] at h
  obtain ⟨hsnapshot, hsize, hhex, halgorithm, hlength, hevery, hended⟩ := h
  have hstart : page.entries.take previous.entries.length = previous.entries := by
    apply List.ext_getElem?
    intro i
    by_cases hi : i < previous.entries.length
    · have hmem : (previous.entries[i], i) ∈ previous.entries.zipIdx :=
        List.mem_zipIdx_iff_getElem?.mpr (List.getElem?_eq_getElem hi)
      have heq : page.entries[i]? = some previous.entries[i] :=
        of_decide_eq_true (List.all_eq_true.mp hevery _ hmem)
      rw [List.getElem?_take_of_lt hi, heq, List.getElem?_eq_getElem hi]
    · rw [List.getElem?_eq_none (Nat.not_lt.mp hi), List.getElem?_eq_none]
      rw [List.length_take]
      omega
  have hrest : page.entries = previous.entries ++ page.entries.drop previous.entries.length := by
    calc page.entries
        = page.entries.take previous.entries.length ++
            page.entries.drop previous.entries.length := (List.take_append_drop _ _).symm
      _ = previous.entries ++ page.entries.drop previous.entries.length := by rw [hstart]
  refine ⟨hsnapshot, ?_, ⟨_, hrest⟩, fun htrue => ?_⟩
  · exact metadata_eq hsize hhex halgorithm
  · rcases hended with hfalse | heq
    · rw [htrue] at hfalse
      cases hfalse
    · rw [← hstart, heq, List.take_length]

/-- The text of the chunks so far, before the end of the blob shows. -/
structure Reading (chunk : ChunkRef → Chunk) (r : Reader) (before : List ChunkRef) : Prop where
  none : ∀ e ∈ before, 0 ∉ (chunk e).bytes
  result : r.result = some (TextDecoder.new.streamed (before.map fun e => (chunk e).bytes)).1
  decoder : r.decoder = (TextDecoder.new.streamed (before.map fun e => (chunk e).bytes)).2
  ended : r.ended = false

theorem decodeUtf8_streamed (pieces : List (List UInt8)) :
    decodeUtf8 pieces.flatten false = (TextDecoder.new.streamed pieces).1 :=
  (TextDecoder.streamed_join TextDecoder.new pieces).symm

theorem decodeUtf8_flushed (pieces : List (List UInt8)) :
    decodeUtf8 pieces.flatten true = (TextDecoder.new.streamed pieces).1 ++
      ((TextDecoder.new.streamed pieces).2.decode [] false).1 :=
  (TextDecoder.streamed_flush TextDecoder.new pieces).symm

/-- The reader after the loop over the chunks behind those so far. -/
def looped (chunk : ChunkRef → Chunk) (r : Reader) (rest : List ChunkRef)
    (result : List Char) : Reader :=
  let chunks := Reader.readChunks chunk rest r.decoder result
  { r with result := chunks.1, decoder := chunks.2 }

theorem looped_cases {before rest : List ChunkRef} (h : Reading chunk r before)
    {result : List Char} (hresult : r.result = some result) :
    (∃ e ∈ rest, 0 ∈ (chunk e).bytes) ∧ (looped chunk r rest result).result = none ∨
      Reading chunk (looped chunk r rest result) (before ++ rest) := by
  rcases @readChunks_eq chunk rest r.decoder result with ⟨hzero, hnone⟩ | ⟨hno, heq⟩
  · exact Or.inl ⟨hzero, hnone⟩
  · right
    have hstreamed : TextDecoder.new.streamed ((before ++ rest).map fun e => (chunk e).bytes) =
        (result ++ (r.decoder.streamed (rest.map fun e => (chunk e).bytes)).1,
          (r.decoder.streamed (rest.map fun e => (chunk e).bytes)).2) := by
      rw [List.map_append, TextDecoder.streamed_append, ← h.decoder,
        Option.some.inj (hresult.symm.trans h.result)]
    refine ⟨fun e he => ?_, ?_, ?_, h.ended⟩
    · rcases List.mem_append.mp he with he | he
      · exact h.none e he
      · exact hno e he
    · rw [looped, heq, hstreamed]
    · rw [looped, heq, hstreamed]

theorem not_mem_bytes (h : ∀ e ∈ page.entries, 0 ∉ (chunk e).bytes) : 0 ∉ page.bytes chunk := by
  rw [mem_bytes]
  rintro ⟨e, he, hzero⟩
  exact h e he hzero

theorem text_of_mem (h : 0 ∈ page.bytes chunk) : page.text chunk = none := by
  rw [BlobPage.text, if_pos h]

/-- When all chunks are read, the end of the blob is shown at most. -/
theorem finish_current (h : Reading chunk r page.entries) :
    Current chunk { r.finish page with previous := some page } page := by
  have hbytes := not_mem_bytes h.none
  have htext : page.text chunk =
      some (decodeUtf8 (page.pieces chunk).flatten page.nextCursor.isNone) := by
    rw [BlobPage.text, if_neg hbytes, BlobPage.bytes]
  rw [Reader.finish, h.result]
  dsimp only
  cases hcursor : page.nextCursor with
  | none =>
    rw [if_pos ⟨rfl, h.ended⟩]
    refine ⟨rfl, ?_, fun _ => ?_, fun _ hended => by cases hended⟩
    · rw [htext, hcursor, h.decoder]
      exact congrArg some (decodeUtf8_flushed (page.pieces chunk)).symm
    · rw [hcursor]
      rfl
  | some cursor =>
    have hnot : ¬(some cursor = none ∧ r.ended = false) := fun hboth => by cases hboth.1
    rw [if_neg hnot]
    refine ⟨rfl, ?_, fun _ => ?_, fun _ _ => h.decoder⟩
    · rw [h.result, htext, hcursor]
      exact congrArg some (decodeUtf8_streamed (page.pieces chunk)).symm
    · rw [h.ended, hcursor]
      rfl

/-- Reading on from the chunks so far. -/
theorem read_on {before rest : List ChunkRef} (h : Reading chunk r before)
    (hentries : page.entries = before ++ rest) {result : List Char}
    (hresult : r.result = some result) :
    Current chunk { (looped chunk r rest result).finish page with previous := some page } page := by
  rcases looped_cases h hresult with ⟨⟨e, he, hzero⟩, hnone⟩ | hreading
  · have hbytes : 0 ∈ page.bytes chunk := by
      rw [mem_bytes, hentries]
      exact ⟨e, List.mem_append_right before he, hzero⟩
    have hfinish : (looped chunk r rest result).finish page = looped chunk r rest result := by
      rw [Reader.finish, hnone]
    rw [hfinish]
    exact ⟨rfl, hnone.trans (text_of_mem hbytes).symm, fun hnot => absurd hbytes hnot,
      fun hnot => absurd hbytes hnot⟩
  · rw [← hentries] at hreading
    exact finish_current hreading

/-- A page that the reader cannot go on to is read from the start. -/
theorem read_afresh (h : r.begins page =
    ({ r with decoder := TextDecoder.new, result := some [], ended := false }, 0)) :
    Current chunk (r.read chunk page) page := by
  rw [Reader.read, h]
  exact read_on (r := { r with decoder := TextDecoder.new, result := some [], ended := false })
    ⟨fun e he => absurd he List.not_mem_nil, rfl, rfl, rfl⟩ (List.nil_append _).symm rfl

/-- One page after another one. -/
theorem read_current {p : BlobPage} (h : Current chunk r p) (hagree : Agree p page) :
    Current chunk (r.read chunk page) page := by
  by_cases hextends : Reader.extendsPage r.ended p page = true
  · obtain ⟨hsnapshot, hmetadata, ⟨rest, hentries⟩, hended⟩ := extendsPage_iff hextends
    have hbegins : r.begins page = (r, p.entries.length) := by
      rw [Reader.begins, h.previous]
      exact if_pos hextends
    have hdrop : page.entries.drop p.entries.length = rest := by
      rw [hentries, List.drop_left]
    rw [Reader.read, hbegins, hdrop]
    by_cases hbytes : 0 ∈ p.bytes chunk
    · -- no text for the chunks so far, so none for more of them
      have hnone : r.result = none := h.result.trans (text_of_mem hbytes)
      have hmore : 0 ∈ page.bytes chunk := by
        obtain ⟨e, he, hzero⟩ := mem_bytes.mp hbytes
        rw [mem_bytes, hentries]
        exact ⟨e, List.mem_append_left rest he, hzero⟩
      rw [hnone]
      exact ⟨rfl, hnone.trans (text_of_mem hmore).symm, fun hnot => absurd hmore hnot,
        fun hnot => absurd hmore hnot⟩
    · have htext : r.result =
          some (decodeUtf8 (p.pieces chunk).flatten p.nextCursor.isNone) := by
        rw [h.result, BlobPage.text, if_neg hbytes, BlobPage.bytes]
      have hcursor := h.ended hbytes
      cases htrue : r.ended with
      | true =>
        -- the end was shown, so this is the same page
        have hsame := hended htrue
        have hnil : rest = [] := by
          rw [← hsame] at hentries
          exact List.self_eq_append_right.mp hentries
        have hagrees := hagree hsnapshot hmetadata hsame
        have hpage : page.text chunk = p.text chunk := by
          rw [BlobPage.text, BlobPage.text, BlobPage.bytes, BlobPage.bytes, BlobPage.pieces,
            BlobPage.pieces, hsame, hagrees]
        have hnot : ¬(page.nextCursor = none ∧ r.ended = false) := by
          rintro ⟨-, hfalse⟩
          rw [htrue] at hfalse
          cases hfalse
        rw [hnil, htext]
        dsimp only [Reader.readChunks, Reader.finish]
        rw [if_neg hnot]
        refine ⟨rfl, ?_, fun _ => ?_, fun _ hfalse => ?_⟩
        · rw [hpage, ← h.result, htext]
        · rw [← hagrees]
          exact hcursor
        · rw [htrue] at hfalse
          cases hfalse
      | false =>
        have hreading : Reading chunk r p.entries := by
          refine ⟨fun e he hzero => hbytes (mem_bytes.mpr ⟨e, he, hzero⟩), ?_, ?_, htrue⟩
          · rw [htext, ← hcursor, htrue]
            exact congrArg some (decodeUtf8_streamed (p.pieces chunk))
          · exact h.decoder hbytes htrue
        rw [htext]
        exact read_on hreading hentries htext
  · apply read_afresh
    rw [Reader.begins, h.previous]
    exact if_neg hextends

theorem blobText_eq (chunk : ChunkRef → Chunk) (page : BlobPage) :
    blobText chunk page = page.text chunk :=
  (read_afresh (r := createBlobTextReader) rfl).result

/-- A reader that goes on from a page, or from none. -/
theorem readAll_text {pages : List BlobPage}
    (hagree : ∀ p ∈ pages, ∀ q ∈ pages, Agree p q)
    (h : r.previous = none ∨ ∃ p, Current chunk r p ∧ ∀ q ∈ pages, Agree p q) :
    r.readAll chunk pages = pages.map (BlobPage.text chunk) := by
  induction pages generalizing r with
  | nil => rfl
  | cons page pages ih =>
    have hread : Current chunk (r.read chunk page) page := by
      rcases h with hnone | ⟨p, hp, hall⟩
      · apply read_afresh
        rw [Reader.begins, hnone]
      · exact read_current hp (hall page List.mem_cons_self)
    rw [Reader.readAll, List.map_cons, hread.result]
    congr 1
    apply ih
    · exact fun p hp q hq =>
        hagree p (List.mem_cons_of_mem page hp) q (List.mem_cons_of_mem page hq)
    · exact Or.inr ⟨page, hread, fun q hq =>
        hagree page List.mem_cons_self q (List.mem_cons_of_mem page hq)⟩

/-- Each page that one reader is given shows what a fresh reader shows of it: the text of its
    bytes, of which an unfinished character shows on the last page only. -/
theorem readAll_fresh (chunk : ChunkRef → Chunk) (pages : List BlobPage)
    (hagree : ∀ p ∈ pages, ∀ q ∈ pages, Agree p q) :
    createBlobTextReader.readAll chunk pages = pages.map (blobText chunk) ∧
    (∀ page : BlobPage, blobText chunk page =
      if 0 ∈ page.bytes chunk then none
      else some (decodeUtf8 (page.bytes chunk) page.nextCursor.isNone)) ∧
    (∀ bytes : List UInt8, decodeUtf8 bytes true = decodeUtf8 bytes false ++
      TextDecoder.flush (TextDecoder.run TextDecoder.ground bytes).1) ∧
    ∀ text : List Char, text.head? ≠ some TextDecoder.byteOrderMark →
      decodeUtf8 (text.flatMap String.utf8EncodeChar) true = text := by
  refine ⟨?_, blobText_eq chunk, TextDecoder.decode_end TextDecoder.new,
    fun _ => TextDecoder.decode_encode⟩
  rw [readAll_text hagree (Or.inl rfl)]
  exact List.map_congr_left fun page _ => (blobText_eq chunk page).symm

/-! ## Pages that are shown again -/

/-- The bytes of `A界B`, cut within the second character. -/
def splitChunk (e : ChunkRef) : Chunk :=
  if e = 0 then ⟨"Qec=", by decide⟩ else ⟨"lYxC", by decide⟩

def splitPage (entries : List ChunkRef) (nextCursor : Option String) : BlobPage :=
  ⟨"blob-snapshot", ⟨⟨.sha1, "a"⟩, 5⟩, entries, nextCursor⟩

/-- The rest of the character comes, and goes again with a page that is rolled back. -/
theorem split_rolledBack :
    createBlobTextReader.readAll splitChunk
      [splitPage [0] (some "next"), splitPage [0, 1] none, splitPage [0] (some "next")] =
        [some ['A'], some ['A', '界', 'B'], some ['A']] := by
  have hagree : ∀ p ∈ [splitPage [0] (some "next"), splitPage [0, 1] none,
      splitPage [0] (some "next")], ∀ q ∈ [splitPage [0] (some "next"), splitPage [0, 1] none,
        splitPage [0] (some "next")], Agree p q := by
    unfold Agree
    decide
  rw [(readAll_fresh splitChunk _ hagree).1]
  decide +kernel

end Porthop.Git.BlobText
