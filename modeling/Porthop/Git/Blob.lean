import Porthop.Git.Decoded
import Porthop.Git.Issued
import Porthop.Git.Objects

/- A blob, from the agent's pages to the desktop's joined content.

   The desktop checks each page on its own (`decodeGitBlobPage`) and each further page
   against what it has (`appendGitBlobPage`). `Loaded` is what holds of the joined pages
   after any number of them: the content up to a position, and the cursor of that
   position. -/
namespace Porthop.Git.Response

open MessagePack (utf8)
open Tokens (RepoRef CursorRef Listing Issued)

/-! ## The desktop's side -/

structure BlobChunk where
  offset : Nat
  bytesB64 : String
  byteLength : Nat

structure BlobMetadata where
  oid : Oid
  size : Nat
  deriving DecidableEq

abbrev GitBlobPage := GitPage BlobChunk BlobMetadata

/-- The length of a text in the desktop's characters. -/
def units (s : String) : Nat := (s.toList.map fun c => if c.toNat < 0x10000 then 1 else 2).sum

def blobChunk (value : Field) : Checked BlobChunk := do
  let v ← object value
  let bytesB64 ← text (prop v "bytesB64")
  if 524288 < units bytesB64 then .error "blob page size"
  else
    let _ ← decodeGitBytes (some (.obj [("bytesB64", .str bytesB64), ("display", .str "")]))
    let byteLength := base64ByteLength bytesB64.toList
    if byteLength = 0 then .error "empty blob chunk"
    else
      let offset ← count (prop v "offset")
      .ok ⟨offset, bytesB64, byteLength⟩

def blobMetadata (value : Field) : Checked BlobMetadata := do
  let v ← object value
  let oid ← decodeGitOid (prop v "oid")
  let size ← count (prop v "size")
  .ok ⟨oid, size⟩

/-- Where the chunks end. -/
def chunksEnd (chunks : List BlobChunk) : Nat :=
  chunks.getLast?.elim 0 fun last => last.offset + last.byteLength

def decodeGitBlobPage (value : Field) : Checked GitBlobPage := do
  let result ← page value blobChunk blobMetadata
  let stop := chunksEnd result.entries
  if 1 < result.entries.length then .error "blob page chunks"
  else if (stop : Int) > maxSafe ∨ stop > result.metadata.size ∨
      (if result.nextCursor = none then stop ≠ result.metadata.size
        else result.entries = [] ∨ stop ≥ result.metadata.size) then
    .error "blob page boundary"
  else .ok result

def validateInitialGitBlobPage (page : GitBlobPage) : Checked GitBlobPage :=
  if page.entries.head?.any fun first => first.offset ≠ 0 then .error "blob initial offset"
  else .ok page

def appendGitBlobPage (previous incoming : GitBlobPage) (cursor : String) :
    Checked GitBlobPage :=
  if incoming.entries.head?.all fun first => first.offset ≠ chunksEnd previous.entries then
    .error "non-contiguous blob pages"
  else appendGitPage previous incoming cursor

/-- Why a page was not read: the agent's error or the field a check names. -/
abbrev Refusal := Error ⊕ String

/-- One request: its budget, and what Git answers the agent during it. -/
structure Turn where
  budget : Option Nat
  git : Cli.Outputs

/-- Request a page and check it. -/
def readBlobPage (repo : RepoRef) (id : String) (cursor : Option String) (t : Turn) :
    Except Refusal GitBlobPage := do
  let value ← (Cli.blob repo id t.budget cursor true t.git).mapError .inl
  let result ← (decodeGitBlobPage (some value)).mapError .inr
  if result.metadata.oid.hex ≠ id.toLower then .error (.inr "requested blob page")
  else match cursor with
    | none => (validateInitialGitBlobPage result).mapError .inr
    | some _ => .ok result

/-- Put the next page behind what there is, if there is one. -/
def loadBlobPage (repo : RepoRef) (id : String) (page : GitBlobPage) (t : Turn) :
    Except Refusal GitBlobPage :=
  match page.nextCursor with
  | none => .ok page
  | some cursor => do
    let incoming ← readBlobPage repo id (some cursor) t
    (appendGitBlobPage page incoming cursor).mapError .inr

/-- The bytes of the chunks. -/
def joined (page : GitBlobPage) : Option (List UInt8) :=
  (page.entries.mapM fun c => Base64.standard.decode c.bytesB64.toList).map List.flatten

/-! ## A blob and its repository -/

/-- A repository the agent has a token for. -/
structure Repository where
  path : List UInt8
  device : UInt64
  inode : UInt64
  admits : RepoRef.admits path
  short : path.length ≤ Tokens.maxPath

def Repository.ref (r : Repository) : RepoRef := .new r.path r.device r.inode

structure Object where
  format : ObjectFormat
  id : String
  content : List UInt8
  hex : hexText format.oidLength id

def Object.size (o : Object) : Nat := o.content.length

/-- The budget is admitted and Git answers with the object, its content in any reads. -/
structure Turn.Serves (o : Object) (t : Turn) : Prop where
  least : 4096 ≤ t.budget.getD 65536
  most : t.budget.getD 65536 ≤ 524288
  header : t.git.header = .ok (some (Cli.headerOf o.id "blob" o.size))
  content : ∃ reads : Source UInt8, t.git.content = .ok (true, reads) ∧
    (∀ buffer ∈ reads, buffer ≠ []) ∧ reads.flatten = o.content

section
variable (r : Repository) (o : Object)

def Object.listing : Listing := ⟨r.path, r.device, r.inode, .blob o.id, o.id, none⟩

/-- The cursor of a position. -/
def Object.cursor (position : Nat) : CursorRef :=
  ⟨Cli.blobSnapshot r.ref o.id, UInt64.ofNat position, none⟩

variable {r o}

theorem Object.mem_id {c : Char} (h : c ∈ o.id.toList) : lowerHex c :=
  (hexText_iff.mp o.hex).2 c h

theorem Object.length_id : String.utf8Len o.id.toList ≤ 64 := by
  obtain ⟨hlen, hdigits⟩ := hexText_iff.mp o.hex
  rw [Tokens.utf8Len_eq_length fun c hc => lowerHex_utf8Size (hdigits c hc), hlen]
  rcases oidLength_cases o.format with h | h <;> omega

theorem Object.blank_id : ' ' ∉ o.id.toList := fun h =>
  absurd (Object.mem_id h) (by decide)

theorem utf8Len_blob (id : String) :
    String.utf8Len (Tokens.Query.blob id).text.toList = 9 + String.utf8Len id.toList := by
  have hname : "cli.blob:".utf8ByteSize = 9 := by decide +kernel
  have htext : (Tokens.Query.blob id).text = "cli.blob:" ++ id := rfl
  rw [← String.utf8ByteSize_ofList, ← String.utf8ByteSize_ofList, String.ofList_toList,
    String.ofList_toList, htext, String.utf8ByteSize_append, hname]

/-- The cursors of a blob are short enough to be read back. -/
theorem Object.decode_cursor (position : Nat) :
    CursorRef.decode (o.cursor r position).encode = .ok (o.cursor r position) := by
  have hid := o.length_id
  have hfingerprint : (.str o.id : Value).size ≤ 6 * String.utf8Len o.id.toList + 2 :=
    Json.size_str_le o.id
  have hquery : (.str (Tokens.Query.blob o.id).text : Value).size ≤
      6 * (9 + String.utf8Len o.id.toList) + 2 := by
    rw [← utf8Len_blob]
    exact Json.size_str_le _
  have hpath := r.short
  have hmax : Tokens.maxPath = 4096 := rfl
  have hdevice := Tokens.size_u64 r.device
  have hinode := Tokens.size_u64 r.inode
  have hoffset := Tokens.size_u64 (UInt64.ofNat position)
  have hlength : (Issued.cursor (o.listing r) (UInt64.ofNat position)).length ≤
      Tokens.maxJson := by
    have hlimit : Tokens.maxJson = 12286 := rfl
    simp only [Issued.length, Tokens.Listing.length, Object.listing, Tokens.base64, Tokens.digits,
      Tokens.escaped, Option.elim_none]
    omega
  exact (@Issued.acceptedBack_iff (.cursor (o.listing r) (UInt64.ofNat position))
    ⟨r.admits, r.short⟩).mpr hlength

theorem Object.cursor_injective {p q : Nat} (hp : p < 2 ^ 64) (hq : q < 2 ^ 64)
    (h : (o.cursor r p).encode = (o.cursor r q).encode) : p = q := by
  have hdecode := congrArg CursorRef.decode h
  rw [Object.decode_cursor, Object.decode_cursor] at hdecode
  have hoffset : UInt64.ofNat p = UInt64.ofNat q :=
    congrArg CursorRef.o (Except.ok.inj hdecode)
  have hnat := congrArg UInt64.toNat hoffset
  rw [UInt64.toNat_ofNat', UInt64.toNat_ofNat', Nat.mod_eq_of_lt hp, Nat.mod_eq_of_lt hq] at hnat
  exact hnat

end

end Porthop.Git.Response
