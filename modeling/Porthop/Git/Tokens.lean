import Porthop.Git.Journal
import Porthop.Lib.Base64
import Porthop.Lib.MessagePack

/- Request tokens: what the agent issues and takes back (`tokens.rs`).

   A token is its kind, a dot and the base64url text of a JSON record. The record of a
   snapshot is inside that of a cursor, and the tokens of a snapshot and an entry are
   inside the query of a working diff. Writing a token checks nothing; reading one starts
   with its length. -/
namespace Porthop.Git.Tokens

/-- The longest token that is read, in bytes. -/
def maxToken : Nat := 16 * 1024

inductive Kind where
  | repo
  | snapshot
  | entry
  | cursor
  deriving DecidableEq

namespace Kind

def letter : Kind → Char
  | repo => 'r'
  | snapshot => 's'
  | entry => 'e'
  | cursor => 'c'

def name : Kind → String
  | repo => "repository"
  | snapshot => "snapshot"
  | entry => "file entry"
  | cursor => "cursor"

end Kind

def text (bs : List UInt8) : String := String.ofList (Base64.standard.encode bs)

/-- The bytes of a JSON text. -/
def jsonBytes (v : Value) : List UInt8 := MessagePack.utf8 (String.ofList v.render)

def encode (kind : Kind) (v : Value) : String :=
  String.ofList (kind.letter :: '.' :: Base64.urlSafeNoPad.encode (jsonBytes v))

def invalid (kind : Kind) : Error := .invalid s!"Invalid {kind.name} token."

/-- The letter and the dot of a token, stripped. -/
def body (kind : Kind) (token : String) : Option (List Char) :=
  match token.toList with
  | letter :: '.' :: rest => if letter = kind.letter then some rest else none
  | _ => none

section
variable {α : Type}

def decode (kind : Kind) (ofJson : Value → Option α) (token : String) : Except Error α :=
  if token.utf8ByteSize > maxToken then .error (invalid kind)
  else
    match (do
      let rest ← body kind token
      let bytes ← Base64.urlSafeNoPad.decode rest
      let s ← MessagePack.ofUtf8 bytes
      let v ← Json.read s.toList
      ofJson v) with
    | some a => .ok a
    | none => .error (invalid kind)

end

/-! ## The records -/

def u64 (n : UInt64) : Value := .num n.toNat

def toU64 : Value → Option UInt64
  | .num i => if 0 ≤ i ∧ i < 2 ^ 64 then some (UInt64.ofNat i.toNat) else none
  | _ => none

def toStr : Value → Option String
  | .str s => some s
  | _ => none

/-- An optional text: left out or `null` if there is none. -/
def toOptional : Option Value → Option (Option String)
  | none => some none
  | some .null => some none
  | some (.str s) => some (some s)
  | some _ => none

def optional (name : String) : Option String → List (String × Value)
  | some s => [(name, .str s)]
  | none => []

structure RepoRef where
  g : String
  d : UInt64
  i : UInt64
  deriving DecidableEq

structure SnapshotRef where
  r : RepoRef
  q : String
  f : String
  p : Option String
  deriving DecidableEq

structure EntryRef where
  p : List String
  deriving DecidableEq

structure CursorRef where
  s : SnapshotRef
  o : UInt64
  k : Option String
  deriving DecidableEq

namespace RepoRef

def json (r : RepoRef) : Value := .obj [("g", .str r.g), ("d", u64 r.d), ("i", u64 r.i)]

def ofJson (v : Value) : Option RepoRef := do
  match ← Json.recordWith ["g", "d", "i"] [] v with
  | ([g, d, i], _) => some ⟨← toStr g, ← toU64 d, ← toU64 i⟩
  | _ => none

end RepoRef

namespace SnapshotRef

def json (s : SnapshotRef) : Value :=
  .obj ([("r", s.r.json), ("q", .str s.q), ("f", .str s.f)] ++ optional "p" s.p)

def ofJson (v : Value) : Option SnapshotRef := do
  match ← Json.recordWith ["r", "q", "f"] ["p"] v with
  | ([r, q, f], [p]) => some ⟨← RepoRef.ofJson r, ← toStr q, ← toStr f, ← toOptional p⟩
  | _ => none

def encode (s : SnapshotRef) : String := Tokens.encode .snapshot s.json

def decode (token : String) : Except Error SnapshotRef := Tokens.decode .snapshot ofJson token

end SnapshotRef

namespace CursorRef

def json (c : CursorRef) : Value :=
  .obj ([("s", c.s.json), ("o", u64 c.o)] ++ optional "k" c.k)

def ofJson (v : Value) : Option CursorRef := do
  match ← Json.recordWith ["s", "o"] ["k"] v with
  | ([s, o], [k]) => some ⟨← SnapshotRef.ofJson s, ← toU64 o, ← toOptional k⟩
  | _ => none

def encode (c : CursorRef) : String := Tokens.encode .cursor c.json

def decode (token : String) : Except Error CursorRef := Tokens.decode .cursor ofJson token

end CursorRef

/-! ## Paths -/

def pathBytes (b64 : String) : Except Error (List UInt8) :=
  match Base64.standard.decode b64.toList with
  | some bs => .ok bs
  | none => .error (.invalid "Invalid path in token.")

def slash : UInt8 := 47

/-- The path goes up somewhere. -/
def parentDir (path : List UInt8) : Bool := [46, 46] ∈ path.splitOn slash

/-- A component `.` that is not skipped: the first one of a relative path. -/
def curDir (path : List UInt8) : Bool := (path.splitOn slash).head? = some [46]

namespace RepoRef

def new (path : List UInt8) (device inode : UInt64) : RepoRef := ⟨text path, device, inode⟩

def encode (r : RepoRef) : String := Tokens.encode .repo r.json

def gitDir (r : RepoRef) : Except Error (List UInt8) := pathBytes r.g

/-- A path a repository token may name. -/
def admits (path : List UInt8) : Bool :=
  path.head? = some slash ∧ 0 ∉ path ∧ ¬ parentDir path ∧ ¬ curDir path

def decode (token : String) : Except Error RepoRef := do
  let value ← Tokens.decode .repo ofJson token
  let path ← value.gitDir
  if admits path then .ok value else .error (.invalid "Invalid repository token.")

end RepoRef

namespace EntryRef

def json (e : EntryRef) : Value := .obj [("p", .arr (e.p.map .str))]

def ofJson (v : Value) : Option EntryRef := do
  match ← Json.recordWith ["p"] [] v with
  | ([.arr vs], _) => some ⟨← vs.mapM toStr⟩
  | _ => none

def new (paths : List (List UInt8)) : EntryRef := ⟨paths.map text⟩

def encode (e : EntryRef) : String := Tokens.encode .entry e.json

def paths (e : EntryRef) : Except Error (List (List UInt8)) := e.p.mapM pathBytes

/-- A path an entry token may name. -/
def admits (path : List UInt8) : Bool :=
  path ≠ [] ∧ path.head? ≠ some slash ∧ 0 ∉ path ∧ ¬ parentDir path

def decode (token : String) : Except Error EntryRef := do
  let value ← Tokens.decode .entry ofJson token
  let paths ← value.paths
  if paths ≠ [] ∧ paths.length ≤ 2 ∧ ∀ path ∈ paths, admits path then .ok value
  else .error (.invalid "Invalid file entry token.")

end EntryRef

/-! ## Queries -/

/-- The text after a query's name. -/
def queryText (name : String) (v : Value) : String := name ++ String.ofList v.render

def optionalText : Option String → Value
  | some s => .str s
  | none => .null

inductive Side where
  | headToIndex
  | indexToWorktree
  | headToWorktree
  deriving DecidableEq

def Side.text : Side → String
  | headToIndex => "head_to_index"
  | indexToWorktree => "index_to_worktree"
  | headToWorktree => "head_to_worktree"

/-- The one line encoding of a diff page. -/
def tupleV1 : String := "tuple_v1"

/-- What the agent issues a snapshot or a cursor for. -/
inductive Query where
  | statusSnapshot
  | worktreesSnapshot
  | status (text group : String)
  | history (revision : String) (budget : Nat)
  | diff (snapshot entryId : String) (side : Side) (contextLines : Nat)
      (lineEncoding : Option String)
  | commitDiff (commitOid : String) (parentIndex : Nat) (bytesB64 display : String)
      (contextLines : Nat) (lineEncoding : Option String)
  | commitFiles (id : String) (parent : Nat)
  | blob (id : String)
  | branches (filter kind : String)
  | remoteNames (filter : String)
  | remoteRefs (name token : String) (push : Bool) (filter : String)
  | tags (budget : Nat)
  | stashes
  | worktrees (filter : String) (branch name : Option String)

namespace Query

def text : Query → String
  | statusSnapshot => "cli.status"
  | worktreesSnapshot => "cli.worktrees"
  | status text group => queryText "cli.status:" (.arr [.str text, .str group])
  | history revision budget =>
    queryText "cli.history:" (.arr [.str revision, .num budget])
  | diff snapshot entryId side contextLines lineEncoding =>
    queryText "cli.diff:" (.arr [.str snapshot, .str entryId, .str side.text,
      .num contextLines, optionalText lineEncoding])
  | commitDiff commitOid parentIndex bytesB64 display contextLines lineEncoding =>
    queryText "cli.commit_diff:" (.arr [.str commitOid, .num parentIndex,
      .obj [("bytesB64", .str bytesB64), ("display", .str display)],
      .num contextLines, optionalText lineEncoding])
  | commitFiles id parent => s!"cli.commit_files:{id}:{parent}"
  | blob id => s!"cli.blob:{id}"
  | branches filter kind => queryText "cli.branches:" (.arr [.str filter, .str kind])
  | remoteNames filter => s!"cli.remote_names:{filter}"
  | remoteRefs name token push filter =>
    queryText "cli.remote_refs:" (.arr [.str name, .str token, .bool push, .str filter])
  | tags budget => s!"cli.tags:{budget}"
  | stashes => "cli.stashes"
  | worktrees filter branch name =>
    queryText "cli.worktrees:" (.arr [.str filter, optionalText branch, optionalText name])

end Query

end Porthop.Git.Tokens
