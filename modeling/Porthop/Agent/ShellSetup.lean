import Mathlib.Data.List.DropRight
import Porthop.Lib.Dialogue
import Porthop.Lib.Inclusive
import Porthop.Lib.MessagePack

/- The agent's block in a shell's start-up file (`shell_setup.rs`).

   A text is its UTF-8 bytes, as the offsets into it count them. -/
namespace Porthop.Agent.ShellSetup

open MessagePack (utf8)
open Inclusive (splitInclusive)

abbrev Text := List UInt8

def START : String := "# >>> Newport >>>"
def END : String := "# <<< Newport <<<"

inductive ErrorKind where
  | notFound
  | permissionDenied
  | other
  deriving DecidableEq

/-- `io::Error` -/
structure IoError where
  kind : ErrorKind
  message : String
  deriving DecidableEq

namespace IoError

def other (message : String) : IoError := ⟨.other, message⟩

end IoError

/-! ## The text -/

def newline : UInt8 := 10
def carriage : UInt8 := 13

def block (fish : Bool) : Text :=
  let body :=
    if fish then
      "if test -x \"$HOME/.local/bin/newport-agent\"\n    " ++
        "if set -l _newport_env " ++
        "(\"$HOME/.local/bin/newport-agent\" env --shell fish 2>/dev/null)\n        " ++
        "eval (string join \\n -- $_newport_env | string collect)\n    end\nend"
    else
      "if [ -x \"$HOME/.local/bin/newport-agent\" ]; then\n    " ++
        "if _newport_env=$(\"$HOME/.local/bin/newport-agent\" env 2>/dev/null); then\n        " ++
        "eval \"$_newport_env\"\n    fi\n    unset _newport_env\nfi"
  utf8 (START ++ "\n" ++ body ++ "\n" ++ END ++ "\n")

/-- `migration::shell_start` -/
def shellStart (line : Text) : Bool :=
  line == utf8 "# >>> Newport >>>" || line == utf8 "# >>> Porthop >>>"

/-- `migration::shell_end` -/
def shellEnd (line : Text) : Bool :=
  line == utf8 "# <<< Newport <<<" || line == utf8 "# <<< Porthop <<<"

/-- `line.trim_end_matches(['\r', '\n'])` -/
def trimEnd (line : Text) : Text := line.rdropWhile fun b => b == carriage || b == newline

def lines (text : Text) : List Text := splitInclusive (fun b => b == newline) text

/-- The variables of the loop over the lines. -/
structure Marks where
  starts : List Nat := []
  ends : List Nat := []
  offset : Nat := 0

def Marks.next (m : Marks) (line : Text) : Marks :=
  let length := line.length
  let line := trimEnd line
  if shellStart line then { m with starts := m.starts ++ [m.offset], offset := m.offset + length }
  else if shellEnd line then
    { m with ends := m.ends ++ [m.offset + length], offset := m.offset + length }
  else { m with offset := m.offset + length }

def marks (original : Text) : Marks := (lines original).foldl Marks.next {}

def merge (original block : Text) : Except IoError Text :=
  match (marks original).starts, (marks original).ends with
  | [], [] =>
    .ok (original ++
      (if original.isEmpty || original.getLast? == some newline then [] else [newline]) ++ block)
  | [start], [stop] =>
    if start < stop then .ok (original.take start ++ block ++ original.drop stop)
    else .error (.other
      "Newport shell markers are incomplete or duplicated; leaving file unchanged")
  | _, _ => .error (.other
      "Newport shell markers are incomplete or duplicated; leaving file unchanged")

/-! ## The file -/

/-- What is read of a file's metadata; the mode holds the permissions. -/
structure Metadata where
  isFile : Bool
  uid : Nat
  ino : Nat
  mode : Nat
  deriving DecidableEq

/-- The file to patch: how it is printed, its name and the directory it is in. -/
structure Path where
  display : String
  fileName : String
  parent : Option String

/-- What is asked of the system: about the file itself, the backup and the file that is to
    replace it. -/
inductive Ask where
  | symlinkMetadata
  | openToWrite
  | readToString
  | createDirAll (dir : String)
  | backupIn (dir before : String)
  | backupWrite (text : Text)
  | backupSync
  | backupKeep
  | fileIn (dir : String)
  | filePermissions (mode : Nat)
  | fileWrite (text : Text)
  | fileSync
  | persist
  deriving DecidableEq

namespace Ask

abbrev Value : Ask → Type
  | symlinkMetadata => Metadata
  | readToString => Text
  | _ => Unit

abbrev Reply (q : Ask) : Type := Except IoError q.Value

end Ask

abbrev Action := ExceptT IoError (Dialogue Ask Ask.Reply)

/-- `request?` -/
def ask (q : Ask) : Action q.Value := Dialogue.ask q Dialogue.done

/-- The answer, an error too. -/
def attempt (q : Ask) : Action (Except IoError q.Value) :=
  Dialogue.ask q fun r => Dialogue.done (.ok r)

def ofExcept {α : Type} : Except IoError α → Action α
  | .ok a => pure a
  | .error e => throw e

/-- What is at the path, unless it is no file of this account. -/
def find (path : Path) (euid : Nat) : Action (Option Metadata) := do
  match ← attempt .symlinkMetadata with
  | .ok m =>
    if m.isFile && m.uid == euid then pure (some m)
    else throw (.other (path.display ++ " is not a regular file owned by this account"))
  | .error e => if e.kind = .notFound then pure none else throw e

/-- Whether it may be written to. -/
def writable (path : Path) : Option Metadata → Action Unit
  | none => pure ()
  | some m =>
    if m.mode &&& 0o200 = 0 then
      throw ⟨.permissionDenied, path.display ++ " is read-only; leaving it unchanged"⟩
    else ask .openToWrite

def content : Option Metadata → Action Text
  | some _ => ask .readToString
  | none => pure []

def backUp (path : Path) (parent : String) (original : Text) : Option Metadata → Action Unit
  | none => pure ()
  | some _ => do
    let _ ← ask (.backupIn parent (path.fileName ++ ".newport-backup-"))
    let _ ← ask (.backupWrite original)
    let _ ← ask .backupSync
    ask .backupKeep

def prepare (parent : String) (metadata : Option Metadata) (updated : Text) : Action Unit := do
  let _ ← ask (.fileIn parent)
  let _ ← ask (.filePermissions ((metadata.map fun m => m.mode).getD 0o600))
  let _ ← ask (.fileWrite updated)
  ask .fileSync

def changed : IoError := .other "Shell configuration changed during setup; try again"

/-- The file is still the one that was read. -/
def recheck (metadata : Option Metadata) (original : Text) : Action Unit := do
  match metadata, ← attempt .symlinkMetadata with
  | some before, .ok after =>
    if after.isFile && before.ino == after.ino && before.mode == after.mode &&
        before.uid == after.uid then
      let now : Text ← ask .readToString
      if now = original then ask .openToWrite else throw changed
    else throw changed
  | none, .error e => if e.kind = .notFound then pure () else throw changed
  | _, _ => throw changed

def stage (path : Path) (parent : String) (metadata : Option Metadata) (original updated : Text) :
    Action Unit := do
  let _ ← ask (.createDirAll parent)
  backUp path parent original metadata
  prepare parent metadata updated
  recheck metadata original

def replace (path : Path) (metadata : Option Metadata) (original updated : Text) : Action Unit :=
  match path.parent with
  | none => throw (.other "Missing shell directory")
  | some parent => do
    stage path parent metadata original updated
    ask .persist

def patch (path : Path) (euid : Nat) (fish : Bool) : Action Unit := do
  let metadata ← find path euid
  writable path metadata
  let original ← content metadata
  let updated ← ofExcept (merge original (block fish))
  if updated = original then pure () else replace path metadata original updated

end Porthop.Agent.ShellSetup
