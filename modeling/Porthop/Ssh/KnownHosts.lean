import Porthop.Lib.Glob
import Porthop.Lib.MessagePack
import Porthop.Lib.Splits
import Porthop.Profile.Model

/- The check of a host key against the known hosts of the user and of the system
   (`known_hosts.rs`).

   The reader of a line and of a hashed name is a parameter: it belongs to the library the
   desktop uses. `Reader.Lawful` is what the desktop relies on. -/
namespace Porthop.Ssh

open MessagePack (utf8)
open Profile (Addresses hostValid)

inductive Marker where
  | certAuthority
  | revoked
  deriving DecidableEq

inductive HostPatterns where
  | hashedName (salt hash : List UInt8)
  | patterns (ps : List String)
  deriving DecidableEq

structure Entry (κ : Type) where
  marker : Option Marker
  hostPatterns : HostPatterns
  key : κ
  deriving DecidableEq

/-- The library: what a line is (nothing where it is blank or a comment, and an error where it
    is malformed), how a key is written, and whether a hashed name is that of a host. -/
structure Reader (κ : Type) where
  line : List Char → Option (Except Unit (Entry κ))
  openssh : κ → List Char
  verifies : (salt hash name : List UInt8) → Bool

/-! ## Patterns -/

def asterisk : UInt8 := 42
def questionMark : UInt8 := 63

def toAsciiLowercase (b : UInt8) : UInt8 := if 65 ≤ b ∧ b ≤ 90 then b + 32 else b

def eqIgnoreAsciiCase (a b : UInt8) : Bool := toAsciiLowercase a = toAsciiLowercase b

/-- One symbol of a pattern against one of a value. -/
def wildOne (p v : UInt8) : Bool := p = questionMark || eqIgnoreAsciiCase p v

def wildMany (p : UInt8) : Bool := p = asterisk

def wildcard (pattern value : List UInt8) : Bool := Glob.decides wildOne wildMany pattern value

/-- A negated pattern that matches decides at once. -/
def matchesFrom (host : String) : Bool → List String → Bool
  | matched, [] => matched
  | matched, pattern :: patterns =>
    if pattern.toList.head? = some '!' then
      if wildcard (utf8 (String.ofList pattern.toList.tail)) (utf8 host) then false
      else matchesFrom host matched patterns
    else matchesFrom host (matched || wildcard (utf8 pattern) (utf8 host)) patterns

section
variable {κ : Type} (R : Reader κ)

def matchesHost (patterns : HostPatterns) (host : String) : Bool :=
  match patterns with
  | .hashedName salt hash => R.verifies salt hash (utf8 host)
  | .patterns ps => matchesFrom host false ps

/-! ## The text of a file -/

/-- A line that ended with a line feed, without a carriage return before it. -/
def stripReturn (line : List Char) : List Char :=
  if line.getLast? = some '\r' then line.dropLast else line

/-- The last line may lack its line feed, and then keeps a carriage return. -/
def linesOf (text : List Char) : List (List Char) :=
  (text.splitOn '\n').dropLast.map stripReturn ++
    ((text.splitOn '\n').getLast?.filter fun last => last ≠ []).toList

theorem stripReturn_eq {line : List Char} (h : '\r' ∉ line) : stripReturn line = line :=
  if_neg fun hlast => h (List.mem_of_getLast? hlast)

theorem linesOf_terminated {ls : List (List Char)} (h : ∀ l ∈ ls, '\n' ∉ l) :
    linesOf (Splits.terminated '\n' ls) = ls.map stripReturn := by
  unfold linesOf
  rw [Splits.splitOn_terminated h, List.dropLast_concat, List.getLast?_concat]
  exact List.append_nil _

def entriesOf (text : String) : List (Except Unit (Entry κ)) :=
  (linesOf text.toList).filterMap R.line

variable [DecidableEq κ]

/-- Whether an entry of the host was found, and whether one of them has the key. -/
def inspectFrom (host : String) (key : κ) :
    Bool → Bool → List (Except Unit (Entry κ)) → Except String (Bool × Bool)
  | found, trusted, [] => .ok (found, trusted)
  | found, trusted, entry :: entries =>
    match entry with
    | .error () => .error "Invalid known_hosts entry; file was preserved"
    | .ok e =>
      if !matchesHost R e.hostPatterns host then inspectFrom host key found trusted entries
      else if e.marker = some .revoked then
        if e.key = key then .error s!"The SSH host key for {host} is revoked."
        else inspectFrom host key found trusted entries
      else if e.marker = some .certAuthority then inspectFrom host key true trusted entries
      else inspectFrom host key true (trusted || e.key = key) entries

def inspect (text : String) (host : String) (key : κ) : Except String (Bool × Bool) :=
  inspectFrom R host key false false (entriesOf R text)

/-- The name of a host and a port in the files. -/
def nameOf (host : String) (port : UInt16) : String :=
  let host := host.toLower
  if port = 22 then host
  else String.ofList ('[' :: host.toList ++ ']' :: ':' :: Nat.toDigits 10 port.toNat)

/-- The user's file with one line more. -/
def appended (user name : String) (key : κ) : String :=
  String.ofList (user.toList ++
    (if user.toList ≠ [] ∧ user.toList.getLast? ≠ some '\n' then ['\n'] else []) ++
    (name.toList ++ ' ' :: R.openssh key ++ ['\n']))

/-- The check and the user's file after it. A file that is not there is empty. -/
def verify (host : String) (port : UInt16) (key : κ) (user : String) (system : Option String) :
    Except String Unit × String :=
  let name := nameOf host port
  match system.elim (.ok (false, false)) fun text => inspect R text name key with
  | .error e => (.error e, user)
  | .ok (systemFound, systemTrusted) =>
    match inspect R user name key with
    | .error e => (.error e, user)
    | .ok (found, trusted) =>
      if trusted || systemTrusted then (.ok (), user)
      else if found || systemFound then
        (.error s!"SSH host key changed or requires a certificate for {name}. Verify the server and update known_hosts before reconnecting.", user)
      else (.ok (), appended R user name key)

end

end Porthop.Ssh
