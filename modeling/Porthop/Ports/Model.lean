import Mathlib.Data.Char
import Mathlib.Data.List.DropRight
import Mathlib.Data.List.Lex
import Mathlib.Data.Prod.Lex
import Porthop.Agent.Messages
import Porthop.Git.Cli
import Porthop.Lib.Json
import Porthop.Lib.Ordered
import Porthop.Lib.Pattern
import Porthop.Lib.Splits
import Porthop.Ssh.KnownHosts

/- The ports that processes of a server listen at, and whose they are (`ports.rs`). -/
namespace Porthop.Ports

open Agent (isWhitespace)
open Pattern (words)

abbrev Text := List Char

/-- What is known of a process beyond its name. -/
structure Details where
  executable : Option Text := none
  workingDirectory : Option Text := none
  command : Option Text := none
  arguments : List Text := []
  user : Option Text := none
  applicationName : Option Text := none

structure DiscoveredPort extends Details where
  port : Nat
  address : Text
  processName : Option Text := none
  pid : Option Nat := none
  containerName : Option Text := none

/-- The keys of the map, in the order it has them. -/
abbrev Key := Nat ×ₗ Text

def DiscoveredPort.key (p : DiscoveredPort) : Key := toLex (p.port, p.address)

/-- The row that is inserted for a key. -/
def blank (key : Key) : DiscoveredPort where
  port := (ofLex key).1
  address := (ofLex key).2

abbrev Rows := List (Key × DiscoveredPort)

/-! ## Texts -/

/-- `parse::<u16>().ok()` -/
def parseU16 (s : Text) : Option Nat := (Git.Cli.parseUsize s).filter fun n => n < 2 ^ 16

/-- `parse::<u32>().ok()` -/
def parseU32 (s : Text) : Option Nat := (Git.Cli.parseUsize s).filter fun n => n < 2 ^ 32

def rsplitOnce (sep : Char) (s : Text) : Option (Text × Text) :=
  (Splits.splitOnce sep s.reverse).map fun r => (r.2.reverse, r.1.reverse)

def trimMatches (p : Char → Bool) (s : Text) : Text := (s.dropWhile p).rdropWhile p

def bracket (c : Char) : Bool := c == '[' || c == ']'

def trimBrackets (s : Text) : Text := trimMatches bracket s

def trim (s : Text) : Text := trimMatches isWhitespace s

def nonempty (value : Text) : Option Text := if value.isEmpty then none else some value

def detailsMark : Text := "__NEWPORT_PROCESS_DETAILS__\n".toList
def dockerMark : Text := "__NEWPORT_DOCKER_PORTS__\n".toList
def usersMark : Text := "users:((\"".toList
def pidMark : Text := "pid=".toList

/-! ## A listener -/

/-- The process identifier and the name in a field of `netstat`. -/
def slashed (fields : List Text) : Option (Text × Text) :=
  fields.getLast?.bind fun s => Splits.splitOnce '/' s

def nameOf (line : Text) (fields : List Text) : Option Text :=
  ((Pattern.second usersMark line).map fun s => s.takeWhile fun c => c ≠ '"').or
    ((slashed fields).map fun r => r.2)

/-- The number behind the first `pid=`. -/
def pidIn (s : Text) : Option Nat :=
  (Pattern.second pidMark s).bind fun s => parseU32 (s.takeWhile fun c => c.isDigit)

def pidOf (line : Text) (fields : List Text) : Option Nat :=
  (pidIn line).or ((slashed fields).bind fun r => parseU32 r.1)

/-- Both commands put the local address in column four. -/
def localOf (fields : List Text) : Option Key := do
  let field ← fields[3]?
  let (address, port) ← rsplitOnce ':' field
  let port ← (parseU16 port).filter fun p => 0 < p
  return toLex (port, trimBrackets address)

def isListener (line : Text) : Bool := "LISTEN".toList <:+: line

def named (name : Option Text) (pid : Option Nat) (entry : DiscoveredPort) : DiscoveredPort :=
  if entry.processName.isNone && name.isSome then { entry with processName := name, pid := pid }
  else entry

def addListener (rows : Rows) (line : Text) : Rows :=
  let fields := words isWhitespace line
  match localOf fields with
  | none => rows
  | some key =>
    Ordered.alter (fun entry => named (nameOf line fields) (pidOf line fields)
      (entry.getD (blank key))) key rows

/-! ## A container -/

section
variable (ν : Type) [NumText ν]

def asStr : Json ν → Option Text
  | .str s => some s.toList
  | _ => none

/-- The name and the ports of a row. -/
def rowOf (line : Text) : Option (Text × Text) := do
  let row : Json ν ← Json.read line
  let name ← asStr ν (row.index "name")
  let bindings ← asStr ν (row.index "ports")
  return (name, bindings)

/-- The address and the first and last port of a mapping of TCP. -/
def publishedBy (mapping : Text) : Option (Text × Nat × Nat) := do
  let (host, target) ← Pattern.splitOnce "->".toList mapping
  guard ("/tcp".toList <:+ target)
  let (address, published) ← rsplitOnce ':' host
  let (start, stop) := (Splits.splitOnce '-' published).getD (published, published)
  let start ← parseU16 start
  let stop ← parseU16 stop
  guard (start ≠ 0 ∧ start ≤ stop)
  return (trimBrackets address, start, stop)

/-- The keys of a container's published ports, in the order they are entered. -/
def published (bindings : Text) : List Key :=
  ((bindings.splitOn ',').map trim).flatMap fun mapping =>
    match publishedBy mapping with
    | none => []
    | some (address, start, stop) =>
      (List.range' start (stop + 1 - start)).map fun port => toLex (port, address)

def addContainer (rows : Rows) (line : Text) : Rows :=
  match rowOf ν line with
  | none => rows
  | some (name, bindings) =>
    (published bindings).foldl (fun rows key =>
      Ordered.alter (fun entry => { entry.getD (blank key) with containerName := some name })
        key rows) rows

end

/-! ## The details of a process -/

/-- `u8::from_str_radix` of two characters. -/
def byteOf (a b : Char) : Option Nat :=
  if a = '+' then Json.hexVal b
  else do
    let high ← Json.hexVal a
    let low ← Json.hexVal b
    return 16 * high + low

def bytesOf : Text → Option (List UInt8)
  | a :: b :: value => do
    let byte ← byteOf a b
    let bytes ← bytesOf value
    return UInt8.ofNat byte :: bytes
  | _ => some []

/-- Of ASCII characters, which are as many as their bytes. -/
def decodeHex (value : Text) : Option Text :=
  if value.all (fun c => c.toNat < 128) && value.length ≤ 16384 && value.length % 2 == 0 then
    (bytesOf value).map fun bytes => (Utf8.fromUtf8Lossy bytes).toList
  else none

/-- What comes behind the last slash. -/
def lastPart (path : Text) : Text := ((rsplitOnce '/' path).map Prod.snd).getD path

def isNode (executable : Option Text) : Bool :=
  executable == some "node".toList || executable == some "nodejs".toList

/-- What the four fields of a record say. -/
def describe (exe cwd args user : Text) : Details :=
  let executable := nonempty (exe.rdropWhile fun c => c = '\n')
  let workingDirectory := nonempty (cwd.rdropWhile fun c => c = '\n')
  let argv := (args.splitOn (Char.ofNat 0)).filter fun s => !s.isEmpty
  let program := executable.map lastPart
  let node := isNode program
  let vite := node && (argv[1]?).any fun p =>
    "/vite".toList <:+ p || "/vite/bin/vite.js".toList <:+ p
  let runtime := if vite then some "Vite".toList else program
  let project := if node then (workingDirectory.map lastPart).filter fun s => !s.isEmpty else none
  { executable
    workingDirectory
    command := nonempty (List.intercalate [' '] argv)
    arguments := argv
    user := nonempty (trim user)
    applicationName := runtime.map fun name =>
      match project with
      | some project => name ++ " · ".toList ++ project
      | none => name }

/-- The process of a record, and what is said of it. -/
def recordOf (line : Text) : Option (Nat × Details) :=
  match line.splitOn '|' with
  | [pid, exe, cwd, args, user] => do
    let pid ← parseU32 pid
    let exe ← decodeHex exe
    let cwd ← decodeHex cwd
    let args ← decodeHex args
    let user ← decodeHex user
    return (pid, describe exe cwd args user)
  | _ => none

def addDetails (rows : Rows) (line : Text) : Rows :=
  match recordOf line with
  | none => rows
  | some (pid, details) =>
    rows.map fun e => (e.1, if e.2.pid = some pid then { e.2 with toDetails := details } else e.2)

/-! ## All of it -/

def parsePorts (ν : Type) [NumText ν] (output : Text) : List DiscoveredPort :=
  let (output, details) := (Pattern.splitOnce detailsMark output).getD (output, [])
  let (listeners, docker) := (Pattern.splitOnce dockerMark output).getD (output, [])
  let ports := ((Ssh.linesOf listeners).filter isListener).foldl addListener []
  let ports := (Ssh.linesOf docker).foldl (addContainer ν) ports
  let ports := (Ssh.linesOf details).foldl addDetails ports
  ports.map Prod.snd

end Porthop.Ports
