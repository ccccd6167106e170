import Mathlib.Data.List.DropRight
import Mathlib.Logic.Function.Basic
import Porthop.Files.Operations

/- Uploading a file (`upload` in `files/transfer.rs`), as the work of a registered operation.

   The upload sends one request after the other and waits for the answer of each. A request that
   was sent is carried out by the server at any later time, once or not at all, whether or not
   anybody still waits; an answer may be a failure in any case. The work can be dropped wherever it
   waits: its operation is polled, finds that it was cancelled and drops the work.

   `created` and `taken` are records: the file that came to exist by the upload, and what was read
   of the local one. -/
namespace Porthop.Files

open Profile (Uuid)

/-! ## Names -/

def child (parent name : String) : Except String String :=
  if name.isEmpty || name = "." || name = ".." || name.toList.contains '/' || name.toList.contains (Char.ofNat 0) then
    .error "Invalid remote file name"
  else .ok (String.ofList (parent.toList.rdropWhile (· = '/')) ++ "/" ++ name)

def pathValid (path : String) : Except String Unit :=
  if path.isEmpty || 16384 < path.utf8ByteSize || path.toList.contains (Char.ofNat 0) then
    .error "Invalid remote path"
  else .ok ()

/-! ## The server -/

/-- The files of the server: a name stands for a file, and files are numbered. -/
structure Remote where
  names : String → Option Nat
  contents : Nat → List UInt8
  count : Nat
  named : ∀ path file, names path = some file → file < count

inductive Request where
  /-- A new file; an existing name is refused. -/
  | create (path : String)
  | write (handle offset : Nat) (data : List UInt8)
  | close (handle : Nat)
  | rename (old new : String)
  | remove (path : String)
  deriving DecidableEq

/-- Bytes written at an offset. -/
def patch (bytes : List UInt8) (offset : Nat) (data : List UInt8) : List UInt8 :=
  bytes.takeD offset 0 ++ data ++ bytes.drop (offset + data.length)

namespace Remote

/-- A name that was given away stands for what it was given, any other for what it did. -/
theorem update_some {names : String → Option Nat} {path other : String} {v : Option Nat} {file : Nat}
    (h : Function.update names path v other = some file) :
    (other = path ∧ v = some file) ∨ (other ≠ path ∧ names other = some file) := by
  by_cases heq : other = path
  · subst heq
    rw [Function.update_self] at h
    exact Or.inl ⟨rfl, h⟩
  · rw [Function.update_of_ne heq] at h
    exact Or.inr ⟨heq, h⟩

def link (r : Remote) (path : String) (file : Nat) (h : file < r.count) : Remote where
  names := Function.update r.names path (some file)
  contents := r.contents
  count := r.count
  named other f hf := by
    obtain ⟨-, heq⟩ | ⟨-, hold⟩ := update_some hf
    · exact Option.some.inj heq ▸ h
    · exact r.named other f hold

def unlink (r : Remote) (path : String) : Remote where
  names := Function.update r.names path none
  contents := r.contents
  count := r.count
  named other f hf := by
    obtain ⟨-, heq⟩ | ⟨-, hold⟩ := update_some hf
    · cases heq
    · exact r.named other f hold

def fill (r : Remote) (file : Nat) (bytes : List UInt8) : Remote :=
  { r with contents := Function.update r.contents file bytes }

/-- Room for another file. -/
def grow (r : Remote) : Remote :=
  { r with count := r.count + 1, named := fun path file h => Nat.lt_succ_of_lt (r.named path file h) }

/-- What the server does for a request, with the number in its answer. -/
def execute (r : Remote) : Request → Option (Remote × Nat)
  | .create path =>
    if (r.names path).isSome then none
    else some ((r.grow.link path r.count (Nat.lt_succ_self _)).fill r.count [], r.count)
  | .write handle offset data =>
    some (r.fill handle (patch (r.contents handle) offset data), 0)
  | .close _ => some (r, 0)
  | .rename old new =>
    match hold : r.names old with
    | none => none
    | some file =>
      if (r.names new).isSome then none
      else some ((r.unlink old).link new file (r.named old file hold), 0)
  | .remove path => if (r.names path).isSome then some (r.unlink path, 0) else none

end Remote

inductive Fate where
  | sent
  | refused
  | done (answer : Nat)
  deriving DecidableEq

structure Call where
  request : Request
  fate : Fate

/-! ## The upload -/

/-- What an upload is given: the name of the local file, if it is Unicode, the folder, and the
text of the new number in its staging name. `serial` is the number of its registration. -/
structure Upload where
  operation : Uuid
  serial : Nat
  name : Option String
  folder : String
  number : String

inductive Point where
  | unregistered
  | start
  | canonical
  | lstat
  | file
  | metadata
  | creating
  | reading
  | writing (count : Nat)
  | closing
  | moving
  | returned (result : Except String String)
  /-- The work is dropped. -/
  | gone

/-- There is no work. -/
def Point.over : Point → Bool
  | .unregistered | .gone => true
  | _ => false

structure World where
  ops : System
  remote : Remote
  /-- The last request of the upload, and the one of its guard. -/
  current : Option Call
  removal : Option Call
  point : Point
  folder : String
  destination : String
  staging : String
  handle : Nat
  total : Nat
  offset : Nat
  /-- The path of the guard that removes the staging file. -/
  cleanup : Option String
  created : Option Nat
  taken : List UInt8

namespace World

def initial (config : Profile.Config) (remote : Remote) : World where
  ops := Files.initial config
  remote := remote
  current := none
  removal := none
  point := .unregistered
  folder := ""
  destination := ""
  staging := ""
  handle := 0
  total := 0
  offset := 0
  cleanup := none
  created := none
  taken := []

variable (u : Upload) (w : World)

/-- The upload goes on only where its operation is polled. -/
def polled : Bool :=
  w.ops.entries.any fun e => e.id = u.operation && e.serial = u.serial && e.phase = .polling

/-- A step of the operation that the work makes. -/
def move (event : Event) : Option World := (w.ops.step event).map fun ops => { w with ops := ops }

def finish (result : Except String String) : Option World :=
  (w.move (.ready u.operation)).map fun w => { w with point := .returned result }

def request (r : Request) (point : Point) : World :=
  { w with current := some ⟨r, .sent⟩, point := point }

/-- A good answer comes only for what was carried out. -/
def answered : Option Nat :=
  match w.current with
  | some ⟨_, .done answer⟩ => some answer
  | _ => none

def begin : Option World :=
  match u.name with
  | none => w.finish u (.error "File name must be valid Unicode")
  | some _ =>
    match pathValid u.folder with
    | .error error => w.finish u (.error error)
    | .ok _ => some { w with point := .canonical }

def canonical : Except String (Option String) → Option World
  | .error error => w.finish u (.error error)
  | .ok none => w.finish u (.error "Server returned no canonical path")
  | .ok (some folder) =>
    match child folder (u.name.getD "") with
    | .error error => w.finish u (.error error)
    | .ok destination =>
      some { w with point := .lstat, folder := folder, destination := destination }

/-- Whether there is an item at the destination; no other failure is taken for its absence. -/
def lstat : Except String Bool → Option World
  | .error error => w.finish u (.error error)
  | .ok true => w.finish u (.error ("A remote item named " ++ u.name.getD "" ++
      " already exists. Rename your local file before uploading."))
  | .ok false => some { w with point := .file }

def file : Except String Unit → Option World
  | .error error => w.finish u (.error error)
  | .ok _ => some { w with point := .metadata }

/-- Whether the local file is a regular one, and its length. -/
def metadata : Except String (Bool × Nat) → Option World
  | .error error => w.finish u (.error error)
  | .ok (false, _) => w.finish u (.error "Choose a regular file to upload")
  | .ok (true, total) =>
    match child w.folder (".newport-upload-" ++ u.number) with
    | .error error => w.finish u (.error error)
    | .ok staging =>
      some { w.request (.create staging) .creating with staging := staging, total := total }

/-- The guard is there only when the server has answered. -/
def opened : Except String Unit → Option World
  | .error error => w.finish u (.error error)
  | .ok _ =>
    match w.answered with
    | none => none
    | some handle =>
      (w.move (.stage u.operation)).map fun w =>
        { w with handle := handle, offset := 0, cleanup := some w.staging, point := .reading }

def bufferSize : Nat := 32 * 1024

def read : Except String (List UInt8) → Option World
  | .error error => w.finish u (.error error)
  | .ok bytes =>
    if bytes.isEmpty then some (w.request (.close w.handle) .closing)
    else if bytes.length ≤ bufferSize then
      some { w.request (.write w.handle w.offset bytes) (.writing bytes.length) with
        taken := w.taken ++ bytes }
    else none

def written (count : Nat) : Except String Unit → Option World
  | .error error => w.finish u (.error error)
  | .ok _ =>
    if w.answered.isSome then some { w with offset := w.offset + count, point := .reading } else none

def closed : Except String Unit → Option World
  | .error error => w.finish u (.error error)
  | .ok _ =>
    if w.answered.isNone then none
    else if w.offset ≠ w.total then
      w.finish u (.error "Local file changed during upload. Please try again.")
    else some (w.request (.rename w.staging w.destination) .moving)

def renamed : Except String Unit → Option World
  | .error error =>
    w.finish u (.error ("Could not finish upload; destination may already exist: " ++ error))
  | .ok _ =>
    if w.answered.isNone then none
    else
      (w.move (.publish u.operation)).bind fun w =>
        { w with cleanup := none }.finish u (.ok w.destination)

/-! ## Everything else -/

/-- The server carries the request of the upload out, or refuses it. -/
def carry (accept : Bool) : Option World :=
  match w.current with
  | some ⟨r, .sent⟩ =>
    if accept then
      (w.remote.execute r).map fun done =>
        { w with
          remote := done.1
          current := some ⟨r, .done done.2⟩
          created := match r with
            | .create _ => some done.2
            | _ => w.created }
    else some { w with current := some ⟨r, .refused⟩ }
  | _ => none

/-- The same for the request of the guard. -/
def carryRemoval (accept : Bool) : Option World :=
  match w.removal with
  | some ⟨r, .sent⟩ =>
    if accept then
      (w.remote.execute r).map fun done =>
        { w with remote := done.1, removal := some ⟨r, .done done.2⟩ }
    else some { w with removal := some ⟨r, .refused⟩ }
  | _ => none

/-- Others leave the staging name and the file that has it alone. -/
def foreign : Request → Bool
  | .create path => path ≠ w.staging
  | .write handle _ _ => w.remote.names w.staging ≠ some handle
  | .close _ => true
  | .rename old new => old ≠ w.staging && new ≠ w.staging
  | .remove path => path ≠ w.staging

def others (r : Request) : Option World :=
  if w.foreign r then (w.remote.execute r).map fun done => { w with remote := done.1 } else none

/-- The task of the guard sends its request, once. -/
def clean (n : Nat) : Option World :=
  match w.point, w.cleanup, w.removal with
  | .gone, some path, none =>
    if w.ops.tasks[n]?.any fun task => task.owner = u.serial && !task.finished then
      some { w with removal := some ⟨.remove path, .sent⟩ }
    else none
  | _, _, _ => none

/-- What only the work of the operation does. -/
def ofWork (id : Uuid) : Event → Bool
  | .ready other | .stage other | .publish other => other = id
  | _ => false

/-- The registration of this upload starts it; where its work is dropped, it is gone. -/
def nextPoint (event : Event) (ops : System) : Point :=
  match event with
  | .register _ id =>
    match w.point with
    | .unregistered =>
      if id = u.operation ∧ w.ops.serials = u.serial ∧ ops.serials ≠ u.serial then .start
      else .unregistered
    | point => point
  | .dropWork id => if id = u.operation && !w.point.over then .gone else w.point
  | _ => w.point

def registry (event : Event) : Option World :=
  if !w.point.over && ofWork u.operation event then none
  else
    (w.ops.step event).map fun ops => { w with ops := ops, point := w.nextPoint u event ops }

end World

inductive Move where
  | registry (event : Event)
  | others (request : Request)
  | carry (accept : Bool)
  | carryRemoval (accept : Bool)
  | clean (task : Nat)
  | begin
  | canonical (answer : Except String (Option String))
  | lstat (answer : Except String Bool)
  | file (answer : Except String Unit)
  | metadata (answer : Except String (Bool × Nat))
  | opened (answer : Except String Unit)
  | read (answer : Except String (List UInt8))
  | written (answer : Except String Unit)
  | closed (answer : Except String Unit)
  | renamed (answer : Except String Unit)

namespace World

/-- A step of the upload itself. -/
def work (u : Upload) (w : World) : Move → Option World
  | .begin => match w.point with | .start => w.begin u | _ => none
  | .canonical answer => match w.point with | .canonical => w.canonical u answer | _ => none
  | .lstat answer => match w.point with | .lstat => w.lstat u answer | _ => none
  | .file answer => match w.point with | .file => w.file u answer | _ => none
  | .metadata answer => match w.point with | .metadata => w.metadata u answer | _ => none
  | .opened answer => match w.point with | .creating => w.opened u answer | _ => none
  | .read answer => match w.point with | .reading => w.read u answer | _ => none
  | .written answer => match w.point with | .writing count => w.written u count answer | _ => none
  | .closed answer => match w.point with | .closing => w.closed u answer | _ => none
  | .renamed answer => match w.point with | .moving => w.renamed u answer | _ => none
  | _ => none

def step (u : Upload) (w : World) : Move → Option World
  | .registry event => w.registry u event
  | .others request => w.others request
  | .carry accept => w.carry accept
  | .carryRemoval accept => w.carryRemoval accept
  | .clean task => w.clean u task
  | move => if w.polled u then w.work u move else none

end World

end Porthop.Files
