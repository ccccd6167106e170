import Porthop.Lib.Lists
import Porthop.Lib.Run

/- The terminal of a view and its native sessions (`session.ts`, `terminal.rs`, and in `ssh.rs`
   the loops of `terminal`).

   A session has the number of its call of `connect`, which stands for its random id. A call from
   the view to the native side is sent, answered some time later, and then the view goes on. Each
   is a step, and so is what a native task does: it takes an input when the one before it is
   written, and writes as much of it as the remote side takes. A task that is aborted ends at
   once. The entries of other terminals are counted only. -/
namespace Porthop.Terminal

abbrev Bytes := List UInt8

inductive Input where
  | data (bytes : Bytes)
  | resize (cols rows : Nat)

/-- What a native session tells. -/
inductive Output where
  | ready
  | data (bytes : Bytes)
  | exit (code : Option Nat)
  | error (text : String)

inductive Call where
  | sent
  | answered (r : Except String Unit)

/-- A call that reads has to wait for the output. -/
inductive Reading where
  | sent
  | receiving
  | answered (r : Except String (Option Output))

/-- A native session, `listed` while it has its place among the sessions. -/
structure Native where
  listed : Bool
  running : Bool
  started : Bool
  input : List Input
  /-- What is left of the input that is being written. -/
  writing : Option Bytes
  output : List Output
  /-- What has been written to the channel, and what the shell has put out. -/
  written : Bytes
  emitted : Bytes

/-- What was typed at once: its size, what has not been sent, and the chunk that is. -/
structure Send where
  length : Nat
  rest : Bytes
  call : Option (Bytes × Call)

/-- Where `connect` waits. -/
inductive Stage where
  | draining (write : Nat)
  | loading
  | opening (cols rows : Nat) (call : Call)
  | reading (call : Reading)
  | resizing (cols rows : Nat) (call : Call)
  | writing (write : Nat)
  | closing (call : Call)
  | returned

structure Session where
  ready : Bool
  queued : Nat
  writes : List Send
  stage : Stage
  native : Option Native
  /-- What was typed into the session. -/
  typed : Bytes

/-- A resize that the view sent on its own. -/
structure Resize where
  session : Nat
  cols : Nat
  rows : Nat
  call : Call

inductive Shown where
  | reset (session : Nat)
  | write (session : Nat) (bytes : Bytes)

structure State where
  sessions : List Session
  session : Option Nat
  /-- How many pieces of output were given to the screen, and how many of them are parsed. -/
  started : Nat
  finished : Nat
  disposed : Bool
  cols : Nat
  rows : Nat
  lastSize : Option (Nat × Nat)
  /-- The calls that `disconnect` sent and that no one waits for. -/
  closes : List Nat
  resizes : List Resize
  others : Nat
  screen : List Shown

inductive TaskEvent where
  | ready
  | output (bytes : Bytes)
  | take
  | wrote (k : Nat)
  | exit (code : Option Nat)
  | fail (text : String)

inductive Event where
  | connect
  | disconnect
  | dispose
  | send (bytes : Bytes)
  | resize (cols rows : Nat)
  /-- What a session waits for is settled, and `connect` or the chain of its writes goes on. -/
  | resume (n : Nat)
  | loaded (n : Nat) (r : Except String Unit)
  | chain (n : Nat)
  | parsed
  | resized (i : Nat)
  | serveOpen (n : Nat) (server : Except String Unit)
  | serveRead (n : Nat)
  | receive (n : Nat)
  | idle (n : Nat)
  | serveResize (n : Nat)
  | serveWrite (n : Nat)
  | serveClose (n : Nat)
  | serveDisconnect (i : Nat)
  | serveResized (i : Nat)
  | closeServer (n : Nat)
  | task (n : Nat) (e : TaskEvent)
  | others (count : Nat)

/-- How many bytes may wait in the view, and how many go at once. -/
def limit : Nat := 1024 * 1024

def chunkSize : Nat := 4096

/-- How many inputs and how much output a native session keeps, and how many there may be. -/
def capacity : Nat := 32

def places : Nat := 8

def closed : String := "Terminal is closed."

def busy : String := "Terminal input is busy or disconnected. Reconnect if needed."

/-! ## The native side -/

def size (cols rows : Nat) : Except String Unit :=
  if 2 ≤ cols ∧ cols ≤ 500 ∧ 1 ≤ rows ∧ rows ≤ 300 then .ok ()
  else .error "Invalid terminal dimensions."

namespace Native

def new : Native := ⟨true, true, false, [], none, [], [], []⟩

def send (v : Native) (input : Input) : Except String Unit × Native :=
  if !v.listed then (.error closed, v)
  else if v.running ∧ v.input.length < capacity then
    (.ok (), { v with input := v.input ++ [input] })
  else (.error busy, v)

/-- The task is aborted, and the place is free. -/
def close (v : Native) : Native := { v with listed := false, running := false }

/-- The output has room. -/
def room (v : Native) : Bool := v.output.length < capacity

def tell (v : Native) (o : Output) : Native := { v with output := v.output ++ [o] }

def task (v : Native) : TaskEvent → Option Native
  | .ready => if v.running && !v.started && v.room then some { v.tell .ready with started := true }
    else none
  | .output bytes =>
    if v.running && v.started && v.room then
      some { v.tell (.data bytes) with emitted := v.emitted ++ bytes }
    else none
  | .take =>
    if v.running && v.started then
      match v.writing, v.input with
      | none, .data bytes :: input => some { v with input := input, writing := some bytes }
      | none, .resize _ _ :: input => some { v with input := input }
      | _, _ => none
    else none
  | .wrote k =>
    match v.running, v.writing with
    | true, some bytes => some { v with
        written := v.written ++ bytes.take k
        writing := if (bytes.drop k).isEmpty then none else some (bytes.drop k) }
    | _, _ => none
  | .exit code =>
    if v.running && v.started && v.room then some { v.tell (.exit code) with running := false }
    else none
  | .fail text =>
    if v.running && v.room then some { v.tell (.error text) with running := false } else none

end Native

/-- A call that puts an input into the queue of a session. -/
def sendTo (native : Option Native) (input : Input) : Except String Unit × Option Native :=
  match native with
  | none => (.error closed, none)
  | some v => ((v.send input).1, some (v.send input).2)

def terminalWrite (native : Option Native) (bytes : Bytes) : Except String Unit × Option Native :=
  if bytes.length > 65536 then (.error "Terminal input is too large.", native)
  else sendTo native (.data bytes)

def terminalResize (native : Option Native) (cols rows : Nat) :
    Except String Unit × Option Native :=
  match size cols rows with
  | .error e => (.error e, native)
  | .ok () => sendTo native (.resize cols rows)

/-! ## The view -/

def Session.new (write : Nat) : Session := ⟨false, 0, [], .draining write, none, []⟩

/-- The last of the writes has ended. -/
def Session.settle (x : Session) : Session :=
  match x.writes with
  | [] => x
  | w :: writes => { x with writes := writes, queued := x.queued - w.length }

namespace State

def put (s : State) (n : Nat) (x : Session) : State := { s with sessions := s.sessions.set n x }

def listed (s : State) : Nat :=
  (s.sessions.filter fun x => x.native.any Native.listed).length + s.others

def disconnect (s : State) : State :=
  match s.session with
  | none => s
  | some n => { s with session := none, closes := s.closes ++ [n] }

def failed (s : State) (n : Nat) : State := if s.session = some n then s.disconnect else s

def dispose (s : State) : State :=
  if s.disposed then s
  else { s.disconnect with disposed := true, finished := s.started }

def send (s : State) (bytes : Bytes) : State :=
  match s.session with
  | none => s
  | some n =>
    match s.sessions[n]? with
    | none => s
    | some x =>
      if !x.ready then s
      else if x.queued + bytes.length > limit then s.failed n
      else s.put n { x with
        queued := x.queued + bytes.length
        writes := x.writes ++ [⟨bytes.length, bytes, none⟩]
        typed := x.typed ++ bytes }

def resize (s : State) (cols rows : Nat) : State :=
  let s := { s with cols := cols, rows := rows }
  match s.session with
  | none => s
  | some n =>
    if (s.sessions[n]?).any Session.ready && s.lastSize ≠ some (cols, rows) then
      { s with lastSize := some (cols, rows), resizes := s.resizes ++ [⟨n, cols, rows, .sent⟩] }
    else s

/-- The chain of the writes of a session goes on. -/
def chain (s : State) (n : Nat) (x : Session) : Option State :=
  match x.writes with
  | [] => none
  | w :: writes =>
    match w.call with
    | none =>
      if w.rest = [] ∨ s.session ≠ some n then some (s.put n x.settle)
      else
        let w' := ⟨w.length, w.rest.drop chunkSize, some (w.rest.take chunkSize, .sent)⟩
        some (s.put n { x with writes := w' :: writes })
    | some (_, .sent) => none
    | some (_, .answered (.ok ())) =>
      some (s.put n { x with writes := { w with call := none } :: writes })
    | some (_, .answered (.error _)) => some ((s.failed n).put n x.settle)

def connect (s : State) : State :=
  if s.disposed || s.session.isSome then s
  else { s with
    sessions := s.sessions ++ [.new s.started]
    session := some s.sessions.length
    lastSize := none }

/-- `connect` ends: the session is none any more, and is closed. -/
def finish (s : State) (n : Nat) (x : Session) : State :=
  { s with session := if s.session = some n then none else s.session }.put n
    { x with stage := .closing .sent }

/-- The loop reads as long as the session is the one of the view. -/
def loop (s : State) (n : Nat) (x : Session) : State :=
  if s.session = some n then s.put n { x with stage := .reading .sent } else s.finish n x

/-- An event that was read. -/
def handle (s : State) (n : Nat) (x : Session) : Option Output → State
  | none => s.loop n x
  | some .ready => s.put n { x with ready := true, stage := .resizing s.cols s.rows .sent }
  | some (.data bytes) => { s with
      started := s.started + 1
      screen := s.screen ++ [Shown.write n bytes] }.put n
    { x with stage := .writing (s.started + 1) }
  | some (.exit _) | some (.error _) => s.finish n x

def resume (s : State) (n : Nat) (x : Session) : Option State :=
  match x.stage with
  | .draining write =>
    if s.finished < write then none
    else if s.session ≠ some n then some (s.finish n x)
    else some ({ s with screen := s.screen ++ [Shown.reset n] }.put n { x with stage := .loading })
  | .opening _ _ (.answered r) | .resizing _ _ (.answered r) =>
    match r with
    | .ok () => some (s.loop n x)
    | .error _ => some (s.finish n x)
  | .reading (.answered r) =>
    match r with
    | .ok o => if s.session = some n then some (s.handle n x o) else some (s.finish n x)
    | .error _ => some (s.finish n x)
  | .writing write => if s.finished < write then none else some (s.loop n x)
  | .closing (.answered _) => some (s.put n { x with stage := .returned })
  | _ => none

/-- The font of the prompt is loaded. -/
def loaded (s : State) (n : Nat) (x : Session) (r : Except String Unit) : Option State :=
  match x.stage, r with
  | .loading, .ok () =>
    if s.session = some n then some (s.put n { x with stage := .opening s.cols s.rows .sent })
    else some (s.finish n x)
  | .loading, .error _ => some (s.finish n x)
  | _, _ => none

/-! ## Calls -/

def serveOpen (s : State) (n : Nat) (x : Session) (server : Except String Unit) : Option State :=
  match x.stage with
  | .opening cols rows .sent =>
    let answer := fun (r : Except String Unit) (native : Option Native) =>
      some (s.put n { x with stage := .opening cols rows (.answered r), native := native })
    match server, size cols rows with
    | .error e, _ => answer (.error e) x.native
    | .ok (), .error e => answer (.error e) x.native
    | .ok (), .ok () =>
      if x.native.any Native.listed then answer (.error "Terminal session already exists.") x.native
      else if s.listed ≥ places then
        answer (.error "Close an existing terminal before opening another.") x.native
      else answer (.ok ()) (some .new)
  | _ => none

def serveRead (s : State) (n : Nat) (x : Session) : Option State :=
  match x.stage with
  | .reading .sent =>
    if x.native.any Native.listed then some (s.put n { x with stage := .reading .receiving })
    else some (s.put n { x with stage := .reading (.answered (.error closed)) })
  | _ => none

def receive (s : State) (n : Nat) (x : Session) : Option State :=
  match x.stage, x.native with
  | .reading .receiving, some v =>
    match v.output with
    | o :: output => some (s.put n { x with
        stage := .reading (.answered (.ok (some o))), native := some { v with output := output } })
    | [] =>
      if v.running then none
      else some (s.put n { x with stage := .reading (.answered (.ok (some (.exit none)))) })
  | _, _ => none

/-- Nothing came while the read waited. -/
def idle (s : State) (n : Nat) (x : Session) : Option State :=
  match x.stage, x.native with
  | .reading .receiving, some v =>
    if v.output.isEmpty then some (s.put n { x with stage := .reading (.answered (.ok none)) })
    else none
  | _, _ => none

def serveResize (s : State) (n : Nat) (x : Session) : Option State :=
  match x.stage with
  | .resizing cols rows .sent =>
    let r := terminalResize x.native cols rows
    some (s.put n { x with stage := .resizing cols rows (.answered r.1), native := r.2 })
  | _ => none

def serveWrite (s : State) (n : Nat) (x : Session) : Option State :=
  match x.writes with
  | w :: writes =>
    match w.call with
    | some (bytes, .sent) =>
      let r := terminalWrite x.native bytes
      some (s.put n { x with
        writes := { w with call := some (bytes, .answered r.1) } :: writes
        native := r.2 })
    | _ => none
  | [] => none

def closeNative (s : State) (n : Nat) (x : Session) : State :=
  s.put n { x with native := x.native.map Native.close }

def serveClose (s : State) (n : Nat) (x : Session) : Option State :=
  match x.stage with
  | .closing .sent => some (s.closeNative n { x with stage := .closing (.answered (.ok ())) })
  | _ => none

def serveResized (s : State) (i : Nat) (call : Resize) (x : Session) : Option State :=
  match call.call with
  | .sent =>
    let r := terminalResize x.native call.cols call.rows
    some ({ s with resizes := s.resizes.set i { call with call := .answered r.1 } }.put call.session
      { x with native := r.2 })
  | .answered _ => none

def resized (s : State) (i : Nat) (call : Resize) : Option State :=
  match call.call with
  | .sent => none
  | .answered r =>
    let s := { s with resizes := s.resizes.eraseIdx i }
    match r with
    | .ok () => some s
    | .error _ => some (s.failed call.session)

/-! ## Steps -/

def step (s : State) : Event → Option State
  | .connect => some s.connect
  | .disconnect => some s.disconnect
  | .dispose => some s.dispose
  | .send bytes => some (s.send bytes)
  | .resize cols rows => some (s.resize cols rows)
  | .resume n => (s.sessions[n]?).bind (s.resume n)
  | .loaded n r => (s.sessions[n]?).bind fun x => s.loaded n x r
  | .chain n => (s.sessions[n]?).bind (s.chain n)
  | .parsed => some { s with finished := s.started }
  | .resized i => (s.resizes[i]?).bind (s.resized i)
  | .serveOpen n server => (s.sessions[n]?).bind fun x => s.serveOpen n x server
  | .serveRead n => (s.sessions[n]?).bind (s.serveRead n)
  | .receive n => (s.sessions[n]?).bind (s.receive n)
  | .idle n => (s.sessions[n]?).bind (s.idle n)
  | .serveResize n => (s.sessions[n]?).bind (s.serveResize n)
  | .serveWrite n => (s.sessions[n]?).bind (s.serveWrite n)
  | .serveClose n => (s.sessions[n]?).bind (s.serveClose n)
  | .serveDisconnect i => (s.closes[i]?).bind fun n => (s.sessions[n]?).map fun x =>
    { s with closes := s.closes.eraseIdx i }.closeNative n x
  | .serveResized i => (s.resizes[i]?).bind fun call =>
    (s.sessions[call.session]?).bind (s.serveResized i call)
  | .closeServer n => (s.sessions[n]?).map (s.closeNative n)
  | .task n e => (s.sessions[n]?).bind fun x => x.native.bind fun v => (v.task e).map fun v =>
    s.put n { x with native := some v }
  | .others count => some { s with others := count }

/-- A terminal that was not connected yet. -/
def initial (cols rows : Nat) : State := ⟨[], none, 0, 0, false, cols, rows, none, [], [], 0, []⟩

end State

end Porthop.Terminal
