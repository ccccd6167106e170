import Porthop.Clipboard.Demand
import Porthop.Lib.Run

/- An integration session: the loop of the agent (`tools/agent/src/agent.rs`, `browser.rs`) and
   the loop of the desktop (`clipboard.rs`, `src-tauri/src/agent.rs`), with a channel of frames
   in each direction that keeps their order and delays them as it likes.

   A step is one part of the agent's turn, a program that reads the clipboard, or one branch of
   the desktop's loop. While the desktop waits for an answer it takes frames of the other kinds,
   and defers the clipboard requests among them. Requests are numbered so that an answer can
   be told from another. -/
namespace Porthop.Sharing
open Clipboard

/-! ## Frames -/

inductive ToAgent where
  /-- `M`, the `n`-th request of the desktop. -/
  | offer (offer : Offer) (n : Nat)
  /-- `H`. -/
  | heartbeat (n : Nat)
  /-- `B`. -/
  | browser (id : Nat) (success : Bool)
  /-- `D`. -/
  | reply (reply : Reply)
  /-- `Q`. -/
  | quit

inductive ToDesktop where
  /-- `A`, to the request with the number. -/
  | answer (n : Nat)
  /-- `C`. -/
  | clip (request : Request)
  /-- `O`. -/
  | browse (id : Nat) (url : String)
  /-- `E` or `T`. -/
  | error (message : String)

@[simp] def ToAgent.request : ToAgent → Option Nat
  | .offer _ n | .heartbeat n => some n
  | _ => none

@[simp] def ToDesktop.answered : ToDesktop → Option Nat
  | .answer n => some n
  | _ => none

@[simp] def ToDesktop.asked : ToDesktop → Option Request
  | .clip q => some q
  | _ => none

/-! ## The agent -/

structure Broker where
  enabled : Bool
  requestId : Nat
  lastOpen : Option Nat
  /-- The id of the request that is open, and since when. -/
  pending : Option (Nat × Nat)

namespace Broker

def expire (b : Broker) (now : Nat) : Broker :=
  { b with pending := b.pending.filter fun p => now - p.2 ≤ 20000 }

def reply (b : Broker) (id : Nat) : Broker :=
  { b with pending := b.pending.filter fun p => p.1 ≠ id }

/-- A program may ask for a page, and is refused while another one waits. -/
def poll (b : Broker) (request : Option String) (now : Nat) : Broker × Option (Nat × String) :=
  match request with
  | some url =>
    if b.enabled ∧ b.pending.isNone ∧ b.lastOpen.all fun opened => now - opened ≥ 1000 then
      ({ b with requestId := b.requestId + 1, lastOpen := some now,
                pending := some (b.requestId + 1, now) }, some (b.requestId + 1, url))
    else (b, none)
  | none => (b, none)

end Broker

/-- What the agent does next in its turn. -/
inductive Turn where
  | frame
  | poll
  | browse
  deriving DecidableEq

/-! ## The desktop -/

inductive Outcome where
  /-- "Unexpected agent event.", after which the desktop does not connect again. -/
  | unexpected
  | failed (message : String)
  | closed
  deriving DecidableEq

/-- The most clipboard requests that are deferred. -/
def maxDeferred : Nat := 8

structure Sys where
  /-- What the session was started with. -/
  clipboard : Bool
  store : Store
  broker : Broker
  turn : Turn
  agentEnded : Bool
  toAgent : List ToAgent
  toDesktop : List ToDesktop
  /-- The number of the request that waits for its answer. -/
  waiting : Option Nat
  deferred : List Request
  reading : List Request
  jobs : List Job
  outcome : Option Outcome
  -- what has happened: requests made, their answers, clipboard requests sent and handled, and
  -- whether the agent refused a frame
  requests : Nat
  answers : List (Nat × Nat)
  polled : List Request
  handled : List Request
  refused : Bool

def Sys.start (clipboard browser : Bool) : Sys :=
  ⟨clipboard, .new, ⟨browser, 0, none, none⟩, .frame, false, [], [], none, [], [], [], none, 0, [],
    [], [], false⟩

inductive Event where
  /-- A program on the server reads the clipboard. -/
  | get (revision : Int) (format : String) (now : Nat) (expired : Bool)
  /-- The agent takes a frame, or none comes. -/
  | frame (taken : Bool) (now : Nat)
  | poll (now : Nat)
  | browse (request : Option String) (now : Nat)
  /-- The agent or the connection fails. -/
  | agentFails (message : String)
  /-- The desktop takes a frame; whether a page it asks for opens. -/
  | event (opened : Bool)
  | offer (offer : Offer)
  | heartbeat
  | read (i : Nat) (platform : Platform) (content : Option Bytes)
  | turn (current : Option Int)
  /-- The session is cancelled, or a wait takes too long. -/
  | stop

namespace Sys

variable (Z : Zlib) (s : Sys)

/-- The agent ends with an error that it reports. -/
def agentError (message : String) : Sys :=
  { s with agentEnded := true, toDesktop := s.toDesktop ++ [.error message] }

def unsupported : Sys := { s.agentError "unsupported agent message" with refused := true }

/-- The agent handles a frame. -/
def handle (now : Nat) : ToAgent → Sys
  | .offer offer n =>
    if s.clipboard then
      { s with store := s.store.update offer, toDesktop := s.toDesktop ++ [.answer n] }
    else s.unsupported
  | .reply r =>
    if s.clipboard then { s with store := (s.store.reply (decompressChunk Z) r now).1 }
    else s.unsupported
  | .heartbeat n => { s with toDesktop := s.toDesktop ++ [.answer n] }
  | .browser id _ => if s.broker.enabled then { s with broker := s.broker.reply id } else s.unsupported
  | .quit => { s with agentEnded := true }

/-- The session of the desktop is over. -/
def finish (outcome : Outcome) : Sys :=
  { s with outcome := some outcome, reading := [], jobs := [], toAgent := s.toAgent ++ [.quit] }

/-- The page is opened or not, and the agent told. -/
def openPage (id : Nat) (opened : Bool) : Sys := { s with toAgent := s.toAgent ++ [.browser id opened] }

/-- A clipboard request in the loop. -/
def take (q : Request) : Sys :=
  if s.clipboard then
    if s.reading.length + s.jobs.length ≥ maxReads then
      { s with handled := s.handled ++ [q], toAgent := s.toAgent ++ [.reply (busy q)] }
    else { s with handled := s.handled ++ [q], reading := s.reading ++ [q] }
  else s.finish .unexpected

/-- A frame in the loop. -/
def loopEvent (opened : Bool) : ToDesktop → Sys
  | .browse id _ => s.openPage id opened
  | .clip q => s.take q
  | .answer _ => s.finish .unexpected
  | .error message => s.finish (.failed message)

/-- A frame while request `n` waits for its answer. -/
def requestEvent (n : Nat) (opened : Bool) : ToDesktop → Sys
  | .answer m => { s with waiting := none, answers := s.answers ++ [(n, m)] }
  | .browse id _ => s.openPage id opened
  | .clip q =>
    if s.deferred.length < maxDeferred then { s with deferred := s.deferred ++ [q] }
    else s.finish .unexpected
  | .error message => s.finish (.failed message)

/-- A new request. -/
def ask (frame : ToAgent) : Sys :=
  { s with requests := s.requests + 1, waiting := some (s.requests + 1), toAgent := s.toAgent ++ [frame] }

/-- A part of the agent's turn. -/
def agentStep : Event → Option Sys
  | .frame taken now =>
    if s.turn = .frame then
      let s := { s with broker := s.broker.expire now, turn := .poll }
      if taken then
        match s.toAgent with
        | f :: rest => some ({ s with toAgent := rest }.handle Z now f)
        | [] => none
      else some s
    else none
  | .poll now =>
    if s.turn = .poll then
      let (store, requests, _) := s.store.poll now
      some { s with
        store
        turn := .browse
        polled := s.polled ++ requests
        toDesktop := s.toDesktop ++ requests.map .clip }
    else none
  | .browse request now =>
    if s.turn = .browse then
      let (broker, frame) := s.broker.poll request now
      some { s with
        broker
        turn := .frame
        toDesktop := s.toDesktop ++ frame.toList.map fun p => .browse p.1 p.2 }
    else none
  | .agentFails message => some (s.agentError message)
  | _ => none

/-- A branch of the desktop's loop, or a frame while it waits. -/
def desktopStep : Event → Option Sys
  | .event opened =>
    match s.waiting with
    | some n =>
      match s.toDesktop with
      | f :: rest => some ({ s with toDesktop := rest }.requestEvent n opened f)
      | [] => none
    | none =>
      match s.deferred with
      | q :: rest => some ({ s with deferred := rest }.take q)
      | [] =>
        match s.toDesktop with
        | f :: rest => some ({ s with toDesktop := rest }.loopEvent opened f)
        | [] => none
  | .offer offer =>
    if s.waiting = none ∧ s.clipboard ∧ s.reading = [] then some (s.ask (.offer offer (s.requests + 1)))
    else none
  | .heartbeat => if s.waiting = none then some (s.ask (.heartbeat (s.requests + 1))) else none
  | .read i platform content =>
    match s.waiting, s.reading[i]? with
    | none, some q => some { s with
        reading := s.reading.eraseIdx i
        jobs := s.jobs ++ [readRequested Z platform content q] }
    | _, _ => none
  | .turn current =>
    match s.waiting, s.jobs with
    | none, j :: jobs =>
      let (reply, rest) := j.turn current
      some { s with jobs := jobs ++ rest.toList, toAgent := s.toAgent ++ [.reply reply] }
    | _, _ => none
  | .stop => some (s.finish .closed)
  | _ => none

end Sys

def Event.ofAgent : Event → Bool
  | .frame _ _ | .poll _ | .browse _ _ | .agentFails _ => true
  | _ => false

def step (Z : Zlib) (s : Sys) (e : Event) : Option Sys :=
  match e with
  | .get revision format now expired => some { s with store := (s.store.get revision format now expired).1 }
  | e =>
    if e.ofAgent then if s.agentEnded then none else s.agentStep Z e
    else if s.outcome.isSome then none else s.desktopStep Z e

/-- No clipboard request comes while the desktop waits and has deferred eight. -/
def roomy (s : Sys) : Event → Bool
  | .event _ => !(s.waiting.isSome && (s.toDesktop.head?.bind ToDesktop.asked).isSome &&
      decide (maxDeferred ≤ s.deferred.length) && s.outcome.isNone)
  | _ => true

end Porthop.Sharing
