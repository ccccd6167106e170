import Porthop.Git.Frames
import Porthop.Git.Uuid
import Porthop.Lib.Run

/- A diff on its way from the agent to the desktop.

   The agent writes the logs of the request, a `begin`, the payload in chunks of at most
   `chunkSize` bytes with at most `streamWindow` of them unacknowledged, and a response with
   the totals (`stream_diff`). The desktop's client answers each chunk with an `ack` and
   puts the payload together (`Client::request`). Each runs at its own pace over two queues
   of messages. The session's keep-alive comes round at any time, but only finds a client
   to ping when no request holds its lane.

   `tamper` replaces what is on its way by anything at all; runs without it are those of
   the two programs alone. `heard`, `said` and `read` are histories for the statements
   about runs: what the agent took and wrote for its last stream, and what the client
   took for its last request. -/
namespace Porthop.Git.Wire
open MessagePack (Primitives)

/-! ## Fields of a value -/

def member (key : String) : Value → Value
  | .obj fs => (fs.lookup key).getD .null
  | _ => .null

def asStr : Value → Option String
  | .str s => some s
  | _ => none

def asU64 : Value → Option UInt64
  | .num (.pos n) => some n
  | _ => none

def ofNat (n : Nat) : Value := .num (.pos (UInt64.ofNat n))

def base64 (bs : List UInt8) : String := String.ofList (Base64.standard.encode bs)

def uuidText (u : Uuid) : String := String.ofList (Uuid.text u)

/-! ## The service behind the agent -/

/-- The snapshot a streamed request names. -/
def expected (method : String) (params : Value) : Option String :=
  if method = "repo.diff" then asStr (member "snapshot" params)
  else if method = "repo.commit_diff" then asStr (member "commitOid" params)
  else none

/-- A diff, encoded. -/
structure Payload (P : Primitives) where
  diff : Value
  distinct : diff.Distinct
  bytes : List UInt8
  encoded : encodeValue P diff = some bytes

inductive Output (P : Primitives) where
  | json (v : Value)
  | error (e : Error)
  | diff (snapshot : String) (payload : Payload P)

/-- What the agent's backend makes of a request. A diff is answered under the snapshot the
    request named, and the logs keep the bounds of `command_log`. -/
structure Service (P : Primitives) where
  logs : String → Value → List CommandLog
  output : String → Value → Output P
  logs_length : ∀ method params, (logs method params).length ≤ 32
  logs_size : ∀ method params, ∀ entry ∈ logs method params,
    entry.command.utf8ByteSize ≤ 256 ∧ entry.output.utf8ByteSize ≤ 32768
  echoes : ∀ method params snapshot payload,
    output method params = .diff snapshot payload → expected method params = some snapshot

/-- What one turn of a party comes to: its next state, what it took off its input and what
    it wrote. -/
structure Act (σ : Type) where
  next : σ
  took : List Message
  wrote : List Message

/-! ## The agent -/

/-- The `i`-th chunk of the payload. -/
def chunk (bytes : List UInt8) (i : Nat) : List UInt8 := (bytes.drop (i * chunkSize)).take chunkSize

/-- A stream under way: what comes before its chunks and is still to be written, and the
    counts of chunks sent and acknowledged. -/
structure Sender where
  id : String
  streamId : String
  bytes : List UInt8
  preface : List Message
  sent : Nat
  acknowledged : Nat

namespace Sender

/-- The next chunk, if the window has room for it and there is one. -/
def nextChunk (s : Sender) : Option (List UInt8) :=
  if s.sent - s.acknowledged < streamWindow ∧ s.sent * chunkSize < s.bytes.length then
    some (chunk s.bytes s.sent)
  else none

inductive Move where
  | write (m : Message) (s : Sender)
  | finish (m : Message)
  | wait

def move (s : Sender) : Move :=
  match s.preface with
  | m :: rest => .write m { s with preface := rest }
  | [] =>
    match s.nextChunk with
    | some bytes =>
      .write (.chunk s.id s.streamId (UInt32.ofNat (s.sent + 1)) (base64 bytes))
        { s with sent := s.sent + 1 }
    | none =>
      if s.acknowledged = s.sent then
        .finish (.success s.id
          (.obj [("bytes", ofNat s.bytes.length), ("lastSeq", ofNat s.sent)]))
      else .wait

/-- A message that comes while the sender waits for an acknowledgement. -/
def receive (s : Sender) : Message → Option (Sender × List Message)
  | .ack streamId seq =>
    if streamId = s.streamId ∧ seq.toNat = s.acknowledged + 1 then
      some ({ s with acknowledged := seq.toNat }, [])
    else none
  | .ping nonce => if nonce.utf8ByteSize ≤ 128 then some (s, [.pong nonce]) else none
  | _ => none

end Sender

inductive Agent where
  | serving
  | replying (rest : List Message)
  | streaming (s : Sender)
  | failed

namespace Agent
variable {P : Primitives}

/-- A message that comes while the agent serves. `fresh` is the id of a stream it starts. -/
def serve (svc : Service P) (fresh : Uuid) (m : Message) : Act Agent :=
  match m with
  | .ping nonce =>
    if nonce.utf8ByteSize ≤ 128 then ⟨serving, [m], [.pong nonce]⟩ else ⟨failed, [m], []⟩
  | .request id method params =>
    if (Uuid.parse id).isNone then
      ⟨serving, [m], [.failure id (.invalid "Request ID must be a UUID.")]⟩
    else
      let logs := (svc.logs method params).map (.commandLog id)
      match svc.output method params with
      | .json v => ⟨replying (logs ++ [.success id v]), [m], []⟩
      | .error e => ⟨replying (logs ++ [.failure id e]), [m], []⟩
      | .diff snapshot payload =>
        let stream := uuidText fresh
        ⟨streaming ⟨id, stream, payload.bytes, logs ++ [.begin id stream snapshot], 0, 0⟩, [m], []⟩
  | _ => ⟨failed, [m], []⟩

def act (svc : Service P) (fresh : Uuid) : Agent → List Message → Option (Act Agent)
  | serving, m :: _ => some (serve svc fresh m)
  | serving, [] => none
  | replying [], _ => some ⟨serving, [], []⟩
  | replying (m :: rest), _ => some ⟨replying rest, [], [m]⟩
  | streaming s, inbox =>
    match s.move with
    | .write m s' => some ⟨streaming s', [], [m]⟩
    | .finish m => some ⟨serving, [], [m]⟩
    | .wait =>
      match inbox with
      | [] => none
      | m :: _ =>
        match s.receive m with
        | some (s', out) => some ⟨streaming s', [m], out⟩
        | none => some ⟨failed, [m], []⟩
  | failed, _ => none

def isStreaming : Agent → Bool
  | streaming _ => true
  | _ => false

end Agent

/-! ## The client -/

/-- A request under way. -/
structure Receiver where
  id : String
  expected : Option String
  streamId : Option String
  data : List UInt8
  lastSeq : Nat
  logCount : Nat

/-- An idle client has the result of its last request. -/
inductive Client where
  | idle (result : Option (Except Error Value))
  | pinging (result : Option (Except Error Value)) (nonce : String)
  | reading (r : Receiver)
  | failed (e : Error)

/-- A response that is not what the protocol asks for. -/
def invalidResponse : Error :=
  .new "PROTOCOL_ERROR" "Invalid Git agent response. Reconnect before continuing."

def streamLimit : Error := .new "PROTOCOL_ERROR" "Git stream exceeds its limit."

namespace Receiver
variable (P : Primitives)

/-- The end of a request. -/
def respond (r : Receiver) (v : Value) : Client :=
  if r.streamId.isSome then
    if asU64 (member "lastSeq" v) ≠ some (UInt64.ofNat r.lastSeq) ∨
        asU64 (member "bytes" v) ≠ some (UInt64.ofNat r.data.length) then
      .failed invalidResponse
    else
      match decodeValue P r.data with
      | none => .failed invalidResponse
      | some diff =>
        .idle (some (.ok (.obj [("diff", diff), ("snapshot", (r.expected.map .str).getD .null)])))
  else if r.expected.isSome then .failed invalidResponse
  else .idle (some (.ok v))

def receive (r : Receiver) : Message → Client × List Message
  | .commandLog id entry =>
    if id = r.id then
      if r.logCount + 1 > 32 ∨ entry.command.utf8ByteSize > 256 ∨
          entry.output.utf8ByteSize > 32768 then
        (.failed invalidResponse, [])
      else (.reading { r with logCount := r.logCount + 1 }, [])
    else (.failed invalidResponse, [])
  | .begin id streamId snapshot =>
    if id = r.id ∧ r.streamId = none ∧ r.expected = some snapshot then
      (.reading { r with streamId := some streamId }, [])
    else (.failed invalidResponse, [])
  | .chunk id streamId seq bytesB64 =>
    if id = r.id ∧ r.streamId = some streamId ∧ seq.toNat = r.lastSeq + 1 then
      match Base64.standard.decode bytesB64.toList with
      | none => (.failed invalidResponse, [])
      | some bytes =>
        if bytes = [] ∨ bytes.length > chunkSize ∨ r.data.length + bytes.length > maxDiff then
          (.failed streamLimit, [])
        else
          (.reading { r with data := r.data ++ bytes, lastSeq := seq.toNat }, [.ack streamId seq])
    else (.failed invalidResponse, [])
  | .response id (some v) none =>
    if id = r.id then (r.respond P v, []) else (.failed invalidResponse, [])
  | .response id none (some e) =>
    if id = r.id then (.idle (some (.error e)), []) else (.failed invalidResponse, [])
  | _ => (.failed invalidResponse, [])

end Receiver

namespace Client
variable (P : Primitives)

def act : Client → List Message → Option (Act Client)
  | idle _, _ => none
  | pinging _ _, [] => none
  | pinging result nonce, m :: _ =>
    match m with
    | .pong reply =>
      if reply = nonce then some ⟨idle result, [m], []⟩ else some ⟨failed invalidResponse, [m], []⟩
    | _ => some ⟨failed invalidResponse, [m], []⟩
  | reading _, [] => none
  | reading r, m :: _ => some ⟨(r.receive P m).1, [m], (r.receive P m).2⟩
  | failed _, _ => none

def isReading : Client → Bool
  | reading _ => true
  | _ => false

end Client

/-! ## The channel -/

structure Channel where
  agent : Agent
  client : Client
  up : List Message
  down : List Message
  heard : List Message
  said : List Message
  read : List Message

inductive Event where
  | agent (fresh : Uuid)
  | client
  | request (id : Uuid) (method : String) (params : Value)
  | keepAlive (nonce : Uuid)
  | tamper (up down : List Message)

namespace Channel

/-- Nothing has been asked yet. -/
def start : Channel := ⟨.serving, .idle none, [], [], [], [], []⟩

section
variable {P : Primitives} (svc : Service P)

def step (w : Channel) : Event → Option Channel
  | .agent fresh => do
    let a ← w.agent.act svc fresh w.up
    let streaming := w.agent.isStreaming
    some { w with
      agent := a.next
      up := w.up.drop a.took.length
      down := w.down ++ a.wrote
      heard := if streaming then w.heard ++ a.took else if a.next.isStreaming then [] else w.heard
      said := if streaming then w.said ++ a.wrote else if a.next.isStreaming then [] else w.said }
  | .client => do
    let a ← w.client.act P w.down
    some { w with
      client := a.next
      down := w.down.drop a.took.length
      up := w.up ++ a.wrote
      read := if w.client.isReading then w.read ++ a.took else w.read }
  | .request id method params =>
    match w.client with
    | .idle _ =>
      let id := uuidText id
      some { w with
        client := .reading ⟨id, expected method params, none, [], 0, 0⟩
        up := w.up ++ [.request id method params]
        read := [] }
    | _ => none
  | .keepAlive nonce =>
    match w.client with
    | .idle result =>
      let nonce := uuidText nonce
      some { w with client := .pinging result nonce, up := w.up ++ [.ping nonce] }
    -- the lane is taken, or there is no client left to ping
    | _ => some w
  | .tamper up down => some { w with up := up, down := down }

end

end Channel

end Porthop.Git.Wire
