import Porthop.Lib.Buffer
import Porthop.Lib.Crash
import Porthop.X11.Protocol

/- Requests and answers as bytes (`x_protocol.rs`).

   A request is handled on its bytes. Every access to a buffer, every sum, product and
   quotient of sizes is one that can go wrong, and where it does the thread has panicked. A
   write to the socket may fail, which ends the connection; the lock of the atoms is held
   from the first to the last of a request. -/
namespace Porthop.X11.Requests

open Crash Crash.Prog Buffer MessagePack

/-- What handling a request reads and changes. -/
structure World where
  atoms : Atoms
  client : Client
  seq : Nat
  /-- What was handed to the socket, the last one included when writing it failed. -/
  sent : List Bytes
  panicked : Bool

abbrev Handler := Prog World

/-- A clipboard as its sources let it pass: at most 256 formats, with names of at most 256
    bytes, and a value is one that a vector holds. -/
structure Offer extends Clipboard where
  few : formats.length ≤ 256
  short : ∀ name ∈ formats, name.utf8ByteSize ≤ 256
  held : ∀ name bytes, content name = some bytes → bytes.length < 2 ^ 63

/-! ## What can go wrong -/

variable {α : Type}

def crash : Handler α := fun w fs => (.failed "panicked", { w with panicked := true }, fs)

def checked : Option α → Handler α
  | some a => pure a
  | none => crash

/-- A size, which is a 64-bit number. -/
def fits (n : Nat) : Handler Nat := checked (if n < 2 ^ 64 then some n else none)

def minus (m n : Nat) : Handler Nat := checked (if n ≤ m then some (m - n) else none)

def divided (m n : Nat) : Handler Nat := checked (if n = 0 then none else some (m / n))

def u16 (little : Bool) (b : Bytes) (i : Nat) : Handler Nat := do
  let bytes ← checked (range b i (i + 2))
  pure (number little bytes)

def u32 (little : Bool) (b : Bytes) (i : Nat) : Handler Nat := do
  let bytes ← checked (range b i (i + 4))
  pure (number little bytes)

def set8 (b : Bytes) (i n : Nat) : Handler Bytes := checked (put b i [UInt8.ofNat n])

def set16 (little : Bool) (b : Bytes) (i n : Nat) : Handler Bytes :=
  checked (put b i (ordered little (be 2 n)))

def set32 (little : Bool) (b : Bytes) (i n : Nat) : Handler Bytes :=
  checked (put b i (ordered little (be 4 n)))

def padded (n : Nat) : Handler Nat := do
  let m ← fits (n + 3)
  pure (m / 4 * 4)

/-! ## The initial atoms -/

/-- Core protocol atom IDs are fixed; dynamic names start at 69. -/
def initialAtoms : Atoms :=
  ["PRIMARY", "SECONDARY", "ARC", "ATOM", "BITMAP", "CARDINAL", "COLORMAP", "CURSOR",
    "CUT_BUFFER0", "CUT_BUFFER1", "CUT_BUFFER2", "CUT_BUFFER3", "CUT_BUFFER4", "CUT_BUFFER5",
    "CUT_BUFFER6", "CUT_BUFFER7", "DRAWABLE", "FONT", "INTEGER", "PIXMAP", "POINT", "RECTANGLE",
    "RESOURCE_MANAGER", "RGB_COLOR_MAP", "RGB_BEST_MAP", "RGB_BLUE_MAP", "RGB_DEFAULT_MAP",
    "RGB_GRAY_MAP", "RGB_GREEN_MAP", "RGB_RED_MAP", "STRING", "VISUALID", "WINDOW", "WM_COMMAND",
    "WM_HINTS", "WM_CLIENT_MACHINE", "WM_ICON_NAME", "WM_ICON_SIZE", "WM_NAME",
    "WM_NORMAL_HINTS", "WM_SIZE_HINTS", "WM_ZOOM_HINTS", "MIN_SPACE", "NORM_SPACE", "MAX_SPACE",
    "END_SPACE", "SUPERSCRIPT_X", "SUPERSCRIPT_Y", "SUBSCRIPT_X", "SUBSCRIPT_Y",
    "UNDERLINE_POSITION", "UNDERLINE_THICKNESS", "STRIKEOUT_ASCENT", "STRIKEOUT_DESCENT",
    "ITALIC_ANGLE", "X_HEIGHT", "QUAD_WIDTH", "WEIGHT", "POINT_SIZE", "RESOLUTION", "COPYRIGHT",
    "NOTICE", "FONT_NAME", "FAMILY_NAME", "FULL_NAME", "CAP_HEIGHT", "WM_CLASS",
    "WM_TRANSIENT_FOR"]

/-! ## Packets -/

def order : Handler Bool := look fun w => w.client.little

def change (f : Client → Client) : Handler Unit :=
  update fun w => { w with client := f w.client }

def packet (tag detail : Nat) : Handler Bytes := do
  let little ← order
  let seq ← look World.seq
  let b ← set8 (List.replicate 32 0) 0 tag
  let b ← set8 b 1 detail
  set16 little b 2 seq

def send (b : Bytes) : Handler Unit := act (fun w => { w with sent := w.sent ++ [b] }) id

def error (code op value : Nat) : Handler Unit := do
  let little ← order
  let b ← packet 0 code
  let b ← set32 little b 4 value
  let b ← set8 b 10 op
  send b

def notifyProperty (key : Key) (state : Nat) : Handler Unit := do
  let c ← look World.client
  if ((c.masks.lookup key.1).getD 0).testBit 22 then do
    let b ← packet 28 0
    let b ← set32 c.little b 4 key.1
    let b ← set32 c.little b 8 key.2
    let b ← set8 b 16 state
    send b
  else pure ()

/-! ## Properties and transfers -/

/-- The next chunk of a transfer whose property was deleted. -/
def serve (key : Key) : Option Transfer → Handler Unit
  | none => pure ()
  | some t =>
    if t.key = key then do
      let stop ← fits (t.offset + chunk)
      let stop := min stop t.bytes.length
      let bytes ← checked (range t.bytes t.offset stop)
      change fun c => { c.place key ⟨t.kind, 8, bytes⟩ with
        transfer := if t.offset = t.bytes.length then none else some { t with offset := stop } }
      notifyProperty key 0
    else pure ()

def drop (key : Key) : Handler Unit := do
  let c ← look World.client
  if (c.properties.lookup key).isSome then do
    change fun c => { c with properties := c.properties.erase key }
    notifyProperty key 1
  else pure ()

def delete (key : Key) : Handler Unit := do
  drop key
  let transfer ← look fun w => w.client.transfer
  serve key transfer

/-- The value is put into the property, unless there is none or a transfer runs; the answer
    names the property or none. -/
def supply (key : Key) : Option Property → Handler Nat
  | none => pure 0
  | some value => do
    let c ← look World.client
    if c.busy then pure 0
    else do
      let atoms ← look World.atoms
      let (atoms, c) := c.deliver atoms key value
      update fun w => { w with atoms := atoms, client := c }
      notifyProperty key 0
      pure key.2

def selection (r : Bytes) (offer : Offer) : Handler Unit := do
  let little ← order
  let window ← u32 little r 4
  let selection ← u32 little r 8
  let target ← u32 little r 12
  let given ← u32 little r 16
  let property := if given = 0 then target else given
  let c ← look World.client
  if window ∉ c.windows then error 3 24 window
  else do
    let atoms ← look World.atoms
    let (atoms, value) := c.convert atoms selection target offer.toClipboard
    update fun w => { w with atoms := atoms }
    let property ← supply (window, property) value
    let b ← packet 31 0
    let time ← u32 little r 20
    let b ← set32 little b 4 time
    let b ← set32 little b 8 window
    let b ← set32 little b 12 selection
    let b ← set32 little b 16 target
    let b ← set32 little b 20 property
    send b

/-! ## The requests -/

/-- The bits that are set of a 32-bit mask. -/
def countOnes (mask : Nat) : Nat := (List.range 32).countP mask.testBit

/-- The event mask is the value of bit 11, behind those of the bits before it. -/
def selectEvents (r : Bytes) (min id mask : Nat) : Handler Unit :=
  if mask.testBit 11 then do
    let little ← order
    let skipped ← fits (countOnes (mask % 2 ^ 11) * 4)
    let i ← fits (min + skipped)
    let events ← u32 little r i
    change fun c => { c with masks := c.masks.insert id events }
  else pure ()

def windowAttributes (op min : Nat) (r : Bytes) : Handler Unit := do
  let little ← order
  let id ← u32 little r 4
  let mask ← u32 little r (if op = 1 then 28 else 8)
  let values ← fits (countOnes mask * 4)
  let size ← fits (min + values)
  let c ← look World.client
  if r.length ≠ size then error 16 op 0
  else if op = 1 then
    if ¬ c.owns id ∨ id ∈ c.graphicsContexts ∨ id ∈ c.windows then error 14 op id
    else do
      change fun c => { c with windows := insert id c.windows }
      let windows ← look fun w => w.client.windows
      if windows.card > 64 then fail "window limit reached"
      else selectEvents r min id mask
  else if id ∉ c.windows then error 3 op id
  else selectEvents r min id mask

def notifyDestroyed (mask id : Nat) : Handler Unit :=
  if mask.testBit 17 then do
    let little ← order
    let b ← packet 17 0
    let b ← set32 little b 4 id
    let b ← set32 little b 8 id
    send b
  else pure ()

def destroyWindow (r : Bytes) : Handler Unit := do
  let little ← order
  let id ← u32 little r 4
  let c ← look World.client
  if id ∉ c.windows then error 3 4 id
  else do
    change fun c => { c with windows := c.windows.erase id, masks := c.masks.erase id }
    notifyDestroyed ((c.masks.lookup id).getD 0) id
    change fun c => { c with
      properties := (c.properties.entries.filter fun e => e.1.1 ≠ id).toAList
      transfer := c.transfer.filter fun t => t.key.1 ≠ id }

/-- The answer to `InternAtom`. -/
def interned (name : String) (only : Bool) : Handler Unit := do
  let little ← order
  let atoms ← look World.atoms
  let (atoms, id) := atoms.intern name only
  update fun w => { w with atoms := atoms }
  let b ← packet 1 0
  let b ← set32 little b 8 id
  send b

def internAtom (r : Bytes) : Handler Unit := do
  let little ← order
  let n ← u16 little r 4
  let room ← padded n
  let size ← fits (8 + room)
  if n > 256 ∨ r.length ≠ size then error 16 16 0
  else do
    let bytes ← checked (range r 8 (8 + n))
    match ofUtf8 bytes with
    | none => error 2 16 0
    | some name => do
      let only ← checked r[1]?
      interned name (only != 0)

def getAtomName (r : Bytes) : Handler Unit := do
  let little ← order
  let id ← u32 little r 4
  let atoms ← look World.atoms
  match atoms.name id with
  | none => error 5 17 id
  | some name => do
    let b ← packet 1 0
    let b ← set16 little b 8 (utf8 name).length
    let room ← padded (utf8 name).length
    let b ← set32 little b 4 (room / 4)
    let size ← fits (32 + room)
    send ((b ++ utf8 name).takeD size 0)

/-- Clipboard state is read-only. Client-side properties are allowed for negotiation. -/
def changeProperty (r : Bytes) : Handler Unit := do
  let little ← order
  let window ← u32 little r 4
  let atom ← u32 little r 8
  let c ← look World.client
  if window ∉ c.windows then error 3 18 window
  else do
    let format ← checked r[16]?
    let mode ← checked r[1]?
    if format.toNat ∉ [8, 16, 32] ∨ mode ≠ 0 then error 2 18 0
    else do
      let count ← u32 little r 20
      let n := min (count * (format.toNat / 8)) (2 ^ 64 - 1)
      if n > chunk then error 16 18 0
      else do
        let room ← padded n
        let size ← fits (24 + room)
        if r.length ≠ size then error 16 18 0
        else if c.properties.entries.length ≥ 128 then error 11 18 0
        else do
          let kind ← u32 little r 12
          let bytes ← checked (range r 24 (24 + n))
          change fun c => c.place (window, atom) ⟨kind, format.toNat, bytes⟩
          notifyProperty (window, atom) 0

def deleteProperty (r : Bytes) : Handler Unit := do
  let little ← order
  let window ← u32 little r 4
  let atom ← u32 little r 8
  delete (window, atom)

/-- The part of a property that is asked for; with its end the property may be deleted. -/
def getPart (r b : Bytes) (key : Key) (p : Property) : Handler Unit := do
  let little ← order
  let offset ← u32 little r 16
  let start ← fits (offset * 4)
  if start > p.bytes.length then error 2 20 0
  else do
    let length ← u32 little r 20
    let wanted ← fits (length * 4)
    let stop := min (min (start + wanted) (2 ^ 64 - 1)) p.bytes.length
    let n ← minus stop start
    let after ← minus p.bytes.length stop
    let b ← set32 little b 12 after
    let items ← divided n (p.format / 8)
    let b ← set32 little b 16 items
    let room ← padded n
    let b ← set32 little b 4 (room / 4)
    let bytes ← checked (range p.bytes start stop)
    let size ← fits (32 + room)
    let mode ← checked r[1]?
    send ((b ++ bytes).takeD size 0)
    if mode ≠ 0 ∧ stop = p.bytes.length then delete key else pure ()

def getProperty (r : Bytes) : Handler Unit := do
  let little ← order
  let window ← u32 little r 4
  let atom ← u32 little r 8
  let c ← look World.client
  if window ≠ 1 ∧ window ≠ owner ∧ window ∉ c.windows then error 3 20 window
  else do
    let b ← packet 1 0
    match c.properties.lookup (window, atom) with
    | none => send b
    | some p => do
      let b ← set8 b 1 p.format
      let b ← set32 little b 8 p.kind
      let kind ← u32 little r 12
      if kind ≠ 0 ∧ kind ≠ p.kind then do
        let b ← set32 little b 12 p.bytes.length
        send b
      else getPart r b (window, atom) p

def getSelectionOwner (r : Bytes) (offer : Offer) : Handler Unit := do
  let little ← order
  let id ← u32 little r 4
  let atoms ← look World.atoms
  let b ← packet 1 0
  if atoms.name id = some "CLIPBOARD" ∧ offer.formats ≠ [] then do
    let b ← set32 little b 8 owner
    send b
  else send b

def getInputFocus : Handler Unit := do
  let little ← order
  let b ← packet 1 0
  let b ← set32 little b 8 1
  send b

/-- Xlib creates a default GC when opening a display. Its lifecycle is tracked; nothing is
    drawn. -/
def graphicsContext (op min : Nat) (r : Bytes) : Handler Unit := do
  let little ← order
  let id ← u32 little r 4
  let mask ← u32 little r (if op = 55 then 12 else 8)
  let c ← look World.client
  if mask ≥ 2 ^ 23 then error 2 op mask
  else do
    let values ← fits (countOnes mask * 4)
    let size ← fits (min + values)
    if r.length ≠ size then error 16 op 0
    else if op = 55 then
      if ¬ c.owns id ∨ id ∈ c.windows ∨ id ∈ c.graphicsContexts then error 14 op id
      else do
        let drawable ← u32 little r 8
        if drawable ≠ 1 ∧ drawable ∉ c.windows then error 9 op drawable
        else if c.graphicsContexts.card ≥ 64 then error 11 op id
        else change fun c => { c with graphicsContexts := insert id c.graphicsContexts }
    else if id ∉ c.graphicsContexts then error 13 op id
    else pure ()

def freeGC (r : Bytes) : Handler Unit := do
  let little ← order
  let id ← u32 little r 4
  let c ← look World.client
  if r.length ≠ 8 then error 16 60 0
  else if id ∉ c.graphicsContexts then error 13 60 id
  else change fun c => { c with graphicsContexts := c.graphicsContexts.erase id }

def queryExtension (r : Bytes) : Handler Unit := do
  let little ← order
  let n ← u16 little r 4
  let room ← padded n
  let size ← fits (8 + room)
  if r.length ≠ size then error 16 98 0
  else do
    let b ← packet 1 0
    send b

/-- The bytes that a request has at least. -/
def minimum : Nat → Option Nat
  | 1 => some 32
  | 2 => some 12
  | 4 => some 8
  | 16 => some 8
  | 17 => some 8
  | 18 => some 24
  | 19 => some 12
  | 20 => some 24
  | 22 => some 16
  | 23 => some 8
  | 24 => some 24
  | 43 => some 4
  | 55 => some 16
  | 56 => some 12
  | 60 => some 8
  | 98 => some 8
  | 127 => some 4
  | _ => none

def dispatch (op min : Nat) (r : Bytes) (offer : Offer) : Handler Unit :=
  match op with
  | 1 => windowAttributes 1 min r
  | 2 => windowAttributes 2 min r
  | 4 => destroyWindow r
  | 16 => internAtom r
  | 17 => getAtomName r
  | 18 => changeProperty r
  | 19 => deleteProperty r
  | 20 => getProperty r
  | 22 => error 10 22 0
  | 23 => getSelectionOwner r offer
  | 24 => selection r offer
  | 43 => getInputFocus
  | 55 => graphicsContext 55 min r
  | 56 => graphicsContext 56 min r
  | 60 => freeGC r
  | 98 => queryExtension r
  | 127 => pure ()
  | _ => crash

def request (r : Bytes) (offer : Offer) : Handler Unit := do
  let op ← checked r[0]?
  match minimum op.toNat with
  | none => error 1 op.toNat 0
  | some min =>
    if r.length < min then error 16 op.toNat 0 else dispatch op.toNat min r offer

/-! ## The server -/

/-- A client that is connected and the number of its last request. -/
structure Connection where
  client : Client
  seq : Nat

/-- The connections; one that has ended is gone. -/
structure Server where
  atoms : Atoms
  connections : List (Option Connection)

def Server.start : Server := ⟨initialAtoms, []⟩

inductive Event where
  | connect (little : Bool) (id : Nat)
  | close (i : Nat)
  | request (i : Nat) (r : Bytes) (offer : Offer) (faults : List (Option Fault))

/-- The next request of a client, with what goes wrong at the socket. -/
def handle (atoms : Atoms) (c : Connection) (r : Bytes) (offer : Offer)
    (faults : List (Option Fault)) : Outcome Unit × World :=
  let (outcome, w, _) := request r offer ⟨atoms, c.client, (c.seq + 1) % 2 ^ 16, [], false⟩ faults
  (outcome, w)

def step (s : Server) : Event → Option Server
  | .connect little id =>
    some { s with connections := s.connections ++ [some ⟨.new little (id * 2 ^ 20), 0⟩] }
  | .close i => some { s with connections := s.connections.set i none }
  | .request i r offer faults =>
    match s.connections[i]? with
    | some (some c) =>
      if r.length < 4 ∨ r.length % 4 ≠ 0 then none
      else
        let (outcome, w) := handle s.atoms c r offer faults
        some ⟨w.atoms, s.connections.set i
          (if outcome.isReturned then some ⟨w.client, w.seq⟩ else none)⟩
    | _ => none

end Porthop.X11.Requests
