import Mathlib.Data.Finset.Insert
import Mathlib.Data.List.AList
import Porthop.Lib.MessagePack
import Porthop.Lib.Pieces

/- The X server for clipboard readers (`x_protocol.rs`).

   A request comes with its fields read; one whose length is wrong is `malformed`. Ids, atoms
   and sizes are the numbers of their fields. Clients share the table of atoms and the
   clipboard, whose formats and contents come with the request that looks at them. -/
namespace Porthop.X11

abbrev Bytes := List UInt8

def chunk : Nat := 64 * 1024

def owner : Nat := 2

/-! ## Atoms -/

abbrev Atoms := List String

namespace Atoms

def intern (atoms : Atoms) (name : String) (only : Bool) : Atoms × Nat :=
  match atoms.idxOf? name with
  | some i => (atoms, i + 1)
  | none => if only ∨ atoms.length ≥ 4096 then (atoms, 0) else (atoms ++ [name], atoms.length + 1)

def internAll (atoms : Atoms) : List String → Atoms × List Nat
  | [] => (atoms, [])
  | name :: names =>
    let (atoms, id) := atoms.intern name false
    let (atoms, ids) := internAll atoms names
    (atoms, id :: ids)

def name (atoms : Atoms) (id : Nat) : Option String := if id = 0 then none else atoms[id - 1]?

end Atoms

/-! ## A client -/

structure Property where
  kind : Nat
  format : Nat
  bytes : Bytes
  deriving DecidableEq

/-- A window and the atom of a property. -/
abbrev Key := Nat × Nat

structure Transfer where
  key : Key
  kind : Nat
  bytes : Bytes
  offset : Nat
  deriving DecidableEq

abbrev Properties := AList fun _ : Key => Property

structure Client where
  /-- The client's byte order: little-endian or not. -/
  little : Bool
  base : Nat
  windows : Finset Nat
  graphicsContexts : Finset Nat
  masks : AList fun _ : Nat => Nat
  properties : Properties
  transfer : Option Transfer

def Client.new (little : Bool) (base : Nat) : Client := ⟨little, base, ∅, ∅, ∅, ∅, none⟩

/-- What a client is sent. -/
inductive Packet where
  | error (code op value : Nat)
  | propertyNotify (key : Key) (deleted : Bool)
  | destroyNotify (id : Nat)
  | selectionNotify (time window selection target property : Nat)
  | atom (id : Nat)
  | atomName (name : String)
  /-- The property, or the part of it that was asked for, and the bytes behind that part. -/
  | property (format kind after : Nat) (bytes : Bytes)
  | selectionOwner (id : Nat)
  | reply
  deriving DecidableEq

/-- The clipboard as a request finds it. -/
structure Clipboard where
  formats : List String
  content : String → Option Bytes

inductive Request where
  | malformed (op code : Nat)
  | createWindow (id : Nat) (mask : Option Nat)
  | changeAttributes (id : Nat) (mask : Option Nat)
  | destroyWindow (id : Nat)
  | internAtom (name : String) (only : Bool)
  | getAtomName (id : Nat)
  | changeProperty (key : Key) (property : Property)
  | deleteProperty (key : Key)
  | getProperty (key : Key) (kind offset length : Nat) (delete : Bool)
  | setSelectionOwner
  | getSelectionOwner (id : Nat) (clipboard : Clipboard)
  | convertSelection (window selection target property time : Nat) (clipboard : Clipboard)
  | getInputFocus
  | createGC (id drawable : Nat)
  | changeGC (id : Nat)
  | freeGC (id : Nat)
  | queryExtension
  | noOperation

namespace Client

def order (c : Client) (bytes : Bytes) : Bytes := if c.little then bytes.reverse else bytes

def words (c : Client) (ns : List Nat) : Bytes := ns.flatMap fun n => c.order (MessagePack.be 4 n)

/-- The notice of a property, for a client that has asked for it. -/
def notifyProperty (c : Client) (key : Key) (deleted : Bool) : List Packet :=
  if ((c.masks.lookup key.1).getD 0).testBit 22 then [.propertyNotify key deleted] else []

def place (c : Client) (key : Key) (p : Property) : Client :=
  { c with properties := c.properties.insert key p }

/-- A property is deleted; where that is the one of the transfer, the next chunk is placed. -/
def delete (c : Client) (key : Key) : Client × List Packet :=
  let notice := if (c.properties.lookup key).isSome then c.notifyProperty key true else []
  let c := { c with properties := c.properties.erase key }
  match c.transfer with
  | some t =>
    if t.key = key then
      let stop := min (t.offset + chunk) t.bytes.length
      let placed := c.place key ⟨t.kind, 8, (t.bytes.drop t.offset).take (stop - t.offset)⟩
      ({ placed with
          transfer := if t.offset = t.bytes.length then none else some { t with offset := stop } },
        notice ++ c.notifyProperty key false)
    else (c, notice)
  | none => (c, notice)

/-- What a selection is converted to. -/
def convert (c : Client) (atoms : Atoms) (selection target : Nat) (clipboard : Clipboard) :
    Atoms × Option Property :=
  let formats := if atoms.name selection = some "CLIPBOARD" then clipboard.formats else []
  let targetName := (atoms.name target).getD ""
  if formats = [] then (atoms, none)
  else if targetName = "TARGETS" then
    let texts := if "text/plain" ∈ formats then
        ["UTF8_STRING", "TEXT", "text/plain;charset=utf-8", "text/plain; charset=utf-8"]
      else []
    let (atoms, ids) := atoms.internAll (["TARGETS", "TIMESTAMP"] ++ formats ++ texts)
    (atoms, some ⟨4, 32, c.words ids⟩)
  else if targetName = "TIMESTAMP" then (atoms, some ⟨19, 32, c.words [0]⟩)
  else
    let name := if targetName ∈ ["UTF8_STRING", "TEXT", "text/plain;charset=utf-8",
      "text/plain; charset=utf-8"] then "text/plain" else targetName
    match clipboard.content name with
    | some bytes =>
      let (atoms, kind) :=
        if targetName = "TEXT" then atoms.intern "UTF8_STRING" false else (atoms, target)
      (atoms, some ⟨kind, 8, bytes⟩)
    | none => (atoms, none)

/-- A value is put into a property: whole, or as a transfer that begins with its size. -/
def deliver (c : Client) (atoms : Atoms) (key : Key) (value : Property) : Atoms × Client :=
  if value.bytes.length > chunk then
    let (atoms, incr) := atoms.intern "INCR" false
    (atoms, { c.place key ⟨incr, 32, c.words [value.bytes.length]⟩ with
      transfer := some ⟨key, value.kind, value.bytes, 0⟩ })
  else (atoms, c.place key value)

/-- No value is put into a property while a transfer runs. -/
def busy (c : Client) : Bool := c.transfer.isSome || decide (c.properties.entries.length ≥ 128)

def selection (c : Client) (atoms : Atoms) (window selection target property time : Nat)
    (clipboard : Clipboard) : Atoms × Client × List Packet :=
  let property := if property = 0 then target else property
  if window ∉ c.windows then (atoms, c, [.error 3 24 window])
  else
    match c.convert atoms selection target clipboard with
    | (atoms, none) => (atoms, c, [.selectionNotify time window selection target 0])
    | (atoms, some value) =>
      if c.busy then (atoms, c, [.selectionNotify time window selection target 0])
      else
        let (atoms, c) := c.deliver atoms (window, property) value
        (atoms, c, c.notifyProperty (window, property) false ++
          [.selectionNotify time window selection target property])

/-- The answer to `GetProperty` and whether the property is deleted with it. -/
def getProperty (c : Client) (key : Key) (kind offset length : Nat) (delete : Bool) :
    Packet × Bool :=
  if key.1 ≠ 1 ∧ key.1 ≠ owner ∧ key.1 ∉ c.windows then (.error 3 20 key.1, false)
  else
    match c.properties.lookup key with
    | none => (.property 0 0 0 [], false)
    | some p =>
      if kind ≠ 0 ∧ kind ≠ p.kind then (.property p.format p.kind p.bytes.length [], false)
      else
        let start := offset * 4
        if start > p.bytes.length then (.error 2 20 0, false)
        else
          let stop := min (start + length * 4) p.bytes.length
          (.property p.format p.kind (p.bytes.length - stop)
            ((p.bytes.drop start).take (stop - start)), delete && decide (stop = p.bytes.length))

/-- The properties and the transfer of a window go with it. -/
def forget (c : Client) (id : Nat) : Client :=
  { c with
    windows := c.windows.erase id
    masks := c.masks.erase id
    properties := (c.properties.entries.filter fun e => e.1.1 ≠ id).toAList
    transfer := c.transfer.filter fun t => t.key.1 ≠ id }

def select (c : Client) (id : Nat) : Option Nat → Client
  | some mask => { c with masks := c.masks.insert id mask }
  | none => c

/-- Ids have the client's base in all but their last 20 bits. -/
def owns (c : Client) (id : Nat) : Bool := decide (id / 2 ^ 20 * 2 ^ 20 = c.base)

/-- One request: the atoms, the client, unless its connection ends, and what it is sent. -/
def request (atoms : Atoms) (c : Client) : Request → Atoms × Option Client × List Packet
  | .malformed op code => (atoms, some c, [.error code op 0])
  | .createWindow id mask =>
    if ¬ c.owns id ∨ id ∈ c.graphicsContexts ∨ id ∈ c.windows then
      (atoms, some c, [.error 14 1 id])
    else
      let c := { c with windows := insert id c.windows }
      if c.windows.card > 64 then (atoms, none, []) else (atoms, some (c.select id mask), [])
  | .changeAttributes id mask =>
    if id ∉ c.windows then (atoms, some c, [.error 3 2 id])
    else (atoms, some (c.select id mask), [])
  | .destroyWindow id =>
    if id ∉ c.windows then (atoms, some c, [.error 3 4 id])
    else (atoms, some (c.forget id),
      if ((c.masks.lookup id).getD 0).testBit 17 then [.destroyNotify id] else [])
  | .internAtom name only =>
    let (atoms, id) := atoms.intern name only
    (atoms, some c, [.atom id])
  | .getAtomName id =>
    match atoms.name id with
    | some name => (atoms, some c, [.atomName name])
    | none => (atoms, some c, [.error 5 17 id])
  | .changeProperty key property =>
    if key.1 ∉ c.windows then (atoms, some c, [.error 3 18 key.1])
    else if c.properties.entries.length ≥ 128 then (atoms, some c, [.error 11 18 0])
    else (atoms, some (c.place key property), c.notifyProperty key false)
  | .deleteProperty key =>
    let (c, notices) := c.delete key
    (atoms, some c, notices)
  | .getProperty key kind offset length delete =>
    let (answer, deletes) := c.getProperty key kind offset length delete
    if deletes then
      let (c, notices) := c.delete key
      (atoms, some c, answer :: notices)
    else (atoms, some c, [answer])
  | .setSelectionOwner => (atoms, some c, [.error 10 22 0])
  | .getSelectionOwner id clipboard =>
    (atoms, some c, [.selectionOwner
      (if atoms.name id = some "CLIPBOARD" ∧ clipboard.formats ≠ [] then owner else 0)])
  | .convertSelection window selection target property time clipboard =>
    let (atoms, c, packets) := c.selection atoms window selection target property time clipboard
    (atoms, some c, packets)
  | .getInputFocus => (atoms, some c, [.reply])
  | .createGC id drawable =>
    if ¬ c.owns id ∨ id ∈ c.windows ∨ id ∈ c.graphicsContexts then
      (atoms, some c, [.error 14 55 id])
    else if drawable ≠ 1 ∧ drawable ∉ c.windows then (atoms, some c, [.error 9 55 drawable])
    else if c.graphicsContexts.card ≥ 64 then (atoms, some c, [.error 11 55 id])
    else (atoms, some { c with graphicsContexts := insert id c.graphicsContexts }, [])
  | .changeGC id =>
    (atoms, some c, if id ∉ c.graphicsContexts then [.error 13 56 id] else [])
  | .freeGC id =>
    if id ∉ c.graphicsContexts then (atoms, some c, [.error 13 60 id])
    else (atoms, some { c with graphicsContexts := c.graphicsContexts.erase id }, [])
  | .queryExtension => (atoms, some c, [.reply])
  | .noOperation => (atoms, some c, [])

end Client

/-! ## The server -/

/-- The clients by connection; one that has ended is gone. -/
structure Server where
  atoms : Atoms
  clients : List (Option Client)

inductive Event where
  | connect (little : Bool) (base : Nat)
  | close (i : Nat)
  | request (i : Nat) (r : Request)

def step (s : Server) : Event → Option Server
  | .connect little base => some { s with clients := s.clients ++ [some (.new little base)] }
  | .close i => some { s with clients := s.clients.set i none }
  | .request i r =>
    match s.clients[i]? with
    | some (some c) =>
      let (atoms, c, _) := c.request s.atoms r
      some ⟨atoms, s.clients.set i c⟩
    | _ => none

end Porthop.X11
