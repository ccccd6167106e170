import Mathlib.Data.List.Basic
import Porthop.Git.Envelope
import Porthop.Lib.Source
import Porthop.Clipboard.Demand

/- Frames between the desktop, the agent and its local clients (`wire.rs`,
   `serialization.rs`).

   A frame is a marker, a length and a MessagePack pair of a kind and bytes. The same code
   reads on every connection; what differs is the limit. -/
namespace Porthop.Agent
open MessagePack (Token compact)
open Git.Wire (intToken readInteger readText readBool readByteBuf readTuple)

abbrev Bytes := List UInt8

/-! ## `serialization` -/

/-- A message within the limit, read to its end. -/
def deserialize {α : Type} (reader : Parser UInt8 α) (limit : Nat) (bytes : Bytes) : Option α :=
  if bytes.length > limit then none else reader.whole bytes

def readU8 : Parser UInt8 UInt8 := do
  let n ← readInteger compact 0 256
  pure (UInt8.ofNat n.toNat)

def readU64 : Parser UInt8 UInt64 := Git.Wire.readU64 compact

def readI64 : Parser UInt8 Int64 := do
  let i ← readInteger compact (-2 ^ 63) (2 ^ 63)
  pure (Int64.ofInt i)

/-- A text, or nothing. -/
def readOptional : Parser UInt8 (Option String) := do
  match ← compact.read with
  | .nil => pure none
  | t => do
    let s ← Git.Wire.ofText t
    pure (some s)

def u8 (n : UInt8) : Token := .uint (UInt64.ofNat n.toNat)

def i64 (i : Int64) : Token := intToken i.toInt

/-! ## `wire` -/

def maxFrame : Nat := 33 * 1024 * 1024

def overhead : Nat := 16

def marker : UInt8 := 77

/-- What a frame holds. -/
def framePayload (kind : UInt8) (data : Bytes) : Bytes :=
  compact.write (.arr 2) ++ (compact.write (u8 kind) ++ compact.write (.bin data))

def header (length : Nat) : Bytes := marker :: MessagePack.be 4 length

def encode (kind : UInt8) (data : Bytes) : Option Bytes :=
  if data.length > maxFrame then none
  else some (header (framePayload kind data).length ++ framePayload kind data)

def payloadLength (limit : Nat) : Bytes → Option Nat
  | m :: length => do
    let n ← (MessagePack.readBe 4).whole length
    if m ≠ marker then none
    else if n = 0 ∨ n > min limit maxFrame + overhead then none
    else some n
  | [] => none

def readPayload : Parser UInt8 (UInt8 × Bytes) := readTuple compact 2 do
  let kind ← readU8
  let data ← readByteBuf compact
  pure (kind, data)

def decode (limit : Nat) (bytes : Bytes) : Option (UInt8 × Bytes) := do
  let (kind, data) ← deserialize readPayload (min limit maxFrame + overhead) bytes
  if data.length > min limit maxFrame then none else some (kind, data)

/-- One frame of the stream. -/
def readLimited (limit : Nat) (input : Source UInt8) : Option ((UInt8 × Bytes) × Source UInt8) := do
  let (header, input) ← input.readExact 5
  let length ← payloadLength limit header
  let (payload, input) ← input.readExact length
  let frame ← decode limit payload
  some (frame, input)

end Porthop.Agent

/- What the desktop, the agent and its local clients tell each other about the clipboard and
   the browser (`clipboard_wire.rs`, `wire.rs`).

   `Receiver` is an end that reads such frames, with the limit it reads them under, and
   `Sent` says what the code at the other end may write to it. Parsing a URL is left to a
   parameter. -/
namespace Porthop.Agent
open MessagePack (compact)
open Git.Wire (writeText readText readBool readByteBuf readTuple)

/-! ## Characters -/

/-- The control characters of Unicode. -/
def isControl (c : Char) : Bool :=
  decide (c.toNat < 0x20) || decide (0x7f ≤ c.toNat ∧ c.toNat ≤ 0x9f)

/-- The white space of Unicode. -/
def isWhitespace (c : Char) : Bool :=
  decide (0x9 ≤ c.toNat ∧ c.toNat ≤ 0xd) || decide (0x2000 ≤ c.toNat ∧ c.toNat ≤ 0x200a) ||
    [0x20, 0x85, 0xa0, 0x1680, 0x2028, 0x2029, 0x202f, 0x205f, 0x3000].contains c.toNat

/-! ## The clipboard -/

/-- The longest chunk of a reply. -/
def chunk : Nat := 64 * 1024

structure Offer where
  revision : Int64
  formats : List String

structure Request where
  id : UInt64
  revision : Int64
  format : String

def validFormat (s : String) : Bool :=
  !(s.toList == []) && decide (s.utf8ByteSize ≤ 256) && !s.toList.any isControl &&
    !(s.toList.splitOn '/').any fun part => part == [] || part == ['.'] || part == ['.', '.']

def writeTexts (ss : List String) : Bytes :=
  compact.write (.arr (UInt32.ofNat ss.length)) ++ (ss.map (writeText compact)).flatten

def readTexts : Parser UInt8 (List String) := do
  match ← compact.read with
  | .arr n => Parser.items (fun _ => readText compact) 0 n.toNat
  | _ => Parser.fail

def Offer.encode (o : Offer) : Bytes :=
  compact.write (.arr 2) ++ (compact.write (i64 o.revision) ++ writeTexts o.formats)

def readOffer : Parser UInt8 Offer := readTuple compact 2 do
  let revision ← readI64
  let formats ← readTexts
  pure ⟨revision, formats⟩

def Offer.decode (bytes : Bytes) : Option Offer :=
  (deserialize readOffer 67000 bytes).filter fun o =>
    decide (o.formats.length ≤ 256) && o.formats.all validFormat && decide o.formats.Nodup

def Request.encode (r : Request) : Bytes :=
  compact.write (.arr 3) ++ (compact.write (.uint r.id) ++
    (compact.write (i64 r.revision) ++ writeText compact r.format))

def readRequest : Parser UInt8 Request := readTuple compact 3 do
  let id ← readU64
  let revision ← readI64
  let format ← readText compact
  pure ⟨id, revision, format⟩

def Request.decode (bytes : Bytes) : Option Request :=
  (deserialize readRequest 512 bytes).filter fun r => validFormat r.format

structure Reply where
  id : UInt64
  revision : Int64
  status : UInt8
  done : Bool
  bytes : Bytes

def Reply.encode (r : Reply) : Bytes :=
  compact.write (.arr 5) ++ (compact.write (.uint r.id) ++ (compact.write (i64 r.revision) ++
    (compact.write (u8 r.status) ++ (compact.write (.bool r.done) ++ compact.write (.bin r.bytes)))))

def readReply : Parser UInt8 Reply := readTuple compact 5 do
  let id ← readU64
  let revision ← readI64
  let status ← readU8
  let done ← readBool compact
  let bytes ← readByteBuf compact
  pure ⟨id, revision, status, done, bytes⟩

def parseReply (bytes : Bytes) : Option Reply :=
  (deserialize readReply (chunk + 32) bytes).filter fun r =>
    decide (r.status.toNat ≤ 2) && decide (r.bytes.length ≤ chunk)

/-! ## The browser -/

structure BrowserRequest where
  id : UInt64
  url : String

structure BrowserReply where
  id : UInt64
  success : Bool
  message : Option String

def BrowserRequest.encode (r : BrowserRequest) : Bytes :=
  compact.write (.arr 2) ++ (compact.write (.uint r.id) ++ writeText compact r.url)

def readBrowserRequest : Parser UInt8 BrowserRequest := readTuple compact 2 do
  let id ← readU64
  let url ← readText compact
  pure ⟨id, url⟩

/-- `parses` is what a URL parser finds: an address of the web with a host and without a
    user. -/
def webUrl (parses : String → Bool) (s : String) : Bool :=
  decide (s.utf8ByteSize ≤ 8192) && !s.toList.any (fun c => isWhitespace c || isControl c) &&
    parses s

def parseBrowserRequest (parses : String → Bool) (bytes : Bytes) : Option BrowserRequest :=
  (deserialize readBrowserRequest 8224 bytes).filter fun r => webUrl parses r.url

def optional : Option String → MessagePack.Token
  | none => .nil
  | some s => .str s

def BrowserReply.encode (r : BrowserReply) : Bytes :=
  compact.write (.arr 3) ++ (compact.write (.uint r.id) ++ (compact.write (.bool r.success) ++
    compact.write (optional r.message)))

def readBrowserReply : Parser UInt8 BrowserReply := readTuple compact 3 do
  let id ← readU64
  let success ← readBool compact
  let message ← readOptional
  pure ⟨id, success, message⟩

def parseBrowserReply (bytes : Bytes) : Option BrowserReply :=
  deserialize readBrowserReply 8224 bytes

/-! ## Both ends -/

inductive Message where
  | offer (o : Offer)
  | request (r : Request)
  | reply (r : Reply)
  | browserRequest (r : BrowserRequest)
  | browserReply (r : BrowserReply)

namespace Message

/-- The letters M, C, D, O and B. -/
def kind : Message → UInt8
  | offer _ => 77
  | request _ => 67
  | reply _ => 68
  | browserRequest _ => 79
  | browserReply _ => 66

def encode : Message → Bytes
  | offer o => o.encode
  | request r => r.encode
  | reply r => r.encode
  | browserRequest r => r.encode
  | browserReply r => r.encode

def frame (m : Message) : Option Bytes := Agent.encode m.kind m.encode

end Message

/-- The ends that read frames: the agent and the desktop over SSH, and on the server the
    agent's clipboard service and browser broker and their clients. -/
inductive Receiver where
  | agent
  | desktop
  | service
  | reader
  | broker
  | opener
  deriving DecidableEq

namespace Receiver

def limit : Receiver → Nat
  | agent | reader => maxFrame
  | desktop | broker | opener => 8224
  | service => 512

section
variable (parses : String → Bool)

/-- What an end makes of a frame's kind and bytes. -/
def accept : Receiver → UInt8 × Bytes → Option Message
  | agent, (77, data) => (Offer.decode data).map .offer
  | agent, (68, data) => (parseReply data).map .reply
  | agent, (66, data) => (parseBrowserReply data).map .browserReply
  | desktop, (67, data) => (Request.decode data).map .request
  | desktop, (79, data) => (parseBrowserRequest parses data).map .browserRequest
  | service, (67, data) => (Request.decode data).map .request
  | reader, (77, data) => (Offer.decode data).map .offer
  | broker, (79, data) =>
    ((parseBrowserRequest parses data).filter fun r => r.id = 0).map .browserRequest
  | opener, (66, data) => ((parseBrowserReply data).filter fun r => r.id = 0).map .browserReply
  | _, _ => none

/-- One message of the stream. -/
def receive (r : Receiver) (input : Source UInt8) : Option (Message × Source UInt8) := do
  let (frame, input) ← readLimited r.limit input
  let m ← r.accept parses frame
  some (m, input)

def receiveAll (r : Receiver) : Nat → Source UInt8 → Option (List Message × Source UInt8)
  | 0, input => some ([], input)
  | n + 1, input => do
    let (m, input) ← r.receive parses input
    let (ms, input) ← r.receiveAll n input
    some (m :: ms, input)

end

end Receiver

/-! ## What is sent -/

/-- The formats a platform offers: the names it has for them, each once. -/
def macFormats (types : List String) : List String :=
  (types.map fun kind =>
    if kind = "public.utf8-plain-text" then "text/plain"
    else if kind = "public.png" ∨ kind = "public.tiff" then "image/png"
    else if kind = "public.html" then "text/html"
    else if kind = "public.url" ∨ kind = "public.file-url" then "text/uri-list"
    else kind).foldl (fun formats kind => if kind ∈ formats then formats else formats ++ [kind]) []

def winFormats (text image html files : Bool) : List String :=
  (if text then ["text/plain"] else []) ++ (if image then ["image/png"] else []) ++
    (if html then ["text/html"] else []) ++ if files then ["text/uri-list"] else []

/-- `clipboard_offer`. -/
def clipboardOffer (revision : Int64) (formats : List String) : Offer :=
  ⟨revision, (formats.filter fun s => validFormat s && s ≠ "TARGETS").take 256⟩

/-- An address of the host itself. -/
inductive Loopback where
  | v4 (b c d : UInt8)
  | v6

def digits (n : Nat) : String := String.ofList (Nat.toDigits 10 n)

def Loopback.text : Loopback → String
  | v4 b c d => "127." ++ digits b.toNat ++ "." ++ digits c.toNat ++ "." ++ digits d.toNat
  | v6 => "::1"

/-- Why a callback cannot be forwarded. -/
inductive Reason where
  | multiple
  | redirect
  | scheme
  | port
  | pending
  | address
  | listen (ip : Loopback) (number : UInt16)

def Reason.text : Reason → String
  | multiple => "Multiple redirect URLs; callback forwarding was not started."
  | redirect => "Invalid redirect URL."
  | scheme => "Only HTTP loopback callbacks are supported."
  | port => "Invalid callback port."
  | pending => "Too many pending browser logins. Wait for them to expire."
  | address => "Invalid callback address."
  | listen ip number => "Cannot listen on " ++ ip.text ++ ":" ++ digits number.toNat ++
      ". Close the app using that port or use device-code login."

/-- How `open_request` ends. -/
inductive Opened where
  | opened
  | warned (reason : Reason)
  | disabled
  | invalid
  | failed

def Opened.reply (id : UInt64) : Opened → BrowserReply
  | opened => ⟨id, true, none⟩
  | warned reason =>
    ⟨id, true, some ("Browser opened without callback forwarding. " ++ reason.text)⟩
  | disabled => ⟨id, false, some "Browser sync is disabled."⟩
  | invalid => ⟨id, false, some "Invalid browser URL."⟩
  | failed => ⟨id, false, some "Could not open the browser on your Mac."⟩

section
variable (parses : String → Bool) (Z : Clipboard.Zlib)

/-- What the code writes to a receiver. What it hands on it has read before. -/
inductive Sent : Receiver → Message → Prop
  | macOffer (revision : Int64) (types : List String) :
      Sent .agent (.offer (clipboardOffer revision (macFormats types)))
  | winOffer (revision : Int64) (text image html files : Bool) :
      Sent .agent (.offer (clipboardOffer revision (winFormats text image html files)))
  | storeOffer {o : Offer} {bytes : Bytes} (h : Offer.decode bytes = some o) :
      Sent .reader (.offer o)
  | noOffer (revision : Int64) : Sent .reader (.offer ⟨revision, []⟩)
  | storeRequest {o : Offer} {bytes : Bytes} (h : Offer.decode bytes = some o) (id : UInt64)
      {format : String} (hf : format ∈ o.formats) : Sent .desktop (.request ⟨id, o.revision, format⟩)
  /-- A local reader asks for the target it was started with. -/
  | localRequest (revision : Int64) (target : String) :
      Sent .service (.request ⟨0, revision, target⟩)
  | chunk {q : Request} {bytes : Bytes} (h : Request.decode bytes = some q) {part : Bytes}
      {c : Nat × Bytes} (hc : Clipboard.compressChunk Z part = some c) (done : Bool) :
      Sent .agent (.reply ⟨q.id, q.revision, UInt8.ofNat c.1, done, c.2⟩)
  | failure {q : Request} {bytes : Bytes} (h : Request.decode bytes = some q) :
      Sent .agent (.reply ⟨q.id, q.revision, 1, true, []⟩)
  | openUrl {url : String} (h : webUrl parses url = true) :
      Sent .broker (.browserRequest ⟨0, url⟩)
  | forwardUrl {url : String} {bytes : Bytes}
      (h : parseBrowserRequest parses bytes = some ⟨0, url⟩) (id : UInt64) :
      Sent .desktop (.browserRequest ⟨id, url⟩)
  | opened (id : UInt64) (o : Opened) : Sent .agent (.browserReply (o.reply id))
  | openedLocal (o : Opened) : Sent .opener (.browserReply (o.reply 0))
  | timedOut : Sent .opener
      (.browserReply ⟨0, false, some "Mac browser setup timed out; try again"⟩)
  | rejected : Sent .opener (.browserReply
      ⟨0, false, some "browser request rejected or another request is pending; try again"⟩)

end

end Porthop.Agent
