import Porthop.Lib.Crash
import Porthop.Vault.Record

/- Starts and saves over a data directory (`migration/credentials.rs`, `migration/profile.rs`,
   `vault.rs`, `config.rs`).

   The world is the credential storage, the data directory, the key a process has loaded, and
   what has happened so far. A question whether a file exists is answered no also when it
   cannot be answered, and the world remembers whether a file was missed that way. -/
namespace Porthop.Vault
open Crash Crash.Prog
open Profile (Config Server Tunnel Uuid Addresses)

/-- The files of the older formats. -/
inductive Plaintext where
  | config
  | servers
  | tunnels
  deriving DecidableEq

def Plaintext.file : Plaintext → String
  | config => "config.json"
  | servers => "servers.json"
  | tunnels => "tunnels.json"

/-- The data directory, and the one of the first application beside it. -/
inductive Directory where
  | own
  | sshTunnelBar

structure World (File Data : Type) where
  modern : Option Key
  legacy : Option Key
  marker : Bool
  vault : Option File
  files : Directory → Plaintext → Option Data
  /-- What the process has kept of its first load of the key. -/
  key : Option (Except String Key)
  -- what has happened: the keys loads returned, the vault file at each new key, the marker at
  -- each read of the legacy key, the record of each final replacement, the last save that
  -- succeeded
  loads : List Key
  generated : List (Option File)
  legacyReads : List Bool
  missed : Bool
  records : List ProfileRecord
  saved : Option Config

/-- What a start draws: a new key if it needs one, and the ids of imported servers. -/
structure Fresh where
  key : Key
  sized : key.length = 32
  id : Nat → Uuid

section
variable {File Data Value : Type}

def World.miss (w : World File Data) : World File Data := { w with missed := true }

def World.without (w : World File Data) (name : Plaintext) : World File Data :=
  { w with files := fun d n => match d with
      | .own => if n = name then none else w.files .own n
      | .sshTunnelBar => w.files .sshTunnelBar n }

def markerExists : Prog (World File Data) Bool := present (fun w => w.marker) World.miss

def vaultExists : Prog (World File Data) Bool := present (fun w => w.vault.isSome) World.miss

def plainExists (d : Directory) (name : Plaintext) : Prog (World File Data) Bool :=
  present (fun w => (w.files d name).isSome) World.miss

/-! ## The storage of keys -/

def modern : Prog (World File Data) (Option Key) := ask (fun w => .ok w.modern) id

def legacy : Prog (World File Data) (Option Key) := do
  update fun w => { w with legacyReads := w.legacyReads ++ [w.marker] }
  ask (fun w => .ok w.legacy) id

def create (key : Key) : Prog (World File Data) Unit :=
  act (fun w => { w with modern := some key }) id

def generate (fresh : Fresh) : Prog (World File Data) Key := do
  update fun w => { w with generated := w.generated ++ [w.vault] }
  ask (fun _ => .ok fresh.key) id

end

section
variable {File Data Value : Type} (F : Formats File Data Value) (A : Addresses)

/-! ## The vault -/

def readRecord (key : Key) : Prog (World File Data) ProfileRecord :=
  ask (fun w => match w.vault with
      | some file => recordIn F A file key
      | none => .error "Client data not present")
    fun _ => "Cannot unlock saved profiles. Check the vault key in your system credential storage."

def replaceFile (file : File) (record : ProfileRecord) : Prog (World File Data) Unit :=
  act (fun w => { w with vault := some file, records := w.records ++ [record] }) id

/-- A complete replacement is built and read back before the last snapshot is touched. -/
def replaceRecord (key : Key) (record : ProfileRecord) : Prog (World File Data) Unit := do
  act id id -- the staging directory
  let data ← ofOption "Cannot encode encrypted profiles" (F.encode record)
  let staged ← ofOption "Cannot encrypt profiles" (F.encrypt key CLIENT data)
  act id id -- the staged snapshot is saved
  let verified ← ask (fun _ => recordIn F A staged key) fun _ =>
    "Cannot unlock saved profiles. Check the vault key in your system credential storage."
  refuse (verified.config ≠ record.config ∨ verified.passwords ≠ record.passwords)
    "Encrypted profile verification failed; previous snapshot preserved"
  act id id -- its permissions
  act id id -- its contents reach the disk
  replaceFile staged verified
  act id id -- the directory reaches the disk
  update fun w => { w with saved := some record.config }

def writeWithPassword (key : Key) (config : Config) (password : Option (Uuid × String)) :
    Prog (World File Data) Unit := do
  ofExcept (config.validate A)
  let old ← if ← vaultExists then readRecord F A key else pure (ProfileRecord.new config)
  let record ← ofExcept (old.updated config password)
  replaceRecord F A key record

/-! ## The key -/

def valid (key : Key) : Except String Key :=
  if key.length = 32 then .ok key
  else .error "Invalid profile vault key; saved profiles were not changed."

def mark : Prog (World File Data) Unit := do
  act id id -- a temporary file
  act id id -- its contents
  act id id -- which reach the disk
  act (fun w => { w with marker := true }) id

def checkVault (key : Key) : Prog (World File Data) Unit := do
  if ← vaultExists then do
    let _ ← readRecord F A key
    pure ()
  else pure ()

def confirmed (key : Key) : Prog (World File Data) Key := do
  update fun w => { w with loads := w.loads ++ [key] }
  pure key

/-- A key that was stored before. -/
def loadModern (key : Key) : Prog (World File Data) Key := do
  let key ← ofExcept (valid key)
  if ← markerExists then confirmed key
  else do
    checkVault F A key
    mark
    confirmed key

/-- The key to store where none is: the legacy one, or a new one where there is no vault. -/
def firstKey (fresh : Fresh) : Option Key → Prog (World File Data) Key
  | some key => ofExcept (valid key)
  | none => do
    if ← vaultExists then
      fail "Profile vault key is missing. Restore the original key to unlock your profiles."
    else generate fresh

def transfer (key : Key) : Prog (World File Data) Key := do
  checkVault F A key
  create key
  let found ← modern
  let verified ← ofOption "The new vault key could not be verified" found
  refuse (verified ≠ key)
    "Vault key verification failed. The original key and profiles were preserved."
  mark
  confirmed key

def load (fresh : Fresh) : Prog (World File Data) Key := do
  match ← modern with
  | some key => loadModern F A key
  | none =>
    -- Never silently fall back to an old key after a successful transfer.
    if ← markerExists then
      fail "The Newport vault key is missing. Restore the original key; profiles have not been changed."
    else do
      let found ← legacy
      let key ← firstKey fresh found
      transfer F A key

def vaultKey (fresh : Fresh) : Prog (World File Data) Key := do
  match ← look fun w => w.key with
  | some key => ofExcept key
  | none => do
    let key ← attempt (load F A fresh)
    update fun w => { w with key := some key }
    ofExcept key

def saveWithPassword (fresh : Fresh) (config : Config) (password : Option (Uuid × String)) :
    Prog (World File Data) Unit := do
  let key ← vaultKey F A fresh
  writeWithPassword F A key config password

/-! ## The import -/

def removeEach : List Plaintext → Prog (World File Data) Unit
  | [] => pure ()
  | name :: names => do
    act (fun w => w.without name) fun e =>
      s!"Profiles encrypted, but cannot remove old {name.file}: {e}"
    removeEach names

def removePlaintext : Prog (World File Data) Unit := removeEach [.config, .servers, .tunnels]

def read (d : Directory) (name : Plaintext) : Prog (World File Data) Data :=
  ask (fun w => orError s!"Cannot read {name.file}" (w.files d name)) fun e =>
    s!"Cannot read {name.file}: {e}"

/-- A saved configuration in its older format. -/
def parsedConfig (data : Data) : Except String Config := do
  let config ← (F.config data).mapError fun e =>
    s!"Cannot read saved profiles; original file was preserved: {e}"
  config.validate A
  .ok config

def readConfig : Prog (World File Data) Config := do
  let data ← read .own .config
  ofExcept (parsedConfig F A data)

variable (fresh : Fresh) (override : Bool)

/-- One value of the oldest format: a tunnel with its server, which the tunnels before it may
    have brought already. -/
def importTunnel (config : Config) (value : Value) : Except String Config := do
  let server ← (F.server value).mapError fun e => s!"Cannot import legacy tunnel: {e}"
  let found := config.servers.find? fun s => s.sshHost = server.sshHost ∧
    s.sshUser = server.sshUser ∧ s.sshPort = server.sshPort ∧ s.identityFile = server.identityFile
  let id := (found.map (·.id)).getD (fresh.id config.servers.length)
  let servers := if found.isSome then config.servers
    else config.servers ++ [{ server with id := id, name := server.sshHost }]
  let tunnel ← F.tunnel value id
  .ok ⟨servers, config.tunnels ++ [tunnel]⟩

def parsedServers (data : Data) : Except String (List Server) :=
  (F.servers data).mapError fun e => s!"Cannot import servers.json: {e}"

def parsedTunnels (data : Data) : Except String (List Tunnel) :=
  (F.tunnels data).mapError fun e => s!"Cannot import tunnels.json: {e}"

def parsedValues (data : Data) : Except String Config := do
  let values ← F.values data
  values.foldlM (importTunnel F fresh) ⟨[], []⟩

def legacyDirectory : Prog (World File Data) Directory := do
  if ← plainExists .own .tunnels then pure .own
  else if ← plainExists .own .servers then pure .own
  else pure (if override then .own else .sshTunnelBar)

def importServers (d : Directory) : Prog (World File Data) Config := do
  let data ← read d .servers
  let servers ← ofExcept (parsedServers F data)
  if ← plainExists d .tunnels then do
    let data ← read d .tunnels
    let tunnels ← ofExcept (parsedTunnels F data)
    pure ⟨servers, tunnels⟩
  else pure ⟨servers, []⟩

def importTunnels (d : Directory) : Prog (World File Data) Config := do
  let data ← read d .tunnels
  ofExcept (parsedValues F fresh data)

def importFrom (d : Directory) : Prog (World File Data) Config := do
  if ← plainExists d .servers then importServers F d
  else if ← plainExists d .tunnels then importTunnels F fresh d
  else pure ⟨[], []⟩

def importLegacy : Prog (World File Data) Config := do
  let d ← legacyDirectory override
  importFrom F fresh d

def importProfiles : Prog (World File Data) Config := do
  if ← plainExists .own .config then do
    let config ← readConfig F A
    saveWithPassword F A fresh config none
    removePlaintext
    pure config
  else do
    let config ← importLegacy F fresh override
    ofExcept (config.validate A)
    saveWithPassword F A fresh config none
    removePlaintext
    pure config

/-- What a start loads. -/
def storeLoad : Prog (World File Data) Config := do
  if ← vaultExists then do
    let key ← vaultKey F A fresh
    let record ← readRecord F A key
    removePlaintext
    pure record.config
  else importProfiles F A fresh override

/-! ## What the older files hold -/

def plainLegacy (files : Plaintext → Option Data) : Except String Config :=
  match files .servers, files .tunnels with
  | some servers, some tunnels => do
    let servers ← parsedServers F servers
    let tunnels ← parsedTunnels F tunnels
    .ok ⟨servers, tunnels⟩
  | some servers, none => do
    let servers ← parsedServers F servers
    .ok ⟨servers, []⟩
  | none, some tunnels => parsedValues F fresh tunnels
  | none, none => .ok ⟨[], []⟩

/-- The data directory if it has one of the two files, or must be used. -/
def plainDirectory (files : Directory → Plaintext → Option Data) : Directory :=
  if (files .own .tunnels).isSome || (files .own .servers).isSome || override then .own
  else .sshTunnelBar

/-- The configuration of the older formats: `config.json`, or else the other two files. -/
def plainConfig (files : Directory → Plaintext → Option Data) : Except String Config :=
  match files .own .config with
  | some data => parsedConfig F A data
  | none => do
    let config ← plainLegacy F fresh (files (plainDirectory override files))
    config.validate A
    .ok config

end

/-! ## Runs -/

/-- The application is closed, or runs, after a load that failed or not. -/
inductive App where
  | closed
  | running (loadError : Option String)
  deriving DecidableEq

structure Machine (File Data : Type) where
  app : App
  /-- The last load or save returned what it should. -/
  succeeded : Bool
  world : World File Data

inductive Event where
  | start (fresh : Fresh) (faults : List (Option Fault))
  | save (fresh : Fresh) (config : Config) (password : Option (Uuid × String))
      (faults : List (Option Fault))
  | close

section
variable {File Data Value : Type} (F : Formats File Data Value) (A : Addresses) (override : Bool)

/-- Where a program leaves the application that was about to be in `app`. -/
def after {α : Type} (app : App) : Outcome α → App
  | .ended => .closed
  | _ => app

def loaded {α : Type} : Outcome α → App
  | .returned _ => .running none
  | .failed e => .running (some e)
  | .ended => .closed

def machineStep (m : Machine File Data) : Event → Option (Machine File Data)
  | .start fresh faults =>
    match m.app with
    | .closed =>
      let (o, w, _) := storeLoad F A fresh override { m.world with key := none } faults
      some ⟨loaded o, o.isReturned, w⟩
    | .running _ => none
  | .save fresh config password faults =>
    match m.app with
    | .running none =>
      let (o, w, _) := saveWithPassword F A fresh config password m.world faults
      some ⟨after m.app o, o.isReturned, w⟩
    -- a manager whose load failed refuses to save
    | .running (some _) => some { m with succeeded := false }
    | .closed => none
  | .close => some { m with app := .closed }

end

end Porthop.Vault
