import Porthop.Lib.Dialogue
import Porthop.Profile.Model

/- How the desktop proves who the user is to an SSH server (`ssh/auth.rs`).

   The server is free in its answers, and so are the agent, the key files and the vault, which
   are a parameter. An answer that never comes, or a deadline, is one that is an error. -/
namespace Porthop.Ssh

open Profile (Server Uuid)

inductive HashAlg where
  | sha256
  | sha512
  deriving DecidableEq

section
variable (κ : Type)

/-- A key file, as far as it is read: the key data of its public half. -/
structure PrivateKey where
  keyData : κ
  encrypted : Bool

structure Certificate where
  publicKey : κ
  bytes : List UInt8

inductive AgentIdentity where
  | publicKey (key : κ) (comment : String)
  | certificate (certificate : Certificate κ) (comment : String)

/-- What is offered in one request. -/
inductive Credential where
  | file (key : PrivateKey κ) (hash : Option HashAlg)
  | publicKey (key : κ) (hash : Option HashAlg)
  | certificate (certificate : Certificate κ) (hash : Option HashAlg)

end

/-- The message that is shown, and whether `SelectedAgentUnavailable` is in the chain. -/
structure AuthError where
  unavailable : Bool
  message : String
  deriving DecidableEq

inductive AuthResult where
  | success
  /-- The server said no; by then the connection may be closed. -/
  | failure (closed : Bool)
  deriving DecidableEq

structure Prompt where
  prompt : String
  echo : Bool
  deriving DecidableEq

inductive KeyboardInteractiveAuthResponse where
  | success
  | failure
  | infoRequest (name instructions : String) (prompts : List Prompt)
  deriving DecidableEq

/-- What the server is asked. -/
inductive Ask (κ : Type) where
  | bestSupportedRsaHash
  | publickey (user : String) (credential : Credential κ)
  | password (user password : String)
  | keyboardInteractiveStart (user : String)
  | keyboardInteractiveRespond (responses : List String)

def Ask.Reply {κ : Type} : Ask κ → Type
  | bestSupportedRsaHash => Except AuthError (Option (Option HashAlg))
  | publickey _ _ => Except AuthError AuthResult
  | password _ _ => Except AuthError AuthResult
  | keyboardInteractiveStart _ => Except AuthError KeyboardInteractiveAuthResponse
  | keyboardInteractiveRespond _ => Except AuthError KeyboardInteractiveAuthResponse

/-- What the desktop's machine holds: the home directory, what can be read as a key in a file,
    the agent of a source with its identities, the saved passwords, and how a key is named. -/
structure Machine (κ : Type) where
  home : Option String
  keyFile : String → Option (PrivateKey κ)
  agent : Option String → Except String (Except String (List (AgentIdentity κ)))
  password : Uuid → Except String String
  fingerprint : κ → String

abbrev Attempt (κ α : Type) := ExceptT AuthError (Dialogue (Ask κ) Ask.Reply) α

section
variable {κ : Type}

namespace AgentIdentity

/-- The key of a certificate is the one it certifies. -/
def keyData : AgentIdentity κ → κ
  | publicKey key _ => key
  | certificate cert _ => cert.publicKey

def credential (hash : Option HashAlg) : AgentIdentity κ → Credential κ
  | publicKey key _ => .publicKey key hash
  | certificate cert _ => .certificate cert hash

end AgentIdentity

def Credential.keyData : Credential κ → κ
  | file key _ => key.keyData
  | publicKey key _ => key
  | certificate cert _ => cert.publicKey

def askRsaHash : Attempt κ (Option (Option HashAlg)) :=
  .mk (.ask .bestSupportedRsaHash .done)

def askPublickey (user : String) (credential : Credential κ) : Attempt κ AuthResult :=
  .mk (.ask (.publickey user credential) .done)

def askPassword (user password : String) : Attempt κ AuthResult :=
  .mk (.ask (.password user password) .done)

def askInteractiveStart (user : String) : Attempt κ KeyboardInteractiveAuthResponse :=
  .mk (.ask (.keyboardInteractiveStart user) .done)

def askInteractiveRespond (responses : List String) : Attempt κ KeyboardInteractiveAuthResponse :=
  .mk (.ask (.keyboardInteractiveRespond responses) .done)

/-- What needs no server. -/
def Attempt.local {α : Type} (x : Except AuthError α) : Attempt κ α := .mk (.done x)

def bail (message : String) : AuthError := ⟨false, message⟩

def selectedAgentUnavailable : AuthError :=
  ⟨true, "The selected SSH agent key is unavailable. Unlock the agent and check this server’s key selection."⟩

def agentError (server : Server) (error : String) : AuthError :=
  if server.agentKeyFingerprint.isSome then selectedAgentUnavailable else bail error

/-- An absolute path replaces the one it is joined to. -/
def joinPath (base rest : String) : String :=
  if rest.toList.head? = some '/' then rest
  else if base.toList.getLast? = some '/' then base ++ rest
  else base ++ "/" ++ rest

def identityPath (M : Machine κ) (path : String) : Except AuthError String :=
  if "~/".toList.isPrefixOf path.toList then
    match M.home with
    | none => .error (bail "Cannot find home directory")
    | some home => .ok (joinPath home (String.ofList (path.toList.drop 2)))
  else .ok path

def readIdentity (M : Machine κ) (path : String) : Except AuthError (PrivateKey κ) :=
  match M.keyFile path with
  | none => .error (bail s!"Cannot read identity {path}")
  | some key => .ok key

def AuthResult.isSuccess : AuthResult → Bool
  | success => true
  | failure _ => false

/-! ## Keys -/

/-- A key that is not encrypted is offered with its file. -/
def offerFile (user : String) (key : PrivateKey κ) (hash : Option HashAlg) : Attempt κ Bool := do
  let result ← askPublickey user (.file key hash)
  return result.isSuccess

def authenticateIdentity (user : String) (identity : AgentIdentity κ) (hash : Option HashAlg)
    (selected : Bool) : Attempt κ Bool := do
  let result ← askPublickey user (identity.credential hash)
  match result with
  | .success => return true
  | .failure closed =>
    if closed then throw (bail "Disconnected")
    else if selected then
      throw (bail "The server rejected the selected SSH key. Check the username and authorized keys.")
    else return false

/-- The identity is passed over: it is not the selected one of the agent or of the file. -/
def skips [DecidableEq κ] (M : Machine κ) (server : Server) (selected : Option (PrivateKey κ))
    (identity : AgentIdentity κ) : Bool :=
  (server.agentKeyFingerprint.any fun fingerprint =>
    M.fingerprint identity.keyData ≠ fingerprint) ||
  selected.any fun key => key.keyData ≠ identity.keyData

def offerIdentities [DecidableEq κ] (M : Machine κ) (server : Server)
    (selected : Option (PrivateKey κ)) (hash : Option HashAlg) :
    List (AgentIdentity κ) → Attempt κ Bool
  | [] => return false
  | identity :: identities =>
    if skips M server selected identity then offerIdentities M server selected hash identities
    else do
      if ← authenticateIdentity server.sshUser identity hash server.agentKeyFingerprint.isSome then
        return true
      offerIdentities M server selected hash identities

/-- What the agent holds, or nothing where none is needed and none answers. -/
def agentIdentities (M : Machine κ) (server : Server) :
    Except AuthError (List (AgentIdentity κ)) :=
  match M.agent server.agentSource with
  | .error _ =>
    if server.agentKeyFingerprint.isSome then .error selectedAgentUnavailable else .ok []
  | .ok (.error error) => .error (agentError server error)
  | .ok (.ok identities) => .ok identities

def offerDefaults (M : Machine κ) (user home : String) (hash : Option HashAlg) :
    List String → Attempt κ Bool
  | [] => return false
  | name :: names =>
    match readIdentity M (joinPath (joinPath home ".ssh") name) with
    | .error _ => offerDefaults M user home hash names
    | .ok key =>
      if key.encrypted then offerDefaults M user home hash names
      else do
        if ← offerFile user key hash then return true
        offerDefaults M user home hash names

/-- The key file that was chosen, where there is one. -/
def selectedKey (M : Machine κ) (server : Server) : Except AuthError (Option (PrivateKey κ)) :=
  match server.identityFile.filter (· ≠ "") with
  | none => .ok none
  | some file => do
    let path ← identityPath M file
    let key ← readIdentity M path
    return some key

def offerSelected (user : String) (selected : Option (PrivateKey κ)) (hash : Option HashAlg) :
    Attempt κ Bool :=
  match selected.filter (!·.encrypted) with
  | none => return false
  | some key => offerFile user key hash

def keyAuthFailed : AuthError :=
  bail "SSH key authentication failed. Check the username and identity, or load the matching encrypted key into your SSH agent."

/-- What is left when neither the file nor the agent was of use. -/
def fallBack (M : Machine κ) (server : Server) (selected : Option (PrivateKey κ))
    (hash : Option HashAlg) : Attempt κ Unit :=
  if server.agentKeyFingerprint.isSome then throw selectedAgentUnavailable
  else if selected.isSome then throw keyAuthFailed
  else match M.home with
    | none => throw (bail "Cannot find home directory")
    | some home => do
      if ← offerDefaults M server.sshUser home hash ["id_ed25519", "id_ecdsa", "id_rsa"] then
        return
      throw keyAuthFailed

def keyAuth [DecidableEq κ] (M : Machine κ) (server : Server) : Attempt κ Unit := do
  let selected ← .local (selectedKey M server)
  let hash ← askRsaHash
  if ← offerSelected server.sshUser selected hash.join then return
  let identities ← .local (agentIdentities M server)
  if ← offerIdentities M server selected hash.join identities then return
  fallBack M server selected hash.join

/-! ## Passwords -/

def containsText (part text : String) : Bool := text.toList.tails.any part.toList.isPrefixOf

/-- The conventional challenge: one prompt for a password, which is not echoed. -/
def asksPassword : List Prompt → Bool
  | [prompt] => !prompt.echo && containsText "password" prompt.prompt.toLower
  | _ => false

def answerChallenges (password : String) :
    Nat → KeyboardInteractiveAuthResponse → Attempt κ Unit
  | 0, reply =>
    if reply = .success then return else throw (bail "Password authentication failed.")
  | n + 1, reply =>
    match reply with
    | .success => return
    | .failure => throw (bail
        "Password authentication failed or the server requires an interactive challenge.")
    | .infoRequest _ _ prompts =>
      if asksPassword prompts then do
        let reply ← askInteractiveRespond [password]
        answerChallenges password n reply
      else throw (bail
        "Password authentication failed or the server requires an interactive challenge.")

def passwordAuth (user password : String) : Attempt κ Unit := do
  let result ← askPassword user password
  if result.isSuccess then return
  let reply ← askInteractiveStart user
  answerChallenges password 2 reply

def authenticate [DecidableEq κ] (M : Machine κ) (server : Server) : Attempt κ Unit :=
  if server.authMethod = .password then do
    let password ← .local ((M.password server.id).mapError bail)
    passwordAuth server.sshUser password
  else keyAuth M server

end

end Porthop.Ssh
