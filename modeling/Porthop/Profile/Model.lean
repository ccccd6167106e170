import Mathlib.Data.String.Basic
import Mathlib.Data.UInt

/- Servers, tunnels and what makes a configuration valid (`model.rs`).

   How the standard library reads an address is a parameter: nothing here depends on which
   texts are addresses or how one is written. -/
namespace Porthop.Profile

abbrev Uuid := BitVec 128

/-- The standard library's parsers of addresses: which texts are one of version 6, and the
    normal form of an address of either version. -/
structure Addresses where
  isV6 : String → Bool
  normal : String → Option String

inductive AuthMethod where
  | publicKey
  | password
  deriving DecidableEq

structure Server where
  id : Uuid
  name : String
  sshUser : String
  sshHost : String
  sshPort : UInt16
  identityFile : Option String
  agentSource : Option String
  agentKeyFingerprint : Option String
  authMethod : AuthMethod
  clipboardEnabled : Bool
  browserEnabled : Bool
  deriving DecidableEq

structure Tunnel where
  id : Uuid
  name : String
  serverId : Uuid
  localPort : UInt16
  localPortEnd : Option UInt16
  remoteHost : String
  remotePort : UInt16
  remotePortEnd : Option UInt16
  autoConnect : Bool
  autoReconnect : Bool
  deriving DecidableEq

structure Config where
  servers : List Server
  tunnels : List Tunnel
  deriving DecidableEq

def asciiAlphanumeric (c : Char) : Bool := c.isAlphanum

def hostValid (A : Addresses) (s : String) : Bool :=
  (':' ∉ s.toList ∨ A.isV6 s) ∧ s ≠ "" ∧ s.utf8ByteSize ≤ 253 ∧ s.toList.head? ≠ some '-' ∧
    s.toList.all fun c => asciiAlphanumeric c ∨ c ∈ ".-_:".toList

namespace Server

def sameDestination (s other : Server) : Bool :=
  s.sshHost = other.sshHost ∧ s.sshPort = other.sshPort ∧ s.sshUser = other.sshUser

def sameConnection (s other : Server) : Bool :=
  s.sameDestination other ∧ s.identityFile = other.identityFile ∧
    s.agentSource = other.agentSource ∧ s.agentKeyFingerprint = other.agentKeyFingerprint ∧
    s.authMethod = other.authMethod

/-- A fingerprint is the name of the hash and 43 digits of base64. -/
def fingerprintValid (fingerprint : String) : Bool :=
  "SHA256:".toList.isPrefixOf fingerprint.toList ∧ fingerprint.utf8ByteSize = 50 ∧
    (fingerprint.toList.drop 7).all fun c => asciiAlphanumeric c ∨ c = '+' ∨ c = '/'

def userValid (user : String) : Bool :=
  user ≠ "" ∧ user.toList.head? ≠ some '-' ∧
    user.toList.all fun c => asciiAlphanumeric c ∨ c ∈ "_.-".toList

def validate (A : Addresses) (s : Server) : Except String Unit :=
  if s.agentSource.any fun source => source ∉ ["system", "onePassword"] then
    .error "Unknown SSH agent"
  else if s.agentKeyFingerprint.any fun fingerprint => !fingerprintValid fingerprint then
    .error "Invalid SSH key fingerprint"
  else if s.agentKeyFingerprint.isSome ∧ s.identityFile.any fun file => file ≠ "" then
    .error "Choose an agent key or a key file, not both"
  else if !hostValid A s.sshHost then
    .error "Enter a hostname or an unbracketed IP address."
  else if !userValid s.sshUser then .error "Enter a valid SSH username."
  else if s.sshPort = 0 then .error "SSH port must be between 1 and 65535."
  else .ok ()

end Server

/-! ## What a valid server has -/

section
variable {A : Addresses} {s : Server}

theorem Server.hostValid_of_validate (h : s.validate A = .ok ()) : hostValid A s.sshHost = true := by
  by_contra hhost
  have hneg : (!hostValid A s.sshHost) = true := by
    rw [eq_false_of_ne_true hhost]
    rfl
  rw [validate] at h
  split at h
  · cases h
  · split at h
    · cases h
    · split at h
      · cases h
      · cases h

theorem hostValid_char {host : String} (h : hostValid A host) {c : Char}
    (hc : c ∈ host.toList) : c.isAlphanum = true ∨ c ∈ ".-_:".toList := by
  rw [hostValid, decide_eq_true_eq] at h
  have hall := List.all_eq_true.mp h.2.2.2.2 c hc
  simpa [asciiAlphanumeric] using hall

theorem hostValid_ne_nil {host : String} (h : hostValid A host) : host ≠ "" := by
  rw [hostValid, decide_eq_true_eq] at h
  exact h.2.1

end

end Porthop.Profile
