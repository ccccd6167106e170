import Porthop.Profile.Tunnels

/- The record a profile vault holds, and how it is read (`vault.rs`).

   Stronghold and serde_json are parameters: what a file opened with a key holds, what data
   stands for, and which data a record is written as. Nothing is assumed of them, since a
   vault is read back before it replaces the last one. -/
namespace Porthop.Vault
open Profile (Config Server Tunnel Uuid Addresses)

abbrev Key := List UInt8

abbrev Passwords := List (Uuid × String)

/-- A map in the order of its keys. -/
def Passwords.insert (id : Uuid) (secret : String) : Passwords → Passwords
  | [] => [(id, secret)]
  | (other, old) :: rest =>
    if id = other then (id, secret) :: rest
    else if id < other then (id, secret) :: (other, old) :: rest
    else (other, old) :: Passwords.insert id secret rest

structure ProfileRecord where
  schemaVersion : Nat
  config : Config
  passwords : Passwords

def CLIENT : String := "newport-profiles-v1"
def LEGACY_CLIENT : String := "porthop-profiles-v1"
def SCHEMA_VERSION : Nat := 2

/-- What the vault and the import take from Stronghold and from serde_json. -/
structure Formats (File Data Value : Type) where
  /-- The clients of a snapshot the key opens, each with the data of its record. -/
  snapshot : File → Key → Option (String → Option (Option Data))
  /-- A snapshot with one client and its record. -/
  encrypt : Key → String → Data → Option File
  encode : ProfileRecord → Option Data
  version : Data → Option (Option Nat)
  record : Data → Option ProfileRecord
  config : Data → Except String Config
  servers : Data → Except String (List Server)
  tunnels : Data → Except String (List Tunnel)
  values : Data → Except String (List Value)
  server : Value → Except String Server
  /-- The tunnel in a value whose `serverId` is set. -/
  tunnel : Value → Uuid → Except String Tunnel

section
variable {File Data Value : Type} (F : Formats File Data Value) (A : Addresses)

def orError {α : Type} (e : String) : Option α → Except String α
  | some a => .ok a
  | none => .error e

def decodeRecord (data : Data) : Except String ProfileRecord := do
  let version ← orError "Invalid encrypted profile format" (F.version data)
  let record ← match version with
    | some version =>
      if version = 1 ∨ version = SCHEMA_VERSION then
        orError "Invalid encrypted profiles" (F.record data)
      else .error "Unsupported profile version. Update Newport before editing these profiles."
    | none =>
      match F.config data with
      | .ok config => .ok ⟨SCHEMA_VERSION, config, []⟩
      | .error _ => .error "Invalid encrypted profiles"
  record.config.validate A
  .ok record

/-- The record in a file, by the key. -/
def recordIn (file : File) (key : Key) : Except String ProfileRecord := do
  let clients ← orError
    "Cannot unlock saved profiles. Check the vault key in your system credential storage."
    (F.snapshot file key)
  let client ← orError "Client data not present" (clients CLIENT <|> clients LEGACY_CLIENT)
  let data ← orError "Encrypted profile record is missing" client
  decodeRecord F A data

end

namespace ProfileRecord

def new (config : Config) : ProfileRecord := ⟨SCHEMA_VERSION, config, []⟩

/-- The record with a new configuration: the passwords of its servers stay, and one is set. -/
def updated (record : ProfileRecord) (config : Config) (password : Option (Uuid × String)) :
    Except String ProfileRecord :=
  let kept := record.passwords.filter fun p => config.servers.any fun server => server.id = p.1
  match password with
  | none => .ok ⟨SCHEMA_VERSION, config, kept⟩
  | some (id, secret) =>
    if config.servers.any fun server => server.id = id then
      .ok ⟨SCHEMA_VERSION, config, Passwords.insert id secret kept⟩
    else .error "Server no longer exists."

/-- The password of a server after a save: the one given, or the one before. -/
def passwordAfter (old : Option String) (password : Option (Uuid × String)) (id : Uuid) :
    Option String :=
  match password with
  | some (other, secret) => if id = other then some secret else old
  | none => old

/-- The record has exactly the configuration, and the passwords that go with it. -/
structure Holds (r : ProfileRecord) (old : Passwords) (config : Config)
    (password : Option (Uuid × String)) : Prop where
  exactly : r.config = config
  kept : ∀ id, (config.servers.any fun server => server.id = id) = true →
    r.passwords.lookup id = passwordAfter (old.lookup id) password id
  others : ∀ id, (config.servers.any fun server => server.id = id) = false →
    r.passwords.lookup id = none

end ProfileRecord

/-! ## Passwords -/

theorem lookup_cons_if (id k : Uuid) (secret : String) (ps : Passwords) :
    List.lookup id ((k, secret) :: ps) = if id = k then some secret else ps.lookup id := by
  by_cases h : id = k
  · rw [if_pos h, List.lookup_cons, h, beq_self_eq_true]
  · rw [if_neg h, List.lookup_cons, beq_eq_false_iff_ne.mpr h]

theorem lookup_insert (id other : Uuid) (secret : String) (ps : Passwords) :
    (Passwords.insert id secret ps).lookup other =
      if other = id then some secret else ps.lookup other := by
  induction ps with
  | nil => rw [Passwords.insert, lookup_cons_if]
  | cons p ps ih =>
    obtain ⟨k, old⟩ := p
    rw [Passwords.insert, lookup_cons_if]
    by_cases hk : id = k
    · rw [if_pos hk, lookup_cons_if, ← hk]
      by_cases h : other = id
      · rw [if_pos h, if_pos h]
      · rw [if_neg h, if_neg h, if_neg h]
    · rw [if_neg hk]
      by_cases hlt : id < k
      · rw [if_pos hlt, lookup_cons_if, lookup_cons_if]
      · rw [if_neg hlt, lookup_cons_if, ih]
        by_cases h : other = k
        · have hne : other ≠ id := by
            rw [h]
            exact fun hkid => hk hkid.symm
          rw [if_pos h, if_neg hne, if_pos h]
        · rw [if_neg h, if_neg h]

theorem lookup_filter (keep : Uuid → Bool) (id : Uuid) (ps : Passwords) :
    (ps.filter fun p => keep p.1).lookup id = if keep id then ps.lookup id else none := by
  induction ps with
  | nil => rw [List.filter_nil, List.lookup_nil, ite_self]
  | cons p ps ih =>
    obtain ⟨k, old⟩ := p
    rw [lookup_cons_if]
    by_cases hkeep : keep k
    · rw [List.filter_cons_of_pos (by exact hkeep), lookup_cons_if, ih]
      by_cases h : id = k
      · rw [if_pos h, if_pos h, h, if_pos hkeep]
      · rw [if_neg h, if_neg h]
    · rw [List.filter_cons_of_neg (by exact hkeep), ih]
      by_cases h : id = k
      · rw [h, if_neg hkeep, if_neg hkeep]
      · rw [if_neg h]

/-- What a record is updated to holds the configuration and its passwords. -/
theorem ProfileRecord.holds_updated {record r : ProfileRecord} {config : Config}
    {password : Option (Uuid × String)} (h : record.updated config password = .ok r) :
    r.Holds record.passwords config password := by
  have hkept : ∀ id, (record.passwords.filter fun p =>
      config.servers.any fun server => server.id = p.1).lookup id =
        if config.servers.any fun server => server.id = id then record.passwords.lookup id
        else none :=
    fun id => lookup_filter (fun id => config.servers.any fun server => server.id = id) id _
  cases password with
  | none =>
    obtain rfl := Except.ok.inj h
    refine ⟨rfl, ?_, ?_⟩
    · intro id hid
      exact (hkept id).trans (if_pos hid)
    · intro id hid
      exact (hkept id).trans (if_neg (by simp [hid]))
  | some given =>
    obtain ⟨given, secret⟩ := given
    simp only [updated] at h
    split at h
    · next hgiven =>
      obtain rfl := Except.ok.inj h
      refine ⟨rfl, ?_, ?_⟩
      · intro id hid
        simp only [lookup_insert, hkept, if_pos hid, passwordAfter]
      · intro id hid
        have hne : id ≠ given := by
          intro heq
          rw [heq, hgiven] at hid
          cases hid
        simp only [lookup_insert, hkept, if_neg hne]
        simp [hid]
    · cases h

end Porthop.Vault
