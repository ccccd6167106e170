import Porthop.Lib.Run
import Porthop.Vault.Opening

/- Profiles over any run of starts and saves, each of which may fail or be cut off at any step. -/
namespace Porthop.Vault
open Crash
open Profile (Config Server Tunnel Uuid Addresses)

section
variable {File Data Value : Type} (F : Formats File Data Value) (A : Addresses) (override : Bool)

/-- A data directory before the first start: the key of the first application, and a vault only
    where that key opens it. -/
structure Initial (d : World File Data) : Prop where
  modern : d.modern = none
  marker : d.marker = false
  key : d.key = none
  loads : d.loads = []
  generated : d.generated = []
  legacyReads : d.legacyReads = []
  missed : d.missed = false
  vault : d.vault = none ∧ d.records = [] ∨ ∃ file k r, d.vault = some file ∧
    d.legacy = some k ∧ recordIn F A file k = .ok r ∧ d.records = [r]

/-- What holds of the profiles at any time. -/
structure Safe (d w : World File Data) : Prop where
  oneKey : ∀ k ∈ w.loads, ∀ k' ∈ w.loads, k = k'
  legacyKey : ∀ k ∈ w.loads, ∀ l, d.legacy = some l → k = l
  /-- A new key was made only where there was no vault. -/
  generated : ∀ v ∈ w.generated, v = none
  /-- The legacy key was read only where there was no marker. -/
  legacyReads : ∀ marked ∈ w.legacyReads, marked = false
  /-- The key opens the vault, which holds the record of the last final replacement. -/
  vault : ∀ file, w.vault = some file → ∃ k r, recordIn F A file k = .ok r ∧
    w.records.getLast? = some r ∧ (∀ k' ∈ w.loads, k' = k) ∧ ∀ l, d.legacy = some l → k = l
  plaintext : ∀ dir name, w.files dir name ≠ d.files dir name → w.vault ≠ none
  /-- The first vault holds what the older files held. -/
  imported : w.missed = false → d.vault = none → ∀ r, w.records.head? = some r →
    ∃ fresh, plainConfig F A fresh override d.files = .ok r.config

/-- What one start or save does to the profiles. -/
structure SafeStep (m : Machine File Data) (e : Event) (m' : Machine File Data) : Prop where
  /-- No record is taken back, and a vault stays. -/
  records : m.world.records <+: m'.world.records
  present : m.world.vault ≠ none → m'.world.vault ≠ none
  start : ∀ fresh faults, e = .start fresh faults → m.world.vault ≠ none →
    m'.world.missed = false → m'.world.vault = m.world.vault
  saved : ∀ fresh config password faults, e = .save fresh config password faults →
    m'.succeeded = true → Stored F A m.world m'.world config password
  failed : ∀ fresh config password faults, e = .save fresh config password faults →
    m'.world.vault = m.world.vault ∧ m'.world.records = m.world.records ∨
      Stored F A m.world m'.world config password

/-- The invariant of the machine: an application whose load did not fail has a vault. -/
structure MachineInv (d : World File Data) (m : Machine File Data) : Prop where
  world : Inv F A override d m.world
  running : m.app = .running none → m.world.vault ≠ none

variable {F A override} {d b t : World File Data} {m m' : Machine File Data} {e : Event}

theorem Initial.inv (h : Initial F A d) : Inv F A override d d := by
  have hmodern := h.modern
  refine ⟨rfl, ?_, ?_, ?_, ?_, ?_, ?_, ?_, ?_, ?_⟩
  · intro k l hk
    rw [hmodern] at hk
    cases hk
  · intro hmarker
    rw [h.marker] at hmarker
    cases hmarker
  · intro k hk
    rw [h.key] at hk
    cases hk
  · rw [h.loads]
    simp
  · rw [h.generated]
    simp
  · rw [h.legacyReads]
    simp
  · intro file hfile
    rcases h.vault with ⟨hnone, -⟩ | ⟨file', k, r, hsome, hlegacy, hr, hrecords⟩
    · rw [hfile] at hnone
      cases hnone
    · obtain rfl := Option.some.inj (hfile.symm.trans hsome)
      refine ⟨k, r, Or.inr ⟨hmodern, hlegacy⟩, hr, ?_⟩
      rw [hrecords]
      rfl
  · intro hnone
    rcases h.vault with ⟨-, hrecords⟩ | ⟨file', k, r, hsome, -⟩
    · exact ⟨hrecords, rfl⟩
    · rw [hnone] at hsome
      cases hsome
  · intro _ hnone r hhead
    rcases h.vault with ⟨-, hrecords⟩ | ⟨file', k, r, hsome, -⟩
    · rw [hrecords] at hhead
      cases hhead
    · rw [hnone] at hsome
      cases hsome

/-- The invariant says what is safe. -/
theorem Inv.safe (h : Inv F A override d t) : Safe F A override d t := by
  refine ⟨?_, ?_, h.generated, h.legacyReads, ?_, ?_, h.imported⟩
  · intro k hk k' hk'
    exact Option.some.inj ((h.loads k hk).symm.trans (h.loads k' hk'))
  · intro k hk l hl
    exact h.same k l (h.loads k hk) (h.legacy.trans hl)
  · intro file hfile
    obtain ⟨k, r, hcurrent, hr, hlast⟩ := h.vault file hfile
    refine ⟨k, r, hr, hlast, ?_, ?_⟩
    · intro k' hk'
      have hmodern := h.loads k' hk'
      rcases hcurrent with hk | ⟨hnone, -⟩
      · exact Option.some.inj (hmodern.symm.trans hk)
      · rw [hmodern] at hnone
        cases hnone
    · intro l hl
      rcases hcurrent with hk | ⟨-, hk⟩
      · exact h.same k l hk (h.legacy.trans hl)
      · exact Option.some.inj (hk.symm.trans (h.legacy.trans hl))
  · intro dir name hne hnone
    rw [(h.empty hnone).2] at hne
    exact hne rfl

/-! ## Steps -/

theorem Calm.present (h : Calm b t) (hb : b.vault ≠ none) : t.vault ≠ none := by
  rw [h.vault]
  exact hb

theorem Stored.grows (h : ∃ config password, Stored F A b t config password) :
    b.records <+: t.records := by
  obtain ⟨_, _, -, k, file, r, -, -, -, hrecords, -⟩ := h
  rw [hrecords]
  exact List.prefix_append b.records [r]

theorem Calm.grows (h : Calm b t) : b.records <+: t.records := by
  rw [h.records]

theorem Opened.grows (h : Opened F A b t) : b.records <+: t.records := by
  obtain ⟨hcalm | ⟨-, config, hstored⟩⟩ := h
  · exact hcalm.grows
  · exact Stored.grows ⟨config, none, hstored⟩

theorem Opened.present (h : Opened F A b t) (hb : b.vault ≠ none) : t.vault ≠ none := by
  obtain ⟨hcalm | ⟨-, config, hstored⟩⟩ := h
  · exact hcalm.present hb
  · exact hstored.vault

theorem Opened.same (h : Opened F A b t) (hb : b.vault ≠ none) (hmissed : t.missed = false) :
    t.vault = b.vault := by
  obtain ⟨hcalm | ⟨hnone | htrue, -⟩⟩ := h
  · exact hcalm.vault
  · exact absurd hnone hb
  · rw [hmissed] at htrue
    cases htrue

theorem step_start (h : MachineInv F A override d m) {fresh : Fresh} {faults : List (Option Fault)}
    (hstep : machineStep F A override m (.start fresh faults) = some m') :
    MachineInv F A override d m' ∧ SafeStep F A m (.start fresh faults) m' := by
  match happ : m.app with
  | .running error =>
    rw [machineStep, happ] at hstep
    cases hstep
  | .closed =>
    have hload := ensures_storeLoad (b := { m.world with key := none })
      (Kept.refl h.world.closed) fresh
    rw [machineStep, happ] at hstep
    match hrun : storeLoad F A fresh override { m.world with key := none } faults with
    | (o, t, rest) =>
      rw [hrun] at hstep
      obtain rfl := Option.some.inj hstep
      have hstopped : Stopped F A override d { m.world with key := none } t := by
        cases ho : o.isReturned with
        | false => exact hload.stopped hrun ho
        | true =>
          cases o with
          | returned c =>
            have ht := hload.returned hrun
            exact ⟨ht.inv, ht.opened⟩
          | failed e => cases ho
          | ended => cases ho
      refine ⟨⟨hstopped.1, ?_⟩, ?_⟩
      · intro hrunning
        cases o with
        | returned c => exact (hload.returned hrun).vault
        | failed e => cases hrunning
        | ended => cases hrunning
      · refine ⟨hstopped.2.grows, hstopped.2.present, ?_, ?_, ?_⟩
        · intro _ _ _ hvault hmissed
          exact hstopped.2.same hvault hmissed
        · intro _ _ _ _ heq
          cases heq
        · intro _ _ _ _ heq
          cases heq

theorem step_save (h : MachineInv F A override d m) {fresh : Fresh} {config : Config}
    {password : Option (Uuid × String)} {faults : List (Option Fault)}
    (hstep : machineStep F A override m (.save fresh config password faults) = some m') :
    MachineInv F A override d m' ∧ SafeStep F A m (.save fresh config password faults) m' := by
  match happ : m.app with
  | .closed =>
    rw [machineStep, happ] at hstep
    cases hstep
  | .running (some error) =>
    rw [machineStep, happ] at hstep
    obtain rfl := Option.some.inj hstep
    refine ⟨⟨h.world, fun hrunning => nomatch hrunning⟩, ⟨List.prefix_rfl, id, ?_, ?_, ?_⟩⟩
    · intro _ _ heq
      cases heq
    · intro _ _ _ _ _ hsucceeded
      cases hsucceeded
    · intro _ _ _ _ _
      exact Or.inl ⟨rfl, rfl⟩
  | .running none =>
    have hvault := h.running happ
    have hsave : Ensures (saveWithPassword F A fresh config password) m.world _ _ :=
      ensures_saveWithPassword (Kept.refl h.world) fresh (fun hnone => absurd hnone hvault)
    rw [machineStep, happ] at hstep
    match hrun : saveWithPassword F A fresh config password m.world faults with
    | (o, t, rest) =>
      rw [hrun] at hstep
      obtain rfl := Option.some.inj hstep
      have hunfinished : Unfinished F A override d m.world config password t := by
        cases ho : o.isReturned with
        | false => exact hsave.stopped hrun ho
        | true =>
          cases o with
          | returned c =>
            have ht := hsave.returned hrun
            exact ⟨ht.1, Or.inr ht.2.1⟩
          | failed e => cases ho
          | ended => cases ho
      obtain ⟨hinv, hchange⟩ := hunfinished
      have hpresent : t.vault ≠ none := by
        rcases hchange with hcalm | hstored
        · exact hcalm.present hvault
        · exact hstored.vault
      refine ⟨⟨hinv, fun _ => hpresent⟩, ⟨?_, fun _ => hpresent, ?_, ?_, ?_⟩⟩
      · rcases hchange with hcalm | hstored
        · exact hcalm.grows
        · exact Stored.grows ⟨config, password, hstored⟩
      · intro _ _ heq
        cases heq
      · intro _ _ _ _ heq hsucceeded
        cases heq
        cases o with
        | returned c => exact (hsave.returned hrun).2.1
        | failed e => cases hsucceeded
        | ended => cases hsucceeded
      · intro _ _ _ _ heq
        cases heq
        rcases hchange with hcalm | hstored
        · exact Or.inl ⟨hcalm.vault, hcalm.records⟩
        · exact Or.inr hstored

/-- Every step keeps the invariant and is safe. -/
theorem step_safe (h : MachineInv F A override d m)
    (hstep : machineStep F A override m e = some m') :
    MachineInv F A override d m' ∧ SafeStep F A m e m' := by
  cases e with
  | start fresh faults => exact step_start h hstep
  | save fresh config password faults => exact step_save h hstep
  | close =>
    obtain rfl := Option.some.inj hstep
    refine ⟨⟨h.world, fun happ => nomatch happ⟩, ⟨List.prefix_rfl, id, ?_, ?_, ?_⟩⟩
    · intro _ _ heq
      cases heq
    · intro _ _ _ _ heq
      cases heq
    · intro _ _ _ _ heq
      cases heq

variable (F A override)

/-- **The profiles are kept.** Over any run of starts and saves, whatever fails or is cut off:
    one key, the legacy one if there is one, which opens the vault to the record of the last
    final replacement; and each start and save leaves the profiles as it found them, or stores
    what it was to store. -/
theorem profiles_kept (hd : Initial F A d) {events : List Event}
    (hrun : Run.exec (machineStep F A override) events ⟨.closed, false, d⟩ = some m) :
    Safe F A override d m.world ∧
      ∀ e m', machineStep F A override m e = some m' → SafeStep F A m e m' := by
  have hstart : MachineInv F A override d (⟨.closed, false, d⟩ : Machine File Data) :=
    ⟨hd.inv, fun happ => nomatch happ⟩
  have hinv : MachineInv F A override d m :=
    Run.exec_invariant (fun _ _ _ h hstep => (step_safe h hstep).1) hstart hrun
  refine ⟨hinv.world.safe, ?_⟩
  intro e m' hstep
  exact (step_safe hinv hstep).2

end

/-! ## Runs on given inputs -/

/-- A vault that names its key. -/
def plainFormats : Formats (Key × String × ProfileRecord) ProfileRecord Unit where
  snapshot file key := if key = file.1 then
      some fun client => if client = file.2.1 then some (some file.2.2) else none
    else none
  encrypt key client record := some (key, client, record)
  encode record := some record
  version record := some (some record.schemaVersion)
  record record := some record
  config _ := .error "not a configuration"
  servers _ := .error "not servers"
  tunnels _ := .error "not tunnels"
  values _ := .error "not tunnels"
  server _ := .error "not a server"
  tunnel _ _ := .error "not a tunnel"

def noAddresses : Addresses := ⟨fun _ => false, fun _ => none⟩

def emptyDirectory : World (Key × String × ProfileRecord) ProfileRecord :=
  ⟨none, none, false, none, fun _ _ => none, none, [], [], [], false, [], none⟩

theorem emptyDirectory_initial : Initial plainFormats noAddresses emptyDirectory :=
  ⟨rfl, rfl, rfl, rfl, rfl, rfl, rfl, Or.inl ⟨rfl, rfl⟩⟩

def firstFresh : Fresh := ⟨List.replicate 32 7, rfl, fun n => BitVec.ofNat 128 n⟩

def webServer : Server :=
  ⟨1, "Web", "dev", "host", 22, none, none, none, .password, false, false⟩

/-- A start, the save of a server with a password, and a third event. -/
def savedThen (e : Event) : List Event :=
  [.start firstFresh [], .save firstFresh ⟨[webServer], []⟩ (some (1, "secret")) [], e]

def ranFrom (events : List Event) : Option (Machine (Key × String × ProfileRecord) ProfileRecord) :=
  Run.exec (machineStep plainFormats noAddresses true) events ⟨.closed, false, emptyDirectory⟩

/-- What the vault holds by the stored key. -/
def held (w : World (Key × String × ProfileRecord) ProfileRecord) : Option ProfileRecord :=
  match w.vault, w.modern with
  | some file, some key => (recordIn plainFormats noAddresses file key).toOption
  | _, _ => none

/-- A save that fails when its final replacement is made. -/
def lateFailure : Event :=
  .save firstFresh ⟨[], []⟩ none (List.replicate 8 none ++ [some (.fails false "I/O error")])

/-- A save that cannot tell whether there is a vault. -/
def missedVault : Event :=
  .save firstFresh ⟨[webServer], []⟩ none [some (.fails false "I/O error")]

set_option maxRecDepth 4000 in
/-- The last successful save stored a server, and the vault holds none: the save after it
    failed when it had replaced the vault. And a save that missed the vault succeeds, and the
    password is gone. -/
theorem failedSave_replaced :
    (∃ m, ranFrom (savedThen lateFailure) = some m ∧ m.world.missed = false ∧
      m.world.saved = some ⟨[webServer], []⟩ ∧ (held m.world).map (·.config) = some ⟨[], []⟩) ∧
    ∃ m, ranFrom (savedThen missedVault) = some m ∧ m.succeeded = true ∧
      (held m.world).map (·.passwords) = some [] := by
  have hlate : ((ranFrom (savedThen lateFailure)).any fun m => !m.world.missed ∧
      m.world.saved = some ⟨[webServer], []⟩ ∧
      (held m.world).map (·.config) = some ⟨[], []⟩) = true := by decide
  have hmissed : ((ranFrom (savedThen missedVault)).any fun m => m.succeeded ∧
      (held m.world).map (·.passwords) = some []) = true := by decide
  constructor
  · obtain ⟨m, hm, h⟩ := (Option.any_eq_true _ _).mp hlate
    simp only [decide_eq_true_eq, Bool.not_eq_true'] at h
    exact ⟨m, hm, h.1, h.2.1, h.2.2⟩
  · obtain ⟨m, hm, h⟩ := (Option.any_eq_true _ _).mp hmissed
    simp only [decide_eq_true_eq] at h
    exact ⟨m, hm, h.1, h.2⟩

set_option maxRecDepth 4000 in
theorem savedServer_kept : ∃ m, ranFrom (savedThen .close) = some m ∧
    Safe plainFormats noAddresses true emptyDirectory m.world := by
  have hsome : (ranFrom (savedThen .close)).isSome = true := by decide
  obtain ⟨m, hm⟩ := Option.isSome_iff_exists.mp hsome
  exact ⟨m, hm, (profiles_kept plainFormats noAddresses true emptyDirectory_initial hm).1⟩

end Porthop.Vault
