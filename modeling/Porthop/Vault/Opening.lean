import Porthop.Vault.Saving

/- What a start ensures: it opens the vault, or imports what the older files hold.

   `Reads w p x` says that a program only looks, and returns what `x` computes from the files,
   unless one of them was missed. -/
namespace Porthop.Vault
open Crash
open Profile (Config Server Tunnel Uuid Addresses)

section
variable {File Data Value : Type} {F : Formats File Data Value} {A : Addresses} {override : Bool}
  {d b w t u : World File Data}

/-! ## Reading the older files -/

def Looked (w t : World File Data) : Prop := t = w ∨ t = w.miss

def Reads {α : Type} (w : World File Data) (p : Prog (World File Data) α) (x : Except String α) :
    Prop :=
  Ensures p w (fun a t => Looked w t ∧ (t.missed = false → x = .ok a)) (Looked w)

theorem Looked.refl (w : World File Data) : Looked w w := Or.inl rfl

theorem Looked.trans (h : Looked w t) (ht : Looked t u) : Looked w u := by
  rcases ht with rfl | rfl
  · exact h
  · rcases h with rfl | rfl
    · exact Or.inr rfl
    · exact Or.inr rfl

theorem Looked.files (h : Looked w t) : t.files = w.files := by
  rcases h with rfl | rfl
  · rfl
  · rfl

theorem Looked.eq (h : Looked w t) (hmissed : t.missed = false) : t = w := by
  rcases h with rfl | rfl
  · rfl
  · cases hmissed

theorem Looked.kept (h : Looked w t) (hw : Kept F A override d b w) : Kept F A override d b t := by
  rcases h with rfl | rfl
  · exact hw
  · exact hw.miss

namespace Reads

variable {α β : Type} {p : Prog (World File Data) α} {q : α → Prog (World File Data) β}
  {x : Except String α} {y : α → Except String β}

theorem pure {a : α} : Reads w (pure a) (.ok a) :=
  Ensures.pure ⟨Looked.refl w, fun _ => rfl⟩

theorem ofExcept : Reads w (Prog.ofExcept x) x :=
  Ensures.ofExcept (Looked.refl w) fun _ ha => ⟨Looked.refl w, fun _ => ha⟩

theorem bind (hp : Reads w p x) (hq : ∀ a t, t.files = w.files → Reads t (q a) (y a)) :
    Reads w (p >>= q) (x >>= y) := by
  apply Ensures.bind
  apply hp.imp _ fun _ ht => ht
  intro a t ht
  obtain ⟨hlooked, hx⟩ := ht
  apply (hq a t hlooked.files).imp
  · intro c u hu
    refine ⟨hlooked.trans hu.1, ?_⟩
    intro hmissed
    have ht : t.missed = false := by
      rw [← hu.1.eq hmissed]
      exact hmissed
    rw [hx ht]
    exact hu.2 hmissed
  · intro u hu
    exact hlooked.trans hu

theorem ite {b : Bool} {p q : Prog (World File Data) α} {x y : Except String α}
    (hp : Reads w p x) (hq : Reads w q y) :
    Reads w (if b then p else q) (if b then x else y) := by
  cases b with
  | true => exact hp
  | false => exact hq

theorem plainExists (d : Directory) (name : Plaintext) {files : Directory → Plaintext → Option Data}
    (hfiles : w.files = files) : Reads w (plainExists d name) (.ok (files d name).isSome) := by
  apply Ensures.present (Looked.refl w)
  · rw [hfiles]
    exact ⟨Looked.refl w, fun _ => rfl⟩
  · intro _
    exact ⟨Or.inr rfl, fun hmissed => nomatch hmissed⟩

theorem read (d : Directory) (name : Plaintext) {files : Directory → Plaintext → Option Data}
    (hfiles : w.files = files) :
    Reads w (read d name) (orError s!"Cannot read {name.file}" (files d name)) := by
  apply Ensures.ask (Looked.refl w)
  intro data hdata
  rw [hfiles] at hdata
  exact ⟨Looked.refl w, fun _ => hdata⟩

end Reads

theorem reads_legacyDirectory {files : Directory → Plaintext → Option Data}
    (hfiles : w.files = files) :
    Reads w (legacyDirectory override) (.ok (plainDirectory override files)) := by
  have hsame : (do
      if ← Except.ok (files .own .tunnels).isSome then .ok Directory.own
      else if ← Except.ok (files .own .servers).isSome then .ok .own
      else .ok (if override then .own else .sshTunnelBar)) =
        (.ok (plainDirectory override files) : Except String Directory) := by
    unfold plainDirectory
    cases (files .own .tunnels).isSome with
    | true => rfl
    | false =>
      cases (files .own .servers).isSome with
      | true => rfl
      | false => rfl
  rw [← hsame]
  apply Reads.bind (Reads.plainExists .own .tunnels hfiles)
  intro own t ht
  apply Reads.ite Reads.pure
  apply Reads.bind (Reads.plainExists .own .servers (ht.trans hfiles))
  intro own t ht
  exact Reads.ite Reads.pure Reads.pure

/-- The import of one directory, on its files. -/
def serversOf (F : Formats File Data Value) (files : Plaintext → Option Data) :
    Except String Config := do
  let data ← orError s!"Cannot read {Plaintext.servers.file}" (files .servers)
  let servers ← parsedServers F data
  if ← Except.ok (files .tunnels).isSome then do
    let data ← orError s!"Cannot read {Plaintext.tunnels.file}" (files .tunnels)
    let tunnels ← parsedTunnels F data
    .ok ⟨servers, tunnels⟩
  else .ok ⟨servers, []⟩

def tunnelsOf (F : Formats File Data Value) (fresh : Fresh) (files : Plaintext → Option Data) :
    Except String Config := do
  let data ← orError s!"Cannot read {Plaintext.tunnels.file}" (files .tunnels)
  parsedValues F fresh data

theorem reads_importServers {files : Directory → Plaintext → Option Data} (hfiles : w.files = files)
    (d : Directory) : Reads w (importServers F d) (serversOf F (files d)) := by
  apply Reads.bind (Reads.read d .servers hfiles)
  intro data t ht
  apply Reads.bind Reads.ofExcept
  intro servers t ht'
  have ht := ht'.trans ht
  apply Reads.bind (Reads.plainExists d .tunnels (ht.trans hfiles))
  intro found t ht'
  have ht := ht'.trans ht
  apply Reads.ite
  · apply Reads.bind (Reads.read d .tunnels (ht.trans hfiles))
    intro data t _
    apply Reads.bind Reads.ofExcept
    intro tunnels t _
    exact Reads.pure
  · exact Reads.pure

theorem reads_importTunnels {files : Directory → Plaintext → Option Data} (hfiles : w.files = files)
    (d : Directory) (fresh : Fresh) :
    Reads w (importTunnels F fresh d) (tunnelsOf F fresh (files d)) := by
  apply Reads.bind (Reads.read d .tunnels hfiles)
  intro data t _
  exact Reads.ofExcept

/-- The import of a directory returns what its files hold. -/
theorem reads_importFrom {files : Directory → Plaintext → Option Data} (hfiles : w.files = files)
    (d : Directory) (fresh : Fresh) :
    Reads w (importFrom F fresh d) (plainLegacy F fresh (files d)) := by
  have hsame : (do
      if ← Except.ok (files d .servers).isSome then serversOf F (files d)
      else if ← Except.ok (files d .tunnels).isSome then tunnelsOf F fresh (files d)
      else .ok ⟨[], []⟩) = plainLegacy F fresh (files d) := by
    unfold plainLegacy serversOf tunnelsOf
    cases files d .servers with
    | none =>
      cases files d .tunnels with
      | none => rfl
      | some tunnels => rfl
    | some servers =>
      cases files d .tunnels with
      | none => rfl
      | some tunnels => rfl
  rw [← hsame]
  apply Reads.bind (Reads.plainExists d .servers hfiles)
  intro found t ht
  apply Reads.ite (reads_importServers (ht.trans hfiles) d)
  apply Reads.bind (Reads.plainExists d .tunnels (ht.trans hfiles))
  intro found t ht'
  exact Reads.ite (reads_importTunnels (ht'.trans (ht.trans hfiles)) d fresh) Reads.pure

theorem reads_importLegacy {files : Directory → Plaintext → Option Data} (hfiles : w.files = files)
    (fresh : Fresh) : Reads w (importLegacy F fresh override)
      (plainLegacy F fresh (files (plainDirectory override files))) := by
  apply Reads.bind (x := .ok (plainDirectory override files)) (y := fun d => plainLegacy F fresh (files d))
    (reads_legacyDirectory hfiles)
  intro d t ht
  exact reads_importFrom (ht.trans hfiles) d fresh

theorem reads_readConfig {files : Directory → Plaintext → Option Data} (hfiles : w.files = files)
    {data : Data} (hdata : files .own .config = some data) :
    Reads w (readConfig F A) (parsedConfig F A data) := by
  have hsame : (do
      let data ← orError s!"Cannot read {Plaintext.config.file}" (files .own .config)
      parsedConfig F A data) = parsedConfig F A data := by
    rw [hdata]
    rfl
  rw [← hsame]
  apply Reads.bind (Reads.read .own .config hfiles)
  intro data t _
  exact Reads.ofExcept

/-! ## A start -/

/-- What a start leaves: the profiles as they were, or the import where there was no vault. -/
structure Opened (F : Formats File Data Value) (A : Addresses) (b t : World File Data) : Prop where
  profiles : Calm b t ∨ (b.vault = none ∨ t.missed = true) ∧ ∃ config, Stored F A b t config none

theorem Inv.without (h : Inv F A override d w) (hvault : w.vault ≠ none) (name : Plaintext) :
    Inv F A override d (w.without name) :=
  { h with empty := fun hnone => absurd hnone hvault }

theorem Opened.without (h : Opened F A b w) (name : Plaintext) : Opened F A b (w.without name) := by
  obtain ⟨hcalm | ⟨hempty, config, hstored⟩⟩ := h
  · exact ⟨Or.inl ⟨hcalm.vault, hcalm.records, hcalm.saved, hcalm.missed⟩⟩
  · exact ⟨Or.inr ⟨hempty, config, hstored.missed, hstored.placed⟩⟩

/-- What a start that returned leaves. -/
structure Finished (F : Formats File Data Value) (A : Addresses) (override : Bool)
    (d b t : World File Data) : Prop where
  inv : Inv F A override d t
  opened : Opened F A b t
  vault : t.vault ≠ none

theorem ensures_removeEach (names : List Plaintext) (h : Finished F A override d b w) :
    Ensures (removeEach names) w (fun _ t => Finished F A override d b t)
      (Finished F A override d b) := by
  induction names generalizing w with
  | nil => exact Ensures.pure h
  | cons name names ih =>
    have hremoved : Finished F A override d b (w.without name) :=
      ⟨h.inv.without h.vault name, h.opened.without name, h.vault⟩
    apply Ensures.bind
    exact Ensures.act h hremoved (ih hremoved)

/-- A start that did not return. -/
def Stopped (F : Formats File Data Value) (A : Addresses) (override : Bool)
    (d b t : World File Data) : Prop :=
  Inv F A override d t ∧ Opened F A b t

theorem Kept.stopped (h : Kept F A override d b w) : Stopped F A override d b w :=
  ⟨h.1, ⟨Or.inl h.2⟩⟩

theorem ensures_removePlaintext (h : Finished F A override d b w) :
    Ensures removePlaintext w (fun _ t => Finished F A override d b t) (Stopped F A override d b) :=
  (ensures_removeEach _ h).imp (fun _ _ ht => ht) fun _ ht => ⟨ht.inv, ht.opened⟩

/-- What was read is stored, and then the older files are removed. -/
theorem ensures_stored (h : Kept F A override d b w) (fresh : Fresh) (config : Config)
    (hempty : b.vault = none ∨ w.missed = true)
    (himport : w.vault = none → d.vault = none → w.missed = false →
      ∃ fresh, plainConfig F A fresh override d.files = .ok config) :
    Ensures (saveWithPassword F A fresh config none >>= fun _ => removePlaintext >>= fun _ =>
        (pure config : Prog (World File Data) Config)) w
      (fun _ t => Finished F A override d b t) (Stopped F A override d b) := by
  have hmissed : ∀ t, Stored F A w t config none → b.vault = none ∨ t.missed = true := by
    intro t ht
    rcases hempty with hb | hw
    · exact Or.inl hb
    · exact Or.inr (ht.missed hw)
  have hbase : ∀ t, Stored F A w t config none → Stored F A b t config none := by
    intro t ht
    obtain ⟨hmono, k, file, r, hplaced⟩ := ht
    rw [h.2.records, h.2.passwords] at hplaced
    exact ⟨fun hb => hmono (h.2.missed hb), k, file, r, hplaced⟩
  apply Ensures.bind
  have hsave : Ensures (saveWithPassword F A fresh config none) w _ _ :=
    ensures_saveWithPassword (Kept.refl h.1) fresh himport
  apply hsave.imp
  · intro _ t ht
    obtain ⟨hinv, hstored, -⟩ := ht
    apply Ensures.bind
    apply (ensures_removePlaintext (b := b)
      ⟨hinv, ⟨Or.inr ⟨hmissed t hstored, config, hbase t hstored⟩⟩, hstored.vault⟩).imp _ fun _ hu => hu
    intro _ u hu
    exact Ensures.pure hu
  · intro t ht
    obtain ⟨hinv, hcalm | hstored⟩ := ht
    · exact ⟨hinv, ⟨Or.inl (h.2.trans hcalm)⟩⟩
    · exact ⟨hinv, ⟨Or.inr ⟨hmissed t hstored, config, hbase t hstored⟩⟩⟩

theorem Looked.missed (h : Looked w t) (hw : w.missed = true) : t.missed = true := by
  rcases h with rfl | rfl
  · exact hw
  · rfl

/-- An import stores what the older files hold, unless it missed one of them. -/
theorem ensures_importProfiles (h : Kept F A override d b w)
    (hempty : b.vault = none ∨ w.missed = true) (fresh : Fresh) :
    Ensures (importProfiles F A fresh override) w (fun _ t => Finished F A override d b t)
      (Stopped F A override d b) := by
  have hgo : ∀ t config, Looked w t → (t.missed = false → plainConfig F A fresh override w.files = .ok config) →
      Ensures (saveWithPassword F A fresh config none >>= fun _ => removePlaintext >>= fun _ =>
          (pure config : Prog (World File Data) Config)) t
        (fun _ t => Finished F A override d b t) (Stopped F A override d b) := by
    intro t config ht hconfig
    apply ensures_stored (ht.kept h) fresh config
    · rcases hempty with hb | hw
      · exact Or.inl hb
      · exact Or.inr (ht.missed hw)
    · intro hvault _ hmissed
      obtain rfl := ht.eq hmissed
      rw [← (h.1.empty hvault).2]
      exact ⟨fresh, hconfig hmissed⟩
  have hold : ∀ t, Looked w t → (t.missed = false → w.files .own .config = none) →
      Ensures (importLegacy F fresh override >>= fun config =>
          Prog.ofExcept (config.validate A) >>= fun _ => saveWithPassword F A fresh config none >>=
          fun _ => removePlaintext >>= fun _ => (pure config : Prog (World File Data) Config)) t
        (fun _ t => Finished F A override d b t) (Stopped F A override d b) := by
    intro t ht hnone
    apply Ensures.bind
    apply (reads_importLegacy ht.files fresh).imp
    · intro config u hu
      have hlooked := ht.trans hu.1
      apply Ensures.bind
      apply Ensures.ofExcept (hlooked.kept h).stopped
      intro _ hvalid
      apply hgo u config hlooked
      intro hmissed
      have htmissed : t.missed = false := by
        rw [← hu.1.eq hmissed]
        exact hmissed
      unfold plainConfig
      rw [hnone htmissed, hu.2 hmissed]
      change (config.validate A >>= fun _ => Except.ok config) = _
      rw [hvalid]
      rfl
    · intro u hu
      exact ((ht.trans hu).kept h).stopped
  apply Ensures.bind
  apply Ensures.present h.stopped
  · match hconfig : w.files .own .config with
    | some data =>
      apply Ensures.bind
      apply (reads_readConfig rfl hconfig).imp
      · intro config t ht
        apply hgo t config ht.1
        intro hmissed
        unfold plainConfig
        rw [hconfig]
        exact ht.2 hmissed
      · intro t ht
        exact (ht.kept h).stopped
    | none =>
      exact hold w (Looked.refl w) fun _ => hconfig
  · intro _
    exact hold w.miss (Or.inr rfl) fun hmissed => nomatch hmissed

/-- A start that finds a vault leaves the profiles; one that does not imports them. -/
theorem ensures_storeLoad (h : Kept F A override d b w) (fresh : Fresh) :
    Ensures (storeLoad F A fresh override) w (fun _ t => Finished F A override d b t)
      (Stopped F A override d b) := by
  apply Ensures.bind
  apply Ensures.present h.stopped
  · match hvault : w.vault with
    | some file =>
      apply Ensures.bind
      apply (ensures_vaultKey h fresh).imp
      · intro k t ht
        have hfinished : Finished F A override d b t := by
          refine ⟨ht.1.1, ⟨Or.inl ht.1.2⟩, ?_⟩
          rw [ht.1.2.vault, ← h.2.vault, hvault]
          exact Option.some_ne_none file
        apply Ensures.bind
        apply Ensures.ask ht.1.stopped
        intro record _
        apply Ensures.bind
        apply (ensures_removePlaintext hfinished).imp _ fun _ hu => hu
        intro _ u hu
        exact Ensures.pure hu
      · intro t ht
        exact ht.stopped
    | none =>
      apply ensures_importProfiles h _ fresh
      rw [← h.2.vault]
      exact Or.inl hvault
  · intro _
    exact ensures_importProfiles h.miss (Or.inr rfl) fresh

end

end Porthop.Vault
