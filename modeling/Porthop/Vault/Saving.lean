import Porthop.Vault.Loading

/- What a save and a start ensure.

   A save leaves the vault as it was, or holding exactly what it was to hold. A start that
   finds a vault leaves it, and one that finds none stores what the older files hold before
   it removes them. -/
namespace Porthop.Vault
open Crash
open Profile (Config Server Tunnel Uuid Addresses)

section
variable {File Data Value : Type} (F : Formats File Data Value) (A : Addresses) (override : Bool)

/-- The passwords in the vault. -/
def World.passwords (w : World File Data) : Passwords :=
  (w.records.getLast?.map (·.passwords)).getD []

/-- From `b` to `t` one record took the place of what the vault held. -/
structure Stored (b t : World File Data) (config : Config) (password : Option (Uuid × String)) :
    Prop where
  missed : b.missed = true → t.missed = true
  placed : ∃ k file r, t.modern = some k ∧ t.vault = some file ∧ recordIn F A file k = .ok r ∧
    t.records = b.records ++ [r] ∧ r.config = config ∧
    (t.missed = false → r.Holds b.passwords config password)

variable {F A override} {d b w t u : World File Data} {k : Key} {config : Config}
  {password : Option (Uuid × String)}

theorem Stored.vault (h : Stored F A b t config password) : t.vault ≠ none := by
  obtain ⟨-, k, file, r, -, hvault, -⟩ := h
  rw [hvault]
  exact Option.some_ne_none file

theorem Inv.records_ne_nil (h : Inv F A override d w) (hvault : w.vault ≠ none) :
    w.records ≠ [] := by
  obtain ⟨file, hfile⟩ := Option.ne_none_iff_exists'.mp hvault
  obtain ⟨-, r, -, -, hlast⟩ := h.vault file hfile
  intro hnil
  rw [hnil] at hlast
  cases hlast

/-- What the vault holds by the key in use has the passwords. -/
theorem Inv.passwords (h : Inv F A override d w) (hmodern : w.modern = some k) {file : File}
    (hfile : w.vault = some file) {r : ProfileRecord} (hr : recordIn F A file k = .ok r) :
    r.passwords = w.passwords := by
  obtain ⟨k', r', hcurrent, hr', hlast⟩ := h.vault file hfile
  rcases hcurrent with hk | ⟨hnone, -⟩
  · obtain rfl := Option.some.inj (hmodern.symm.trans hk)
    obtain rfl := Except.ok.inj (hr.symm.trans hr')
    rw [World.passwords, hlast]
    rfl
  · rw [hmodern] at hnone
    cases hnone

theorem Inv.no_passwords (h : Inv F A override d w) (hvault : w.vault = none) :
    w.passwords = [] := by
  rw [World.passwords, (h.empty hvault).1]
  rfl

theorem Calm.passwords (h : Calm b w) : w.passwords = b.passwords := by
  rw [World.passwords, h.records]
  rfl

/-! ## A save -/

/-- The final replacement, of a record that was read back. -/
theorem Kept.replace (h : Kept F A override d b w) (hmodern : w.modern = some k)
    {file : File} {r : ProfileRecord} (hr : recordIn F A file k = .ok r)
    (himport : w.vault = none → d.vault = none → w.missed = false →
      ∃ fresh, plainConfig F A fresh override d.files = .ok r.config)
    (hholds : w.missed = false → r.Holds b.passwords r.config password) :
    let t := { w with vault := some file, records := w.records ++ [r] }
    Inv F A override d t ∧ Stored F A b t r.config password := by
  obtain ⟨hinv, hcalm⟩ := h
  refine ⟨{ hinv with vault := ?_, empty := ?_, imported := ?_ }, hcalm.missed,
    k, file, r, hmodern, rfl, hr, by rw [hcalm.records], rfl, hholds⟩
  · intro file' hfile'
    obtain rfl := Option.some.inj hfile'
    exact ⟨k, r, Or.inl hmodern, hr, List.getLast?_concat⟩
  · intro hnone
    cases hnone
  · intro hmissed hd r' hhead
    match hvault : w.vault with
    | none =>
      change (w.records ++ [r]).head? = some r' at hhead
      rw [(hinv.empty hvault).1] at hhead
      rw [← Option.some.inj hhead]
      exact himport hvault hd hmissed
    | some file' =>
      have hne := hinv.records_ne_nil (by rw [hvault]; exact Option.some_ne_none file')
      rw [List.head?_append_of_ne_nil _ hne] at hhead
      exact hinv.imported hmissed hd r' hhead

theorem Inv.save (h : Inv F A override d w) (saved : Option Config) :
    Inv F A override d { w with saved := saved } :=
  ⟨h.legacy, h.same, h.marker, h.key, h.loads, h.generated, h.legacyReads, h.vault, h.empty, h.imported⟩

theorem Stored.save (h : Stored F A b w config password) (saved : Option Config) :
    Stored F A b { w with saved := saved } config password :=
  ⟨h.missed, h.placed⟩

/-- What a write that did not return leaves. -/
def Unfinished (F : Formats File Data Value) (A : Addresses) (override : Bool)
    (d b : World File Data) (config : Config) (password : Option (Uuid × String))
    (t : World File Data) : Prop :=
  Inv F A override d t ∧ (Calm b t ∨ Stored F A b t config password)

theorem Kept.unfinished (h : Kept F A override d b w) :
    Unfinished F A override d b config password w :=
  ⟨h.1, Or.inl h.2⟩

theorem ensures_replaceRecord (h : Kept F A override d b w) (hmodern : w.modern = some k)
    {record : ProfileRecord} (hconfig : record.config = config)
    (himport : w.vault = none → d.vault = none → w.missed = false →
      ∃ fresh, plainConfig F A fresh override d.files = .ok config)
    (hholds : w.missed = false → record.Holds b.passwords config password) :
    Ensures (replaceRecord F A k record) w
      (fun _ t => Inv F A override d t ∧ Stored F A b t config password ∧ t.saved = some config)
      (Unfinished F A override d b config password) := by
  have hbefore : Unfinished F A override d b config password w := h.unfinished
  apply Ensures.bind
  apply Ensures.still hbefore
  apply Ensures.bind
  apply Ensures.ofOption hbefore
  intro data _
  apply Ensures.bind
  apply Ensures.ofOption hbefore
  intro staged _
  apply Ensures.bind
  apply Ensures.still hbefore
  apply Ensures.bind
  apply Ensures.ask hbefore
  intro verified hverified
  apply Ensures.bind
  apply Ensures.refuse hbefore
  intro hsame
  simp only [decide_eq_false_iff_not, not_or, ne_eq, Decidable.not_not] at hsame
  obtain ⟨hsameConfig, hsamePasswords⟩ := hsame
  have hverifiedHolds : w.missed = false → verified.Holds b.passwords verified.config password := by
    intro hmissed
    obtain ⟨-, hkept, hothers⟩ := hholds hmissed
    rw [hsameConfig, hconfig]
    refine ⟨hsameConfig.trans hconfig, ?_, ?_⟩
    · rw [hsamePasswords]
      exact hkept
    · rw [hsamePasswords]
      exact hothers
  have hplaced := h.replace hmodern hverified (by rw [hsameConfig, hconfig]; exact himport) hverifiedHolds
  rw [hsameConfig, hconfig] at hplaced
  have hafter : Unfinished F A override d b config password _ := ⟨hplaced.1, Or.inr hplaced.2⟩
  apply Ensures.bind
  apply Ensures.still hbefore
  apply Ensures.bind
  apply Ensures.still hbefore
  apply Ensures.bind
  apply Ensures.act hbefore hafter
  apply Ensures.bind
  apply Ensures.still hafter
  apply Ensures.update
  exact ⟨hplaced.1.save _, hplaced.2.save _, congrArg some hconfig⟩

/-- A write stores exactly the configuration and its passwords, or fails before its final
    replacement and leaves all as it was, or is cut off after it. -/
theorem ensures_writeWithPassword (h : Kept F A override d b w) (hmodern : w.modern = some k)
    (himport : w.vault = none → d.vault = none → w.missed = false →
      ∃ fresh, plainConfig F A fresh override d.files = .ok config) :
    Ensures (writeWithPassword F A k config password) w
      (fun _ t => Inv F A override d t ∧ Stored F A b t config password ∧ t.saved = some config)
      (Unfinished F A override d b config password) := by
  have hbefore : Unfinished F A override d b config password w := h.unfinished
  -- what follows once the old record is known
  have hrest : ∀ t old, Kept F A override d b t → t.modern = some k →
      (t.vault = none → d.vault = none → t.missed = false →
        ∃ fresh, plainConfig F A fresh override d.files = .ok config) →
      (t.missed = false → old.passwords = b.passwords) →
      Ensures (Prog.ofExcept (ProfileRecord.updated old config password) >>= replaceRecord F A k) t
        (fun _ u => Inv F A override d u ∧ Stored F A b u config password ∧ u.saved = some config)
        (Unfinished F A override d b config password) := by
    intro t old ht htmodern htimport hold
    apply Ensures.bind
    apply Ensures.ofExcept ht.unfinished
    intro record hrecord
    have hholds := ProfileRecord.holds_updated hrecord
    apply ensures_replaceRecord ht htmodern hholds.exactly htimport
    intro hmissed
    rw [← hold hmissed]
    exact hholds
  apply Ensures.bind
  apply Ensures.ofExcept hbefore
  intro _ _
  apply Ensures.bind
  apply Ensures.present hbefore
  · match hvault : w.vault with
    | some file =>
      apply Ensures.bind
      apply Ensures.ask hbefore
      intro old hread
      rw [hvault] at hread
      apply hrest w old h hmodern himport
      intro _
      rw [← h.2.passwords]
      exact h.1.passwords hmodern hvault hread
    | none =>
      apply Ensures.bind
      apply Ensures.pure
      apply hrest w _ h hmodern himport
      intro _
      rw [← h.2.passwords, h.1.no_passwords hvault]
      rfl
  · intro _
    apply Ensures.bind
    apply Ensures.pure
    apply hrest w.miss _ h.miss hmodern
    · intro _ _ hmissed
      cases hmissed
    · intro hmissed
      cases hmissed

/-- A save from a world with a vault, or of what the older files hold. -/
theorem ensures_saveWithPassword (h : Kept F A override d b w) (fresh : Fresh)
    (himport : w.vault = none → d.vault = none → w.missed = false →
      ∃ fresh, plainConfig F A fresh override d.files = .ok config) :
    Ensures (saveWithPassword F A fresh config password) w
      (fun _ t => Inv F A override d t ∧ Stored F A b t config password ∧ t.saved = some config)
      (Unfinished F A override d b config password) := by
  have hkey := ensures_vaultKey (Kept.refl h.1) fresh
  apply Ensures.bind
  apply hkey.imp
  · intro k t ht
    obtain ⟨⟨hinv, hcalm⟩, hmodern⟩ := ht
    apply ensures_writeWithPassword ⟨hinv, h.2.trans hcalm⟩ hmodern
    intro hvault hd hmissed
    apply himport (hcalm.vault.symm.trans hvault) hd
    by_contra hw
    rw [hcalm.missed (eq_true_of_ne_false hw)] at hmissed
    cases hmissed
  · intro t ht
    exact ⟨ht.1, Or.inl (h.2.trans ht.2)⟩

end

end Porthop.Vault
