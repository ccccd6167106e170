import Porthop.Vault.Startup

/- The invariant of the data directory, and that loading the key keeps it.

   Every lemma says of a program what it ensures from a world in which the invariant holds;
   `Kept` names the world the program's caller started in, so that lemmas compose. -/
namespace Porthop.Vault
open Crash
open Profile (Config Server Tunnel Uuid Addresses)

section
variable {File Data Value : Type} (F : Formats File Data Value) (A : Addresses) (override : Bool)

/-- The key in use: the stored one, and before there is one the legacy key. -/
def World.current (w : World File Data) (k : Key) : Prop :=
  w.modern = some k ∨ w.modern = none ∧ w.legacy = some k

/-- What holds of every world that comes from `d`. -/
structure Inv (d w : World File Data) : Prop where
  legacy : w.legacy = d.legacy
  same : ∀ k l, w.modern = some k → w.legacy = some l → k = l
  marker : w.marker = true → w.modern ≠ none
  key : ∀ k, w.key = some (.ok k) → w.modern = some k
  loads : ∀ k ∈ w.loads, w.modern = some k
  generated : ∀ v ∈ w.generated, v = none
  legacyReads : ∀ marked ∈ w.legacyReads, marked = false
  vault : ∀ file, w.vault = some file → ∃ k r, w.current k ∧ recordIn F A file k = .ok r ∧
    w.records.getLast? = some r
  empty : w.vault = none → w.records = [] ∧ w.files = d.files
  imported : w.missed = false → d.vault = none → ∀ r, w.records.head? = some r →
    ∃ fresh, plainConfig F A fresh override d.files = .ok r.config

/-- Nothing of the profiles has changed since `b`. -/
structure Calm (b w : World File Data) : Prop where
  vault : w.vault = b.vault
  records : w.records = b.records
  saved : w.saved = b.saved
  missed : b.missed = true → w.missed = true

def Kept (d b w : World File Data) : Prop := Inv F A override d w ∧ Calm b w

variable {F A override} {d b w : World File Data} {k : Key}

theorem Calm.refl (w : World File Data) : Calm w w := ⟨rfl, rfl, rfl, id⟩

theorem Calm.trans (h : Calm b w) {t : World File Data} (ht : Calm w t) : Calm b t :=
  ⟨ht.vault.trans h.vault, ht.records.trans h.records, ht.saved.trans h.saved,
    fun hb => ht.missed (h.missed hb)⟩

theorem Kept.refl (h : Inv F A override d w) : Kept F A override d w w := ⟨h, Calm.refl w⟩

theorem Kept.miss (h : Kept F A override d b w) : Kept F A override d b w.miss := by
  obtain ⟨hinv, hcalm⟩ := h
  refine ⟨?_, hcalm.vault, hcalm.records, hcalm.saved, fun _ => rfl⟩
  exact { hinv with imported := fun hmissed => absurd hmissed Bool.noConfusion }

theorem Kept.mark (h : Kept F A override d b w) (hmodern : w.modern ≠ none) :
    Kept F A override d b { w with marker := true } :=
  ⟨{ h.1 with marker := fun _ => hmodern }, ⟨h.2.vault, h.2.records, h.2.saved, h.2.missed⟩⟩

theorem Kept.loaded (h : Kept F A override d b w) (hmodern : w.modern = some k) :
    Kept F A override d b { w with loads := w.loads ++ [k] } := by
  refine ⟨{ h.1 with loads := ?_ }, ⟨h.2.vault, h.2.records, h.2.saved, h.2.missed⟩⟩
  intro k' hk'
  rcases List.mem_append.mp hk' with hold | hnew
  · exact h.1.loads k' hold
  · rw [List.mem_singleton.mp hnew]
    exact hmodern

theorem Kept.read (h : Kept F A override d b w) (hmodern : w.modern = none) :
    Kept F A override d b { w with legacyReads := w.legacyReads ++ [w.marker] } := by
  refine ⟨{ h.1 with legacyReads := ?_ }, ⟨h.2.vault, h.2.records, h.2.saved, h.2.missed⟩⟩
  intro marked hmarked
  rcases List.mem_append.mp hmarked with hold | hnew
  · exact h.1.legacyReads marked hold
  · rw [List.mem_singleton.mp hnew]
    exact eq_false_of_ne_true fun hmarker => h.1.marker hmarker hmodern

theorem Inv.no_vault (h : Inv F A override d w) (hmodern : w.modern = none)
    (hlegacy : w.legacy = none) : w.vault = none := by
  match hvault : w.vault with
  | none => rfl
  | some file =>
    obtain ⟨k, r, hcurrent, -⟩ := h.vault file hvault
    rcases hcurrent with hk | ⟨-, hk⟩
    · rw [hmodern] at hk
      cases hk
    · rw [hlegacy] at hk
      cases hk

theorem Kept.generate (h : Kept F A override d b w) (hmodern : w.modern = none)
    (hlegacy : w.legacy = none) :
    Kept F A override d b { w with generated := w.generated ++ [w.vault] } := by
  refine ⟨{ h.1 with generated := ?_ }, ⟨h.2.vault, h.2.records, h.2.saved, h.2.missed⟩⟩
  intro v hv
  rcases List.mem_append.mp hv with hold | hnew
  · exact h.1.generated v hold
  · rw [List.mem_singleton.mp hnew]
    exact h.1.no_vault hmodern hlegacy

/-- A first key is stored: the legacy one, if there is one. -/
theorem Kept.create (h : Kept F A override d b w) (hmodern : w.modern = none)
    (hk : ∀ l, w.legacy = some l → k = l) :
    Kept F A override d b { w with modern := some k } := by
  obtain ⟨hinv, hcalm⟩ := h
  refine ⟨{ hinv with same := ?_, marker := ?_, key := ?_, loads := ?_, vault := ?_ },
    ⟨hcalm.vault, hcalm.records, hcalm.saved, hcalm.missed⟩⟩
  · intro k' l hk' hl
    rw [← Option.some.inj hk']
    exact hk l hl
  · exact fun _ => Option.some_ne_none k
  · intro k' hk'
    have hnone := hinv.key k' hk'
    rw [hmodern] at hnone
    cases hnone
  · intro k' hk'
    have hnone := hinv.loads k' hk'
    rw [hmodern] at hnone
    cases hnone
  · intro file hfile
    obtain ⟨k', r, hcurrent, hrecord⟩ := hinv.vault file hfile
    rcases hcurrent with hsome | ⟨-, hl⟩
    · rw [hmodern] at hsome
      cases hsome
    · refine ⟨k', r, Or.inl ?_, hrecord⟩
      rw [hk k' hl]

theorem Kept.key (h : Kept F A override d b w) {x : Except String Key}
    (hx : ∀ k, x = .ok k → w.modern = some k) :
    Kept F A override d b { w with key := some x } := by
  refine ⟨{ h.1 with key := ?_ }, ⟨h.2.vault, h.2.records, h.2.saved, h.2.missed⟩⟩
  intro k hk
  exact hx k (Option.some.inj hk)

theorem Inv.closed (h : Inv F A override d w) : Inv F A override d { w with key := none } :=
  { h with key := fun _ hk => nomatch hk }

/-! ## Loading the key -/

variable {α : Type} {P : α → World File Data → Prop}

theorem ensures_vaultExists {Q : Bool → World File Data → Prop} (h : Kept F A override d b w)
    (hsome : ∀ file, w.vault = some file → Q true w) (hnone : w.vault = none → Q false w)
    (hmissed : ∀ file, w.vault = some file → Q false w.miss) :
    Ensures vaultExists w Q (Kept F A override d b) := by
  apply Ensures.present h
  · match hvault : w.vault with
    | none => exact hnone hvault
    | some file => exact hsome file hvault
  · intro hisSome
    obtain ⟨file, hfile⟩ := Option.isSome_iff_exists.mp hisSome
    exact hmissed file hfile

theorem ensures_mark (h : Kept F A override d b w) (hmodern : w.modern = some k) :
    Ensures mark w (fun _ t => Kept F A override d b t ∧ t.modern = some k)
      (Kept F A override d b) := by
  have hmarked := h.mark (by rw [hmodern]; exact Option.some_ne_none k)
  apply Ensures.bind
  apply Ensures.still h
  apply Ensures.bind
  apply Ensures.still h
  apply Ensures.bind
  apply Ensures.still h
  exact Ensures.act h hmarked ⟨hmarked, hmodern⟩

theorem ensures_confirmed (h : Kept F A override d b w) (hmodern : w.modern = some k) :
    Ensures (confirmed k) w (fun k' t => Kept F A override d b t ∧ t.modern = some k')
      (Kept F A override d b) := by
  apply Ensures.bind
  apply Ensures.update
  exact Ensures.pure ⟨h.loaded hmodern, hmodern⟩

/-- A check of the vault changes nothing but what is known to be missed. -/
theorem ensures_checkVault (h : Kept F A override d b w) :
    Ensures (checkVault F A k) w (fun _ t => Kept F A override d b t ∧ t.modern = w.modern ∧
      t.legacy = w.legacy) (Kept F A override d b) := by
  apply Ensures.bind
  apply ensures_vaultExists h
  · intro file _
    apply Ensures.bind
    apply Ensures.ask h
    intro _ _
    exact Ensures.pure ⟨h, rfl, rfl⟩
  · intro _
    exact Ensures.pure ⟨h, rfl, rfl⟩
  · intro _ _
    exact Ensures.pure ⟨h.miss, rfl, rfl⟩

theorem valid_ok {k k' : Key} (h : valid k = .ok k') : k' = k := by
  unfold valid at h
  split at h
  · exact (Except.ok.inj h).symm
  · cases h

theorem ensures_loadModern (h : Kept F A override d b w) (hmodern : w.modern = some k) :
    Ensures (loadModern F A k) w (fun k' t => Kept F A override d b t ∧ t.modern = some k')
      (Kept F A override d b) := by
  have hrest : ∀ t, Kept F A override d b t → t.modern = some k →
      Ensures (checkVault F A k >>= fun _ => mark >>= fun _ => confirmed k) t
        (fun k' u => Kept F A override d b u ∧ u.modern = some k') (Kept F A override d b) := by
    intro t ht htmodern
    apply Ensures.bind
    apply (ensures_checkVault ht).imp _ fun _ hu => hu
    intro _ u hu
    apply Ensures.bind
    apply (ensures_mark hu.1 (hu.2.1.trans htmodern)).imp _ fun _ hv => hv
    intro _ v hv
    exact ensures_confirmed hv.1 hv.2
  apply Ensures.bind
  apply Ensures.ofExcept h
  intro k' hk'
  obtain rfl := valid_ok hk'
  apply Ensures.bind
  apply Ensures.present h
  · match w.marker with
    | true => exact ensures_confirmed h hmodern
    | false => exact hrest w h hmodern
  · intro _
    exact hrest w.miss h.miss hmodern

theorem ensures_generate (h : Kept F A override d b w) (hmodern : w.modern = none)
    (hlegacy : w.legacy = none) (fresh : Fresh) :
    Ensures (generate fresh) w (fun _ t => Kept F A override d b t ∧ t.modern = none ∧
      t.legacy = none) (Kept F A override d b) := by
  have hgenerated := h.generate hmodern hlegacy
  apply Ensures.bind
  apply Ensures.update
  apply Ensures.ask hgenerated
  intro _ _
  exact ⟨hgenerated, hmodern, hlegacy⟩

/-- The first key is the legacy key if there is one. -/
theorem ensures_firstKey (h : Kept F A override d b w) (hmodern : w.modern = none) (fresh : Fresh) :
    Ensures (firstKey fresh w.legacy) w (fun k t => Kept F A override d b t ∧ t.modern = none ∧
      ∀ l, t.legacy = some l → k = l) (Kept F A override d b) := by
  match hlegacy : w.legacy with
  | some l =>
    apply Ensures.ofExcept h
    intro k hk
    obtain rfl := valid_ok hk
    refine ⟨h, hmodern, ?_⟩
    intro l' hl'
    exact Option.some.inj (hlegacy.symm.trans hl')
  | none =>
    have hgenerate : ∀ t, Kept F A override d b t → t.modern = none → t.legacy = none →
        Ensures (generate fresh) t (fun k t => Kept F A override d b t ∧ t.modern = none ∧
          ∀ l, t.legacy = some l → k = l) (Kept F A override d b) := by
      intro t ht htmodern htlegacy
      apply (ensures_generate ht htmodern htlegacy fresh).imp _ fun _ hu => hu
      intro k u hu
      refine ⟨hu.1, hu.2.1, ?_⟩
      intro l hl
      rw [hu.2.2] at hl
      cases hl
    apply Ensures.bind
    apply ensures_vaultExists h
    · intro _ _
      exact Ensures.fail h
    · intro _
      exact hgenerate w h hmodern hlegacy
    · intro _ _
      exact hgenerate w.miss h.miss hmodern hlegacy

theorem ensures_transfer (h : Kept F A override d b w) (hmodern : w.modern = none)
    (hk : ∀ l, w.legacy = some l → k = l) :
    Ensures (transfer F A k) w (fun k' t => Kept F A override d b t ∧ t.modern = some k')
      (Kept F A override d b) := by
  apply Ensures.bind
  apply (ensures_checkVault h).imp _ fun _ ht => ht
  intro _ t ht
  obtain ⟨ht, htmodern, htlegacy⟩ := ht
  have hcreated := ht.create (k := k) (htmodern.trans hmodern) (fun l hl => hk l (htlegacy.symm.trans hl))
  apply Ensures.bind
  apply Ensures.act ht hcreated
  apply Ensures.bind
  apply Ensures.ask hcreated
  intro found hfound
  obtain rfl := Except.ok.inj hfound
  apply Ensures.bind
  apply Ensures.ofOption hcreated
  intro verified hverified
  apply Ensures.bind
  apply Ensures.refuse hcreated
  intro _
  apply Ensures.bind
  apply (ensures_mark hcreated rfl).imp _ fun _ hu => hu
  intro _ u hu
  exact ensures_confirmed hu.1 hu.2

theorem ensures_load (h : Kept F A override d b w) (fresh : Fresh) :
    Ensures (load F A fresh) w (fun k t => Kept F A override d b t ∧ t.modern = some k)
      (Kept F A override d b) := by
  apply Ensures.bind
  apply Ensures.ask h
  intro x hx
  obtain rfl := Except.ok.inj hx
  match hmodern : w.modern with
  | some k => exact ensures_loadModern h hmodern
  | none =>
    have hfirst : ∀ t, Kept F A override d b t → t.modern = none →
        Ensures (legacy >>= fun found => firstKey fresh found >>= fun key => transfer F A key) t
          (fun k u => Kept F A override d b u ∧ u.modern = some k) (Kept F A override d b) := by
      intro t ht htmodern
      have hread := ht.read htmodern
      apply Ensures.bind
      apply Ensures.bind
      apply Ensures.update
      apply Ensures.ask hread
      intro found hfound
      obtain rfl := Except.ok.inj hfound
      apply Ensures.bind
      apply (ensures_firstKey hread htmodern fresh).imp _ fun _ hu => hu
      intro k u hu
      exact ensures_transfer hu.1 hu.2.1 hu.2.2
    apply Ensures.bind
    apply Ensures.present h
    · match w.marker with
      | true => exact Ensures.fail h
      | false => exact hfirst w h hmodern
    · intro _
      exact hfirst w.miss h.miss hmodern

/-- The key a process has is the stored one. -/
theorem ensures_vaultKey (h : Kept F A override d b w) (fresh : Fresh) :
    Ensures (vaultKey F A fresh) w (fun k t => Kept F A override d b t ∧ t.modern = some k)
      (Kept F A override d b) := by
  apply Ensures.bind
  apply Ensures.look
  match hkey : w.key with
  | some x =>
    apply Ensures.ofExcept h
    intro k hk
    refine ⟨h, h.1.key k ?_⟩
    rw [hkey, hk]
  | none =>
    apply Ensures.bind
    apply Ensures.attempt
    · apply (ensures_load h fresh).imp _ fun _ ht => ht
      intro k t ht
      have hcached := ht.1.key (x := .ok k) (by
        intro k' hk'
        rw [← Except.ok.inj hk']
        exact ht.2)
      apply Ensures.bind
      apply Ensures.update
      apply Ensures.ofExcept hcached
      intro k' hk'
      obtain rfl := Except.ok.inj hk'
      exact ⟨hcached, ht.2⟩
    · intro t ht
      refine ⟨ht, ?_⟩
      intro e
      have hcached := ht.key (x := .error e) (fun _ hk => nomatch hk)
      apply Ensures.bind
      apply Ensures.update
      exact Ensures.fail hcached

end

end Porthop.Vault
