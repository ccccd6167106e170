import Porthop.Git.PageLoads

/- The steps of the loader keep the invariant, and what each may change.

   The clean-up of a listing aborts the only load that may run, so its prefetch may go with
   it; where the clean-up is not run, the prefetch of the effect stays as well. -/
namespace Porthop.Git.PageLoader

open UniquePages (Page truthy)

variable {T M : Type}

/-! ## Positions -/

theorem modify_cases {α : Type} {xs : List α} {f : α → α} {m n : Nat} {y : α}
    (h : (xs.modify n f)[m]? = some y) :
    ∃ x, xs[m]? = some x ∧ ((n = m ∧ y = f x) ∨ (n ≠ m ∧ y = x)) := by
  rw [List.getElem?_modify] at h
  obtain ⟨x, hx, hy⟩ := Option.map_eq_some_iff.mp h
  refine ⟨x, hx, ?_⟩
  split at hy
  case isTrue heq => exact Or.inl ⟨heq, hy.symm⟩
  case isFalse hne => exact Or.inr ⟨hne, hy.symm⟩

theorem modify_mem {α : Type} {xs : List α} {f : α → α} {n : Nat} {y : α}
    (h : y ∈ xs.modify n f) :
    ∃ m x, xs[m]? = some x ∧ ((n = m ∧ y = f x) ∨ (n ≠ m ∧ y = x)) := by
  obtain ⟨m, hm⟩ := List.mem_iff_getElem?.mp h
  exact ⟨m, modify_cases hm⟩

/-! ## What stays -/

variable {s t : State T M} {hook : Hook T M} {n i : Nat} {l : Load T M} {key : String}

theorem abortPrefetch_kept (s : State T M) (i : Nat) :
    Kept s.prefetches (s.abortPrefetch i).prefetches := by
  apply Kept.modify
  intro p
  exact ⟨rfl, rfl⟩

theorem stopPrefetch_kept (s : State T M) : Kept s.prefetches s.stopPrefetch.prefetches := by
  unfold State.stopPrefetch
  cases s.own with
  | none => exact Kept.refl _
  | some i =>
    apply Kept.modify
    intro p
    exact ⟨rfl, rfl⟩

/-- A listing that is the same has the same query. -/
theorem identity_key {p q : Props T M} (hidentity : p.identity = q.identity)
    (hpage : p.page = q.page) : p.key = q.key := by
  unfold Props.identity at hidentity
  rw [hpage] at hidentity
  have hparts := congrArg String.toList hidentity
  simp only [String.toList_append, List.append_assoc] at hparts
  exact String.toList_injective (List.append_cancel_right hparts)

theorem abortLoad_same (s : State T M) (n : Nat) :
    (s.abortLoad n).cache = s.cache ∧ (s.abortLoad n).appends = s.appends ∧
    (s.abortLoad n).active = s.active ∧ (s.abortLoad n).own = s.own ∧
    (s.abortLoad n).shown = s.shown ∧ (s.abortLoad n).ui = s.ui ∧
    Kept s.prefetches (s.abortLoad n).prefetches ∧
    (s.abortLoad n).loads =
      s.loads.modify n fun l => { l with aborted := true, subscribed := false } := by
  unfold State.abortLoad
  split
  case h_1 hnone =>
    refine ⟨rfl, rfl, rfl, rfl, rfl, rfl, Kept.refl _, ?_⟩
    apply List.ext_getElem?
    intro m
    rw [List.getElem?_modify]
    split
    case isTrue heq => rw [← heq, hnone]; rfl
    case isFalse => cases s.loads[m]? <;> rfl
  case h_2 l hl =>
    split
    · exact ⟨rfl, rfl, rfl, rfl, rfl, rfl, abortPrefetch_kept _ _, rfl⟩
    · exact ⟨rfl, rfl, rfl, rfl, rfl, rfl, Kept.refl _, rfl⟩

theorem stopPending_same (s : State T M) :
    s.stopPending.cache = s.cache ∧ s.stopPending.appends = s.appends ∧
    s.stopPending.active = s.active ∧ s.stopPending.own = s.own ∧
    s.stopPending.shown = s.shown ∧ Kept s.prefetches s.stopPending.prefetches := by
  unfold State.stopPending
  cases s.pending with
  | none => exact ⟨rfl, rfl, rfl, rfl, rfl, Kept.refl _⟩
  | some n =>
    obtain ⟨hcache, happends, hactive, hown, hshown, -, hkept, -⟩ := abortLoad_same s n
    exact ⟨hcache, happends, hactive, hown, hshown, hkept⟩

theorem finish_loads {m : Nat} {k : Load T M} (hk : (s.finish n l).loads[m]? = some k) :
    (n ≠ m ∧ s.loads[m]? = some k) ∨ (n = m ∧ k.phase = .finished ∧ k.subscribed = false ∧
      ∃ l', s.loads[n]? = some l' ∧ k.current = l'.current ∧ k.cursor = l'.cursor) := by
  have hmodify : (s.loads.modify n fun l =>
      { l with subscribed := false, prepared := none, phase := .finished })[m]? = some k := by
    rw [← hk]
    unfold State.finish
    dsimp only
    split
    · rfl
    · rfl
  obtain ⟨x, hx, ⟨rfl, rfl⟩ | ⟨hne, rfl⟩⟩ := modify_cases hmodify
  · exact Or.inr ⟨rfl, rfl, rfl, x, hx, rfl, rfl⟩
  · exact Or.inl ⟨hne, hx⟩

theorem finish_same (s : State T M) (n : Nat) (l : Load T M) :
    ((s.finish n l).cache = s.cache ∧ (s.finish n l).appends = s.appends ∧
      (s.finish n l).prefetches = s.prefetches ∧ (s.finish n l).active = s.active ∧
      (s.finish n l).own = s.own) ∧
    (s.pending = some n → (s.finish n l).pending = none ∧ (s.finish n l).ui =
      if s.ui.identity = l.identity then { s.ui with loading := false } else s.ui) := by
  by_cases hpending : s.pending = some n
  · simp [State.finish, hpending]
  · simp [State.finish, hpending]

variable [DecidableEq T] [DecidableEq M]

/-! ## Nothing runs -/

theorem Inv.resting (h : Inv s) (hpending : s.pending = none) :
    (∀ l ∈ s.loads, ¬l.Running) ∧ (∀ l ∈ s.loads, l.subscribed = false) ∧
      s.ui.loading = false := by
  have hidle : ∀ l ∈ s.loads, ¬l.Running := by
    intro l hl hrun
    obtain ⟨n, hn⟩ := List.mem_iff_getElem?.mp hl
    have hpend := (h.running n l hn hrun).1
    rw [hpending] at hpend
    cases hpend
  refine ⟨hidle, ?_, ?_⟩
  · intro l hl
    apply Bool.eq_false_iff.mpr
    intro hsub
    exact hidle l hl (h.subscribed l hl hsub)
  · apply Bool.eq_false_iff.mpr
    intro hload
    obtain ⟨n, l, hn, -⟩ := h.loading hload
    rw [hpending] at hn
    cases hn

/-! ## Effects -/

/-- After the clean-up of a listing no load runs, whatever has become of the prefetches. -/
theorem Inv.stopped (h : Inv s) (hcache : t.cache = s.cache) (happends : t.appends = s.appends)
    (hkept : Kept s.prefetches t.prefetches) (hown : t.active = none → t.own = none)
    (hloads : t.loads = s.loads) (hpending : t.pending = s.pending) : Inv t.stopPending := by
  obtain ⟨hcache', happends', hactive', hown', -, hkept'⟩ := stopPending_same t
  have hstill : Still t.stopPending := by
    apply h.still (hcache'.trans hcache) (happends'.trans happends) (hkept.trans hkept')
    rw [hactive', hown']
    exact hown
  cases hpend : s.pending with
  | none =>
    have hnone : t.pending = none := hpending.trans hpend
    have hsame : t.stopPending.loads = s.loads := by
      unfold State.stopPending
      rw [hnone]
      exact hloads
    obtain ⟨hidle, hoff, -⟩ := h.resting hpend
    apply Inv.idle hstill rfl rfl
    · rw [hsame]
      exact hidle
    · rw [hsame]
      exact hoff
    · rw [hsame]
      exact h.cursor
  | some n =>
    have hsome : t.pending = some n := hpending.trans hpend
    have hchanged : t.stopPending.loads =
        s.loads.modify n fun l => { l with aborted := true, subscribed := false } := by
      unfold State.stopPending
      rw [hsome, ← hloads]
      exact (abortLoad_same t n).2.2.2.2.2.2.2
    have hothers : ∀ m l, s.loads[m]? = some l → l.Running → n = m := by
      intro m l hl hrun
      have hpend' := (h.running m l hl hrun).1
      rw [hpend] at hpend'
      exact Option.some.inj hpend'
    apply Inv.idle hstill rfl rfl
    · intro l hl hrun
      rw [hchanged] at hl
      obtain ⟨m, k, hk, ⟨-, rfl⟩ | ⟨hne, rfl⟩⟩ := modify_mem hl
      · cases hrun.2
      · exact hne (hothers m l hk hrun)
    · intro l hl
      rw [hchanged] at hl
      obtain ⟨m, k, hk, ⟨-, rfl⟩ | ⟨hne, rfl⟩⟩ := modify_mem hl
      · rfl
      · apply Bool.eq_false_iff.mpr
        intro hsub
        exact hne (hothers m l hk (h.subscribed l (List.mem_of_getElem? hk) hsub))
    · intro l hl
      rw [hchanged] at hl
      obtain ⟨m, k, hk, ⟨-, rfl⟩ | ⟨-, rfl⟩⟩ := modify_mem hl
      · exact h.cursor k (List.mem_of_getElem? hk)
      · exact h.cursor l (List.mem_of_getElem? hk)

theorem Inv.stoppedBoth (h : Inv s) : Inv s.stopPrefetch.stopPending :=
  h.stopped rfl rfl (stopPrefetch_kept s) (fun _ => rfl) rfl rfl

/-- What a render notes about its effects touches no load. -/
theorem Inv.noted (h : Inv s) {u : State T M} (hcache : u.cache = s.cache)
    (hloads : u.loads = s.loads) (hprefetches : u.prefetches = s.prefetches)
    (hpending : u.pending = s.pending) (happends : u.appends = s.appends) (hui : u.ui = s.ui)
    (hactive : u.active ≠ none) : Inv u := by
  apply h.congr hcache hloads hprefetches hpending happends
  · intro hnone
    exact absurd hnone hactive
  · rw [hui]
    exact fun hload => ⟨hload, rfl⟩

/-- Where the clean-up of the listing is not run, that of the prefetch is not run either. -/
theorem sameListing_samePrefetch (h : s.sameListing = true) : s.samePrefetch = true := by
  obtain ⟨p, hp, hsame⟩ := (Option.any_eq_true _ _).mp h
  simp only [Bool.and_eq_true, beq_iff_eq] at hsame
  obtain ⟨⟨hidentity, henabled⟩, hpage⟩ := hsame
  unfold State.samePrefetch
  rw [hp]
  simp [identity_key hidentity hpage, hpage, henabled]

theorem Inv.effects (h : Inv s) (hook : Hook T M) : Inv (s.effects hook) := by
  have hactive : (s.effects hook).active ≠ none := Option.some_ne_none _
  cases hprefetch : s.samePrefetch with
  | true =>
    cases hkeeps : s.sameListing || s.active.isNone with
    | true =>
      apply h.noted (u := s.effects hook)
      case hactive => exact hactive
      all_goals simp [State.effects, hprefetch, hkeeps]
    | false =>
      have hstopped : Inv s.stopPending := h.stopped rfl rfl (Kept.refl _) h.own rfl rfl
      apply hstopped.noted (u := s.effects hook)
      case hactive => exact hactive
      all_goals simp [State.effects, hprefetch, hkeeps]
  | false =>
    have hlisting : s.sameListing = false := by
      apply Bool.eq_false_iff.mpr
      intro hsame
      rw [sameListing_samePrefetch hsame] at hprefetch
      cases hprefetch
    cases hfirst : s.active with
    | none =>
      -- the first effects: nothing is to be cleaned up
      have hown := h.own hfirst
      apply h.noted (u := s.effects hook)
      case hactive => exact hactive
      all_goals simp [State.effects, hprefetch, hfirst, State.stopPrefetch, State.startPrefetch, hown]
    | some p =>
      apply h.stoppedBoth.noted (u := s.effects hook)
      case hactive => exact hactive
      all_goals simp [State.effects, hprefetch, hlisting, hfirst, State.startPrefetch]

theorem Inv.unmount (h : Inv s) : Inv s.unmount := by
  have hgone : ∀ {u : State T M}, Inv u → u.own = none →
      Inv { u with active := none, watch := none, mounted := false } := by
    intro u hu hown
    exact hu.congr rfl rfl rfl rfl rfl (fun _ => hown) fun hload => ⟨hload, rfl⟩
  unfold State.unmount
  cases hfirst : s.active with
  | none => exact hgone h (h.own hfirst)
  | some p =>
    apply hgone h.stoppedBoth
    exact (stopPending_same s.stopPrefetch).2.2.2.1

/-- A new prefetch is for a page that is cached under its query. -/
theorem Inv.fire (h : Inv s) {p : Props T M} (hactive : s.active = some p) (held : Held T M)
    (cursor : String) : Inv (s.fire p held cursor) := by
  unfold State.fire
  split
  · exact h.congr rfl rfl rfl rfl rfl h.own fun hload => ⟨hload, rfl⟩
  · rename_i hgo
    simp only [Bool.or_eq_true, not_or, bne_iff_ne, ne_eq, not_not, Option.isSome_iff_ne_none] at hgo
    obtain ⟨⟨⟨hdata, -⟩, -⟩, hpending⟩ := hgo
    obtain ⟨hidle, hoff, hflag⟩ := h.resting hpending
    refine Inv.idle ⟨?_, h.cached, h.counted, h.distinct, ?_⟩ hpending hflag hidle hoff h.cursor
    · intro q hq
      rcases List.mem_append.mp hq with hold | hnew
      · exact h.listing q hold
      · rw [List.mem_singleton.mp hnew]
        exact h.cached p.key held hdata
    · intro hnone
      rw [hactive] at hnone
      cases hnone

/-! ## Loads -/

/-- A load begins where none runs, and a prefetch that it takes is for its page. -/
theorem Inv.start (h : Inv s) {p : Props T M} {current : Held T M} {cursor : String}
    {taken : Option Nat} (hpending : s.pending = none)
    (hdata : (s.cache p.key).data = some current) (hcursor : current.page.nextCursor = some cursor)
    (hinvalid : (s.cache p.key).isInvalidated = false)
    (hfetching : (s.cache p.key).fetching = false)
    (htaken : ∀ i, taken = some i → ∃ q, s.prefetches[i]? = some q ∧
      State.usable current cursor (s.cache p.key).dataUpdateCount q = true) :
    Inv (s.start p current cursor taken) := by
  obtain ⟨hidle, -, -⟩ := h.resting hpending
  have hlast : (s.start p current cursor taken).loads[s.loads.length]? =
      some (s.opened p current cursor taken) := List.getElem?_concat_length
  have hrunning : (s.opened p current cursor taken).Running := by
    refine ⟨?_, rfl⟩
    cases taken with
    | none => exact Phase.noConfusion
    | some i => exact Phase.noConfusion
  -- a load that runs afterwards is the new one
  have ran : ∀ (n : Nat) (l : Load T M), (s.start p current cursor taken).loads[n]? = some l →
      l.Running → n = s.loads.length ∧ l = s.opened p current cursor taken := by
    intro n l hl hrun
    rcases Lists.getElem?_concat hl with hold | hnew
    · exact absurd hrun (hidle l (List.mem_of_getElem? hold))
    · exact hnew
  constructor
  case running =>
    intro n l hl hrun
    obtain ⟨rfl, rfl⟩ := ran n l hl hrun
    refine ⟨rfl, rfl, ?_⟩
    exact isCurrent_iff.mpr ⟨rfl, hdata, rfl, rfl, hinvalid, hfetching⟩
  case pending =>
    intro n hn
    cases hn
    exact ⟨_, hlast, hrunning⟩
  case subscribed =>
    intro l hl hsub
    rcases List.mem_append.mp hl with hold | hnew
    · exact h.subscribed l hold hsub
    · rw [List.mem_singleton.mp hnew]
      exact hrunning
  case loading =>
    intro _
    exact ⟨_, _, rfl, hlast, rfl⟩
  case waiting =>
    intro n l i hl hrun hphase
    obtain ⟨rfl, rfl⟩ := ran n l hl hrun
    cases taken with
    | none => cases hphase
    | some j =>
      cases hphase
      obtain ⟨q, hq, husable⟩ := htaken i rfl
      simp only [State.usable, Bool.and_eq_true, beq_iff_eq, Bool.not_eq_true'] at husable
      obtain ⟨⟨⟨hsource, hcur⟩, hversion⟩, hfine⟩ := husable
      have hkey : q.key = p.key := by
        rw [← h.listing q (List.mem_of_getElem? hq), hsource]
        exact h.cached p.key current hdata
      exact ⟨q, hq, hfine, hkey, hsource, hcur, hversion⟩
  case cursor =>
    intro l hl
    rcases List.mem_append.mp hl with hold | hnew
    · exact h.cursor l hold
    · rw [List.mem_singleton.mp hnew]
      exact hcursor
  case listing => exact h.listing
  case cached => exact h.cached
  case counted => exact h.counted
  case distinct => exact h.distinct
  case own => exact h.own

/-- A prefetch goes that no load waits for. -/
theorem Inv.released (h : Inv s) (i : Nat)
    (hfree : ∀ l ∈ s.loads, l.Running → l.phase ≠ .waiting i) : Inv (s.abortPrefetch i) where
  running := h.running
  pending := h.pending
  subscribed := h.subscribed
  loading := h.loading
  waiting := by
    intro n l j hl hrun hphase
    obtain ⟨p, hp, hprepared⟩ := h.waiting n l j hl hrun hphase
    have hne : i ≠ j := by
      rintro rfl
      exact hfree l (List.mem_of_getElem? hl) hrun hphase
    refine ⟨p, ?_, hprepared⟩
    exact (List.getElem?_modify_ne _ _ hne).trans hp
  cursor := h.cursor
  listing := h.kept (abortPrefetch_kept s i)
  cached := h.cached
  counted := h.counted
  distinct := h.distinct
  own := h.own

theorem Inv.load (h : Inv s) (p : Props T M) : Inv (s.load p) := by
  unfold State.load
  split
  · exact h
  · rename_i current hdata
    split
    · exact h
    · rename_i cursor hcursor
      split
      · exact h
      · rename_i hgo
        simp only [Bool.or_eq_true, not_or, Bool.not_eq_true, Option.isSome_eq_false_iff,
          Option.isNone_iff_eq_none] at hgo
        obtain ⟨⟨⟨⟨-, hpending⟩, -⟩, hfetching⟩, hinvalid⟩ := hgo
        have hplain : Inv (s.start p current cursor none) := by
          apply h.start hpending hdata hcursor hinvalid hfetching
          intro i hi
          cases hi
        split
        · exact hplain
        · rename_i i hahead
          split
          · rename_i husable
            apply h.start hpending hdata hcursor hinvalid hfetching
            intro j hj
            cases hj
            exact (Option.any_eq_true _ _).mp husable
          · apply hplain.released
            intro l hl hrun hphase
            rcases List.mem_append.mp hl with hold | hnew
            · exact (h.resting hpending).1 l hold hrun
            · rw [List.mem_singleton.mp hnew] at hphase
              cases hphase

/-! ## The end of a load -/

/-- After the end of the pending load no load runs. -/
theorem Inv.ended (h : Inv s) (hpending : s.pending = some n) (hl : s.loads[n]? = some l)
    (hstill : Still t) (hloads : ∀ k ∈ t.loads, (∃ m, n ≠ m ∧ s.loads[m]? = some k) ∨
      (k.phase = .finished ∧ k.subscribed = false ∧ k.current = l.current ∧ k.cursor = l.cursor))
    (hnone : t.pending = none) (hloading : t.ui.loading = false) : Inv t := by
  have hothers : ∀ m k, n ≠ m → s.loads[m]? = some k → ¬k.Running := by
    intro m k hne hk hrun
    have hpend := (h.running m k hk hrun).1
    rw [hpending] at hpend
    exact hne (Option.some.inj hpend)
  apply Inv.idle hstill hnone hloading
  · intro k hk hrun
    rcases hloads k hk with ⟨m, hne, hm⟩ | ⟨hfinished, -⟩
    · exact hothers m k hne hm hrun
    · exact hrun.1 hfinished
  · intro k hk
    rcases hloads k hk with ⟨m, hne, hm⟩ | ⟨-, hoff, -⟩
    · apply Bool.eq_false_iff.mpr
      intro hsub
      exact hothers m k hne hm (h.subscribed k (List.mem_of_getElem? hm) hsub)
    · exact hoff
  · intro k hk
    rcases hloads k hk with ⟨m, -, hm⟩ | ⟨-, -, hcurrent, hcursor⟩
    · exact h.cursor k (List.mem_of_getElem? hm)
    · rw [hcurrent, hcursor]
      exact h.cursor l (List.mem_of_getElem? hl)

/-- The flag belongs to the pending load. -/
theorem Inv.flag (h : Inv s) (hpending : s.pending = some n) (hl : s.loads[n]? = some l) :
    (if s.ui.identity = l.identity then { s.ui with loading := false } else s.ui).loading
      = false := by
  split
  case isTrue => rfl
  case isFalse hne =>
    apply Bool.eq_false_iff.mpr
    intro hload
    obtain ⟨m, k, hm, hk, hidentity⟩ := h.loading hload
    rw [hpending] at hm
    cases hm
    rw [hl] at hk
    cases hk
    exact hne hidentity.symm

theorem Inv.finish (h : Inv s) (hl : s.loads[n]? = some l) : Inv (s.finish n l) := by
  by_cases hpending : s.pending = some n
  · obtain ⟨⟨hcache, happends, hprefetches, hactive, hown⟩, hended⟩ := finish_same s n l
    obtain ⟨hnone, hui⟩ := hended hpending
    have hstill : Still (s.finish n l) := by
      apply h.still hcache happends
      · rw [hprefetches]
        exact Kept.refl _
      · rw [hactive, hown]
        exact h.own
    apply h.ended hpending hl hstill
    · intro k hk
      obtain ⟨m, hm⟩ := List.mem_iff_getElem?.mp hk
      rcases finish_loads hm with ⟨hne, hold⟩ | ⟨-, hphase, hoff, l', hl', hcurrent, hcursor⟩
      · exact Or.inl ⟨m, hne, hold⟩
      · rw [hl] at hl'
        cases hl'
        exact Or.inr ⟨hphase, hoff, hcurrent, hcursor⟩
    · exact hnone
    · rw [hui]
      exact h.flag hpending hl
  · -- a load that was aborted before; the pending one is another
    have hsame : s.finish n l = { s with loads := s.loads.modify n fun l =>
        { l with subscribed := false, prepared := none, phase := .finished } } := by
      simp [State.finish, hpending]
    have hkeeps : ∀ m, s.pending = some m → (s.finish n l).loads[m]? = s.loads[m]? := by
      intro m hm
      have hne : n ≠ m := by
        rintro rfl
        exact hpending hm
      rw [hsame]
      exact List.getElem?_modify_ne _ _ hne
    have hends : ∀ (m : Nat) (k : Load T M), (s.finish n l).loads[m]? = some k → k.Running →
        s.loads[m]? = some k := by
      intro m k hk hrun
      rcases finish_loads hk with ⟨-, hold⟩ | ⟨-, hphase, -⟩
      · exact hold
      · exact absurd hphase hrun.1
    constructor
    case running =>
      intro m k hk hrun
      have hbefore := h.running m k (hends m k hk hrun) hrun
      rw [hsame]
      exact hbefore
    case pending =>
      intro m hm
      have hpend : s.pending = some m := by
        rw [hsame] at hm
        exact hm
      rw [hkeeps m hpend]
      exact h.pending m hpend
    case subscribed =>
      intro k hk hsub
      obtain ⟨m, hm⟩ := List.mem_iff_getElem?.mp hk
      rcases finish_loads hm with ⟨-, hold⟩ | ⟨-, -, hoff, -⟩
      · exact h.subscribed k (List.mem_of_getElem? hold) hsub
      · rw [hoff] at hsub
        cases hsub
    case loading =>
      intro hload
      have hui : (s.finish n l).ui = s.ui := by rw [hsame]
      have hpend : (s.finish n l).pending = s.pending := by rw [hsame]
      rw [hui] at hload ⊢
      obtain ⟨m, k, hm, hk, hidentity⟩ := h.loading hload
      rw [hpend]
      refine ⟨m, k, hm, ?_, hidentity⟩
      rw [hkeeps m hm]
      exact hk
    case waiting =>
      intro m k i hk hrun hphase
      have hbefore := h.waiting m k i (hends m k hk hrun) hrun hphase
      rw [hsame]
      exact hbefore
    case cursor =>
      intro k hk
      obtain ⟨m, hm⟩ := List.mem_iff_getElem?.mp hk
      rcases finish_loads hm with ⟨-, hold⟩ | ⟨-, -, -, l', hl', hcurrent, hcursor⟩
      · exact h.cursor k (List.mem_of_getElem? hold)
      · rw [hcurrent, hcursor]
        exact h.cursor l' (List.mem_of_getElem? hl')
    case listing => rw [hsame]; exact h.listing
    case cached => rw [hsame]; exact h.cached
    case counted => rw [hsame]; exact h.counted
    case distinct => rw [hsame]; exact h.distinct
    case own => rw [hsame]; exact h.own

/-- A message is shown for the load that is current. -/
theorem Inv.fail (h : Inv s) (hl : s.loads[n]? = some l) (message : String) :
    Inv (s.fail n l message) := by
  unfold State.fail
  split
  · have hshown : Inv { s with ui := ⟨l.identity, false, message⟩ } := by
      refine h.congr rfl rfl rfl rfl rfl h.own ?_
      intro hload
      cases hload
    exact hshown.finish hl
  · exact h.finish hl

/-! ## An append -/

/-- What an action leaves in any case. -/
theorem dispatch_same (s : State T M) (key : String) (action : Action T M) :
    (s.dispatch key action).cache =
      Function.update s.cache key ((s.cache key).reduce key action) ∧
    (s.dispatch key action).appends = s.appends ∧ (s.dispatch key action).active = s.active ∧
    (s.dispatch key action).own = s.own ∧
    Kept s.prefetches (s.dispatch key action).prefetches := by
  let u := { s with cache := Function.update s.cache key ((s.cache key).reduce key action) }
  obtain ⟨hcache, -, hprefetches, -, happends, hactive, hown, -⟩ :=
    notifyWatch_same ((u.notifyPrefetches key).notifyLoads key) key action
  refine ⟨hcache, happends, hactive, hown, ?_⟩
  have hkept : Kept u.prefetches ((u.notifyPrefetches key).notifyLoads key).prefetches :=
    notified_kept u key
  rw [← hprefetches] at hkept
  exact hkept

/-- Where no load listens, an action is nothing to the loads. -/
theorem dispatch_quiet (hquiet : ∀ l ∈ s.loads, l.subscribed = false) (key : String)
    (action : Action T M) : (s.dispatch key action).loads = s.loads ∧
    (s.dispatch key action).pending = s.pending ∧
    (s.dispatch key action).ui.loading = s.ui.loading ∧
    (s.dispatch key action).ui.identity = s.ui.identity := by
  let u := { s with cache := Function.update s.cache key ((s.cache key).reduce key action) }
  have hdropped : ∀ l ∈ u.loads, u.dropped key l = false := by
    intro l hl
    unfold State.dropped
    rw [hquiet l hl]
    rfl
  have hloads : ((u.notifyPrefetches key).notifyLoads key).loads = u.loads := by
    apply List.ext_getElem?
    intro m
    cases hm : u.loads[m]? with
    | none =>
      change (u.loads.map _)[m]? = none
      rw [List.getElem?_map, hm]
      rfl
    | some l => exact notified_keeps hm (hdropped l (List.mem_of_getElem? hm))
  have hpending : ((u.notifyPrefetches key).notifyLoads key).pending = u.pending ∧
      ((u.notifyPrefetches key).notifyLoads key).ui = u.ui := by
    have hgone : ((u.notifyPrefetches key).pending.bind fun n =>
        (u.notifyPrefetches key).loads[n]?).filter ((u.notifyPrefetches key).dropped key) = none := by
      apply Option.filter_eq_none_iff.mpr
      intro l hl
      obtain ⟨n, -, hn⟩ := Option.bind_eq_some_iff.mp hl
      have hkeep : (u.notifyPrefetches key).dropped key l = false :=
        hdropped l (List.mem_of_getElem? hn)
      rw [hkeep]
      exact Bool.false_ne_true
    unfold State.notifyLoads
    simp only [hgone]
    exact ⟨rfl, rfl⟩
  obtain ⟨-, hloads', -, hpending', -, -, -, hloading, hidentity⟩ :=
    notifyWatch_same ((u.notifyPrefetches key).notifyLoads key) key action
  refine ⟨hloads'.trans hloads, hpending'.trans hpending.1, ?_, ?_⟩
  · exact hloading.trans (congrArg Ui.loading hpending.2)
  · exact hidentity.trans (congrArg Ui.identity hpending.2)

/-- The append is the pending load's, and a first one for its generation. -/
theorem Inv.append (h : Inv s) (hook : Hook T M) (hl : s.loads[n]? = some l)
    (hrun : l.Running) (merged : Page T M) (stored : Nat) :
    Inv ((s.append hook n l merged stored).finish n l) := by
  obtain ⟨hpending, -, hcurrent⟩ := h.running n l hl hrun
  obtain ⟨-, -, -, hcount, -, -⟩ := isCurrent_iff.mp hcurrent
  let action : Action T M :=
    .success stored (hook.share l.current.page merged) l.updatedAt true
  have hquiet : ∀ k ∈ (s.unsubscribe n).loads, k.subscribed = false := by
    intro k hk
    obtain ⟨m, x, hx, ⟨-, rfl⟩ | ⟨hne, rfl⟩⟩ := modify_mem hk
    · rfl
    · apply Bool.eq_false_iff.mpr
      intro hsub
      obtain ⟨hpend, -, -⟩ := h.running m k hx (h.subscribed k (List.mem_of_getElem? hx) hsub)
      rw [hpending] at hpend
      exact hne (Option.some.inj hpend)
  obtain ⟨hcache, happends, hactive, hown, hkept⟩ := dispatch_same (s.unsubscribe n) l.key action
  obtain ⟨hloads, hpend, hloading, hidentity⟩ := dispatch_quiet hquiet l.key action
  obtain ⟨hcached, hcounted⟩ := h.reduced l.key action
  have hsome : (s.append hook n l merged stored).pending = some n := hpend.trans hpending
  obtain ⟨⟨hcache', happends', hprefetches', hactive', hown'⟩, hended⟩ :=
    finish_same (s.append hook n l merged stored) n l
  obtain ⟨hnone, hui⟩ := hended hsome
  have hupdated : ((s.append hook n l merged stored).finish n l).cache =
      Function.update s.cache l.key ((s.cache l.key).reduce l.key action) := hcache'.trans hcache
  have happended : ((s.append hook n l merged stored).finish n l).appends =
      s.appends ++ [⟨l.key, l.current.object, l.count⟩] := happends'
  -- the count of the query goes up, and every earlier append is below the old one
  have hstill : Still ((s.append hook n l merged stored).finish n l) := by
    constructor
    case listing =>
      rw [hprefetches']
      exact h.kept hkept
    case cached =>
      rw [hupdated]
      exact hcached
    case counted =>
      rw [hupdated, happended]
      intro a ha
      rcases List.mem_append.mp ha with hold | hnew
      · exact hcounted a hold
      · rw [List.mem_singleton.mp hnew, Function.update_self]
        calc l.count
          _ = (s.cache l.key).dataUpdateCount := hcount.symm
          _ < (s.cache l.key).dataUpdateCount + 1 := Nat.lt_succ_self _
    case distinct =>
      rw [happended]
      apply List.nodup_append.mpr
      refine ⟨h.distinct, List.nodup_singleton _, ?_⟩
      intro a ha b hb
      rw [List.mem_singleton.mp hb]
      rintro rfl
      have hlt := h.counted _ ha
      rw [hcount] at hlt
      exact Nat.lt_irrefl _ hlt
    case own =>
      rw [hactive', hown']
      intro hnone
      exact hown.trans (h.own (hactive.symm.trans hnone))
  apply h.ended hpending hl hstill
  · intro k hk
    obtain ⟨m, hm⟩ := List.mem_iff_getElem?.mp hk
    have hbefore : (s.append hook n l merged stored).loads =
        s.loads.modify n fun l => { l with subscribed := false } := hloads
    rcases finish_loads hm with ⟨hne, hold⟩ | ⟨-, hphase, hoff, l', hl', hcurrent, hcursor⟩
    · rw [hbefore, List.getElem?_modify_ne _ _ hne] at hold
      exact Or.inl ⟨m, hne, hold⟩
    · rw [hbefore, List.getElem?_modify_eq, hl] at hl'
      cases hl'
      exact Or.inr ⟨hphase, hoff, hcurrent, hcursor⟩
  · exact hnone
  · rw [hui]
    have hloading' : (s.append hook n l merged stored).ui.loading = s.ui.loading := hloading
    have hidentity' : (s.append hook n l merged stored).ui.identity = s.ui.identity := hidentity
    have hflag := h.flag hpending hl
    rw [← hidentity'] at hflag
    split
    case isTrue => rfl
    case isFalse hne =>
      rw [if_neg hne] at hflag
      rw [hloading', hflag]

theorem Inv.complete (h : Inv s) (hook : Hook T M) (hl : s.loads[n]? = some l)
    (hphase : l.phase ≠ .finished) (incoming : Page T M) (stored : Nat) :
    Inv (s.complete hook n l incoming stored) := by
  have hcalled : Inv { s with merges := s.merges + 1 } :=
    h.congr rfl rfl rfl rfl rfl h.own fun hload => ⟨hload, rfl⟩
  unfold State.complete
  split
  · rename_i hcurrent
    split
    · rename_i message _
      exact hcalled.fail hl message
    · rename_i merged _
      exact hcalled.append hook hl ⟨hphase, (isCurrent_iff.mp hcurrent).1⟩ merged stored
  · exact h.finish hl

/-! ## Runs -/

/-- The read of a prefetch has settled. -/
theorem Inv.prefetched (h : Inv s) (i : Nat) (result : Option (Page T M)) :
    Inv { s with prefetches := s.prefetches.modify i fun p : Prefetch T M =>
      { p with subscribed := false, result := some result } } where
  running := h.running
  pending := h.pending
  subscribed := h.subscribed
  loading := h.loading
  waiting := by
    intro n l j hl hrun hphase
    obtain ⟨p, hp, hprepared⟩ := h.waiting n l j hl hrun hphase
    by_cases hij : i = j
    · subst hij
      refine ⟨{ p with subscribed := false, result := some result }, ?_, ?_⟩
      · simp only [List.getElem?_modify_eq, hp, Option.map_some, Option.map_eq_map]
      · exact ⟨hprepared.fine, hprepared.key, hprepared.source, hprepared.cursor, hprepared.version⟩
    · exact ⟨p, (List.getElem?_modify_ne _ _ hij).trans hp, hprepared⟩
  cursor := h.cursor
  listing := by
    apply h.kept
    apply Kept.modify
    intro p
    exact ⟨rfl, rfl⟩
  cached := h.cached
  counted := h.counted
  distinct := h.distinct
  own := h.own

/-- The prefetch gave nothing: the load reads its page itself. -/
theorem Inv.reads (h : Inv s) (hl : s.loads[n]? = some l) (hphase : l.phase ≠ .finished) :
    Inv { s with loads := s.loads.modify n fun l => { l with phase := .reading } } := by
  have ran : ∀ (m : Nat) (k : Load T M),
      (s.loads.modify n fun l => { l with phase := .reading })[m]? = some k → k.Running →
      ∃ x, s.loads[m]? = some x ∧ x.Running ∧ ((n = m ∧ k = { x with phase := .reading }) ∨
        (n ≠ m ∧ k = x)) := by
    intro m k hk hrun
    obtain ⟨x, hx, ⟨rfl, rfl⟩ | ⟨hne, rfl⟩⟩ := modify_cases hk
    · rw [hl] at hx
      cases hx
      exact ⟨l, hl, ⟨hphase, hrun.2⟩, Or.inl ⟨rfl, rfl⟩⟩
    · exact ⟨k, hx, hrun, Or.inr ⟨hne, rfl⟩⟩
  constructor
  case running =>
    intro m k hk hrun
    obtain ⟨x, hx, hran, ⟨-, rfl⟩ | ⟨-, rfl⟩⟩ := ran m k hk hrun
    · exact h.running m x hx hran
    · exact h.running m k hx hran
  case pending =>
    intro m hm
    obtain ⟨k, hk, hrun⟩ := h.pending m hm
    by_cases hnm : n = m
    · subst hnm
      refine ⟨{ k with phase := .reading }, ?_, Phase.noConfusion, hrun.2⟩
      simp only [List.getElem?_modify_eq, hk, Option.map_some, Option.map_eq_map]
    · exact ⟨k, (List.getElem?_modify_ne _ _ hnm).trans hk, hrun⟩
  case subscribed =>
    intro k hk hsub
    obtain ⟨m, x, hx, ⟨-, rfl⟩ | ⟨-, rfl⟩⟩ := modify_mem hk
    · exact ⟨Phase.noConfusion, (h.subscribed x (List.mem_of_getElem? hx) hsub).2⟩
    · exact h.subscribed k (List.mem_of_getElem? hx) hsub
  case loading =>
    intro hload
    obtain ⟨m, k, hm, hk, hidentity⟩ := h.loading hload
    by_cases hnm : n = m
    · subst hnm
      refine ⟨n, { k with phase := .reading }, hm, ?_, hidentity⟩
      simp only [List.getElem?_modify_eq, hk, Option.map_some, Option.map_eq_map]
    · exact ⟨m, k, hm, (List.getElem?_modify_ne _ _ hnm).trans hk, hidentity⟩
  case waiting =>
    intro m k i hk hrun hwait
    obtain ⟨x, hx, hran, ⟨-, rfl⟩ | ⟨-, rfl⟩⟩ := ran m k hk hrun
    · cases hwait
    · exact h.waiting m k i hx hran hwait
  case cursor =>
    intro k hk
    obtain ⟨m, x, hx, ⟨-, rfl⟩ | ⟨-, rfl⟩⟩ := modify_mem hk
    · exact h.cursor x (List.mem_of_getElem? hx)
    · exact h.cursor k (List.mem_of_getElem? hx)
  case listing => exact h.listing
  case cached => exact h.cached
  case counted => exact h.counted
  case distinct => exact h.distinct
  case own => exact h.own

theorem inv_step {e : Event T M} (h : Inv s) (hstep : step hook s e = some t) : Inv t := by
  cases e with
  | cache key action =>
    cases hstep
    exact h.dispatch key action
  | render props =>
    simp only [step] at hstep
    split at hstep
    · cases hstep
      exact h.congr rfl rfl rfl rfl rfl h.own fun hload => ⟨hload, rfl⟩
    · cases hstep
  | effects =>
    simp only [step] at hstep
    split at hstep
    · cases hstep
      exact h.effects hook
    · cases hstep
  | unmount =>
    simp only [step] at hstep
    split at hstep
    · cases hstep
      exact h.unmount
    · cases hstep
  | timer =>
    simp only [step] at hstep
    split at hstep
    · cases hstep
    · rename_i p hactive
      split at hstep
      · cases hstep
      · rename_i held _
        split at hstep
        · cases hstep
        · rename_i cursor _
          split at hstep
          · cases hstep
            exact h.fire hactive held cursor
          · cases hstep
  | prefetched i result =>
    simp only [step] at hstep
    split at hstep
    · cases hstep
    · split at hstep
      · cases hstep
      · cases hstep
        exact h.prefetched i result
  | load render =>
    simp only [step] at hstep
    split at hstep
    · cases hstep
    · cases hstep
      exact h.load _
  | resume n stored =>
    simp only [step] at hstep
    split at hstep
    · cases hstep
    · rename_i l hl
      split at hstep
      · rename_i i hphase
        have hgoes : l.phase ≠ .finished := by
          rw [hphase]
          exact Phase.noConfusion
        split at hstep
        · cases hstep
        · split at hstep
          · cases hstep
            exact h.finish hl
          · split at hstep
            · cases hstep
              exact h.complete hook hl hgoes _ stored
            · cases hstep
              exact h.reads hl hgoes
      · cases hstep
  | settled n result stored =>
    simp only [step] at hstep
    split at hstep
    · cases hstep
    · rename_i l hl
      split at hstep
      · rename_i hphase
        have hgoes : l.phase ≠ .finished := by
          rw [hphase]
          exact Phase.noConfusion
        split at hstep
        · cases hstep
          exact h.complete hook hl hgoes _ stored
        · cases hstep
          exact h.fail hl _
      · cases hstep

end Porthop.Git.PageLoader
