import Porthop.Git.PageLoader
import Porthop.Lib.Lists
import Porthop.Lib.Run

/- What holds of the loader of pages in every run.

   A load that runs and is not aborted is the pending one, it listens to its query, and it is
   current: every change of the query that would end this aborts it in the same step. So a
   page that such a load has read, or has taken from a prefetch, is one for the cached page;
   all other results come to loads that are not current. -/
namespace Porthop.Git.PageLoader

variable {T M : Type}

/-! ## Prefetches -/

/-- What a prefetch is for stays. -/
structure Prefetch.Like (p q : Prefetch T M) : Prop where
  key : q.key = p.key
  source : q.source = p.source

def Kept (ps qs : List (Prefetch T M)) : Prop :=
  ∀ q ∈ qs, ∃ p ∈ ps, p.Like q

theorem Kept.refl (ps : List (Prefetch T M)) : Kept ps ps := fun q hq => ⟨q, hq, rfl, rfl⟩

theorem Kept.trans {ps qs rs : List (Prefetch T M)} (h : Kept ps qs) (h' : Kept qs rs) :
    Kept ps rs := by
  intro r hr
  obtain ⟨q, hq, hlike⟩ := h' r hr
  obtain ⟨p, hp, hlike'⟩ := h q hq
  exact ⟨p, hp, hlike.key.trans hlike'.key, hlike.source.trans hlike'.source⟩

theorem Kept.mapIdx {f : Nat → Prefetch T M → Prefetch T M} (hf : ∀ i p, Prefetch.Like p (f i p))
    (ps : List (Prefetch T M)) : Kept ps (ps.mapIdx f) := by
  intro q hq
  obtain ⟨i, hi, rfl⟩ := List.mem_mapIdx.mp hq
  exact ⟨_, List.getElem_mem hi, hf i _⟩

theorem Kept.map {f : Prefetch T M → Prefetch T M} (hf : ∀ p, Prefetch.Like p (f p))
    (ps : List (Prefetch T M)) : Kept ps (ps.map f) := by
  intro q hq
  obtain ⟨p, hp, rfl⟩ := List.mem_map.mp hq
  exact ⟨p, hp, hf p⟩

theorem Kept.modify {f : Prefetch T M → Prefetch T M} (hf : ∀ p, Prefetch.Like p (f p)) (i : Nat)
    (ps : List (Prefetch T M)) : Kept ps (ps.modify i f) := by
  intro q hq
  obtain ⟨j, hj⟩ := List.mem_iff_getElem?.mp hq
  rw [List.getElem?_modify] at hj
  obtain ⟨p, hp, hq⟩ := Option.map_eq_some_iff.mp hj
  refine ⟨p, List.mem_of_getElem? hp, ?_⟩
  rw [← hq]
  split
  · exact hf p
  · exact ⟨rfl, rfl⟩

/-! ## Actions -/

theorem reduce_count (key : String) (q : Query T M) (action : Action T M) :
    q.dataUpdateCount ≤ (q.reduce key action).dataUpdateCount := by
  cases action with
  | success => exact Nat.le_succ _
  | fetch => exact Nat.le_refl _
  | invalidate => exact Nat.le_refl _
  | stop => exact Nat.le_refl _

theorem reduce_data {key : String} (q : Query T M) (action : Action T M) {h : Held T M}
    (hdata : (q.reduce key action).data = some h) : h.listing = key ∨ q.data = some h := by
  cases action with
  | success object page updatedAt manual =>
    cases hdata
    exact Or.inl rfl
  | fetch => exact Or.inr hdata
  | invalidate => exact Or.inr hdata
  | stop => exact Or.inr hdata

theorem notifyWatch_same (s : State T M) (key : String) (action : Action T M) :
    (s.notifyWatch key action).cache = s.cache ∧ (s.notifyWatch key action).loads = s.loads ∧
    (s.notifyWatch key action).prefetches = s.prefetches ∧
    (s.notifyWatch key action).pending = s.pending ∧
    (s.notifyWatch key action).appends = s.appends ∧
    (s.notifyWatch key action).active = s.active ∧ (s.notifyWatch key action).own = s.own ∧
    (s.notifyWatch key action).ui.loading = s.ui.loading ∧
    (s.notifyWatch key action).ui.identity = s.ui.identity := by
  unfold State.notifyWatch
  split
  · exact ⟨rfl, rfl, rfl, rfl, rfl, rfl, rfl, rfl, rfl⟩
  · exact ⟨rfl, rfl, rfl, rfl, rfl, rfl, rfl, rfl, rfl⟩
  · split
    · exact ⟨rfl, rfl, rfl, rfl, rfl, rfl, rfl, rfl, rfl⟩
    · exact ⟨rfl, rfl, rfl, rfl, rfl, rfl, rfl, rfl, rfl⟩

/-! ## The invariant -/

/-- It has not ended and was not aborted. -/
def Load.Running (l : Load T M) : Prop := l.phase ≠ .finished ∧ l.aborted = false

/-- The prefetch is for the page of the load. -/
structure Prepared (l : Load T M) (p : Prefetch T M) : Prop where
  fine : p.aborted = false
  key : p.key = l.key
  source : p.source = l.current
  cursor : p.cursor = l.cursor
  version : p.version = l.count

variable [DecidableEq T] [DecidableEq M]

structure Inv (s : State T M) : Prop where
  running : ∀ n l, s.loads[n]? = some l → l.Running →
    s.pending = some n ∧ l.subscribed = true ∧ s.isCurrent l = true
  pending : ∀ n, s.pending = some n → ∃ l, s.loads[n]? = some l ∧ l.Running
  subscribed : ∀ l ∈ s.loads, l.subscribed = true → l.Running
  loading : s.ui.loading = true →
    ∃ n l, s.pending = some n ∧ s.loads[n]? = some l ∧ l.identity = s.ui.identity
  waiting : ∀ (n : Nat) (l : Load T M) (i : Nat), s.loads[n]? = some l → l.Running → l.phase = .waiting i →
    ∃ p, s.prefetches[i]? = some p ∧ Prepared l p
  cursor : ∀ l ∈ s.loads, l.current.page.nextCursor = some l.cursor
  listing : ∀ p ∈ s.prefetches, p.source.listing = p.key
  cached : ∀ key h, (s.cache key).data = some h → h.listing = key
  counted : ∀ a ∈ s.appends, a.count < (s.cache a.key).dataUpdateCount
  distinct : s.appends.Nodup
  /-- Without effects in force there is no prefetch of theirs. -/
  own : s.active = none → s.own = none

section
variable {s t : State T M} {hook : Hook T M} {n i : Nat} {l : Load T M} {key : String}

theorem inv_new (props : Props T M) : Inv (State.new props) where
  running := fun n l h => by simp [State.new] at h
  pending := fun n h => by simp [State.new] at h
  subscribed := fun l h => by simp [State.new] at h
  loading := fun h => by simp [State.new] at h
  waiting := fun n l i h => by simp [State.new] at h
  cursor := fun l h => by simp [State.new] at h
  listing := fun p h => by simp [State.new] at h
  cached := fun key h hh => by simp [State.new, Query.new] at hh
  counted := fun a h => by simp [State.new] at h
  distinct := List.nodup_nil
  own := fun _ => rfl

theorem Inv.kept (h : Inv s) {ps : List (Prefetch T M)} (hkept : Kept s.prefetches ps) :
    ∀ p ∈ ps, p.source.listing = p.key := by
  intro q hq
  obtain ⟨p, hp, hlike⟩ := hkept q hq
  rw [hlike.key, hlike.source]
  exact h.listing p hp

/-! ## States without a running load -/

/-- The part of the invariant that is not about loads. -/
structure Still (s : State T M) : Prop where
  listing : ∀ p ∈ s.prefetches, p.source.listing = p.key
  cached : ∀ key h, (s.cache key).data = some h → h.listing = key
  counted : ∀ a ∈ s.appends, a.count < (s.cache a.key).dataUpdateCount
  distinct : s.appends.Nodup
  own : s.active = none → s.own = none

theorem Inv.still (h : Inv s) (hcache : t.cache = s.cache) (happends : t.appends = s.appends)
    (hkept : Kept s.prefetches t.prefetches) (hown : t.active = none → t.own = none) :
    Still t where
  listing := h.kept hkept
  cached := by rw [hcache]; exact h.cached
  counted := by rw [hcache, happends]; exact h.counted
  distinct := by rw [happends]; exact h.distinct
  own := hown

/-- No load runs any more. -/
theorem Inv.idle (hstill : Still t) (hpending : t.pending = none)
    (hloading : t.ui.loading = false) (hidle : ∀ l ∈ t.loads, ¬l.Running)
    (hsubscribed : ∀ l ∈ t.loads, l.subscribed = false)
    (hcursor : ∀ l ∈ t.loads, l.current.page.nextCursor = some l.cursor) : Inv t where
  running := fun n l hl hrun => absurd hrun (hidle l (List.mem_of_getElem? hl))
  pending := fun n hn => by rw [hpending] at hn; cases hn
  subscribed := fun l hl hsub => by rw [hsubscribed l hl] at hsub; cases hsub
  loading := fun hload => by rw [hloading] at hload; cases hload
  waiting := fun n l i hl hrun => absurd hrun (hidle l (List.mem_of_getElem? hl))
  cursor := hcursor
  listing := hstill.listing
  cached := hstill.cached
  counted := hstill.counted
  distinct := hstill.distinct
  own := hstill.own

/-- Only what no load depends on has changed. -/
theorem Inv.congr (h : Inv s) (hcache : t.cache = s.cache) (hloads : t.loads = s.loads)
    (hprefetches : t.prefetches = s.prefetches) (hpending : t.pending = s.pending)
    (happends : t.appends = s.appends) (hown : t.active = none → t.own = none)
    (hui : t.ui.loading = true → s.ui.loading = true ∧ t.ui.identity = s.ui.identity) : Inv t where
  running := by
    rw [hloads, hpending]
    intro n l hl hrun
    have hcurrent : t.isCurrent l = s.isCurrent l := by
      unfold State.isCurrent
      rw [hcache]
    rw [hcurrent]
    exact h.running n l hl hrun
  pending := by rw [hloads, hpending]; exact h.pending
  subscribed := by rw [hloads]; exact h.subscribed
  loading := by
    intro hload
    obtain ⟨hbefore, hidentity⟩ := hui hload
    rw [hloads, hpending, hidentity]
    exact h.loading hbefore
  waiting := by rw [hloads, hprefetches]; exact h.waiting
  cursor := by rw [hloads]; exact h.cursor
  listing := by rw [hprefetches]; exact h.listing
  cached := by rw [hcache]; exact h.cached
  counted := by rw [hcache, happends]; exact h.counted
  distinct := by rw [happends]; exact h.distinct
  own := hown

/-! ## Changes of the cache -/

theorem isCurrent_iff : s.isCurrent l = true ↔ l.aborted = false ∧
    (s.cache l.key).data = some l.current ∧ (s.cache l.key).dataUpdatedAt = l.updatedAt ∧
    (s.cache l.key).dataUpdateCount = l.count ∧ (s.cache l.key).isInvalidated = false ∧
    (s.cache l.key).fetching = false := by
  simp [State.isCurrent, and_assoc]

/-- The facts about the cache and the appends after an action. -/
theorem Inv.reduced (h : Inv s) (key : String) (action : Action T M) :
    (∀ k held, (Function.update s.cache key ((s.cache key).reduce key action) k).data = some held →
      held.listing = k) ∧
    ∀ a ∈ s.appends, a.count <
      (Function.update s.cache key ((s.cache key).reduce key action) a.key).dataUpdateCount := by
  constructor
  · intro k held hdata
    by_cases hk : k = key
    · subst hk
      rw [Function.update_self] at hdata
      rcases reduce_data _ action hdata with hnew | hold
      · exact hnew
      · exact h.cached k held hold
    · rw [Function.update_of_ne hk] at hdata
      exact h.cached k held hdata
  · intro a ha
    by_cases hk : a.key = key
    · rw [hk, Function.update_self]
      have hlt := h.counted a ha
      rw [hk] at hlt
      exact Nat.lt_of_lt_of_le hlt (reduce_count key _ action)
    · rw [Function.update_of_ne hk]
      exact h.counted a ha

theorem Inv.watched (h : Inv s) (key : String) (action : Action T M) :
    Inv (s.notifyWatch key action) := by
  obtain ⟨hcache, hloads, hprefetches, hpending, happends, hactive, hown, hloading, hidentity⟩ :=
    notifyWatch_same s key action
  apply h.congr hcache hloads hprefetches hpending happends
  · rw [hactive, hown]
    exact h.own
  · rw [hloading, hidentity]
    exact fun hload => ⟨hload, rfl⟩

/-- What the listeners leave of a load. -/
theorem notified_load {key : String} {n : Nat} {l : Load T M}
    (hl : ((s.notifyPrefetches key).notifyLoads key).loads[n]? = some l) :
    ∃ k, s.loads[n]? = some k ∧ l.current = k.current ∧ l.cursor = k.cursor ∧
      l.identity = k.identity ∧
      ((s.dropped key k = true ∧ l.aborted = true ∧ l.subscribed = false) ∨
        (s.dropped key k = false ∧ l = k)) := by
  have hmap : (s.loads.map fun l => if s.dropped key l then
      { l with aborted := true, subscribed := false } else l)[n]? = some l := hl
  rw [List.getElem?_map] at hmap
  obtain ⟨k, hk, hkl⟩ := Option.map_eq_some_iff.mp hmap
  refine ⟨k, hk, ?_⟩
  split at hkl
  case isTrue hdrop =>
    subst hkl
    exact ⟨rfl, rfl, rfl, Or.inl ⟨hdrop, rfl, rfl⟩⟩
  case isFalse hkeep =>
    subst hkl
    exact ⟨rfl, rfl, rfl, Or.inr ⟨Bool.eq_false_iff.mpr hkeep, rfl⟩⟩

theorem notified_keeps {key : String} {n : Nat} {l : Load T M} (hl : s.loads[n]? = some l)
    (hkeep : s.dropped key l = false) :
    ((s.notifyPrefetches key).notifyLoads key).loads[n]? = some l := by
  have hkeep' : (s.notifyPrefetches key).dropped key l = false := hkeep
  change (s.loads.map _)[n]? = some l
  rw [List.getElem?_map, hl, Option.map_some]
  simp only [hkeep', Bool.false_eq_true, if_false]

/-- The pending load stays pending unless it is dropped. -/
theorem notified_pending (key : String) {n : Nat} {l : Load T M} (hpending : s.pending = some n)
    (hl : s.loads[n]? = some l) :
    (s.dropped key l = false ∧
      ((s.notifyPrefetches key).notifyLoads key).pending = some n ∧
      ((s.notifyPrefetches key).notifyLoads key).ui = s.ui) ∨
    (s.dropped key l = true ∧
      ((s.notifyPrefetches key).notifyLoads key).pending = none ∧
      ((s.notifyPrefetches key).notifyLoads key).ui =
        if s.ui.identity = l.identity then { s.ui with loading := false, error := "" } else s.ui) := by
  have hbind : ((s.notifyPrefetches key).pending.bind
      fun n => (s.notifyPrefetches key).loads[n]?) = some l := by
    change (s.pending.bind fun n => s.loads[n]?) = some l
    rw [hpending]
    exact hl
  have hdropped : (s.notifyPrefetches key).dropped key l = s.dropped key l := rfl
  unfold State.notifyLoads
  simp only [hbind, Option.filter_some, hdropped]
  cases hdrop : s.dropped key l with
  | false => exact Or.inl ⟨rfl, hpending, rfl⟩
  | true => exact Or.inr ⟨rfl, rfl, rfl⟩

theorem notified_idle {key : String} (hpending : s.pending = none) :
    ((s.notifyPrefetches key).notifyLoads key).pending = none ∧
      ((s.notifyPrefetches key).notifyLoads key).ui = s.ui := by
  have hnone : (s.notifyPrefetches key).pending = none := hpending
  unfold State.notifyLoads
  simp only [hnone, Option.bind_none, Option.filter_none]
  exact ⟨rfl, rfl⟩

/-- A prefetch that is not obsolete, and of no load that is dropped, stays as it is. -/
theorem notified_prefetch {key : String} {i : Nat} {p : Prefetch T M}
    (hp : s.prefetches[i]? = some p)
    (hfresh : p.key = key → State.obsolete (s.cache key) p = false)
    (hfree : ∀ l ∈ s.loads, s.dropped key l = true → l.prepared ≠ some i) :
    ((s.notifyPrefetches key).notifyLoads key).prefetches[i]? = some p := by
  have hfirst : (s.notifyPrefetches key).prefetches[i]? = some p := by
    have hkeep : (p.subscribed && p.key == key && State.obsolete (s.cache key) p) = false := by
      by_cases hkey : p.key = key
      · rw [hfresh hkey, Bool.and_false]
      · simp [hkey]
    unfold State.notifyPrefetches
    simp only [List.getElem?_map, hp, Option.map_some, hkeep, Bool.false_eq_true, if_false]
  have hno : ((s.notifyPrefetches key).loads.any fun l =>
      (s.notifyPrefetches key).dropped key l && l.prepared == some i) = false := by
    apply List.any_eq_false.mpr
    intro l hl hboth
    obtain ⟨hdrop, hprepared⟩ := Bool.and_eq_true_iff.mp hboth
    exact hfree l hl hdrop (eq_of_beq hprepared)
  unfold State.notifyLoads
  simp only [List.getElem?_mapIdx, hfirst, Option.map_some, hno, Bool.false_eq_true, if_false]

theorem notified_kept (s : State T M) (key : String) :
    Kept s.prefetches ((s.notifyPrefetches key).notifyLoads key).prefetches := by
  have hfirst : Kept s.prefetches (s.notifyPrefetches key).prefetches := by
    apply Kept.map
    intro p
    split
    · exact ⟨rfl, rfl⟩
    · exact ⟨rfl, rfl⟩
  apply hfirst.trans
  apply Kept.mapIdx
  intro i p
  split
  · exact ⟨rfl, rfl⟩
  · exact ⟨rfl, rfl⟩

/-- The prefetches and the loads that listen, after the cache of `s` has become the one of
    `u`: what still runs is current. -/
theorem Inv.notified {u : State T M} (h : Inv s) (key : String)
    (hother : ∀ k, k ≠ key → u.cache k = s.cache k) (hloads : u.loads = s.loads)
    (hpending : u.pending = s.pending) (hui : u.ui = s.ui) (happends : u.appends = s.appends)
    (hown : u.active = none → u.own = none) (hprefetches : u.prefetches = s.prefetches)
    (hcached : ∀ k held, (u.cache k).data = some held → held.listing = k)
    (hcounted : ∀ a ∈ s.appends, a.count < (u.cache a.key).dataUpdateCount) :
    Inv ((u.notifyPrefetches key).notifyLoads key) := by
  -- a load that runs afterwards ran before, was pending, and is current now
  have ran : ∀ (n : Nat) (l : Load T M),
      ((u.notifyPrefetches key).notifyLoads key).loads[n]? = some l → l.Running →
        u.loads[n]? = some l ∧ u.pending = some n ∧ l.subscribed = true ∧
          u.dropped key l = false ∧ u.isCurrent l = true := by
    intro n l hl hrun
    obtain ⟨k, hk, -, -, -, ⟨-, haborted, -⟩ | ⟨hkeep, rfl⟩⟩ := notified_load hl
    · rw [hrun.2] at haborted
      cases haborted
    · rw [hloads] at hk
      obtain ⟨hpend, hsub, hcurrent⟩ := h.running n l hk hrun
      rw [hloads, hpending]
      refine ⟨hk, hpend, hsub, hkeep, ?_⟩
      by_cases hkey : l.key = key
      · simpa [State.dropped, hsub, hkey] using hkeep
      · rw [isCurrent_iff] at hcurrent ⊢
        rw [hother l.key hkey]
        exact hcurrent
  constructor
  case running =>
    intro n l hl hrun
    obtain ⟨hbefore, hpend, hsub, hkeep, hcurrent⟩ := ran n l hl hrun
    refine ⟨?_, hsub, hcurrent⟩
    obtain ⟨-, hstays, -⟩ | ⟨hdrop, -⟩ := notified_pending key hpend hbefore
    · exact hstays
    · rw [hkeep] at hdrop
      cases hdrop
  case pending =>
    intro n hn
    cases hpend : u.pending with
    | none =>
      rw [(notified_idle hpend).1] at hn
      cases hn
    | some m =>
      obtain ⟨l, hl, hrun⟩ := h.pending m (hpending ▸ hpend)
      rw [← hloads] at hl
      obtain ⟨hkeep, hstays, -⟩ | ⟨-, hnone, -⟩ := notified_pending key hpend hl
      · rw [hstays] at hn
        cases hn
        exact ⟨l, notified_keeps hl hkeep, hrun⟩
      · rw [hnone] at hn
        cases hn
  case subscribed =>
    intro l hl hsub
    obtain ⟨n, hn⟩ := List.mem_iff_getElem?.mp hl
    obtain ⟨k, hk, -, -, -, ⟨-, -, hoff⟩ | ⟨-, rfl⟩⟩ := notified_load hn
    · rw [hsub] at hoff
      cases hoff
    · rw [hloads] at hk
      exact h.subscribed l (List.mem_of_getElem? hk) hsub
  case loading =>
    intro hload
    cases hpend : u.pending with
    | none =>
      rw [(notified_idle hpend).2, hui] at hload
      obtain ⟨n, l, hn, -⟩ := h.loading hload
      rw [← hpending, hpend] at hn
      cases hn
    | some m =>
      obtain ⟨l, hl, hrun⟩ := h.pending m (hpending ▸ hpend)
      -- the flag is the one of the pending load
      have hidentity : u.ui.loading = true → l.identity = u.ui.identity := by
        intro hbefore
        rw [hui] at hbefore ⊢
        obtain ⟨n, k, hn, hk, hid⟩ := h.loading hbefore
        rw [← hpending, hpend] at hn
        cases hn
        rw [hl] at hk
        cases hk
        exact hid
      rw [← hloads] at hl
      obtain ⟨hkeep, hstays, hsame⟩ | ⟨-, -, hcleared⟩ := notified_pending key hpend hl
      · rw [hsame] at hload ⊢
        exact ⟨m, l, hstays, notified_keeps hl hkeep, hidentity hload⟩
      · rw [hcleared] at hload
        split at hload
        case isTrue => cases hload
        case isFalse hne => exact absurd (hidentity hload).symm hne
  case waiting =>
    intro n l i hl hrun hphase
    obtain ⟨hbefore, hpend, -, hkeep, hcurrent⟩ := ran n l hl hrun
    obtain ⟨p, hp, hprepared⟩ := h.waiting n l i (hloads ▸ hbefore) hrun hphase
    refine ⟨p, ?_, hprepared⟩
    apply notified_prefetch (hprefetches ▸ hp)
    · intro hkey
      obtain ⟨-, -, -, hcount, hvalid, hidle⟩ := isCurrent_iff.mp hcurrent
      rw [← hprepared.key, hkey] at hcount hvalid hidle
      simp [State.obsolete, hcount, hprepared.version, hvalid, hidle]
    · intro k hk hdrop
      -- what is dropped ran, so it was the pending one
      obtain ⟨m, hm⟩ := List.mem_iff_getElem?.mp hk
      rw [hloads] at hk hm
      have hsub : k.subscribed = true := by
        simp only [State.dropped, Bool.and_eq_true] at hdrop
        exact hdrop.1.1
      obtain ⟨hpend', -, -⟩ := h.running m k hm (h.subscribed k hk hsub)
      rw [← hpending, hpend] at hpend'
      cases hpend'
      rw [← hloads, hbefore] at hm
      cases hm
      rw [hkeep] at hdrop
      cases hdrop
  case cursor =>
    intro l hl
    obtain ⟨n, hn⟩ := List.mem_iff_getElem?.mp hl
    obtain ⟨k, hk, hcurrent, hcursor, -⟩ := notified_load hn
    rw [hcurrent, hcursor]
    rw [hloads] at hk
    exact h.cursor k (List.mem_of_getElem? hk)
  case listing =>
    apply h.kept
    rw [← hprefetches]
    exact notified_kept u key
  case cached => exact hcached
  case counted =>
    intro a ha
    apply hcounted a
    rw [← happends]
    exact ha
  case distinct =>
    change u.appends.Nodup
    rw [happends]
    exact h.distinct
  case own => exact hown

/-- The listeners of a query after an action on it. -/
theorem Inv.dispatch (h : Inv s) (key : String) (action : Action T M) :
    Inv (s.dispatch key action) := by
  obtain ⟨hcached, hcounted⟩ := h.reduced key action
  have hnotified := h.notified
    (u := { s with cache := Function.update s.cache key ((s.cache key).reduce key action) }) key
    (fun k hk => Function.update_of_ne hk _ _) rfl rfl rfl rfl h.own rfl hcached hcounted
  exact hnotified.watched key action

end

end Porthop.Git.PageLoader
