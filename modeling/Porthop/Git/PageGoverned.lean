import Porthop.Git.PageAppends

/- What a step of the loader may change of the cache, and what it may show.

   A step that is not an append is quiet about the cache: it leaves it as it is, and an error
   is kept or taken away. Every load keeps what it was begun for. -/
namespace Porthop.Git.PageLoader

open UniquePages (Page)

variable {T M : Type}

/-! ## Loads keep what they were begun for -/

structure Load.Since (l k : Load T M) : Prop where
  key : k.key = l.key
  identity : k.identity = l.identity
  current : k.current = l.current
  cursor : k.cursor = l.cursor
  updatedAt : k.updatedAt = l.updatedAt
  count : k.count = l.count
  aborted : l.aborted = true → k.aborted = true
  finished : l.phase = .finished → k.phase = .finished

theorem Load.Since.refl (l : Load T M) : l.Since l := ⟨rfl, rfl, rfl, rfl, rfl, rfl, id, id⟩

theorem Load.Since.trans {j k l : Load T M} (h : j.Since k) (h' : k.Since l) : j.Since l where
  key := h'.key.trans h.key
  identity := h'.identity.trans h.identity
  current := h'.current.trans h.current
  cursor := h'.cursor.trans h.cursor
  updatedAt := h'.updatedAt.trans h.updatedAt
  count := h'.count.trans h.count
  aborted := h'.aborted ∘ h.aborted
  finished := h'.finished ∘ h.finished

def Carried (ls ks : List (Load T M)) : Prop := List.Forall₂ Load.Since ls ks

theorem Carried.refl (ls : List (Load T M)) : Carried ls ls :=
  List.forall₂_same.mpr fun l _ => Load.Since.refl l

theorem Carried.trans {js ks ls : List (Load T M)} (h : Carried js ks) (h' : Carried ks ls) :
    Carried js ls := by
  unfold Carried at *
  induction h generalizing ls with
  | nil => exact h'
  | cons hjk _ ih =>
    cases h' with
    | cons hkl hrest => exact List.Forall₂.cons (hjk.trans hkl) (ih hrest)

theorem Carried.modify {f : Load T M → Load T M} {ls : List (Load T M)} {n : Nat}
    (hf : ∀ l, ls[n]? = some l → l.Since (f l)) : Carried ls (ls.modify n f) := by
  unfold Carried
  induction ls generalizing n with
  | nil =>
    rw [List.modify_nil]
    exact List.Forall₂.nil
  | cons l ls ih =>
    cases n with
    | zero => exact List.Forall₂.cons (hf l rfl) (Carried.refl ls)
    | succ n =>
      rw [List.modify_succ_cons]
      exact List.Forall₂.cons (Load.Since.refl l) (ih hf)

/-! ## Quiet steps -/

structure Quiet (s t : State T M) : Prop where
  cache : t.cache = s.cache
  appends : t.appends = s.appends
  error : t.ui.error = "" ∨ (t.ui.error = s.ui.error ∧ t.ui.identity = s.ui.identity)
  loads : Carried s.loads t.loads

variable {s t u : State T M} {hook : Hook T M} {n : Nat} {l : Load T M} {key : String}

theorem Quiet.refl (s : State T M) : Quiet s s := ⟨rfl, rfl, Or.inr ⟨rfl, rfl⟩, Carried.refl _⟩

theorem Quiet.trans (h : Quiet s t) (h' : Quiet t u) : Quiet s u where
  cache := h'.cache.trans h.cache
  appends := h'.appends.trans h.appends
  error := by
    rcases h'.error with hnone | ⟨hsame, hidentity⟩
    · exact Or.inl hnone
    · rcases h.error with hnone | ⟨hsame', hidentity'⟩
      · exact Or.inl (hsame.trans hnone)
      · exact Or.inr ⟨hsame.trans hsame', hidentity.trans hidentity'⟩
  loads := h.loads.trans h'.loads

/-- Nothing that counts has changed. -/
theorem Quiet.same (hcache : t.cache = s.cache) (happends : t.appends = s.appends)
    (hui : t.ui = s.ui) (hloads : t.loads = s.loads) : Quiet s t where
  cache := hcache
  appends := happends
  error := by
    rw [hui]
    exact Or.inr ⟨rfl, rfl⟩
  loads := by
    rw [hloads]
    exact Carried.refl _

theorem notifyWatch_quiet (s : State T M) (key : String) (action : Action T M) :
    Quiet s (s.notifyWatch key action) := by
  unfold State.notifyWatch
  split
  · exact Quiet.refl s
  · exact Quiet.refl s
  · split
    · exact ⟨rfl, rfl, Or.inl rfl, Carried.refl _⟩
    · exact Quiet.refl s

theorem abortPrefetch_quiet (s : State T M) (i : Nat) : Quiet s (s.abortPrefetch i) :=
  Quiet.same rfl rfl rfl rfl

theorem abortLoad_quiet (s : State T M) (n : Nat) : Quiet s (s.abortLoad n) := by
  obtain ⟨hcache, happends, -, -, -, hui, -, hloads⟩ := abortLoad_same s n
  refine ⟨hcache, happends, ?_, ?_⟩
  · rw [hui]
    exact Or.inr ⟨rfl, rfl⟩
  · rw [hloads]
    apply Carried.modify
    intro l _
    exact ⟨rfl, rfl, rfl, rfl, rfl, rfl, fun _ => rfl, id⟩

theorem stopPrefetch_quiet (s : State T M) : Quiet s s.stopPrefetch := Quiet.same rfl rfl rfl rfl

theorem stopPending_quiet (s : State T M) : Quiet s s.stopPending := by
  have hcleared : ∀ u : State T M,
      Quiet u { u with pending := none, ui := { u.ui with loading := false, error := "" } } :=
    fun u => ⟨rfl, rfl, Or.inl rfl, Carried.refl _⟩
  unfold State.stopPending
  cases s.pending with
  | none => exact hcleared s
  | some n => exact (abortLoad_quiet s n).trans (hcleared _)

theorem startPrefetch_quiet (s : State T M) (hook : Hook T M) : Quiet s (s.startPrefetch hook) :=
  Quiet.same rfl rfl rfl rfl

theorem unmount_quiet (s : State T M) : Quiet s s.unmount := by
  unfold State.unmount
  have hgone : ∀ u : State T M, Quiet u { u with active := none, watch := none, mounted := false } :=
    fun u => Quiet.same rfl rfl rfl rfl
  split
  · exact hgone s
  · exact ((stopPrefetch_quiet s).trans (stopPending_quiet _)).trans (hgone _)

theorem finish_quiet (s : State T M) (n : Nat) (l : Load T M) : Quiet s (s.finish n l) := by
  have hended : Quiet s { s with loads := s.loads.modify n fun l =>
      { l with subscribed := false, prepared := none, phase := .finished } } := by
    refine ⟨rfl, rfl, Or.inr ⟨rfl, rfl⟩, ?_⟩
    apply Carried.modify
    intro l _
    exact ⟨rfl, rfl, rfl, rfl, rfl, rfl, id, fun _ => rfl⟩
  apply hended.trans
  unfold State.finish
  dsimp only
  split
  · refine ⟨rfl, rfl, Or.inr ?_, Carried.refl _⟩
    split
    · exact ⟨rfl, rfl⟩
    · exact ⟨rfl, rfl⟩
  · exact Quiet.refl _

theorem shown_finish (s : State T M) (n : Nat) (l : Load T M) (message : String) :
    (State.finish { s with ui := ⟨l.identity, false, message⟩ } n l).ui
      = ⟨l.identity, false, message⟩ := by
  by_cases hpending : s.pending = some n
  · simp [State.finish, hpending]
  · simp [State.finish, hpending]

/-! ## What counts -/

/-- The load is the pending one and was not aborted, and its page is still what is cached: the
    same object of the same generation, valid and not being fetched. -/
structure Due (s : State T M) (n : Nat) (l : Load T M) : Prop where
  load : s.loads[n]? = some l
  running : l.Running
  pending : s.pending = some n
  data : (s.cache l.key).data = some l.current
  updatedAt : (s.cache l.key).dataUpdatedAt = l.updatedAt
  count : (s.cache l.key).dataUpdateCount = l.count
  valid : (s.cache l.key).isInvalidated = false
  idle : (s.cache l.key).fetching = false
  cursor : l.current.page.nextCursor = some l.cursor

/-- The page comes from the read of the load, or from a prefetch for the same page. -/
inductive Given (s : State T M) (n : Nat) (l : Load T M) (stored : Nat) :
    Event T M → Page T M → Prop
  | read (incoming : Page T M) (hphase : l.phase = .reading) :
    Given s n l stored (.settled n (.ok incoming) stored) incoming
  | prefetched (i : Nat) (p : Prefetch T M) (incoming : Page T M) (hphase : l.phase = .waiting i)
    (hp : s.prefetches[i]? = some p) (hresult : p.result = some (some incoming))
    (hprepared : Prepared l p) : Given s n l stored (.resume n stored) incoming

structure Appended (hook : Hook T M) (s t : State T M) (e : Event T M) (n : Nat) (l : Load T M)
    (stored : Nat) (incoming joined : Page T M) : Prop where
  due : Due s n l
  given : Given s n l stored e incoming
  merged : hook.merge s.merges l.current.page incoming l.cursor = .ok joined
  cache : t.cache = Function.update s.cache l.key ((s.cache l.key).reduce l.key
    (.success stored (hook.share l.current.page joined) l.updatedAt true))
  appends : t.appends = s.appends ++ [⟨l.key, l.current.object, l.count⟩]

/-- Why a message is shown: the read has failed, or its page cannot be merged. -/
inductive Failed (hook : Hook T M) (s : State T M) (n : Nat) (l : Load T M) (message : String) :
    Event T M → Prop
  | read (stored : Nat) (hphase : l.phase = .reading) :
    Failed hook s n l message (.settled n (.error message) stored)
  | merge {stored : Nat} {e : Event T M} {incoming : Page T M}
    (hgiven : Given s n l stored e incoming)
    (hmerge : hook.merge s.merges l.current.page incoming l.cursor = .error message) :
    Failed hook s n l message e

/-- A load begins with what is cached, valid and not being fetched. -/
structure Begun (s : State T M) (l : Load T M) : Prop where
  running : l.Running
  data : (s.cache l.key).data = some l.current
  updatedAt : (s.cache l.key).dataUpdatedAt = l.updatedAt
  count : (s.cache l.key).dataUpdateCount = l.count
  valid : (s.cache l.key).isInvalidated = false
  idle : (s.cache l.key).fetching = false
  cursor : l.current.page.nextCursor = some l.cursor

/-- What a step may change. -/
structure Governed (hook : Hook T M) (s : State T M) (e : Event T M) (t : State T M) : Prop where
  cache : (t.cache = s.cache ∧ t.appends = s.appends) ∨
    (∃ key action, e = .cache key action ∧ t.appends = s.appends ∧
      t.cache = Function.update s.cache key ((s.cache key).reduce key action)) ∨
    ∃ n l stored incoming joined, Appended hook s t e n l stored incoming joined
  error : t.ui.error = "" ∨ (t.ui.error = s.ui.error ∧ t.ui.identity = s.ui.identity) ∨
    ∃ n l message, Due s n l ∧ Failed hook s n l message e ∧ t.ui = ⟨l.identity, false, message⟩
  loads : Carried s.loads t.loads ∨ ∃ l, t.loads = s.loads ++ [l] ∧ Begun s l

theorem Quiet.governed {e : Event T M} (h : Quiet s t) : Governed hook s e t where
  cache := Or.inl ⟨h.cache, h.appends⟩
  error := by
    rcases h.error with hnone | hsame
    · exact Or.inl hnone
    · exact Or.inr (Or.inl hsame)
  loads := Or.inl h.loads

variable [DecidableEq T] [DecidableEq M]

theorem notified_quiet (s : State T M) (key : String) :
    Quiet s ((s.notifyPrefetches key).notifyLoads key) where
  cache := rfl
  appends := rfl
  error := by
    cases hgone : ((s.notifyPrefetches key).pending.bind fun n =>
        (s.notifyPrefetches key).loads[n]?).filter ((s.notifyPrefetches key).dropped key) with
    | none =>
      unfold State.notifyLoads
      simp only [hgone]
      exact Or.inr ⟨rfl, rfl⟩
    | some l =>
      unfold State.notifyLoads
      simp only [hgone]
      split
      · exact Or.inl rfl
      · exact Or.inr ⟨rfl, rfl⟩
  loads := by
    apply Lists.forall₂_map_right
    intro l _
    split
    · exact ⟨rfl, rfl, rfl, rfl, rfl, rfl, fun _ => rfl, id⟩
    · exact Load.Since.refl l

/-- After the cache itself, an action is quiet. -/
theorem dispatch_quietly (s : State T M) (key : String) (action : Action T M) :
    Quiet { s with cache := Function.update s.cache key ((s.cache key).reduce key action) }
      (s.dispatch key action) :=
  (notified_quiet _ key).trans (notifyWatch_quiet _ key action)

theorem effects_quiet (s : State T M) (hook : Hook T M) : Quiet s (s.effects hook) := by
  have hnoted : ∀ u : State T M, Quiet u { u with
      active := some u.shown
      flushed := true
      watch := if u.seen.error ≠ "" ∧ u.seen.identity = u.shown.identity ∧ u.shown.enabled then
          some (u.shown.key, u.shown.identity)
        else none } := fun u => Quiet.same rfl rfl rfl rfl
  unfold State.effects
  cases s.samePrefetch with
  | true =>
    cases s.sameListing || s.active.isNone with
    | true => exact hnoted s
    | false => exact (stopPending_quiet s).trans (hnoted _)
  | false =>
    cases s.sameListing || s.active.isNone with
    | true =>
      exact ((stopPrefetch_quiet s).trans (startPrefetch_quiet _ hook)).trans (hnoted _)
    | false =>
      exact (((stopPrefetch_quiet s).trans (stopPending_quiet _)).trans
        (startPrefetch_quiet _ hook)).trans (hnoted _)

theorem fire_quiet (s : State T M) (p : Props T M) (held : Held T M) (cursor : String) :
    Quiet s (s.fire p held cursor) := by
  unfold State.fire
  split
  · exact Quiet.same rfl rfl rfl rfl
  · exact Quiet.same rfl rfl rfl rfl

/-! ## Steps -/

theorem Inv.due (h : Inv s) (hl : s.loads[n]? = some l) (hphase : l.phase ≠ .finished)
    (hcurrent : s.isCurrent l = true) : Due s n l := by
  obtain ⟨hfine, hdata, hupdated, hcount, hvalid, hidle⟩ := isCurrent_iff.mp hcurrent
  have hrun : l.Running := ⟨hphase, hfine⟩
  exact {
    load := hl
    running := hrun
    pending := (h.running n l hl hrun).1
    data := hdata
    updatedAt := hupdated
    count := hcount
    valid := hvalid
    idle := hidle
    cursor := h.cursor l (List.mem_of_getElem? hl) }

/-- A message is shown for a load that is due, and for no other. -/
theorem fail_governed {e : Event T M} {message : String} (h : Inv s)
    (hl : s.loads[n]? = some l) (hphase : l.phase ≠ .finished) (hfailed : Failed hook s n l message e)
    (hcache : u.cache = s.cache) (happends : u.appends = s.appends) (hui : u.ui = s.ui)
    (hloads : u.loads = s.loads) : Governed hook s e (u.fail n l message) := by
  have hcurrent : u.isCurrent l = s.isCurrent l := by
    unfold State.isCurrent
    rw [hcache]
  unfold State.fail
  rw [hcurrent]
  split
  · rename_i hnow
    have hquiet := finish_quiet { u with ui := ⟨l.identity, false, message⟩ } n l
    refine ⟨Or.inl ⟨hquiet.cache.trans hcache, hquiet.appends.trans happends⟩, ?_, ?_⟩
    · have hui' := shown_finish u n l message
      exact Or.inr (Or.inr ⟨n, l, message, h.due hl hphase hnow, hfailed, hui'⟩)
    · rw [← hloads]
      exact Or.inl hquiet.loads
  · exact ((Quiet.same hcache happends hui hloads).trans (finish_quiet u n l)).governed

theorem append_governed {e : Event T M} {stored : Nat} {incoming joined : Page T M} (h : Inv s)
    (hl : s.loads[n]? = some l) (hphase : l.phase ≠ .finished) (hcurrent : s.isCurrent l = true)
    (hgiven : Given s n l stored e incoming)
    (hmerge : hook.merge s.merges l.current.page incoming l.cursor = .ok joined) :
    Governed hook s e
      ((State.append hook { s with merges := s.merges + 1 } n l joined stored).finish n l) := by
  let v : State T M := { s with merges := s.merges + 1 }
  let action : Action T M :=
    .success stored (hook.share l.current.page joined) l.updatedAt true
  have hdispatched := dispatch_quietly (v.unsubscribe n) l.key action
  have hfinished := finish_quiet (State.append hook v n l joined stored) n l
  have hunsubscribed : Carried s.loads (v.unsubscribe n).loads := by
    apply Carried.modify
    intro k _
    exact ⟨rfl, rfl, rfl, rfl, rfl, rfl, id, id⟩
  constructor
  case cache =>
    refine Or.inr (Or.inr ⟨n, l, stored, incoming, joined, ?_⟩)
    exact {
      due := h.due hl hphase hcurrent
      given := hgiven
      merged := hmerge
      cache := hfinished.cache.trans hdispatched.cache
      appends := hfinished.appends }
  case error =>
    have hquiet : (State.append hook v n l joined stored).ui.error = "" ∨
        ((State.append hook v n l joined stored).ui.error = s.ui.error ∧
          (State.append hook v n l joined stored).ui.identity = s.ui.identity) := hdispatched.error
    rcases hfinished.error with hnone | ⟨hsame, hidentity⟩
    · exact Or.inl hnone
    · rcases hquiet with hnone | ⟨hsame', hidentity'⟩
      · exact Or.inl (hsame.trans hnone)
      · exact Or.inr (Or.inl ⟨hsame.trans hsame', hidentity.trans hidentity'⟩)
  case loads =>
    exact Or.inl ((hunsubscribed.trans hdispatched.loads).trans hfinished.loads)

theorem complete_governed {e : Event T M} {stored : Nat} {incoming : Page T M} (h : Inv s)
    (hl : s.loads[n]? = some l) (hphase : l.phase ≠ .finished)
    (hgiven : s.isCurrent l = true → Given s n l stored e incoming) :
    Governed hook s e (s.complete hook n l incoming stored) := by
  unfold State.complete
  split
  · rename_i hcurrent
    split
    · rename_i message hmerge
      exact fail_governed h hl hphase (.merge (hgiven hcurrent) hmerge) rfl rfl rfl rfl
    · rename_i joined hmerge
      exact append_governed h hl hphase hcurrent (hgiven hcurrent) hmerge
  · exact (finish_quiet s n l).governed

theorem load_governed {e : Event T M} (s : State T M) (p : Props T M) :
    Governed hook s e (s.load p) := by
  unfold State.load
  split
  · exact (Quiet.refl s).governed
  · rename_i current hdata
    split
    · exact (Quiet.refl s).governed
    · rename_i cursor hcursor
      split
      · exact (Quiet.refl s).governed
      · rename_i hgo
        simp only [Bool.or_eq_true, not_or, Bool.not_eq_true] at hgo
        obtain ⟨⟨-, hfetching⟩, hinvalid⟩ := hgo
        have hbegun : ∀ taken, Begun s (s.opened p current cursor taken) := by
          intro taken
          refine ⟨⟨?_, rfl⟩, hdata, rfl, rfl, hinvalid, hfetching, hcursor⟩
          cases taken with
          | none => exact Phase.noConfusion
          | some i => exact Phase.noConfusion
        split
        · exact ⟨Or.inl ⟨rfl, rfl⟩, Or.inl rfl, Or.inr ⟨_, rfl, hbegun none⟩⟩
        · split
          · exact ⟨Or.inl ⟨rfl, rfl⟩, Or.inl rfl, Or.inr ⟨_, rfl, hbegun _⟩⟩
          · exact ⟨Or.inl ⟨rfl, rfl⟩, Or.inl rfl, Or.inr ⟨_, rfl, hbegun none⟩⟩

theorem governed_step {e : Event T M} (h : Inv s) (hstep : step hook s e = some t) :
    Governed hook s e t := by
  cases e with
  | cache key action =>
    cases hstep
    have hquiet := dispatch_quietly s key action
    have hafter : Governed hook s (.cache key action) (s.dispatch key action) := {
      cache := Or.inr (Or.inl ⟨key, action, rfl, hquiet.appends, hquiet.cache⟩)
      error := by
        rcases hquiet.error with hnone | hsame
        · exact Or.inl hnone
        · exact Or.inr (Or.inl hsame)
      loads := Or.inl hquiet.loads }
    exact hafter
  | render props =>
    simp only [step] at hstep
    split at hstep
    · cases hstep
      apply Quiet.governed
      exact Quiet.same rfl rfl rfl rfl
    · cases hstep
  | effects =>
    simp only [step] at hstep
    split at hstep
    · cases hstep
      exact (effects_quiet s hook).governed
    · cases hstep
  | unmount =>
    simp only [step] at hstep
    split at hstep
    · cases hstep
      exact (unmount_quiet s).governed
    · cases hstep
  | timer =>
    simp only [step] at hstep
    split at hstep
    · cases hstep
    · split at hstep
      · cases hstep
      · split at hstep
        · cases hstep
        · split at hstep
          · cases hstep
            exact (fire_quiet s _ _ _).governed
          · cases hstep
  | prefetched i result =>
    simp only [step] at hstep
    split at hstep
    · cases hstep
    · split at hstep
      · cases hstep
      · cases hstep
        apply Quiet.governed
        exact Quiet.same rfl rfl rfl rfl
  | load render =>
    simp only [step] at hstep
    split at hstep
    · cases hstep
    · cases hstep
      exact load_governed s _
  | resume n stored =>
    simp only [step] at hstep
    split at hstep
    · cases hstep
    · rename_i l hl
      split at hstep
      · rename_i i hphase
        have hgoes : l.phase ≠ .finished := by
          rw [hphase]
          exact Phase.noConfusion
        split at hstep
        · cases hstep
        · rename_i result hresult
          obtain ⟨p, hp, hgave⟩ := Option.bind_eq_some_iff.mp hresult
          split at hstep
          · cases hstep
            exact (finish_quiet s n l).governed
          · split at hstep
            · rename_i incoming
              cases hstep
              apply complete_governed h hl hgoes
              intro hcurrent
              obtain ⟨q, hq, hprepared⟩ :=
                h.waiting n l i hl ⟨hgoes, (isCurrent_iff.mp hcurrent).1⟩ hphase
              rw [hp] at hq
              cases hq
              exact .prefetched i p incoming hphase hp hgave hprepared
            · cases hstep
              have hquiet : Quiet s { s with
                  loads := s.loads.modify n fun l => { l with phase := .reading } } := by
                refine ⟨rfl, rfl, Or.inr ⟨rfl, rfl⟩, ?_⟩
                apply Carried.modify
                intro k hk
                rw [hl] at hk
                cases hk
                exact ⟨rfl, rfl, rfl, rfl, rfl, rfl, id, fun hended => absurd hended hgoes⟩
              exact hquiet.governed
      · cases hstep
  | settled n result stored =>
    simp only [step] at hstep
    split at hstep
    · cases hstep
    · rename_i l hl
      split at hstep
      · rename_i hphase
        have hgoes : l.phase ≠ .finished := by
          rw [hphase]
          exact Phase.noConfusion
        split at hstep
        · rename_i incoming
          cases hstep
          exact complete_governed h hl hgoes fun _ => .read incoming hphase
        · rename_i message
          cases hstep
          exact fail_governed h hl hgoes (.read stored hphase) rfl rfl rfl rfl
      · cases hstep

/-! ## Every run -/

/-- Where nothing runs, `load` of a further page that may be read begins. -/
theorem load_begins (hpending : s.pending = none) {p : Props T M} {current : Held T M}
    {cursor : String} (henabled : p.enabled = true) (hdata : (s.cache p.key).data = some current)
    (hcursor : current.page.nextCursor = some cursor) (hsome : cursor ≠ "")
    (hfetching : (s.cache p.key).fetching = false)
    (hvalid : (s.cache p.key).isInvalidated = false) :
    ∃ l, (s.load p).loads = s.loads ++ [l] ∧ Begun s l := by
  have hgo : ¬(!p.enabled || s.pending.isSome || cursor == "" || (s.cache p.key).fetching ||
      (s.cache p.key).isInvalidated) = true := by
    simp [henabled, hpending, hsome, hfetching, hvalid]
  have hloads : ∃ taken, (s.load p).loads = s.loads ++ [s.opened p current cursor taken] := by
    unfold State.load
    simp only [hdata, hcursor, if_neg hgo]
    split
    · exact ⟨none, rfl⟩
    · split
      · exact ⟨_, rfl⟩
      · exact ⟨none, rfl⟩
  obtain ⟨taken, htaken⟩ := hloads
  refine ⟨_, htaken, ⟨?_, rfl⟩, hdata, rfl, rfl, hvalid, hfetching, hcursor⟩
  cases taken with
  | none => exact Phase.noConfusion
  | some i => exact Phase.noConfusion

/-- In every run: one page at most is appended to a page object of a generation, one load at
    most runs, where none runs the flag of the shown listing is down and a load may begin, and
    each step changes what it may and no more. -/
theorem loader_governed (hook : Hook T M) (props : Props T M) (run : List (Event T M))
    (s : State T M) (hrun : Run.exec (step hook) run (State.new props) = some s) :
    s.appends.Nodup ∧
    (∀ (m n : Nat) (k l : Load T M), s.loads[m]? = some k → s.loads[n]? = some l → k.Running → l.Running → m = n) ∧
    ((∀ l ∈ s.loads, ¬l.Running) →
      (s.ui.identity = s.shown.identity → s.ui.loading = false) ∧
      ∀ (p : Props T M) (current : Held T M) (cursor : String), p.enabled = true →
        (s.cache p.key).data = some current → current.page.nextCursor = some cursor →
        cursor ≠ "" → (s.cache p.key).fetching = false → (s.cache p.key).isInvalidated = false →
        ∃ l, (s.load p).loads = s.loads ++ [l] ∧ Begun s l) ∧
    ∀ e t, step hook s e = some t → Governed hook s e t := by
  have h : Inv s := Run.exec_invariant (fun _ _ _ h hstep => inv_step h hstep) (inv_new props) hrun
  refine ⟨h.distinct, ?_, ?_, ?_⟩
  · intro m n k l hk hl hkrun hlrun
    have hm := (h.running m k hk hkrun).1
    rw [(h.running n l hl hlrun).1] at hm
    exact (Option.some.inj hm).symm
  · intro hidle
    have hpending : s.pending = none := by
      cases hpend : s.pending with
      | none => rfl
      | some n =>
        obtain ⟨l, hl, hrunning⟩ := h.pending n hpend
        exact absurd hrunning (hidle l (List.mem_of_getElem? hl))
    refine ⟨fun _ => (h.resting hpending).2.2, ?_⟩
    intro p current cursor henabled hdata hcursor hsome hfetching hvalid
    exact load_begins hpending henabled hdata hcursor hsome hfetching hvalid
  · intro e t hstep
    exact governed_step h hstep

/-- Merging puts the entries together. -/
def joining : Hook Nat Unit where
  prefetch := true
  merge := fun _ previous incoming _ =>
    .ok { incoming with entries := previous.entries ++ incoming.entries }
  share := fun _ joined => joined

def twoPages : List (Event Nat Unit) :=
  let first : Page Nat Unit := ⟨"s", [1], some "c", ()⟩
  [.effects, .cache "k" (.success 0 first 5 false), .render ⟨"k", some ⟨"k", 0, first⟩, true⟩,
    .effects, .timer, .load 1, .prefetched 0 (some ⟨"s", [2], none, ()⟩), .resume 0 1]

/-- The page that was read ahead is appended. -/
theorem twoPages_governed : ∃ s, Run.exec (step joining) twoPages (State.new ⟨"k", none, true⟩) =
    some s ∧ ((s.cache "k").data.map fun h => h.page.entries) = some [1, 2] ∧
    s.appends.Nodup ∧ ∀ e t, step joining s e = some t → Governed joining s e t := by
  have hsome : (Run.exec (step joining) twoPages (State.new ⟨"k", none, true⟩)).any
      (fun s => decide (((s.cache "k").data.map fun h => h.page.entries) = some [1, 2])) = true := by
    decide
  obtain ⟨s, hs, hentries⟩ := (Option.any_eq_true _ _).mp hsome
  have h := loader_governed joining ⟨"k", none, true⟩ twoPages s hs
  exact ⟨s, hs, of_decide_eq_true hentries, h.1, h.2.2.2⟩

end Porthop.Git.PageLoader
