import Porthop.Profile.Connectivity

/- What is known of a server once all of a set of attempts have been heard of, in any order.

   The right answer looks at the set alone: an error if an attempt failed that started after
   the end of every success, or if nothing succeeded; reachable if something succeeded
   otherwise. The state keeps the end of the last result that counted, and a failure that is
   heard first keeps out every success that ended before it did, though the failed attempt was
   still running then. So the answer is right in every order exactly where no such failure is
   left at the end. -/
namespace Porthop.Profile

namespace Observation

def isOk (o : Observation) : Bool := o.result.isOk

def isErr (o : Observation) : Bool := !o.isOk

end Observation

namespace Connectivity

/-- What is known after some results, in the order in which they are heard. -/
def observeAll (os : List Observation) : Connectivity := os.foldl observeAt default

/-- Neither clock shows the last result that counted as old. -/
def Fresh (c : Connectivity) (now wall : Nat) : Prop :=
  (∃ t, c.observed = some t ∧ now - t < freshFor) ∧
    ∃ t, c.observedWall = some t ∧ t ≤ wall ∧ wall - t < freshFor

/-- An attempt failed that started after the end of every success. -/
def failedLast (os : List Observation) : Bool :=
  os.any fun f => f.isErr && os.all fun s => !s.isOk || s.finished < f.started

/-- The status of a set of attempts. -/
def evident (os : List Observation) : String :=
  if failedLast os then "error" else if os.any Observation.isOk then "reachable" else "unknown"

/-- Every order of the results shows that status, as long as what is known is fresh. -/
def OrderFree (os : List Observation) : Prop :=
  ∀ heard, heard.Perm os → ∀ now wall, (observeAll heard).Fresh now wall →
    ((observeAll heard).health now wall).status = evident os

/-- A failure that ends after every success also starts after every success, or another does. -/
def Settled (os : List Observation) : Prop :=
  failedLast os = true ∨
    ∀ f ∈ os, f.isErr = true → ∃ s ∈ os, s.isOk = true ∧ f.finished ≤ s.finished

/-! ## What the state says of the results -/

variable {os : List Observation} {o : Observation} {c : Connectivity}

theorem failedLast_iff : failedLast os = true ↔
    ∃ f ∈ os, f.isErr = true ∧ ∀ s ∈ os, s.isOk = true → s.finished < f.started := by
  unfold failedLast
  simp only [List.any_eq_true, Bool.and_eq_true, List.all_eq_true, Bool.or_eq_true,
    Bool.not_eq_true', decide_eq_true_eq]
  apply exists_congr
  intro f
  apply and_congr_right
  intro _
  apply and_congr_right
  intro _
  apply forall_congr'
  intro s
  apply forall_congr'
  intro _
  cases s.isOk <;> simp

/-- What the state keeps of the results `os`. -/
structure Heard (os : List Observation) (c : Connectivity) : Prop where
  /-- No result that counted is newer than the last one. -/
  successes : ∀ s ∈ os, s.isOk = true → ∃ t, c.observed = some t ∧ s.finished ≤ t ∧
    (s.finished = t → ∃ u, c.succeeded = some u ∧ s.finished ≤ u)
  failures : ∀ f ∈ os, f.isErr = true → ∃ t, c.observed = some t ∧ f.started ≤ t
  /-- An error is that of a failure which ended after every success. -/
  error : c.error.isSome → ∃ f ∈ os, f.isErr = true ∧ c.observed = some f.finished ∧
    ∀ s ∈ os, s.isOk = true → s.finished < f.finished
  /-- Without one the last result that counted is a success. -/
  noError : ∀ t, c.error = none → c.observed = some t →
    c.succeeded = some t ∧ ∃ s ∈ os, s.isOk = true ∧ s.finished = t
  last : ∀ u, c.succeeded = some u → ∃ t, c.observed = some t ∧ u ≤ t

theorem heard_default : Heard [] default where
  successes := fun _ h => absurd h List.not_mem_nil
  failures := fun _ h => absurd h List.not_mem_nil
  error := fun h => Bool.noConfusion h
  noError := fun _ _ h => by cases h
  last := fun _ h => by cases h

/-! ## One more result -/

theorem forall_concat {P : Observation → Prop} (hall : ∀ s ∈ os, P s) (ho : P o) :
    ∀ s ∈ os ++ [o], P s := by
  intro s hs
  rcases List.mem_append.mp hs with hs | hs
  · exact hall s hs
  · rw [List.mem_singleton.mp hs]
    exact ho

/-- A result that does not count: it is older than what is known. -/
theorem Heard.skip (h : Heard os c)
    (hok : o.isOk = true → ∃ t, c.observed = some t ∧ o.finished < t)
    (herr : o.isErr = true → ∃ t, c.observed = some t ∧ o.started ≤ t) : Heard (os ++ [o]) c where
  successes := by
    apply forall_concat h.successes
    intro ho
    obtain ⟨t, hobserved, hlate⟩ := hok ho
    exact ⟨t, hobserved, Nat.le_of_lt hlate, fun heq => by omega⟩
  failures := forall_concat h.failures herr
  error herror := by
    obtain ⟨f, hf, hfailed, hlast, hall⟩ := h.error herror
    refine ⟨f, List.mem_append_left _ hf, hfailed, hlast, forall_concat hall fun ho => ?_⟩
    obtain ⟨t, hobserved, hlate⟩ := hok ho
    have ht : f.finished = t := Option.some.inj (hlast.symm.trans hobserved)
    omega
  noError u hnone hu := by
    obtain ⟨hlast, s, hs, hsucceeded, hend⟩ := h.noError u hnone hu
    exact ⟨hlast, s, List.mem_append_left _ hs, hsucceeded, hend⟩
  last := h.last

/-- A success that counts. -/
theorem Heard.success (h : Heard os c) (ho : o.isOk = true)
    (hnew : ∀ t, c.observed = some t → t ≤ o.finished) :
    Heard (os ++ [o]) ⟨some o.finished, some o.finishedWall, some o.finished, none⟩ where
  successes := by
    refine forall_concat (fun s hs hok => ?_) fun _ => ?_
    · obtain ⟨t, hobserved, hle, -⟩ := h.successes s hs hok
      have ht := hnew t hobserved
      exact ⟨o.finished, rfl, by omega, fun heq => ⟨o.finished, rfl, by omega⟩⟩
    · exact ⟨o.finished, rfl, Nat.le_refl _, fun _ => ⟨o.finished, rfl, Nat.le_refl _⟩⟩
  failures := by
    refine forall_concat (fun f hf hfailed => ?_) fun hfailed => ?_
    · obtain ⟨t, hobserved, hle⟩ := h.failures f hf hfailed
      exact ⟨o.finished, rfl, Nat.le_trans hle (hnew t hobserved)⟩
    · simp [Observation.isErr, ho] at hfailed
  error herror := by simp at herror
  noError t _ ht := ⟨ht, o, by simp, ho, Option.some.inj ht⟩
  last u hu := ⟨u, hu, Nat.le_refl u⟩

/-- A failure that counts: it started after all that is known. -/
theorem Heard.failure (h : Heard os c) (ho : o.isErr = true) (horder : o.started ≤ o.finished)
    (hnew : ∀ t, c.observed = some t → t ≤ o.started)
    (hafter : ∀ u, c.succeeded = some u → u < o.started) {e : String} :
    Heard (os ++ [o]) ⟨some o.finished, some o.finishedWall, c.succeeded, some e⟩ := by
  have hnot : o.isOk = false := by simpa [Observation.isErr] using ho
  have hlast : ∀ s ∈ os, s.isOk = true → s.finished < o.started := by
    intro s hs hok
    obtain ⟨t, hobserved, hle, heq⟩ := h.successes s hs hok
    have ht := hnew t hobserved
    by_cases hend : s.finished = t
    · obtain ⟨u, hu, hsu⟩ := heq hend
      have := hafter u hu
      omega
    · omega
  constructor
  case successes =>
    refine forall_concat (fun s hs hok => ?_) fun hok => ?_
    · have hs' := hlast s hs hok
      exact ⟨o.finished, rfl, by omega, fun heq => by omega⟩
    · simp [hnot] at hok
  case failures =>
    refine forall_concat (fun f hf hfailed => ?_) fun _ => ⟨o.finished, rfl, horder⟩
    obtain ⟨t, hobserved, hle⟩ := h.failures f hf hfailed
    have ht := hnew t hobserved
    exact ⟨o.finished, rfl, by omega⟩
  case error =>
    intro _
    refine ⟨o, by simp, ho, rfl, forall_concat (fun s hs hok => ?_) fun hok => ?_⟩
    · exact Nat.lt_of_lt_of_le (hlast s hs hok) horder
    · simp [hnot] at hok
  case noError =>
    intro t hnone
    simp at hnone
  case last =>
    intro u hu
    have := hafter u hu
    exact ⟨o.finished, rfl, by omega⟩

/-- **One more result** is heard of. -/
theorem Heard.step (h : Heard os c) (horder : o.started ≤ o.finished) :
    Heard (os ++ [o]) (c.observeAt o) := by
  unfold observeAt
  match hresult : o.result with
  | .ok () =>
    have hok : o.isOk = true := by simp [Observation.isOk, hresult, Except.isOk, Except.toBool]
    by_cases hold : (c.observed.any fun t => o.finished < t) = true
    · simp only [hold, if_true]
      obtain ⟨t, ht, hlate⟩ := (Option.any_eq_true _ _).mp hold
      refine h.skip (fun _ => ⟨t, ht, by simpa using hlate⟩) fun herr => ?_
      simp [Observation.isErr, hok] at herr
    · simp only [hold]
      refine h.success hok fun t ht => ?_
      simpa [ht] using hold
  | .error e =>
    have herr : o.isErr = true := by
      simp [Observation.isErr, Observation.isOk, hresult, Except.isOk, Except.toBool]
    by_cases hold : ((c.observed.any fun t => o.started < t) ||
        c.succeeded.any fun t => o.started ≤ t) = true
    · simp only [hold, if_true]
      refine h.skip (fun hok => ?_) fun _ => ?_
      · simp [Observation.isErr, hok] at herr
      · rcases Bool.or_eq_true_iff.mp hold with hlate | htie
        · obtain ⟨t, ht, hlate⟩ := (Option.any_eq_true _ _).mp hlate
          exact ⟨t, ht, Nat.le_of_lt (by simpa using hlate)⟩
        · obtain ⟨u, hu, htie⟩ := (Option.any_eq_true _ _).mp htie
          obtain ⟨t, ht, hle⟩ := h.last u hu
          exact ⟨t, ht, Nat.le_trans (by simpa using htie) hle⟩
    · simp only [hold]
      rw [Bool.not_eq_true, Bool.or_eq_false_iff] at hold
      refine h.failure herr horder (fun t ht => ?_) fun u hu => ?_
      · simpa [ht] using hold.1
      · simpa [hu] using hold.2

/-- **Any number of results** in any order. -/
theorem heard_observeAll (horder : ∀ o ∈ os, o.started ≤ o.finished) : Heard os (observeAll os) := by
  induction os using List.reverseRecOn with
  | nil => exact heard_default
  | append_singleton os o ih =>
    have hrest := ih fun o' ho' => horder o' (List.mem_append_left _ ho')
    rw [observeAll, List.foldl_append]
    exact hrest.step (horder o (by simp))

/-! ## The status in every order -/

theorem health_status {now wall : Nat} (hfresh : c.Fresh now wall) :
    (c.health now wall).status =
      if c.error.isSome then "error" else if c.succeeded.isSome then "reachable" else "unknown" := by
  obtain ⟨⟨t, ht, hnew⟩, w, hw, hpast, hrecent⟩ := hfresh
  simp [health, ht, hw, hnew, hpast, hrecent]

/-- A failure after every success is an error, whatever else counted. -/
theorem error_of_failedLast (h : Heard os c) (hlast : failedLast os = true) {t : Nat}
    (hobserved : c.observed = some t) : c.error.isSome = true := by
  by_contra hnone
  rw [Bool.not_eq_true, Option.isSome_eq_false_iff, Option.isNone_iff_eq_none] at hnone
  obtain ⟨f, hf, hfailed, hall⟩ := failedLast_iff.mp hlast
  obtain ⟨-, s, hs, hok, hend⟩ := h.noError t hnone hobserved
  obtain ⟨u, hu, hle⟩ := h.failures f hf hfailed
  have hut : t = u := Option.some.inj (hobserved.symm.trans hu)
  have hbefore := hall s hs hok
  omega

theorem status_of_settled (h : Heard os c) (hsettled : Settled os) {now wall : Nat}
    (hfresh : c.Fresh now wall) : (c.health now wall).status = evident os := by
  rw [health_status hfresh, evident]
  obtain ⟨⟨t, ht, -⟩, -⟩ := hfresh
  by_cases hlast : failedLast os = true
  · rw [if_pos (error_of_failedLast h hlast ht), if_pos hlast]
  · have hended := hsettled.resolve_left hlast
    have hnone : c.error = none := by
      by_contra hsome
      obtain ⟨f, hf, hfailed, -, hall⟩ := h.error (Option.isSome_iff_ne_none.mpr hsome)
      obtain ⟨s, hs, hok, hle⟩ := hended f hf hfailed
      have := hall s hs hok
      omega
    obtain ⟨hsucceeded, s, hs, hok, -⟩ := h.noError t hnone ht
    have hany : os.any Observation.isOk = true := List.any_eq_true.mpr ⟨s, hs, hok⟩
    simp [hlast, hnone, hsucceeded, hany]

theorem evident_perm {heard : List Observation} (hperm : heard.Perm os) :
    evident heard = evident os ∧ (Settled heard ↔ Settled os) := by
  have hmem : ∀ o, o ∈ heard ↔ o ∈ os := fun o => hperm.mem_iff
  have hlast : failedLast heard = failedLast os := by
    rw [Bool.eq_iff_iff, failedLast_iff, failedLast_iff]
    simp only [hmem]
  have hany : heard.any Observation.isOk = os.any Observation.isOk := by
    rw [Bool.eq_iff_iff, List.any_eq_true, List.any_eq_true]
    simp only [hmem]
  constructor
  · rw [evident, evident, hlast, hany]
  · unfold Settled
    simp only [hlast, hmem]

/-! ## A failure that is heard first -/

/-- Nothing that ended before the failure `f` counts any more. -/
structure Failing (f : Observation) (c : Connectivity) : Prop where
  observed : ∃ t, c.observed = some t ∧ f.finished ≤ t
  wall : c.observedWall.isSome = true
  error : c.error.isSome = true

theorem Failing.step {f : Observation} (h : Failing f c) (horder : o.started ≤ o.finished)
    (hbefore : o.isOk = true → o.finished < f.finished) : Failing f (c.observeAt o) := by
  obtain ⟨t, ht, hle⟩ := h.observed
  unfold observeAt
  match hresult : o.result with
  | .ok () =>
    have hlate := hbefore (by simp [Observation.isOk, hresult, Except.isOk, Except.toBool])
    have hold : (c.observed.any fun t => o.finished < t) = true := by
      simp only [ht, Option.any_some, decide_eq_true_eq]
      omega
    simp only [hold, if_true]
    exact h
  | .error e =>
    simp only
    split
    · exact h
    · next hnew =>
      rw [Bool.not_eq_true, Bool.or_eq_false_iff] at hnew
      have hafter : t ≤ o.started := by simpa [ht] using hnew.1
      exact ⟨⟨o.finished, rfl, by omega⟩, rfl, rfl⟩

theorem Failing.run {f : Observation} (h : Failing f c)
    (horder : ∀ o ∈ os, o.started ≤ o.finished)
    (hbefore : ∀ o ∈ os, o.isOk = true → o.finished < f.finished) :
    Failing f (os.foldl observeAt c) := by
  induction os generalizing c with
  | nil => exact h
  | cons o os ih =>
    have hstep := h.step (horder o (by simp)) (hbefore o (by simp))
    exact ih hstep (fun o' ho' => horder o' (by simp [ho'])) fun o' ho' => hbefore o' (by simp [ho'])

/-- The first result always counts. -/
theorem failing_first {f : Observation} (hf : f.isErr = true) : Failing f (default.observeAt f) := by
  unfold observeAt
  match hresult : f.result with
  | .ok () => simp [Observation.isErr, Observation.isOk, hresult, Except.isOk, Except.toBool] at hf
  | .error e => exact ⟨⟨f.finished, rfl, Nat.le_refl _⟩, rfl, rfl⟩

/-- An order in which a failure keeps out every success. -/
theorem exists_failing {f : Observation} (horder : ∀ o ∈ os, o.started ≤ o.finished) (hf : f ∈ os)
    (herr : f.isErr = true) (hend : ∀ s ∈ os, s.isOk = true → s.finished < f.finished) :
    ∃ heard, heard.Perm os ∧ Failing f (observeAll heard) := by
  obtain ⟨before, after, rfl⟩ := List.append_of_mem hf
  have hsub : ∀ o ∈ before ++ after, o ∈ before ++ f :: after := by
    intro o ho
    simp only [List.mem_append, List.mem_cons] at ho ⊢
    tauto
  refine ⟨f :: (before ++ after), List.perm_middle.symm, ?_⟩
  apply (failing_first herr).run
  · exact fun o ho => horder o (hsub o ho)
  · exact fun o ho => hend o (hsub o ho)

/-! ## Results -/

/-- **Every order shows what the attempts themselves say exactly where no failure that was still
    running when every success had ended is the last word.** -/
theorem order_free_iff (horder : ∀ o ∈ os, o.started ≤ o.finished) :
    OrderFree os ↔ Settled os := by
  constructor
  · intro hfree
    by_contra hunsettled
    simp only [Settled, not_or, not_forall, not_exists, not_and, Nat.not_le] at hunsettled
    obtain ⟨hlast, f, hf, herr, hend⟩ := hunsettled
    obtain ⟨heard, hperm, hfailing⟩ := exists_failing horder hf herr hend
    obtain ⟨t, ht, -⟩ := hfailing.observed
    obtain ⟨w, hw⟩ := Option.isSome_iff_exists.mp hfailing.wall
    have hfresh : (observeAll heard).Fresh t w :=
      ⟨⟨t, ht, by simp [freshFor]⟩, w, hw, Nat.le_refl w, by simp [freshFor]⟩
    have hstatus := hfree heard hperm t w hfresh
    rw [health_status hfresh, if_pos hfailing.error, evident, if_neg hlast] at hstatus
    split at hstatus <;> simp at hstatus
  · intro hsettled heard hperm now wall hfresh
    obtain ⟨hevident, hiff⟩ := evident_perm hperm
    have hheard : Heard heard (observeAll heard) :=
      heard_observeAll fun o ho => horder o (hperm.mem_iff.mp ho)
    rw [← hevident]
    exact status_of_settled hheard (hiff.mpr hsettled) hfresh

def attempt (started finished : Nat) (result : Except String Unit) : Observation :=
  ⟨⟨1, "", "a", "h", 22, none, none, none, .password, false, false⟩, started, finished, finished,
    result⟩

/-- A failure that is delivered after a success which ended while it ran. -/
theorem settled_order_free :
    OrderFree [attempt 0 5 (.ok ()), attempt 1 4 (.error "timeout"), attempt 6 9 (.error "refused")] :=
  (order_free_iff (by decide)).mpr (Or.inl (by decide))

/-- The same failure ends after the success, and is delivered before it. -/
theorem late_success_suppressed :
    ¬ OrderFree [attempt 0 5 (.ok ()), attempt 0 10 (.error "timeout")] := by
  intro hfree
  have hstatus := hfree [attempt 0 10 (.error "timeout"), attempt 0 5 (.ok ())]
    (List.Perm.swap _ _ _) 10 10 ⟨⟨10, rfl, by decide⟩, 10, rfl, by decide, by decide⟩
  revert hstatus
  decide

end Connectivity

end Porthop.Profile
