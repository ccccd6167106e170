/- Runs of a labelled transition system given by a partial step function.

   A label carries every choice the environment makes at a step, so a run is the
   list of its labels and `exec` replays it. `Along ok ls s` says that every step
   of the run `ls` from `s` was taken where `ok` holds; a safety result about the
   runs that avoid some defect is stated with it. `along_invariant` is the one
   induction over runs: an invariant is shown by its step lemma and this rule. -/
namespace Porthop.Run

section
variable {σ ℓ : Type} (step : σ → ℓ → Option σ)

/-- Replay a run: the state after the labels, or `none` if one is not enabled. -/
def exec : List ℓ → σ → Option σ
  | [], s => some s
  | l :: ls, s => (step s l).bind (exec ls)

/-- Every step of the run is taken where `ok` holds. -/
def Along (ok : σ → ℓ → Prop) : List ℓ → σ → Prop
  | [], _ => True
  | l :: ls, s => ok s l ∧ ∀ s', step s l = some s' → Along ok ls s'

/-- A condition on steps, decided along the run. -/
def along (ok : σ → ℓ → Bool) : List ℓ → σ → Bool
  | [], _ => true
  | l :: ls, s => ok s l && match step s l with
    | none => true
    | some s' => along ok ls s'

end

variable {σ ℓ : Type} {step : σ → ℓ → Option σ} {ok : σ → ℓ → Prop}

@[simp] theorem exec_nil (s : σ) : exec step [] s = some s := rfl

theorem exec_cons {l : ℓ} {ls : List ℓ} {s t : σ} :
    exec step (l :: ls) s = some t ↔ ∃ m, step s l = some m ∧ exec step ls m = some t := by
  simp only [exec, Option.bind_eq_some_iff]

theorem exec_append (ls ms : List ℓ) (s : σ) :
    exec step (ls ++ ms) s = (exec step ls s).bind (exec step ms) := by
  induction ls generalizing s with
  | nil => rfl
  | cons l ls ih =>
    simp only [List.cons_append, exec, Option.bind_assoc]
    congr 1
    funext m
    exact ih m

theorem along_append {ls ms : List ℓ} {s m : σ} (hls : Along step ok ls s)
    (hrun : exec step ls s = some m) (hms : Along step ok ms m) :
    Along step ok (ls ++ ms) s := by
  induction ls generalizing s with
  | nil =>
    obtain rfl : s = m := by simpa using hrun
    exact hms
  | cons l ls ih =>
    obtain ⟨n, hn, hrun⟩ := exec_cons.mp hrun
    refine ⟨hls.1, fun s' hs' => ?_⟩
    have hsn : s' = n := Option.some.inj (hs'.symm.trans hn)
    subst hsn
    exact ih (hls.2 s' hs') hrun

theorem along_of_append {ls ms : List ℓ} {s : σ} (h : Along step ok (ls ++ ms) s) :
    Along step ok ls s ∧ ∀ m, exec step ls s = some m → Along step ok ms m := by
  induction ls generalizing s with
  | nil =>
    refine ⟨trivial, fun m hm => ?_⟩
    obtain rfl : s = m := by simpa using hm
    exact h
  | cons l ls ih =>
    refine ⟨⟨h.1, fun s' hs' => (ih (h.2 s' hs')).1⟩, fun m hm => ?_⟩
    obtain ⟨n, hn, hm⟩ := exec_cons.mp hm
    exact (ih (h.2 n hn)).2 m hm

theorem along_weaken {ok' : σ → ℓ → Prop} (himp : ∀ s l, ok s l → ok' s l) {ls : List ℓ}
    {s : σ} (h : Along step ok ls s) : Along step ok' ls s := by
  induction ls generalizing s with
  | nil => trivial
  | cons l ls ih => exact ⟨himp s l h.1, fun s' hs' => ih (h.2 s' hs')⟩

theorem along_and {ok' : σ → ℓ → Prop} {ls : List ℓ} {s : σ} (h : Along step ok ls s)
    (h' : Along step ok' ls s) : Along step (fun s l => ok s l ∧ ok' s l) ls s := by
  induction ls generalizing s with
  | nil => trivial
  | cons l ls ih => exact ⟨⟨h.1, h'.1⟩, fun s' hs' => ih (h.2 s' hs') (h'.2 s' hs')⟩

/-- The decided condition is the condition. -/
theorem along_of_decide {ok : σ → ℓ → Bool} {ls : List ℓ} {s : σ}
    (h : along step ok ls s = true) : Along step (fun s l => ok s l = true) ls s := by
  induction ls generalizing s with
  | nil => trivial
  | cons l ls ih =>
    simp only [along, Bool.and_eq_true] at h
    refine ⟨h.1, fun s' hs' => ih ?_⟩
    rw [hs'] at h
    exact h.2

/-- **The run rule.** What one step that meets the condition preserves, every run of
    such steps preserves. -/
theorem along_invariant {Inv : σ → Prop}
    (hstep : ∀ s l s', Inv s → ok s l → step s l = some s' → Inv s')
    {ls : List ℓ} {s t : σ} (hs : Inv s) (hok : Along step ok ls s)
    (hrun : exec step ls s = some t) : Inv t := by
  induction ls generalizing s with
  | nil =>
    obtain rfl : s = t := by simpa using hrun
    exact hs
  | cons l ls ih =>
    obtain ⟨m, hm, hrun⟩ := exec_cons.mp hrun
    exact ih (hstep s l m hs hok.1 hm) (hok.2 m hm) hrun

/-- A condition on the labels alone. -/
theorem along_of_forall {ls : List ℓ} (h : ∀ l ∈ ls, ∀ s, ok s l) (s : σ) : Along step ok ls s := by
  induction ls generalizing s with
  | nil => trivial
  | cons l ls ih =>
    exact ⟨h l List.mem_cons_self s, fun s' _ =>
      ih (fun l' hl' => h l' (List.mem_cons_of_mem _ hl')) s'⟩

theorem forall_of_along {p : ℓ → Prop} {ls : List ℓ} {s t : σ} (hrun : exec step ls s = some t)
    (h : Along step (fun _ l => p l) ls s) : ∀ l ∈ ls, p l := by
  induction ls generalizing s with
  | nil => exact fun l hl => absurd hl List.not_mem_nil
  | cons l ls ih =>
    obtain ⟨m, hm, hrun⟩ := exec_cons.mp hrun
    intro l' hl'
    rcases List.mem_cons.mp hl' with rfl | hl'
    · exact h.1
    · exact ih hrun (h.2 m hm) l' hl'

/-- What every step preserves, every run preserves. -/
theorem exec_invariant {Inv : σ → Prop}
    (hstep : ∀ s l s', Inv s → step s l = some s' → Inv s')
    {ls : List ℓ} {s t : σ} (hs : Inv s) (hrun : exec step ls s = some t) : Inv t := by
  have htriv : Along step (fun _ _ => True) ls s := along_of_forall (fun _ _ _ => trivial) s
  exact along_invariant (fun s l s' h _ => hstep s l s' h) hs htriv hrun

/-- **The progress rule.** Where a step that meets the condition always brings the measure down
    until the goal is met, some run of such steps meets it. -/
theorem along_reaches {Inv goal : σ → Prop} (μ : σ → Nat)
    (hstep : ∀ s, Inv s → ¬ goal s → ∃ l s', ok s l ∧ step s l = some s' ∧ Inv s' ∧ μ s' < μ s)
    {s : σ} (hs : Inv s) :
    ∃ ls t, Along step ok ls s ∧ exec step ls s = some t ∧ Inv t ∧ goal t := by
  induction h : μ s using Nat.strongRecOn generalizing s with
  | _ m ih =>
    by_cases hgoal : goal s
    · exact ⟨[], s, trivial, rfl, hs, hgoal⟩
    · obtain ⟨l, s', hok, hl, hs', hless⟩ := hstep s hs hgoal
      obtain ⟨ls, t, hls, hrun, ht, hgoal⟩ := ih (μ s') (h ▸ hless) hs' rfl
      refine ⟨l :: ls, t, ⟨hok, fun r hr => ?_⟩, exec_cons.mpr ⟨s', hl, hrun⟩, ht, hgoal⟩
      obtain rfl := Option.some.inj (hl.symm.trans hr)
      exact hls

end Porthop.Run
