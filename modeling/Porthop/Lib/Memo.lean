import Mathlib.Logic.Basic

/- A function whose results are kept and used again.

   A result is kept under a key with the arguments it is of. Other arguments may have the same
   key, so a result is used again only for the very arguments it is of; whatever is kept, a
   computation that asks the cache then returns what the function does. -/
namespace Porthop.Memo

/-- What is kept, the newest first. -/
abbrev Cache (κ α β : Type) := List (κ × α × β)

section
variable {κ α β γ δ : Type} [DecidableEq κ] [DecidableEq α] (key : α → κ) (f : α → β)

/-- The kept result, or the result that is kept from now on. -/
def ask (a : α) : StateM (Cache κ α β) β := fun cache =>
  match cache.lookup (key a) with
  | some (a', b) => if a' = a then (b, cache) else (f a, (key a, a, f a) :: cache)
  | none => (f a, (key a, a, f a) :: cache)

def Sound (f : α → β) (cache : Cache κ α β) : Prop := ∀ k a b, (k, a, b) ∈ cache → b = f a

/-- From any sound cache on, the computation returns `c` and leaves a sound cache. -/
def Computes (f : α → β) (m : StateM (Cache κ α β) γ) (c : γ) : Prop :=
  ∀ cache, Sound f cache → (m cache).1 = c ∧ Sound f (m cache).2

end

section
variable {κ α β γ δ : Type} {key : α → κ} {f : α → β} {cache : Cache κ α β}

theorem sound_nil : Sound f ([] : Cache κ α β) := by
  intro k a b hmem
  cases hmem

theorem Sound.cons {k : κ} (h : Sound f cache) (a : α) : Sound f ((k, a, f a) :: cache) := by
  intro k' a' b hmem
  cases hmem with
  | head => rfl
  | tail _ hmem => exact h k' a' b hmem

theorem Computes.pure (c : γ) : Computes f (pure c : StateM (Cache κ α β) γ) c := by
  intro cache h
  exact ⟨rfl, h⟩

theorem Computes.bind {m : StateM (Cache κ α β) γ} {c : γ} {g : γ → StateM (Cache κ α β) δ} {d : δ}
    (hm : Computes f m c) (hg : Computes f (g c) d) : Computes f (m >>= g) d := by
  intro cache h
  obtain ⟨hval, hsound⟩ := hm cache h
  obtain ⟨hval', hsound'⟩ := hg (m cache).2 hsound
  have hrun : (m >>= g) cache = g c (m cache).2 := by
    rw [← hval]
    rfl
  rw [hrun]
  exact ⟨hval', hsound'⟩

/-- One computation for each element, in order. -/
theorem Computes.mapM {m : γ → StateM (Cache κ α β) δ} {g : γ → δ} (h : ∀ c, Computes f (m c) (g c)) :
    ∀ cs : List γ, Computes f (cs.mapM m) (cs.map g) := by
  intro cs
  induction cs with
  | nil => simpa using Computes.pure []
  | cons c cs ih =>
    rw [List.mapM_cons, List.map_cons]
    exact (h c).bind (ih.bind (Computes.pure _))

theorem mem_of_lookup [DecidableEq κ] {k : κ} {v : α × β} (h : cache.lookup k = some v) :
    (k, v) ∈ cache := by
  obtain ⟨before, after, rfl, -⟩ := List.lookup_eq_some_iff.mp h
  exact List.mem_append_right before List.mem_cons_self

/-- Asking the cache is computing the function. -/
theorem computes_ask [DecidableEq κ] [DecidableEq α] (a : α) : Computes f (ask key f a) (f a) := by
  intro cache h
  unfold ask
  split
  next a' b hlookup =>
    have hb : b = f a' := h _ a' b (mem_of_lookup hlookup)
    split
    next heq =>
      subst heq
      exact ⟨hb, h⟩
    next => exact ⟨rfl, h.cons a⟩
  next => exact ⟨rfl, h.cons a⟩

end

end Porthop.Memo
