import Mathlib.Data.List.DropRight
import Mathlib.Data.List.Nodup
import Mathlib.Data.List.Sort

/- Entries by key, in the order in which their keys came first; and the end of a list in order. -/
namespace Porthop.Dict

variable {κ β γ : Type} [DecidableEq κ]

/-- The value takes the place of the one with this key, or comes last. -/
def set (k : κ) (v : β) : List (κ × β) → List (κ × β)
  | [] => [(k, v)]
  | e :: d => if e.1 = k then (k, v) :: d else e :: set k v d

def ofEntries (es : List (κ × β)) : List (κ × β) := es.foldl (fun d e => set e.1 e.2 d) []

/-- The value that was entered last for the key. -/
def last (k : κ) (es : List (κ × β)) : Option β := es.reverse.lookup k

variable {k : κ} {v : β} {d es : List (κ × β)}

theorem keys_set_of_mem (h : k ∈ d.map Prod.fst) : (set k v d).map Prod.fst = d.map Prod.fst := by
  induction d with
  | nil => cases h
  | cons e d ih =>
    by_cases he : e.1 = k
    · rw [set, if_pos he, List.map_cons, List.map_cons, he]
    · have hd : k ∈ d.map Prod.fst := by
        rcases List.mem_cons.mp h with heq | hd
        · exact absurd heq.symm he
        · exact hd
      rw [set, if_neg he, List.map_cons, List.map_cons, ih hd]

theorem set_of_notMem (h : k ∉ d.map Prod.fst) : set k v d = d ++ [(k, v)] := by
  induction d with
  | nil => rfl
  | cons e d ih =>
    rw [List.map_cons, List.mem_cons, not_or] at h
    rw [set, if_neg (Ne.symm h.1), ih h.2, List.cons_append]

theorem nodup_set (h : (d.map Prod.fst).Nodup) : ((set k v d).map Prod.fst).Nodup := by
  by_cases hk : k ∈ d.map Prod.fst
  · rw [keys_set_of_mem hk]
    exact h
  · rw [set_of_notMem hk, List.map_append, List.nodup_append]
    refine ⟨h, by simp, ?_⟩
    intro a ha b hb hab
    rw [List.map_singleton, List.mem_singleton] at hb
    rw [hab, hb] at ha
    exact hk ha

theorem mem_set (h : (d.map Prod.fst).Nodup) {e : κ × β} :
    e ∈ set k v d ↔ e = (k, v) ∨ (e ∈ d ∧ e.1 ≠ k) := by
  induction d with
  | nil => simp [set]
  | cons f d ih =>
    rw [List.map_cons, List.nodup_cons] at h
    by_cases hf : f.1 = k
    · rw [set, if_pos hf, List.mem_cons, List.mem_cons]
      constructor
      · rintro (rfl | he)
        · exact Or.inl rfl
        · refine Or.inr ⟨Or.inr he, ?_⟩
          intro hek
          rw [hf, ← hek] at h
          exact h.1 (List.mem_map_of_mem he)
      · rintro (rfl | ⟨rfl | he, hek⟩)
        · exact Or.inl rfl
        · exact absurd hf hek
        · exact Or.inr he
    · rw [set, if_neg hf, List.mem_cons, List.mem_cons, ih h.2]
      constructor
      · rintro (rfl | rfl | ⟨he, hek⟩)
        · exact Or.inr ⟨Or.inl rfl, hf⟩
        · exact Or.inl rfl
        · exact Or.inr ⟨Or.inr he, hek⟩
      · rintro (rfl | ⟨rfl | he, hek⟩)
        · exact Or.inr (Or.inl rfl)
        · exact Or.inl rfl
        · exact Or.inr (Or.inr ⟨he, hek⟩)

theorem ofEntries_concat (es : List (κ × β)) (e : κ × β) :
    ofEntries (es ++ [e]) = set e.1 e.2 (ofEntries es) := by
  rw [ofEntries, List.foldl_append]
  rfl

theorem nodup_ofEntries (es : List (κ × β)) : ((ofEntries es).map Prod.fst).Nodup := by
  induction es using List.reverseRecOn with
  | nil => exact List.nodup_nil
  | append_singleton es e ih =>
    rw [ofEntries_concat]
    exact nodup_set ih

theorem last_concat (e : κ × β) : last k (es ++ [e]) = if e.1 = k then some e.2 else last k es := by
  rw [last, List.reverse_concat, List.lookup_cons]
  by_cases h : e.1 = k
  · rw [if_pos h, h, beq_self_eq_true]
  · rw [if_neg h, beq_false_of_ne (Ne.symm h)]
    rfl

/-- The value that came last for a key is the one it has. -/
theorem mem_ofEntries : (k, v) ∈ ofEntries es ↔ last k es = some v := by
  induction es using List.reverseRecOn with
  | nil => simp [ofEntries, last]
  | append_singleton es e ih =>
    rw [ofEntries_concat, mem_set (nodup_ofEntries es), last_concat, ih]
    by_cases h : e.1 = k
    · rw [if_pos h, Option.some.injEq, Prod.mk.injEq]
      constructor
      · rintro (⟨-, hv⟩ | ⟨-, hk⟩)
        · exact hv.symm
        · exact absurd h.symm hk
      · exact fun hv => Or.inl ⟨h.symm, hv.symm⟩
    · rw [if_neg h, Prod.mk.injEq]
      constructor
      · rintro (⟨hk, -⟩ | ⟨hv, -⟩)
        · exact absurd hk.symm h
        · exact hv
      · exact fun hv => Or.inr ⟨hv, fun hk => h hk.symm⟩

theorem last_append (es fs : List (κ × β)) : last k (es ++ fs) = (last k fs).or (last k es) := by
  induction fs using List.reverseRecOn with
  | nil => simp [last]
  | append_singleton fs f ih =>
    rw [← List.append_assoc, last_concat, last_concat, ih]
    split
    · rfl
    · rfl

theorem mem_of_last (h : last k es = some v) : (k, v) ∈ es := by
  induction es using List.reverseRecOn with
  | nil => cases h
  | append_singleton es e ih =>
    rw [last_concat] at h
    split at h
    · rename_i hk
      rw [← hk, ← Option.some.inj h]
      exact List.mem_append_right es List.mem_cons_self
    · exact List.mem_append_left [e] (ih h)

theorem last_eq_none : last k es = none ↔ k ∉ es.map Prod.fst := by
  induction es using List.reverseRecOn with
  | nil => simp [last]
  | append_singleton es e ih =>
    rw [last_concat, List.map_append, List.mem_append, List.map_singleton, List.mem_singleton]
    by_cases h : e.1 = k
    · simp [h]
    · rw [if_neg h, ih, not_or]
      exact ⟨fun hk => ⟨hk, fun heq => h heq.symm⟩, fun hk => hk.1⟩

theorem last_of_nodup (hnodup : (es.map Prod.fst).Nodup) (h : (k, v) ∈ es) :
    last k es = some v := by
  cases hlast : last k es with
  | none => exact absurd (List.mem_map_of_mem h) (last_eq_none.mp hlast)
  | some w =>
    have hw := mem_of_last hlast
    rw [Option.some.injEq]
    exact congrArg Prod.snd (List.inj_on_of_nodup_map hnodup hw h rfl)

/-- Entries with distinct keys stay as they are. -/
theorem ofEntries_of_nodup (h : (es.map Prod.fst).Nodup) : ofEntries es = es := by
  induction es using List.reverseRecOn with
  | nil => rfl
  | append_singleton es e ih =>
    rw [List.map_append, List.nodup_append] at h
    rw [ofEntries_concat, ih h.1, set_of_notMem]
    intro hk
    exact h.2.2 e.1 hk e.1 (by simp) rfl

/-- What is made of each value alone may be made before or after. -/
theorem ofEntries_map (f : κ → β → γ) (es : List (κ × β)) :
    ofEntries (es.map fun e => (e.1, f e.1 e.2)) =
      (ofEntries es).map fun e => (e.1, f e.1 e.2) := by
  have hset : ∀ (k : κ) (v : β) (d : List (κ × β)),
      set k (f k v) (d.map fun e => (e.1, f e.1 e.2)) =
        (set k v d).map fun e => (e.1, f e.1 e.2) := by
    intro k v d
    induction d with
    | nil => rfl
    | cons e d ih =>
      rw [List.map_cons, set, set]
      by_cases he : e.1 = k
      · rw [if_pos he, if_pos he, List.map_cons]
      · rw [if_neg he, if_neg he, List.map_cons, ih]
  induction es using List.reverseRecOn with
  | nil => rfl
  | append_singleton es e ih =>
    rw [List.map_append, List.map_singleton, ofEntries_concat, ofEntries_concat, ih]
    exact hset e.1 e.2 (ofEntries es)

end Porthop.Dict
