import Porthop.Metrics.Sound

/- Compacting the history.

   A batch is followed minute by minute (`compact_select`): the minutes it took hold a summary
   of what they held, the others what they held. A run is a list of such steps with readings
   recorded in between; `Steps.minute` follows one minute through it up to the batch that
   summarizes it, after which nothing in it changes. Rows before the retention limit are
   deleted and not summarized, so the statements about what is kept are about minutes that
   start at or after it. -/
namespace Porthop.Metrics

section
variable {ν F : Type} [NumText ν] {A : Arith ν F} {fails : Statement → Option String}
  {now : Int} {t u : Db} {minutes : List Minute}

/-! ## One batch -/

/-- The minutes a batch may take. -/
def Regular (minutes : List Minute) : Prop :=
  minutes.Nodup ∧ ∀ m ∈ minutes, m.Aligned ∧ 0 ≤ m.start

theorem Oldest.regular {cut : Int} (h : Oldest t cut minutes) (hs : Sound t) :
    Regular minutes := by
  obtain ⟨hnodup, hmem⟩ := h.spec
  refine ⟨hnodup, fun m hm => ?_⟩
  obtain ⟨r, hr, -, -, rfl⟩ := hmem m hm
  have htime := hs.time_nonneg r hr
  refine ⟨aligned_minute htime, ?_⟩
  have hstart : r.minute.start = r.time / minuteMs * minuteMs := startOf_of_nonneg htime
  rw [hstart]
  unfold minuteMs
  omega

/-- What the minutes of a batch hold after it. -/
theorem foldlM_select (hreg : Regular minutes)
    (h : minutes.foldlM (compactMinute A fails) t = .ok u) {n : Minute} (hn : n.Aligned) :
    (n ∈ minutes → ∃ r, Summarizes A n (t.select n.holds) r ∧ u.select n.holds = [r]) ∧
      (n ∉ minutes → u.select n.holds = t.select n.holds) := by
  induction minutes generalizing t with
  | nil =>
    obtain rfl := Except.ok.inj h
    exact ⟨nofun, fun _ => rfl⟩
  | cons m minutes ih =>
    obtain ⟨hnodup, hall⟩ := hreg
    obtain ⟨hm, hnodup⟩ := List.nodup_cons.mp hnodup
    have haligned := (hall m List.mem_cons_self).1
    have hreg : Regular minutes := ⟨hnodup, fun k hk => hall k (List.mem_cons_of_mem _ hk)⟩
    rw [List.foldlM_cons] at h
    cases hfirst : compactMinute A fails t m with
    | error e =>
      rw [hfirst] at h
      cases h
    | ok w =>
      rw [hfirst] at h
      obtain ⟨hin, hout⟩ := ih hreg h
      by_cases hnm : n = m
      · subst hnm
        refine ⟨fun _ => ?_, fun hnot => absurd List.mem_cons_self hnot⟩
        obtain ⟨r, hr, hw⟩ := compactMinute_self hfirst
        exact ⟨r, hr, (hout hm).trans hw⟩
      · have hsame := compactMinute_other haligned hn (Ne.symm hnm) hfirst
        refine ⟨fun hmem => ?_, fun hnot => ?_⟩
        · have hmem := (List.mem_cons.mp hmem).resolve_left hnm
          obtain ⟨r, hr, hu⟩ := hin hmem
          rw [hsame] at hr
          exact ⟨r, hr, hu⟩
        · exact (hout fun hmem => hnot (List.mem_cons_of_mem _ hmem)).trans hsame

theorem foldlM_sound (hreg : Regular minutes) (hs : Sound t)
    (h : minutes.foldlM (compactMinute A fails) t = .ok u) : Sound u := by
  induction minutes generalizing t with
  | nil =>
    obtain rfl := Except.ok.inj h
    exact hs
  | cons m minutes ih =>
    obtain ⟨hm, hstart⟩ := hreg.2 m List.mem_cons_self
    have hreg : Regular minutes :=
      ⟨(List.nodup_cons.mp hreg.1).2, fun k hk => hreg.2 k (List.mem_cons_of_mem _ hk)⟩
    rw [List.foldlM_cons] at h
    cases hfirst : compactMinute A fails t m with
    | error e =>
      rw [hfirst] at h
      cases h
    | ok w =>
      rw [hfirst] at h
      exact ih hreg (hs.compactMinute hm hstart hfirst) h

theorem foldlM_raw (p : Row → Bool)
    (h : minutes.foldlM (compactMinute A fails) t = .ok u) :
    (u.select fun r => r.raw && p r).Sublist (t.select fun r => r.raw && p r) := by
  induction minutes generalizing t with
  | nil =>
    obtain rfl := Except.ok.inj h
    exact List.Sublist.refl _
  | cons m minutes ih =>
    rw [List.foldlM_cons] at h
    cases hfirst : compactMinute A fails t m with
    | error e =>
      rw [hfirst] at h
      cases h
    | ok w =>
      rw [hfirst] at h
      refine (ih h).trans ?_
      rw [compactMinute_raw hfirst, Table.select_delete]
      exact List.filter_sublist

/-- What a batch that is committed did. -/
theorem compact_ok {count : Nat} (h : compactBatch A fails now minutes t = (u, .ok count)) :
    minutes.foldlM (compactMinute A fails) (t.delete (expired now)) = .ok u ∧
      count = minutes.length := by
  unfold compactBatch compactTx call at h
  cases hprune : fails .prune with
  | some e =>
    rw [hprune] at h
    cases (Prod.mk.inj h).2
  | none =>
    cases holdest : fails .oldest with
    | some e =>
      rw [hprune, holdest] at h
      cases (Prod.mk.inj h).2
    | none =>
      rw [hprune, holdest] at h
      simp only [Bind.bind, Except.bind] at h
      cases hfold : minutes.foldlM (compactMinute A fails) (t.delete (expired now)) with
      | error e =>
        rw [hfold] at h
        cases (Prod.mk.inj h).2
      | ok w =>
        rw [hfold] at h
        cases hcommit : fails .commit with
        | some e =>
          rw [hcommit] at h
          cases (Prod.mk.inj h).2
        | none =>
          rw [hcommit] at h
          obtain ⟨rfl, hcount⟩ := Prod.mk.inj h
          exact ⟨rfl, (Except.ok.inj hcount).symm⟩

/-- The rows of a minute that starts at or after the limit are not deleted. -/
theorem select_expired {m : Minute} (h : now - retentionMs ≤ m.start) :
    (t.delete (expired now)).select m.holds = t.select m.holds := by
  apply Table.select_delete_of_disjoint
  intro r hr
  simp only [Minute.holds, decide_eq_true_eq] at hr
  simp only [expired, decide_eq_false_iff_not]
  omega

/-- The number of raw rows that are left to compact. -/
def pending (now : Int) (t : Db) : Nat :=
  (t.select fun r => r.raw && r.time < cutoff now).length

/-- A batch that takes a minute leaves fewer raw rows. -/
theorem compact_pending {count : Nat} (hs : Sound t)
    (hq : Oldest (t.delete (expired now)) (cutoff now) minutes)
    (h : compactBatch A fails now minutes t = (u, .ok count)) :
    pending now u + (if count = 0 then 0 else 1) ≤ pending now t := by
  obtain ⟨hfold, rfl⟩ := compact_ok h
  have hs := hs.delete (expired now)
  have hsub := foldlM_raw (fun r => r.time < cutoff now) hfold
  have hsub' : ((t.delete (expired now)).select fun r => r.raw && r.time < cutoff now).Sublist
      (t.select fun r => r.raw && r.time < cutoff now) := by
    rw [Table.select_delete]
    exact List.filter_sublist
  have hle := hsub.length_le
  have hle' := hsub'.length_le
  unfold pending
  split
  · omega
  · next hne =>
    obtain ⟨m, rest, rfl⟩ := List.exists_cons_of_ne_nil
      (fun hnil => hne (List.length_eq_zero_iff.mpr hnil))
    obtain ⟨r, hr, hraw, htime, hrm⟩ := hq.spec.2 m List.mem_cons_self
    -- The row that made the query take the minute is gone.
    have hreg := hq.regular hs
    have hm := (hreg.2 m List.mem_cons_self).1
    obtain ⟨r', hr', hsel⟩ := (foldlM_select hreg hfold hm).1 List.mem_cons_self
    have hgone : r ∉ u.select fun r => r.raw && r.time < cutoff now := by
      intro hmem
      have hmem := (Table.mem_select.mp hmem).1
      have hholds := (holds_iff hm (hs.time_nonneg r hr)).mpr hrm
      have hrr' : r ∈ u.select m.holds := Table.mem_select.mpr ⟨hmem, hholds⟩
      rw [hsel, List.mem_singleton] at hrr'
      have hres := hr'.count.2.2.1
      rw [← hrr'] at hres
      rw [Row.raw, hres] at hraw
      cases hraw
    have hthere : r ∈ (t.delete (expired now)).select fun r => r.raw && r.time < cutoff now :=
      Table.mem_select.mpr ⟨hr, by simp [hraw, htime]⟩
    have hlt : (u.select fun r => r.raw && r.time < cutoff now).length <
        ((t.delete (expired now)).select fun r => r.raw && r.time < cutoff now).length := by
      rcases Nat.lt_or_ge (u.select fun r => r.raw && r.time < cutoff now).length
        ((t.delete (expired now)).select fun r => r.raw && r.time < cutoff now).length with
        hlt | hge
      · exact hlt
      · rw [hsub.eq_of_length_le hge] at hgone
        exact absurd hthere hgone
    omega

end

end Porthop.Metrics
