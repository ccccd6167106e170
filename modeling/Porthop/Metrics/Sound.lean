import Porthop.Metrics.Rollup

/- What recording and a batch do, minute by minute, and that a summary is alone.

   `Sound` is the invariant: a summary is at the start of its minute and the only row in
   it. A minute is followed through a run by the rows it holds: each lemma says what they
   are after a transaction, given what they were before. -/
namespace Porthop.Metrics

/-! ## Minutes -/

/-- The start of a minute is a whole number of minutes. -/
def Minute.Aligned (m : Minute) : Prop := ∃ k : Int, m.start = k * minuteMs

theorem startOf_of_nonneg {time : Int} (h : 0 ≤ time) :
    startOf time = time / minuteMs * minuteMs := by
  rw [startOf, Int.tdiv_eq_ediv_of_nonneg h]

/-- A time is in its minute, and in no other. -/
theorem startOf_eq_iff {time start k : Int} (h : 0 ≤ time) (hstart : start = k * minuteMs) :
    startOf time = start ↔ start ≤ time ∧ time < start + minuteMs := by
  rw [startOf_of_nonneg h, hstart]
  unfold minuteMs
  omega

theorem aligned_minute {r : Row} (h : 0 ≤ r.time) : r.minute.Aligned :=
  ⟨r.time / minuteMs, startOf_of_nonneg h⟩

theorem holds_iff {m : Minute} {r : Row} (hm : m.Aligned) (h : 0 ≤ r.time) :
    m.holds r = true ↔ r.minute = m := by
  obtain ⟨k, hk⟩ := hm
  obtain ⟨server, endpoint, start⟩ := m
  rw [Minute.holds, decide_eq_true_iff, Row.minute, Minute.mk.injEq]
  constructor
  · rintro ⟨hs, he, hle, hlt⟩
    exact ⟨hs, he, (startOf_eq_iff h hk).mpr ⟨hle, hlt⟩⟩
  · rintro ⟨hs, he, htime⟩
    obtain ⟨hle, hlt⟩ := (startOf_eq_iff h hk).mp htime
    exact ⟨hs, he, hle, hlt⟩

/-- Two minutes have no row in common. -/
theorem holds_disjoint {m n : Minute} (hm : m.Aligned) (hn : n.Aligned) (hne : m ≠ n) (r : Row)
    (h : m.holds r = true) : n.holds r = false := by
  obtain ⟨k, hk⟩ := hm
  obtain ⟨j, hj⟩ := hn
  rw [Minute.holds, decide_eq_true_iff] at h
  rw [Minute.holds, decide_eq_false_iff_not]
  rintro ⟨hs, he, hle, hlt⟩
  obtain ⟨hs', he', hle', hlt'⟩ := h
  have hstart : m.start = n.start := by
    unfold minuteMs at *
    omega
  apply hne
  cases m
  cases n
  simp_all

theorem holds_summaryRow {ν : Type} [NumText ν] (m : Minute) (v : Json ν) :
    m.holds (summaryRow m v) = true := by
  simp [Minute.holds, summaryRow, minuteMs]

/-! ## The invariant -/

/-- Readings have times, and a summary is at the start of its minute and alone in it. -/
structure Sound (t : Db) : Prop where
  time_nonneg : ∀ r ∈ t.rows, 0 ≤ r.time
  resolution : ∀ r ∈ t.rows, r.raw = true ∨ r.resolution = summaryResolution
  at_start : ∀ r ∈ t.rows, r.raw = false → r.time = startOf r.time
  alone : ∀ r ∈ t.rows, r.raw = false → ∀ s ∈ t.rows, s.minute = r.minute → s = r

theorem Sound.delete {t : Db} (h : Sound t) (p : Row → Bool) : Sound (t.delete p) where
  time_nonneg r hr := h.time_nonneg r (Table.mem_delete.mp hr).1
  resolution r hr := h.resolution r (Table.mem_delete.mp hr).1
  at_start r hr := h.at_start r (Table.mem_delete.mp hr).1
  alone r hr hraw s hs := h.alone r (Table.mem_delete.mp hr).1 hraw s (Table.mem_delete.mp hs).1

/-- In one minute there are readings or one summary. -/
theorem Sound.minute {t : Db} (h : Sound t) {m : Minute} (hm : m.Aligned) :
    (∀ r ∈ t.select m.holds, r.raw = true) ∨
      ∃ r, t.select m.holds = [r] ∧ r.raw = false ∧ r.time = m.start := by
  by_cases hall : ∀ r ∈ t.select m.holds, r.raw = true
  · exact .inl hall
  · push Not at hall
    obtain ⟨r, hr, hraw⟩ := hall
    obtain ⟨hmem, hholds⟩ := Table.mem_select.mp hr
    have hraw : r.raw = false := by simpa using hraw
    have hminute : r.minute = m := (holds_iff hm (h.time_nonneg r hmem)).mp hholds
    refine .inr ⟨r, ?_, hraw, ?_⟩
    · -- Every row of the minute is that summary, and no row is there twice.
      have hsame : ∀ s ∈ t.select m.holds, s = r := by
        intro s hs
        obtain ⟨hsmem, hsholds⟩ := Table.mem_select.mp hs
        have hsminute := (holds_iff hm (h.time_nonneg s hsmem)).mp hsholds
        exact h.alone r hmem hraw s hsmem (hsminute.trans hminute.symm)
      have hnodup : (t.select m.holds).Nodup :=
        (List.Nodup.of_map _ t.nodup).sublist List.filter_sublist
      obtain ⟨n, hn⟩ : ∃ n, t.select m.holds = List.replicate n r :=
        ⟨_, List.eq_replicate_of_mem hsame⟩
      rw [hn] at hnodup hr ⊢
      obtain rfl : n = 1 := by
        have hle := List.nodup_replicate.mp hnodup
        have hpos : n ≠ 0 := by
          rintro rfl
          cases hr
        omega
      rfl
    · rw [h.at_start r hmem hraw, ← hminute]
      rfl

/-! ## Recording -/

section
variable {ν : Type} [NumText ν] {fails : Statement → Option String} {server fingerprint : String}
  {time : Int} {overview : Json ν} {t : Db}

/-- What a recorded reading does: nothing, or it is put into a minute without a summary, and
    what is past the retention limit goes. -/
theorem record_cases (fails : Statement → Option String) (server fingerprint : String)
    (time : Int) (overview : Json ν) (t : Db) :
    (record fails server fingerprint time overview t).1 = t ∨
    (record fails server fingerprint time overview t).1 = t.delete (expired time) ∨
    ∃ data, compacted t ⟨server, fingerprint, time, data, rawResolution⟩ = false ∧
      (record fails server fingerprint time overview t).1 =
        (t.replace ⟨server, fingerprint, time, data, rawResolution⟩).delete (expired time) := by
  unfold record recordTx
  cases measurements overview with
  | error e => exact .inl rfl
  | ok data =>
    simp only [Bind.bind, Except.bind, call]
    cases fails .insert with
    | some e => exact .inl rfl
    | none =>
      cases fails .prune with
      | some e => exact .inl rfl
      | none =>
        cases fails .commit with
        | some e => exact .inl rfl
        | none =>
          refine .inr ?_
          simp only [transact, pure, Except.pure]
          split
          · exact .inl rfl
          · next h => exact .inr ⟨data, by simpa using h, rfl⟩

theorem Sound.replace {r : Row} (h : Sound t) (htime : 0 ≤ r.time) (hraw : r.raw = true)
    (hnot : compacted t r = false) : Sound (t.replace r) := by
  have hmem : ∀ s, s ∈ (t.replace r).rows → s ∈ t.rows ∨ s = r := by
    intro s hs
    rw [Table.replace, List.mem_append, List.mem_singleton] at hs
    exact hs.imp (fun hs => (List.mem_filter.mp hs).1) id
  have hsummary : ∀ s ∈ t.rows, s.raw = false → s.minute ≠ r.minute := by
    intro s hs hsraw hminute
    have hany : compacted t r = true := by
      rw [compacted, List.any_eq_true]
      have hres := (h.resolution s hs).resolve_left (by rw [hsraw]; exact Bool.false_ne_true)
      rw [Row.minute, Row.minute, Minute.mk.injEq] at hminute
      refine ⟨s, hs, decide_eq_true ⟨hminute.1, hminute.2.1, hres, ?_⟩⟩
      rw [h.at_start s hs hsraw, hminute.2.2]
    rw [hnot] at hany
    cases hany
  refine ⟨?_, ?_, ?_, ?_⟩
  · intro s hs
    rcases hmem s hs with hs | rfl
    · exact h.time_nonneg s hs
    · exact htime
  · intro s hs
    rcases hmem s hs with hs | rfl
    · exact h.resolution s hs
    · exact .inl hraw
  · intro s hs hsraw
    rcases hmem s hs with hs | rfl
    · exact h.at_start s hs hsraw
    · rw [hraw] at hsraw
      cases hsraw
  · intro s hs hsraw s' hs' hminute
    rcases hmem s hs with hold | rfl
    · rcases hmem s' hs' with hold' | rfl
      · exact h.alone s hold hsraw s' hold' hminute
      · exact absurd hminute.symm (hsummary s hold hsraw)
    · rw [hraw] at hsraw
      cases hsraw

theorem Sound.record (h : Sound t) (htime : 0 ≤ time) :
    Sound (record fails server fingerprint time overview t).1 := by
  rcases record_cases fails server fingerprint time overview t with heq | heq | ⟨data, hnot, heq⟩
  · rw [heq]
    exact h
  · rw [heq]
    exact h.delete _
  · rw [heq]
    exact (h.replace htime rfl hnot).delete _

end

/-! ## A batch -/

section
variable {ν F : Type} [NumText ν] {A : Arith ν F} {fails : Statement → Option String}
  {t u : Db}

/-- The row stands for those readings. -/
def Summarizes (A : Arith ν F) (m : Minute) (rows : List Row) (r : Row) : Prop :=
  ∃ v, summarize A (readings rows) = .ok v ∧ r = summaryRow m v

/-- A summary is at the start of the minute and names the number of rows it replaced. -/
theorem Summarizes.count {m : Minute} {rows : List Row} {r : Row} (h : Summarizes A m rows r) :
    r.minute = ⟨m.server, m.endpoint, startOf m.start⟩ ∧ r.time = m.start ∧
      r.resolution = summaryResolution ∧ ∃ v : Json ν, Json.read r.data.toList = some v ∧
        v.index "sampleCount" = .num (A.int rows.length) := by
  obtain ⟨v, hv, rfl⟩ := h
  refine ⟨rfl, rfl, rfl, v, ?_, ?_⟩
  · rw [summaryRow, String.toList_ofList, Json.read_render]
  · have hlen : (readings rows).length = rows.length := by
      rw [readings, List.length_map, (orderedBy_orderBy Row.time rows).1.length_eq]
    rw [summarize_count hv, hlen]

theorem compactMinute_ok {m : Minute} (h : compactMinute A fails t m = .ok u) :
    ∃ r, Summarizes A m (t.select m.holds) r ∧ u.rows = (t.delete m.holds).rows ++ [r] ∧
      (t.delete m.holds).insert r = some u := by
  unfold compactMinute call at h
  cases hread : fails (.read m) with
  | some e =>
    rw [hread] at h
    cases h
  | none =>
    rw [hread] at h
    cases hv : summarize A (readings (t.select m.holds)) with
    | error e =>
      rw [hv] at h
      cases h
    | ok v =>
      rw [hv] at h
      cases hclear : fails (.clear m) with
      | some e =>
        rw [hclear] at h
        cases h
      | none =>
        rw [hclear] at h
        cases hwrite : fails (.write m) with
        | some e =>
          rw [hwrite] at h
          cases h
        | none =>
          rw [hwrite] at h
          simp only [Bind.bind, Except.bind] at h
          split at h
          · next w hw =>
            obtain rfl := Except.ok.inj h
            exact ⟨_, ⟨v, hv, rfl⟩, Table.insert_rows hw, hw⟩
          · cases h

theorem compactMinute_self {m : Minute} (h : compactMinute A fails t m = .ok u) :
    ∃ r, Summarizes A m (t.select m.holds) r ∧ u.select m.holds = [r] := by
  obtain ⟨r, hr, -, hinsert⟩ := compactMinute_ok h
  refine ⟨r, hr, ?_⟩
  obtain ⟨v, -, rfl⟩ := hr
  have hgone : (t.delete m.holds).select m.holds = [] := by
    apply List.filter_eq_nil_iff.mpr
    intro s hs
    simp [(Table.mem_delete.mp hs).2]
  rw [Table.select_insert hinsert, hgone, holds_summaryRow, if_pos rfl, List.nil_append]

theorem compactMinute_other {m n : Minute} (hm : m.Aligned) (hn : n.Aligned) (hne : m ≠ n)
    (h : compactMinute A fails t m = .ok u) : u.select n.holds = t.select n.holds := by
  obtain ⟨r, ⟨v, -, rfl⟩, -, hinsert⟩ := compactMinute_ok h
  have hout : n.holds (summaryRow m v) = false :=
    holds_disjoint hm hn hne _ (holds_summaryRow m v)
  have hkeep := t.select_delete_of_disjoint fun r hr => holds_disjoint hn hm hne.symm r hr
  rw [Table.select_insert hinsert, hout, if_neg Bool.false_ne_true, List.append_nil, hkeep]

theorem Sound.compactMinute {m : Minute} (hs : Sound t) (hm : m.Aligned) (hstart : 0 ≤ m.start)
    (h : compactMinute A fails t m = .ok u) : Sound u := by
  obtain ⟨r, hr, hrows, -⟩ := compactMinute_ok h
  obtain ⟨hminute, htime, hres, -⟩ := hr.count
  have hrm : r.minute = m := by
    obtain ⟨v, -, rfl⟩ := hr
    exact (holds_iff hm hstart).mp (holds_summaryRow m v)
  have hmem : ∀ s, s ∈ u.rows ↔ (s ∈ t.rows ∧ s.minute ≠ m) ∨ s = r := by
    intro s
    rw [hrows, List.mem_append, List.mem_singleton, Table.mem_delete]
    refine or_congr_left (and_congr_right fun hst => ?_)
    rw [← Bool.not_eq_true, holds_iff hm (hs.time_nonneg s hst)]
  refine ⟨?_, ?_, ?_, ?_⟩
  · intro s hsu
    rcases (hmem s).mp hsu with ⟨hst, -⟩ | rfl
    · exact hs.time_nonneg s hst
    · rw [htime]
      exact hstart
  · intro s hsu
    rcases (hmem s).mp hsu with ⟨hst, -⟩ | rfl
    · exact hs.resolution s hst
    · exact .inr hres
  · intro s hsu hraw
    rcases (hmem s).mp hsu with ⟨hst, -⟩ | rfl
    · exact hs.at_start s hst hraw
    · rw [← hrm] at htime
      exact htime
  · intro s hsu hraw s' hsu' hsame
    rcases (hmem s).mp hsu with ⟨hst, hsm⟩ | rfl
    · rcases (hmem s').mp hsu' with ⟨hst', -⟩ | rfl
      · exact hs.alone s hst hraw s' hst' hsame
      · exact absurd (hsame.symm.trans hrm) hsm
    · rcases (hmem s').mp hsu' with ⟨-, hsm'⟩ | rfl
      · exact absurd (hsame.trans hrm) hsm'
      · rfl

/-- Raw rows only go. -/
theorem compactMinute_raw {m : Minute} (h : compactMinute A fails t m = .ok u) (p : Row → Bool) :
    (u.select fun r => r.raw && p r) = (t.delete m.holds).select fun r => r.raw && p r := by
  obtain ⟨r, hr, -, hinsert⟩ := compactMinute_ok h
  have hraw : (r.raw && p r) = false := by
    rw [Row.raw, hr.count.2.2.1]
    rfl
  rw [Table.select_insert hinsert, hraw, if_neg Bool.false_ne_true, List.append_nil]

/-! ### All the minutes of a batch -/

/-- The minutes of a query: distinct, and each holds a raw row before the cutoff. -/
theorem Oldest.spec {cut : Int} {minutes : List Minute} (h : Oldest t cut minutes) :
    minutes.Nodup ∧ ∀ m ∈ minutes, ∃ r ∈ t.rows, r.raw = true ∧ r.time < cut ∧ r.minute = m := by
  obtain ⟨rows, groups, hrows, hgroups, rfl⟩ := h
  refine ⟨(List.take_sublist _ _).nodup (hgroups.1.nodup_iff.mpr (List.nodup_dedup _)), ?_⟩
  intro m hm
  have hm := hgroups.mem_iff.mp (List.mem_of_mem_take hm)
  obtain ⟨r, hr, rfl⟩ := List.mem_map.mp (List.mem_dedup.mp hm)
  have hr := hrows.mem_iff.mp (List.mem_of_mem_take hr)
  obtain ⟨hmem, hp⟩ := Table.mem_select.mp hr
  simp only [Bool.and_eq_true, decide_eq_true_eq] at hp
  exact ⟨r, hmem, hp.1, hp.2, rfl⟩

/-- The query finds nothing only if there is nothing. -/
theorem Oldest.nil {cut : Int} (h : Oldest t cut []) {r : Row} (hr : r ∈ t.rows)
    (hraw : r.raw = true) : cut ≤ r.time := by
  obtain ⟨rows, groups, hrows, hgroups, hnil⟩ := h
  by_contra hlt
  have hmem : r ∈ t.select fun r => r.raw && r.time < cut :=
    Table.mem_select.mpr ⟨hr, by simp [hraw]; omega⟩
  have hrow := hrows.mem_iff.mpr hmem
  cases rows with
  | nil => cases hrow
  | cons s rows =>
    have hgroup : s.minute ∈ groups :=
      hgroups.mem_iff.mpr (List.mem_dedup.mpr (List.mem_map_of_mem List.mem_cons_self))
    cases groups with
    | nil => cases hgroup
    | cons g groups => cases hnil

end

end Porthop.Metrics
