import Porthop.Metrics.Compacted

/- Whole runs of the compaction, with readings recorded between its batches. -/
namespace Porthop.Metrics

section
variable {ν F : Type} [NumText ν] {A : Arith ν F} {now : Int} {t u w : Db} {e : Event ν}
  {es : List (Event ν)} {m : Minute}

/-- A transaction deletes what is older than this. -/
def Event.limit (now : Int) : Event ν → Int
  | .record _ _ _ time _ => time - retentionMs
  | .batch _ _ => now - retentionMs

/-- A reading is recorded into the minute. -/
def Event.into (m : Minute) : Event ν → Prop
  | .record _ server fingerprint time _ => (⟨server, fingerprint, startOf time⟩ : Minute) = m
  | .batch _ _ => False

def Event.isRecord : Event ν → Bool
  | .record .. => true
  | .batch .. => false

/-- Every row of the minute is still there, or another one with its key. -/
def Kept (m : Minute) (t u : Db) : Prop :=
  ∀ r ∈ t.select m.holds, ∃ r' ∈ u.select m.holds, r'.key = r.key

def AllRaw (m : Minute) (t : Db) : Prop := ∀ r ∈ t.select m.holds, r.raw = true

theorem Kept.refl (m : Minute) (t : Db) : Kept m t t := fun r hr => ⟨r, hr, rfl⟩

theorem Kept.of_eq (h : u.select m.holds = t.select m.holds) : Kept m t u := by
  intro r hr
  rw [← h] at hr
  exact ⟨r, hr, rfl⟩

theorem Kept.trans (h : Kept m t u) (h' : Kept m u w) : Kept m t w := by
  intro r hr
  obtain ⟨s, hs, hsr⟩ := h r hr
  obtain ⟨q, hq, hqs⟩ := h' s hs
  exact ⟨q, hq, hqs.trans hsr⟩

/-! ## A recorded reading, seen from a minute -/

section
variable {fails : Statement → Option String} {server fingerprint : String} {time : Int}
  {overview : Json ν}

theorem select_replace_other {r : Row} (hm : m.Aligned) (hr : 0 ≤ r.time) (hne : r.minute ≠ m) :
    (t.replace r).select m.holds = t.select m.holds := by
  have hout : m.holds r = false := by
    rw [← Bool.not_eq_true, holds_iff hm hr]
    exact hne
  rw [Table.select_replace, hout, if_neg Bool.false_ne_true, List.append_nil]
  apply List.filter_eq_self.mpr
  intro s hs
  have hin := (Table.mem_select.mp hs).2
  simp only [Bool.not_eq_true', decide_eq_false_iff_not]
  intro hkey
  obtain ⟨hserver, hrest⟩ := Prod.mk.inj hkey
  obtain ⟨hendpoint, htime⟩ := Prod.mk.inj hrest
  rw [Minute.holds] at hin hout
  rw [hserver, hendpoint, htime, hout] at hin
  cases hin

theorem kept_replace (r : Row) (hr : m.holds r = true) : Kept m t (t.replace r) := by
  intro s hs
  by_cases hkey : s.key = r.key
  · exact ⟨r, by simp [Table.select_replace, hr], hkey.symm⟩
  · refine ⟨s, ?_, rfl⟩
    rw [Table.select_replace, List.mem_append, List.mem_filter]
    exact .inl ⟨hs, by simpa using hkey⟩

/-- A reading leaves a summarized minute and every minute it is not in. -/
theorem record_select (hs : Sound t) (htime : 0 ≤ time) (hm : m.Aligned)
    (hlimit : time - retentionMs ≤ m.start)
    (h : (⟨server, fingerprint, startOf time⟩ : Minute) ≠ m ∨
      ∃ r, t.select m.holds = [r] ∧ r.raw = false) :
    (record fails server fingerprint time overview t).1.select m.holds = t.select m.holds := by
  rcases record_cases fails server fingerprint time overview t with heq | heq | ⟨data, hnot, heq⟩
  · rw [heq]
  · rw [heq, select_expired hlimit]
  · rw [heq, select_expired hlimit]
    have hrow : (⟨server, fingerprint, time, data, rawResolution⟩ : Row).minute ≠ m := by
      rcases h with hne | ⟨r, hr, hraw⟩
      · exact hne
      · -- The reading would have found the summary of its minute.
        rintro rfl
        have hmem : r ∈ t.rows ∧ _ := Table.mem_select.mp (hr ▸ List.mem_singleton_self r)
        have hrm := (holds_iff hm (hs.time_nonneg r hmem.1)).mp hmem.2
        rw [Row.minute, Row.minute, Minute.mk.injEq] at hrm
        have hstart := hs.at_start r hmem.1 hraw
        have hres := (hs.resolution r hmem.1).resolve_left (by rw [hraw]; exact Bool.false_ne_true)
        have hany : compacted t ⟨server, fingerprint, time, data, rawResolution⟩ = true := by
          rw [compacted, List.any_eq_true]
          refine ⟨r, hmem.1, decide_eq_true ⟨hrm.1, hrm.2.1, hres, ?_⟩⟩
          exact hstart.trans hrm.2.2
        rw [hnot] at hany
        cases hany
    exact select_replace_other hm htime hrow

theorem record_raw (hm : m.Aligned) (htime : 0 ≤ time) (hlimit : time - retentionMs ≤ m.start)
    (hraw : AllRaw m t) :
    AllRaw m (record fails server fingerprint time overview t).1 ∧
      Kept m t (record fails server fingerprint time overview t).1 := by
  rcases record_cases fails server fingerprint time overview t with heq | heq | ⟨data, -, heq⟩
  · rw [heq]
    exact ⟨hraw, Kept.refl m t⟩
  · rw [heq]
    unfold AllRaw
    rw [select_expired hlimit]
    exact ⟨hraw, Kept.of_eq (select_expired hlimit)⟩
  · rw [heq]
    unfold AllRaw Kept
    rw [select_expired hlimit]
    refine ⟨?_, ?_⟩
    · intro s hs
      rw [Table.select_replace, List.mem_append] at hs
      rcases hs with hs | hs
      · exact hraw s (List.mem_filter.mp hs).1
      · split at hs
        · rw [List.mem_singleton.mp hs]
          rfl
        · cases hs
    · by_cases hin : m.holds ⟨server, fingerprint, time, data, rawResolution⟩ = true
      · exact kept_replace _ hin
      · have hne : (⟨server, fingerprint, time, data, rawResolution⟩ : Row).minute ≠ m := by
          rwa [Ne, ← holds_iff hm htime]
        exact Kept.of_eq (select_replace_other hm htime hne)

theorem record_pending : pending now (record fails server fingerprint time overview t).1 ≤
    pending now t + 1 := by
  have hdelete : ∀ w : Db, pending now (w.delete (expired time)) ≤ pending now w := by
    intro w
    unfold pending
    rw [Table.select_delete]
    exact List.length_filter_le _ _
  rcases record_cases fails server fingerprint time overview t with heq | heq | ⟨data, -, heq⟩
  · rw [heq]
    exact Nat.le_succ _
  · rw [heq]
    exact Nat.le_succ_of_le (hdelete t)
  · rw [heq]
    refine (hdelete _).trans ?_
    unfold pending
    rw [Table.select_replace, List.length_append]
    refine Nat.add_le_add (List.length_filter_le _ _) ?_
    split <;> simp

end

/-! ## One step -/

theorem Step.sound (h : Step A now t e u) (hs : Sound t) : Sound u := by
  cases h with
  | record fails server fingerprint overview htime => exact hs.record htime
  | batch query done more =>
    have hs := hs.delete (expired now)
    exact foldlM_sound (query.regular hs) hs (compact_ok done).1

/-- No raw row of the minute is old enough to be compacted. -/
def Settled (now : Int) (m : Minute) (t : Db) : Prop :=
  ∀ r ∈ t.select m.holds, r.raw = true → cutoff now ≤ r.time

/-- A batch leaves a minute it does not take, and one it takes has a row to compact. -/
theorem batch_minute {fails : Statement → Option String} {minutes : List Minute} {count : Nat}
    (hs : Sound t) (hm : m.Aligned)
    (query : Oldest (t.delete (expired now)) (cutoff now) minutes)
    (done : compactBatch A fails now minutes t = (u, .ok count)) :
    u.select m.holds = (t.delete (expired now)).select m.holds ∨
      ((∃ r ∈ t.select m.holds, r.raw = true ∧ r.time < cutoff now) ∧
        ∃ r, Summarizes A m ((t.delete (expired now)).select m.holds) r ∧
          u.select m.holds = [r]) := by
  have hs' := hs.delete (expired now)
  have hsel := foldlM_select (query.regular hs') (compact_ok done).1 hm
  by_cases hmem : m ∈ minutes
  · refine .inr ⟨?_, hsel.1 hmem⟩
    obtain ⟨r, hr, hraw, htime, hrm⟩ := query.spec.2 m hmem
    have hr := (Table.mem_delete.mp hr).1
    have hholds := (holds_iff hm (hs.time_nonneg r hr)).mpr hrm
    exact ⟨r, Table.mem_select.mpr ⟨hr, hholds⟩, hraw, htime⟩
  · exact .inl (hsel.2 hmem)

/-- A step leaves a minute with nothing to compact if no reading goes there. -/
theorem Step.frame (h : Step A now t e u) (hs : Sound t) (hm : m.Aligned)
    (hlimit : e.limit now ≤ m.start) (hinto : ¬ e.into m) (hsettled : Settled now m t) :
    u.select m.holds = t.select m.holds := by
  cases h with
  | record fails server fingerprint overview htime =>
    exact record_select hs htime hm hlimit (.inl hinto)
  | batch query done more =>
    rcases batch_minute hs hm query done with heq | ⟨⟨r, hr, hraw, htime⟩, -⟩
    · rw [heq, select_expired hlimit]
    · have hle := hsettled r hr hraw
      omega

/-- A summary stays. -/
theorem Step.summary (h : Step A now t e u) (hs : Sound t) (hm : m.Aligned)
    (hlimit : e.limit now ≤ m.start) {r : Row} (hr : t.select m.holds = [r])
    (hraw : r.raw = false) : u.select m.holds = [r] := by
  cases h with
  | record fails server fingerprint overview htime =>
    rw [record_select hs htime hm hlimit (.inr ⟨r, hr, hraw⟩), hr]
  | batch query done more =>
    rcases batch_minute hs hm query done with heq | ⟨⟨s, hsmem, hsraw, -⟩, -⟩
    · rw [heq, select_expired hlimit, hr]
    · rw [hr, List.mem_singleton] at hsmem
      rw [hsmem, hraw] at hsraw
      cases hsraw

/-- A minute of readings gets more of them, or its summary. -/
theorem Step.readings (h : Step A now t e u) (hs : Sound t) (hm : m.Aligned)
    (hlimit : e.limit now ≤ m.start) (hraw : AllRaw m t) :
    (AllRaw m u ∧ Kept m t u ∧ (¬ e.into m → u.select m.holds = t.select m.holds)) ∨
      ∃ r, Summarizes A m (t.select m.holds) r ∧ u.select m.holds = [r] := by
  cases h with
  | @record fails server fingerprint time overview htime =>
    obtain ⟨hall, hkept⟩ :=
      @record_raw ν _ _ _ fails server fingerprint time overview hm htime hlimit hraw
    exact .inl ⟨hall, hkept, fun hinto => record_select hs htime hm hlimit (.inl hinto)⟩
  | batch query done more =>
    rcases batch_minute hs hm query done with heq | ⟨-, hsum⟩
    · rw [select_expired hlimit] at heq
      refine .inl ⟨?_, Kept.of_eq heq, fun _ => heq⟩
      unfold AllRaw
      rw [heq]
      exact hraw
    · rw [select_expired hlimit] at hsum
      exact .inr hsum

/-! ## Runs -/

theorem Steps.sound (h : Steps A now t es u) (hs : Sound t) : Sound u := by
  induction h with
  | nil => exact hs
  | cons step rest ih => exact ih (step.sound hs)

/-- Every batch leaves fewer raw rows to compact, and every reading adds one at most. -/
theorem Steps.bound (h : Steps A now t es u) (hs : Sound t) :
    (es.filter fun e => !e.isRecord).length + pending now u ≤
      pending now t + (es.filter Event.isRecord).length := by
  induction h with
  | nil => simp
  | @cons t w v e es step rest ih =>
    have ih := ih (step.sound hs)
    cases step with
    | @record fails server fingerprint time overview htime =>
      have hstep := @record_pending ν _ now t fails server fingerprint time overview
      simp only [List.filter_cons, Event.isRecord, Bool.not_true, Bool.false_eq_true, if_false,
        if_true, List.length_cons] at ih ⊢
      omega
    | batch query done more =>
      have hstep := compact_pending hs query done
      rw [if_neg more] at hstep
      simp only [List.filter_cons, Event.isRecord, Bool.not_false, Bool.false_eq_true, if_false,
        if_true, List.length_cons] at ih ⊢
      omega

theorem Steps.frame (h : Steps A now t es u) (hs : Sound t) (hm : m.Aligned)
    (hlimit : ∀ e ∈ es, e.limit now ≤ m.start) (hinto : ∀ e ∈ es, ¬ e.into m)
    (hsettled : Settled now m t) : u.select m.holds = t.select m.holds := by
  induction h with
  | nil => rfl
  | @cons t w v e es step rest ih =>
    have hstep := step.frame hs hm (hlimit _ List.mem_cons_self) (hinto _ List.mem_cons_self)
      hsettled
    have hsettled' : Settled now m w := by
      unfold Settled
      rw [hstep]
      exact hsettled
    exact (ih (step.sound hs) (fun e he => hlimit e (List.mem_cons_of_mem _ he))
      (fun e he => hinto e (List.mem_cons_of_mem _ he)) hsettled').trans hstep

theorem Steps.summary (h : Steps A now t es u) (hs : Sound t) (hm : m.Aligned)
    (hlimit : ∀ e ∈ es, e.limit now ≤ m.start) {r : Row} (hr : t.select m.holds = [r])
    (hraw : r.raw = false) : u.select m.holds = [r] := by
  induction h with
  | nil => exact hr
  | cons step rest ih =>
    exact ih (step.sound hs) (fun e he => hlimit e (List.mem_cons_of_mem _ he))
      (step.summary hs hm (hlimit _ List.mem_cons_self) hr hraw)

/-- A minute of readings that was summarized along the run: at one of its states the minute
    held the readings the summary stands for. -/
def Summarized (A : Arith ν F) (now : Int) (m : Minute) (t : Db) (es : List (Event ν))
    (u : Db) : Prop :=
  ∃ es₁ es₂ s r, es = es₁ ++ es₂ ∧ Steps A now t es₁ s ∧ AllRaw m s ∧ Kept m t s ∧
    ((∀ e ∈ es, ¬ e.into m) → s.select m.holds = t.select m.holds) ∧
    Summarizes A m (s.select m.holds) r ∧ u.select m.holds = [r]

theorem Steps.readings (h : Steps A now t es u) (hs : Sound t) (hm : m.Aligned)
    (hlimit : ∀ e ∈ es, e.limit now ≤ m.start) (hraw : AllRaw m t) :
    (AllRaw m u ∧ Kept m t u) ∨ Summarized A now m t es u := by
  induction h with
  | nil => exact .inl ⟨hraw, Kept.refl m _⟩
  | @cons t w v e es step rest ih =>
    have htail : ∀ e ∈ es, e.limit now ≤ m.start :=
      fun e he => hlimit e (List.mem_cons_of_mem _ he)
    rcases step.readings hs hm (hlimit _ List.mem_cons_self) hraw with
      ⟨hall, hkept, hsame⟩ | ⟨r, hr, hw⟩
    · rcases ih (step.sound hs) htail hall with ⟨hall', hkept'⟩ | ⟨es₁, es₂, s, r, rfl, hrun, hrest⟩
      · exact .inl ⟨hall', hkept.trans hkept'⟩
      · obtain ⟨hsraw, hskept, hssame, hr, hv⟩ := hrest
        refine .inr ⟨e :: es₁, es₂, s, r, rfl, .cons step hrun, hsraw, hkept.trans hskept, ?_,
          hr, hv⟩
        intro hinto
        exact (hssame fun e he => hinto e (List.mem_cons_of_mem _ he)).trans
          (hsame (hinto _ List.mem_cons_self))
    · refine .inr ⟨[], e :: es, t, r, rfl, .nil, hraw, Kept.refl m t, fun _ => rfl, hr, ?_⟩
      have hrraw : r.raw = false := by
        rw [Row.raw, hr.count.2.2.1]
        rfl
      exact rest.summary (step.sound hs) hm htail hw hrraw

/-! ## The end of a compaction -/

/-- The last batch only deletes what is past the limit, and leaves nothing to compact. -/
theorem Finishes.spec (h : Finishes A now t u) :
    u = t.delete (expired now) ∧ ∀ r ∈ u.rows, r.raw = true → cutoff now ≤ r.time := by
  obtain ⟨fails, minutes, query, done⟩ := h
  obtain ⟨hfold, hlen⟩ := compact_ok done
  obtain rfl := List.length_eq_zero_iff.mp hlen.symm
  obtain rfl := Except.ok.inj hfold
  exact ⟨rfl, fun r hr hraw => query.nil hr hraw⟩

/-- A compaction that has nothing to compact does nothing else. -/
theorem Steps.eq_nil {now' : Int} (h : Steps A now' t es u)
    (hdone : ∀ r ∈ t.rows, r.raw = true → cutoff now' ≤ r.time)
    (hbatch : ∀ e ∈ es, e.isRecord = false) : es = [] ∧ u = t := by
  cases h with
  | nil => exact ⟨rfl, rfl⟩
  | cons step rest =>
    exfalso
    cases step with
    | record fails server fingerprint overview htime =>
      have hrecord := hbatch _ List.mem_cons_self
      cases hrecord
    | @batch _ fails minutes count query done more =>
      obtain ⟨m, hm⟩ := List.exists_mem_of_ne_nil minutes
        (fun hnil => more ((compact_ok done).2.trans (List.length_eq_zero_iff.mpr hnil)))
      obtain ⟨r, hr, hraw, htime, -⟩ := query.spec.2 m hm
      have hle := hdone r (Table.mem_delete.mp hr).1 hraw
      omega

end

/-! ## Two compactions

Readings of one minute, compacted a day later, and a reading that is eight days old. -/

/-- Arithmetic on whole numbers. -/
def wholeNumbers : Arith Int Int where
  asF64 := id
  json := .num
  int := id
  ofInt := id
  zero := 0
  negInf := -1
  add := (· + ·)
  sub := (· - ·)
  div := (· / ·)
  max := max
  lt a b := a < b
  le a b := a ≤ b

def reading (time : Int) : Row :=
  ⟨"server", "endpoint", time, "\x7b\"cpu\":1,\"network\":[]\x7d", rawResolution⟩

/-- Two days after the first reading. -/
def later : Int := 2 * dayMs

def batch (t : Db) (minutes : List Minute) : Db × Except String Nat :=
  compactBatch wholeNumbers (fun _ => none) later minutes t

end Porthop.Metrics
