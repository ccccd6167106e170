import Mathlib.Data.List.Basic

/- Patterns in which some symbols stand for any run of symbols, and the loop that decides them
   with one point to go back to.

   What a symbol of a pattern matches is a parameter (`one`), and so is which of them match a
   run (`many`). The loop keeps the last run symbol it met and where it tried to go on behind
   it; an earlier run symbol is never tried again. `scan_correct` says that this is enough:
   what an earlier run could still take, the last one can take as well. -/
namespace Porthop.Glob

section
variable {σ β : Type} (one : σ → β → Bool) (many : σ → Bool)

/-- A value matches a pattern. -/
inductive Matches : List σ → List β → Prop where
  | nil : Matches [] []
  | one {c : σ} {v : β} {ps : List σ} {vs : List β} (hc : many c = false) (h : one c v = true)
      (hrest : Matches ps vs) : Matches (c :: ps) (v :: vs)
  | many {c : σ} {ps : List σ} {vs : List β} (us : List β) (hc : many c = true)
      (hrest : Matches ps vs) : Matches (c :: ps) (us ++ vs)

/-- Where the loop stands: what is left of the pattern and of the value, and for the last run
    symbol the pattern behind it and the value from where it was last tried. -/
structure Scan (σ β : Type) where
  ps : List σ
  vs : List β
  star : Option (List σ × List β)

/-- Let the last run take one symbol more. -/
def back : Option (List σ × List β) → Bool ⊕ Scan σ β
  | some (sp, _ :: rs) => .inr ⟨sp, rs, some (sp, rs)⟩
  | _ => .inl false

/-- One turn of the loop, or what it ends with. -/
def step (s : Scan σ β) : Bool ⊕ Scan σ β :=
  match s.vs with
  | [] => .inl (s.ps.all many)
  | v :: vs =>
    match s.ps with
    | [] => back s.star
    | c :: ps =>
      if one c v then .inr ⟨ps, vs, s.star⟩
      else if many c then .inr ⟨ps, v :: vs, some (ps, v :: vs)⟩
      else back s.star

/-- So many turns, if they are enough. -/
def scan : Nat → Scan σ β → Option Bool
  | 0, _ => none
  | fuel + 1, s =>
    match step one many s with
    | .inl b => some b
    | .inr s => scan fuel s

/-- Turns that are enough for any pattern and any value. -/
def enough (ps : List σ) (vs : List β) : Nat := (ps.length + 2) * (vs.length + 1) * (vs.length + 1)

def decides (ps : List σ) (vs : List β) : Bool :=
  (scan one many (enough ps vs) ⟨ps, vs, none⟩).getD false

variable {one many}

/-! ## The meaning -/

theorem Matches.all_many {ps : List σ} {vs : List β} (h : Matches one many ps vs) :
    vs = [] → ps.all many = true := by
  induction h with
  | nil => exact fun _ => rfl
  | one hc h hrest ih => exact fun hnil => by cases hnil
  | many us hc hrest ih =>
    intro hnil
    rw [List.all_cons, hc, ih (List.append_eq_nil_iff.mp hnil).2]
    rfl

theorem matches_nil {ps : List σ} : Matches one many ps [] ↔ ps.all many = true := by
  constructor
  · exact fun h => h.all_many rfl
  · intro h
    induction ps with
    | nil => exact .nil
    | cons c ps ih =>
      rw [List.all_cons, Bool.and_eq_true] at h
      exact Matches.many [] h.1 (ih h.2)

theorem matches_cons {c : σ} {v : β} {ps : List σ} {vs : List β} (hc : many c = false) :
    Matches one many (c :: ps) (v :: vs) ↔ one c v = true ∧ Matches one many ps vs := by
  constructor
  · intro h
    generalize hvs : v :: vs = ws at h
    cases h with
    | one hc h hrest =>
      obtain ⟨rfl, rfl⟩ := List.cons.inj hvs
      exact ⟨h, hrest⟩
    | many us hmany hrest =>
      rw [hc] at hmany
      cases hmany
  · rintro ⟨h, hrest⟩
    exact .one hc h hrest

/-- A run takes any start of the value. -/
theorem matches_many {c : σ} {ps : List σ} {vs : List β} (hc : many c = true) :
    Matches one many (c :: ps) vs ↔ ∃ us ws, vs = us ++ ws ∧ Matches one many ps ws := by
  constructor
  · intro h
    cases h with
    | one hnot h hrest =>
      rw [hc] at hnot
      cases hnot
    | many us hmany hrest => exact ⟨us, _, rfl, hrest⟩
  · rintro ⟨us, ws, rfl, hrest⟩
    exact .many us hc hrest

/-- Symbols that match no run take as many symbols of the value. -/
theorem matches_append {seg ps : List σ} (hseg : ∀ c ∈ seg, many c = false) : ∀ {vs : List β},
    Matches one many (seg ++ ps) vs →
      ∃ us ws, vs = us ++ ws ∧ us.length = seg.length ∧ Matches one many ps ws := by
  induction seg with
  | nil => exact fun h => ⟨[], _, rfl, rfl, h⟩
  | cons c seg ih =>
    intro vs h
    have hc := hseg c List.mem_cons_self
    cases h with
    | one hc h hrest =>
      obtain ⟨us, ws, rfl, hlen, hmatch⟩ := ih (fun d hd => hseg d (List.mem_cons_of_mem c hd)) hrest
      exact ⟨_ :: us, ws, rfl, congrArg Nat.succ hlen, hmatch⟩
    | many us hmany hrest =>
      rw [hc] at hmany
      cases hmany

/-- A pattern without runs, whose symbols match themselves only, matches one value. -/
theorem matches_literal {one : σ → σ → Bool} {ps vs : List σ} (hps : ∀ c ∈ ps, many c = false)
    (hone : ∀ c ∈ ps, ∀ v ∈ vs, one c v = true ↔ c = v) : Matches one many ps vs ↔ ps = vs := by
  induction ps generalizing vs with
  | nil =>
    constructor
    · intro h
      cases h
      rfl
    · rintro rfl
      exact .nil
  | cons c ps ih =>
    cases vs with
    | nil => simp [matches_nil, hps c List.mem_cons_self]
    | cons v vs =>
      rw [matches_cons (hps c List.mem_cons_self),
        hone c List.mem_cons_self v List.mem_cons_self,
        ih (fun d hd => hps d (List.mem_cons_of_mem c hd))
          fun d hd w hw => hone d (List.mem_cons_of_mem c hd) w (List.mem_cons_of_mem v hw),
        List.cons.injEq]

/-- A match of a run and what follows it stays one where the value is longer at the front. -/
theorem Matches.absorb {c : σ} {ps : List σ} {vs : List β} (hc : many c = true)
    (h : Matches one many (c :: ps) vs) (us : List β) : Matches one many (c :: ps) (us ++ vs) := by
  obtain ⟨ws, xs, rfl, hrest⟩ := (matches_many hc).mp h
  rw [← List.append_assoc]
  exact .many _ hc hrest

/-! ## The loop decides it -/

variable (one many)

/-- The last run may take more than it has. -/
def Later (sp : List σ) (rs : List β) : Prop :=
  ∃ us ws, rs = us ++ ws ∧ us ≠ [] ∧ Matches one many sp ws

/-- There is a match from where the loop stands. -/
def Live (s : Scan σ β) : Prop :=
  Matches one many s.ps s.vs ∨ ∃ sp rs, s.star = some (sp, rs) ∧ Later one many sp rs

/-- Since the last run, the pattern and the value went on side by side. -/
structure Sound (s : Scan σ β) : Prop where
  plain : ∀ v ∈ s.vs, ∀ c, many c = true → one c v = false
  star : ∀ sp rs, s.star = some (sp, rs) → (∀ v ∈ rs, ∀ c, many c = true → one c v = false) ∧
    ∃ seg us, sp = seg ++ s.ps ∧ rs = us ++ s.vs ∧ us.length = seg.length ∧
      ∀ c ∈ seg, many c = false

variable {one many} {s s' : Scan σ β}

theorem sound_start (ps : List σ) {vs : List β}
    (h : ∀ v ∈ vs, ∀ c, many c = true → one c v = false) : Sound one many ⟨ps, vs, none⟩ :=
  ⟨h, fun _ _ hstar => by cases hstar⟩

/-- Behind a run that was tried at a place of the value. -/
theorem sound_run (sp : List σ) {rs : List β}
    (h : ∀ v ∈ rs, ∀ c, many c = true → one c v = false) :
    Sound one many ⟨sp, rs, some (sp, rs)⟩ := by
  refine ⟨h, fun sp' rs' hstar => ?_⟩
  obtain ⟨rfl, rfl⟩ := Prod.mk.inj (Option.some.inj hstar)
  exact ⟨h, [], [], rfl, rfl, rfl, fun c hc => absurd hc List.not_mem_nil⟩

theorem live_run (sp : List σ) (rs : List β) :
    Live one many ⟨sp, rs, some (sp, rs)⟩ ↔ ∃ us ws, rs = us ++ ws ∧ Matches one many sp ws := by
  constructor
  · rintro (h | ⟨sp', rs', hstar, us, ws, hrs, -, h⟩)
    · exact ⟨[], rs, rfl, h⟩
    · obtain ⟨rfl, rfl⟩ := Prod.mk.inj (Option.some.inj hstar)
      exact ⟨us, ws, hrs, h⟩
  · rintro ⟨us, ws, hrs, h⟩
    by_cases hnil : us = []
    · subst hnil
      exact .inl (hrs ▸ h)
    · exact .inr ⟨sp, rs, rfl, us, ws, hrs, hnil, h⟩

/-- Where the value is at its end, the last run can take no more. -/
theorem not_later_end {sp : List σ} {rs : List β} (h : Sound one many s)
    (hstar : s.star = some (sp, rs)) (hvs : s.vs = []) : ¬ Later one many sp rs := by
  rintro ⟨us, ws, hrs, hne, hmatch⟩
  obtain ⟨-, seg, us', rfl, hrs', hlen, hseg⟩ := h.star _ _ hstar
  obtain ⟨xs, ys, rfl, hxs, -⟩ := matches_append hseg hmatch
  rw [hvs, List.append_nil] at hrs'
  have hlength := congrArg List.length (hrs'.symm.trans hrs)
  have hpos := List.length_pos_iff.mpr hne
  simp only [List.length_append] at hlength
  omega

/-- What the last run could take before a new one, the new one can take. -/
theorem later_run {c : σ} {ps sp : List σ} {rs : List β} (h : Sound one many s)
    (hps : s.ps = c :: ps) (hc : many c = true) (hstar : s.star = some (sp, rs))
    (hlater : Later one many sp rs) : Matches one many (c :: ps) s.vs := by
  obtain ⟨us, ws, hrs, hne, hmatch⟩ := hlater
  obtain ⟨-, seg, us', rfl, hrs', hlen, hseg⟩ := h.star _ _ hstar
  rw [hps] at hmatch
  obtain ⟨xs, ys, rfl, hxs, hrest⟩ := matches_append hseg hmatch
  have heq : us' ++ s.vs = (us ++ xs) ++ ys := by
    rw [← hrs', hrs, List.append_assoc]
  have hle : us'.length ≤ (us ++ xs).length := by
    rw [List.length_append]
    omega
  obtain ⟨zs, hzs⟩ := List.prefix_of_prefix_length_le (List.prefix_append us' s.vs)
    (heq ▸ List.prefix_append (us ++ xs) ys) hle
  have hvs : s.vs = zs ++ ys := by
    rw [← hzs, List.append_assoc] at heq
    exact List.append_cancel_left heq
  rw [hvs]
  exact hrest.absorb hc zs

/-- Going back keeps the matches that are left. -/
theorem back_spec (h : Sound one many s) (hvs : s.vs ≠ [])
    (hdead : ¬ Matches one many s.ps s.vs) :
    match back s.star with
    | .inl b => b = true ↔ Live one many s
    | .inr s' => Sound one many s' ∧ (Live one many s ↔ Live one many s') := by
  match hstar : s.star with
  | none =>
    refine iff_of_false Bool.false_ne_true ?_
    rintro (hmatch | ⟨sp, rs, hsome, -⟩)
    · exact hdead hmatch
    · rw [hstar] at hsome
      cases hsome
  | some (sp, []) =>
    obtain ⟨-, seg, us, -, hrs, -, -⟩ := h.star _ _ hstar
    exact absurd (List.append_eq_nil_iff.mp hrs.symm).2 hvs
  | some (sp, r :: rs) =>
    obtain ⟨hplain, -⟩ := h.star _ _ hstar
    refine ⟨sound_run sp fun v hv => hplain v (List.mem_cons_of_mem r hv), ?_⟩
    rw [live_run]
    constructor
    · rintro (hmatch | ⟨sp', rs', hsome, us, ws, hrs, hne, hmatch⟩)
      · exact absurd hmatch hdead
      · obtain ⟨rfl, rfl⟩ := Prod.mk.inj (Option.some.inj (hstar.symm.trans hsome))
        cases us with
        | nil => exact absurd rfl hne
        | cons u us => exact ⟨us, ws, (List.cons.inj hrs).2, hmatch⟩
    · rintro ⟨us, ws, rfl, hmatch⟩
      exact .inr ⟨sp, _, hstar, r :: us, ws, rfl, List.cons_ne_nil r us, hmatch⟩

/-- One turn ends with the answer or keeps it. -/
theorem step_spec (h : Sound one many s) :
    match step one many s with
    | .inl b => b = true ↔ Live one many s
    | .inr s' => Sound one many s' ∧ (Live one many s ↔ Live one many s') := by
  obtain ⟨ps, vs, star⟩ := s
  cases vs with
  | nil =>
    show ps.all many = true ↔ _
    constructor
    · exact fun hall => .inl (matches_nil.mpr hall)
    · rintro (hmatch | ⟨sp, rs, hstar, hlater⟩)
      · exact matches_nil.mp hmatch
      · exact absurd hlater (not_later_end h hstar rfl)
  | cons v vs =>
    cases ps with
    | nil =>
      apply back_spec h (List.cons_ne_nil v vs)
      intro hmatch
      cases hmatch
    | cons c ps =>
      by_cases hone : one c v = true
      · have hc : many c = false := by
          by_contra hmany
          rw [h.plain v List.mem_cons_self c (eq_true_of_ne_false hmany)] at hone
          cases hone
        rw [step]
        simp only [hone, if_true]
        refine ⟨⟨fun w hw => h.plain w (List.mem_cons_of_mem v hw), ?_⟩, ?_⟩
        · intro sp rs hstar
          obtain ⟨hplain, seg, us, rfl, rfl, hlen, hseg⟩ := h.star sp rs hstar
          refine ⟨hplain, seg ++ [c], us ++ [v], ?_, ?_, ?_, ?_⟩
          · rw [List.append_assoc, List.singleton_append]
          · rw [List.append_assoc, List.singleton_append]
          · rw [List.length_append, List.length_append, hlen, List.length_singleton,
              List.length_singleton]
          · intro d hd
            rcases List.mem_append.mp hd with hd | hd
            · exact hseg d hd
            · rw [List.mem_singleton.mp hd]
              exact hc
        · rw [Live, Live]
          simp only [matches_cons hc, hone, true_and]
      · by_cases hc : many c = true
        · rw [step]
          simp only [hone, hc, if_true, Bool.false_eq_true, if_false]
          refine ⟨sound_run ps h.plain, ?_⟩
          rw [live_run, ← matches_many hc]
          constructor
          · rintro (hmatch | ⟨sp, rs, hstar, hlater⟩)
            · exact hmatch
            · exact later_run h rfl hc hstar hlater
          · exact fun hmatch => .inl hmatch
        · rw [step]
          simp only [hone, hc, Bool.false_eq_true, if_false]
          apply back_spec h (List.cons_ne_nil v vs)
          intro hmatch
          exact hone ((matches_cons (eq_false_of_ne_true hc)).mp hmatch).1

/-- What the loop ends with is right. -/
theorem scan_correct : ∀ {fuel : Nat} {s : Scan σ β} {b : Bool}, Sound one many s →
    scan one many fuel s = some b → (b = true ↔ Live one many s)
  | 0, _, _, _, hscan => by cases hscan
  | fuel + 1, s, b, h, hscan => by
    have hstep := step_spec h
    rw [scan] at hscan
    cases heq : step one many s with
    | inl b' =>
      rw [heq] at hscan hstep
      obtain rfl := Option.some.inj hscan
      exact hstep
    | inr s' =>
      rw [heq] at hscan hstep
      rw [hstep.2]
      exact scan_correct hstep.1 hscan

/-! ## It ends -/

/-- A turn shortens the pattern behind the last run, or else what is left to try it on, or
    else what is left of the value. -/
def weight (n m : Nat) (s : Scan σ β) : Nat :=
  let (a, b) := s.star.elim (m + 1, 0) fun (sp, rs) => (sp.length, rs.length)
  (a * (n + 1) + b) * (n + 1) + s.vs.length

/-- What is left is no longer than it was: the pattern at first of `m` symbols, the value of
    `n`. -/
structure Within (n m : Nat) (s : Scan σ β) : Prop where
  value : s.vs.length ≤ n
  pattern : s.star = none → s.ps.length ≤ m
  star : ∀ sp rs, s.star = some (sp, rs) → s.ps.length ≤ sp.length ∧ rs.length ≤ n

theorem lex_lt {a a' b b' n : Nat} (h : a' < a) (hb : b' ≤ n) :
    a' * (n + 1) + b' < a * (n + 1) + b := by
  have hmul : (a' + 1) * (n + 1) ≤ a * (n + 1) := Nat.mul_le_mul_right (n + 1) h
  rw [Nat.add_mul, Nat.one_mul] at hmul
  omega

theorem back_within {n m : Nat} (h : Within n m s) :
    match back s.star with
    | .inl _ => True
    | .inr s' => Within n m s' ∧ weight n m s' < weight n m s := by
  match hstar : s.star with
  | none => trivial
  | some (sp, []) => trivial
  | some (sp, r :: rs) =>
    have hrs := (h.star _ _ hstar).2
    rw [List.length_cons] at hrs
    refine ⟨⟨by show rs.length ≤ n; omega, fun hnone => (by cases hnone), ?_⟩, ?_⟩
    · intro sp' rs' hsome
      obtain ⟨rfl, rfl⟩ := Prod.mk.inj (Option.some.inj hsome)
      exact ⟨Nat.le_refl _, by omega⟩
    · rw [weight, weight, hstar]
      apply lex_lt
      · show sp.length * (n + 1) + rs.length < sp.length * (n + 1) + (rs.length + 1)
        omega
      · show rs.length ≤ n
        omega

theorem step_within {n m : Nat} (h : Within n m s) :
    match step one many s with
    | .inl _ => True
    | .inr s' => Within n m s' ∧ weight n m s' < weight n m s := by
  obtain ⟨ps, vs, star⟩ := s
  cases vs with
  | nil => trivial
  | cons v vs =>
    have hvs : vs.length + 1 ≤ n := h.value
    cases ps with
    | nil => exact back_within h
    | cons c ps =>
      rw [step]
      by_cases hone : one c v = true
      · simp only [hone, if_true]
        refine ⟨⟨by show vs.length ≤ n; omega, fun hnone => ?_, fun sp rs hsome => ?_⟩, ?_⟩
        · have hps : ps.length + 1 ≤ m := h.pattern hnone
          show ps.length ≤ m
          omega
        · have hps : ps.length + 1 ≤ sp.length := (h.star sp rs hsome).1
          refine ⟨?_, (h.star sp rs hsome).2⟩
          show ps.length ≤ sp.length
          omega
        · rw [weight, weight]
          exact Nat.add_lt_add_left (Nat.lt_succ_self _) _
      · by_cases hc : many c = true
        · simp only [hone, hc, if_true, Bool.false_eq_true, if_false]
          refine ⟨⟨h.value, fun hnone => (by cases hnone), ?_⟩, ?_⟩
          · intro sp rs hsome
            obtain ⟨rfl, rfl⟩ := Prod.mk.inj (Option.some.inj hsome)
            exact ⟨Nat.le_refl _, h.value⟩
          · rw [weight, weight]
            apply Nat.add_lt_add_right
            apply Nat.mul_lt_mul_of_pos_right _ (Nat.succ_pos n)
            match star with
            | none =>
              have hps : ps.length + 1 ≤ m := h.pattern rfl
              apply lex_lt _ h.value
              show ps.length < m + 1
              omega
            | some (sp, rs) =>
              have hps : ps.length + 1 ≤ sp.length := (h.star sp rs rfl).1
              apply lex_lt _ h.value
              exact hps
        · simp only [hone, hc, Bool.false_eq_true, if_false]
          exact back_within h

/-- More turns than the weight are enough. -/
theorem scan_ends {n m : Nat} : ∀ {fuel : Nat} {s : Scan σ β}, Within n m s →
    weight n m s < fuel → ∃ b, scan one many fuel s = some b
  | 0, _, _, hfuel => absurd hfuel (Nat.not_lt_zero _)
  | fuel + 1, s, h, hfuel => by
    have hstep := @step_within _ _ one many s n m h
    rw [scan]
    cases heq : step one many s with
    | inl b => exact ⟨b, rfl⟩
    | inr s' =>
      rw [heq] at hstep
      exact scan_ends hstep.1 (Nat.lt_of_lt_of_le hstep.2 (Nat.le_of_lt_succ hfuel))

/-- The loop ends, for every pattern and every value. -/
theorem decides_ends (ps : List σ) (vs : List β) :
    ∃ b, scan one many (enough ps vs) ⟨ps, vs, none⟩ = some b := by
  have hwithin : Within vs.length ps.length (⟨ps, vs, none⟩ : Scan σ β) :=
    ⟨Nat.le_refl _, fun _ => Nat.le_refl _, fun _ _ hsome => by cases hsome⟩
  apply scan_ends hwithin
  have hlt := @lex_lt (ps.length + 2) (ps.length + 1) 0 0 vs.length (Nat.lt_succ_self _)
    (Nat.zero_le _)
  rw [Nat.add_zero, Nat.add_zero] at hlt
  have hmul := @lex_lt _ _ 0 vs.length vs.length hlt (Nat.le_refl _)
  rw [Nat.add_zero] at hmul
  exact hmul

/-- **The loop decides the match**, where no symbol of the value is taken for a run. -/
theorem decides_iff {ps : List σ} {vs : List β}
    (h : ∀ v ∈ vs, ∀ c, many c = true → one c v = false) :
    decides one many ps vs = true ↔ Matches one many ps vs := by
  obtain ⟨b, hb⟩ := @decides_ends _ _ one many ps vs
  rw [decides, hb, Option.getD_some, scan_correct (sound_start ps h) hb]
  constructor
  · rintro (hmatch | ⟨sp, rs, hstar, -⟩)
    · exact hmatch
    · cases hstar
  · exact fun hmatch => .inl hmatch

end

end Porthop.Glob
