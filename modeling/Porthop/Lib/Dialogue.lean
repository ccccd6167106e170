import Mathlib.Data.List.Basic

/- A party that asks and waits for each answer, as the tree of what it asks next.

   Whoever answers is free: `Runs` takes any answer at each question, so what holds of every
   run holds whatever the other side does. A run records each question with its answer. The
   rules for sequencing (`runs_bind` and, where an error ends the party, `runs_bindExcept`)
   take a run apart along the program. -/
namespace Porthop

universe u v w

inductive Dialogue (Q : Type u) (R : Q → Type v) (α : Type w) where
  | done (a : α)
  | ask (q : Q) (k : R q → Dialogue Q R α)

namespace Dialogue

variable {Q : Type u} {R : Q → Type v} {α β ε : Type w}

def bind : Dialogue Q R α → (α → Dialogue Q R β) → Dialogue Q R β
  | done a, f => f a
  | ask q k, f => ask q fun r => bind (k r) f

instance : Monad (Dialogue Q R) where
  pure := done
  bind := bind

/-- A question and its answer. -/
abbrev Exchange (Q : Type u) (R : Q → Type v) := (q : Q) × R q

/-- The party can have asked and been answered so, and ended with the result. -/
inductive Runs : Dialogue Q R α → List (Exchange Q R) → α → Prop where
  | done (a : α) : Runs (done a) [] a
  | ask {q : Q} {k : R q → Dialogue Q R α} {r : R q} {log : List (Exchange Q R)} {a : α}
      (h : Runs (k r) log a) : Runs (ask q k) (⟨q, r⟩ :: log) a

theorem runs_done {a b : α} {log : List (Exchange Q R)} :
    Runs (done a : Dialogue Q R α) log b ↔ log = [] ∧ b = a := by
  constructor
  · intro h
    cases h
    exact ⟨rfl, rfl⟩
  · rintro ⟨rfl, rfl⟩
    exact .done b

theorem runs_ask {q : Q} {k : R q → Dialogue Q R α} {log : List (Exchange Q R)} {a : α} :
    Runs (ask q k) log a ↔ ∃ (r : R q) (rest : List (Exchange Q R)),
      log = ⟨q, r⟩ :: rest ∧ Runs (k r) rest a := by
  constructor
  · intro h
    cases h with
    | ask h => exact ⟨_, _, rfl, h⟩
  · rintro ⟨r, rest, rfl, h⟩
    exact .ask h

/-- A question whose answer is the result. -/
theorem runs_question {R : Q → Type w} {q : Q} {log : List (Exchange Q R)} {a : R q} :
    Runs (ask q done : Dialogue Q R (R q)) log a ↔ log = [⟨q, a⟩] := by
  constructor
  · intro h
    obtain ⟨r, rest, rfl, hdone⟩ := runs_ask.mp h
    obtain ⟨rfl, rfl⟩ := runs_done.mp hdone
    rfl
  · rintro rfl
    exact .ask (.done a)

/-- A run of a sequence is one of its first part and then one of its second. -/
theorem runs_bind {p : Dialogue Q R α} {f : α → Dialogue Q R β} {log : List (Exchange Q R)}
    {b : β} : Runs (p.bind f) log b ↔
      ∃ first rest a, log = first ++ rest ∧ Runs p first a ∧ Runs (f a) rest b := by
  induction p generalizing log with
  | done a =>
    constructor
    · exact fun h => ⟨[], log, a, rfl, .done a, h⟩
    · rintro ⟨first, rest, a', rfl, hp, hf⟩
      obtain ⟨rfl, rfl⟩ := runs_done.mp hp
      exact hf
  | ask q k ih =>
    constructor
    · intro h
      obtain ⟨r, rest, rfl, hrest⟩ := runs_ask.mp h
      obtain ⟨first, rest', a, rfl, hk, hf⟩ := (ih r).mp hrest
      exact ⟨⟨q, r⟩ :: first, rest', a, rfl, .ask hk, hf⟩
    · rintro ⟨first, rest, a, rfl, hp, hf⟩
      obtain ⟨r, first, rfl, hk⟩ := runs_ask.mp hp
      exact .ask ((ih r).mpr ⟨first, rest, a, rfl, hk, hf⟩)

/-! ## With errors -/

/-- An error ends the party, or the rest goes on from the value. -/
theorem runs_bindExcept {p : ExceptT ε (Dialogue Q R) α} {f : α → ExceptT ε (Dialogue Q R) β}
    {log : List (Exchange Q R)} {b : Except ε β} :
    Runs (p >>= f).run log b ↔ (∃ e, b = .error e ∧ Runs p.run log (.error e)) ∨
      ∃ first rest a, log = first ++ rest ∧ Runs p.run first (.ok a) ∧ Runs (f a).run rest b := by
  have hbind : (p >>= f).run = Dialogue.bind p.run fun
      | .ok a => (f a).run
      | .error e => done (.error e) := by
    show Dialogue.bind p.run _ = _
    congr 1
    funext a
    cases a with
    | ok a => rfl
    | error e => rfl
  rw [hbind, runs_bind]
  constructor
  · rintro ⟨first, rest, a, rfl, hp, hf⟩
    cases a with
    | ok a => exact Or.inr ⟨first, rest, a, rfl, hp, hf⟩
    | error e =>
      obtain ⟨rfl, rfl⟩ := runs_done.mp hf
      exact Or.inl ⟨e, rfl, by rwa [List.append_nil]⟩
  · rintro (⟨e, rfl, hp⟩ | ⟨first, rest, a, rfl, hp, hf⟩)
    · exact ⟨log, [], .error e, (List.append_nil log).symm, hp, .done _⟩
    · exact ⟨first, rest, .ok a, rfl, hp, hf⟩

theorem runs_pureExcept {a : α} {log : List (Exchange Q R)} {b : Except ε α} :
    Runs (pure a : ExceptT ε (Dialogue Q R) α).run log b ↔ log = [] ∧ b = .ok a :=
  runs_done

theorem runs_throwExcept {e : ε} {log : List (Exchange Q R)} {b : Except ε α} :
    Runs (throw e : ExceptT ε (Dialogue Q R) α).run log b ↔ log = [] ∧ b = .error e :=
  runs_done

/-! ## In a world

The questions are answered by a world that others change in between. -/

/-- A question with its answer, and the world before and after. -/
structure Step (σ : Type u) (Q : Type u) (R : Q → Type v) where
  before : σ
  asked : Q
  answer : R asked
  after : σ

def Step.exchange {σ : Type u} (s : Step σ Q R) : Exchange Q R := ⟨s.asked, s.answer⟩

section World
variable {σ : Type u} {moves : σ → σ → Prop} {does : σ → (q : Q) → R q → σ → Prop}

/-- The steps lead from one world to the other, with moves of others before each. -/
inductive Linked (moves : σ → σ → Prop) (does : σ → (q : Q) → R q → σ → Prop) :
    σ → List (Step σ Q R) → σ → Prop where
  | nil (w : σ) : Linked moves does w [] w
  | cons {w w' : σ} {s : Step σ Q R} {log : List (Step σ Q R)} (hmoves : moves w s.before)
      (hdoes : does s.before s.asked s.answer s.after) (h : Linked moves does s.after log w') :
      Linked moves does w (s :: log) w'

theorem linked_nil {w w' : σ} : Linked moves does w ([] : List (Step σ Q R)) w' ↔ w' = w := by
  constructor
  · intro h
    cases h
    rfl
  · rintro rfl
    exact .nil w'

theorem linked_cons {w w' : σ} {s : Step σ Q R} {log : List (Step σ Q R)} :
    Linked moves does w (s :: log) w' ↔
      moves w s.before ∧ does s.before s.asked s.answer s.after ∧
        Linked moves does s.after log w' := by
  constructor
  · intro h
    cases h with
    | cons hmoves hdoes h => exact ⟨hmoves, hdoes, h⟩
  · rintro ⟨hmoves, hdoes, h⟩
    exact .cons hmoves hdoes h

theorem linked_append {w w' : σ} {first rest : List (Step σ Q R)} :
    Linked moves does w (first ++ rest) w' ↔
      ∃ w₁, Linked moves does w first w₁ ∧ Linked moves does w₁ rest w' := by
  induction first generalizing w with
  | nil =>
    constructor
    · exact fun h => ⟨w, .nil w, h⟩
    · rintro ⟨w₁, hfirst, hrest⟩
      rw [linked_nil.mp hfirst] at hrest
      exact hrest
  | cons s first ih =>
    rw [List.cons_append, linked_cons, ih]
    constructor
    · rintro ⟨hmoves, hdoes, w₁, hfirst, hrest⟩
      exact ⟨w₁, .cons hmoves hdoes hfirst, hrest⟩
    · rintro ⟨w₁, hfirst, hrest⟩
      obtain ⟨hmoves, hdoes, hfirst⟩ := linked_cons.mp hfirst
      exact ⟨hmoves, hdoes, w₁, hfirst, hrest⟩

/-- A run of the party in a world. -/
structure Plays (moves : σ → σ → Prop) (does : σ → (q : Q) → R q → σ → Prop) (w : σ)
    (p : Dialogue Q R α) (log : List (Step σ Q R)) (a : α) (w' : σ) : Prop where
  runs : Runs p (log.map Step.exchange) a
  linked : Linked moves does w log w'

theorem plays_done {a b : α} {w w' : σ} {log : List (Step σ Q R)} :
    Plays moves does w (done a) log b w' ↔ log = [] ∧ b = a ∧ w' = w := by
  constructor
  · rintro ⟨hruns, hlinked⟩
    obtain ⟨hlog, hb⟩ := runs_done.mp hruns
    rw [List.map_eq_nil_iff.mp hlog] at hlinked
    exact ⟨List.map_eq_nil_iff.mp hlog, hb, linked_nil.mp hlinked⟩
  · rintro ⟨rfl, rfl, rfl⟩
    exact ⟨.done b, .nil w'⟩

theorem plays_ask {q : Q} {k : R q → Dialogue Q R α} {w w' : σ} {log : List (Step σ Q R)} {a : α} :
    Plays moves does w (ask q k) log a w' ↔
      ∃ (before : σ) (r : R q) (after : σ) (rest : List (Step σ Q R)),
        log = ⟨before, q, r, after⟩ :: rest ∧ moves w before ∧ does before q r after ∧
          Plays moves does after (k r) rest a w' := by
  constructor
  · rintro ⟨hruns, hlinked⟩
    obtain ⟨r, tail, hlog, htail⟩ := runs_ask.mp hruns
    obtain ⟨s, rest, rfl, hs, rfl⟩ := List.map_eq_cons_iff.mp hlog
    obtain ⟨hmoves, hdoes, hrest⟩ := linked_cons.mp hlinked
    cases s with
    | mk before asked answer after =>
      cases hs
      exact ⟨before, answer, after, rest, rfl, hmoves, hdoes, htail, hrest⟩
  · rintro ⟨before, r, after, rest, rfl, hmoves, hdoes, hruns, hlinked⟩
    exact ⟨.ask hruns, .cons hmoves hdoes hlinked⟩

/-- A question whose answer is the result. -/
theorem plays_question {R : Q → Type w} {does : σ → (q : Q) → R q → σ → Prop} {q : Q} {w w' : σ}
    {log : List (Step σ Q R)} {a : R q} :
    Plays moves does w (ask q done : Dialogue Q R (R q)) log a w' ↔
      ∃ before, log = [⟨before, q, a, w'⟩] ∧ moves w before ∧ does before q a w' := by
  constructor
  · intro h
    obtain ⟨before, r, after, rest, rfl, hmoves, hdoes, hdone⟩ := plays_ask.mp h
    obtain ⟨rfl, rfl, rfl⟩ := plays_done.mp hdone
    exact ⟨before, rfl, hmoves, hdoes⟩
  · rintro ⟨before, rfl, hmoves, hdoes⟩
    exact plays_ask.mpr ⟨before, a, w', [], rfl, hmoves, hdoes, plays_done.mpr ⟨rfl, rfl, rfl⟩⟩

/-- An error ends the party, or the rest goes on from the value and the world then. -/
theorem plays_bindExcept {p : ExceptT ε (Dialogue Q R) α} {f : α → ExceptT ε (Dialogue Q R) β}
    {w w' : σ} {log : List (Step σ Q R)} {b : Except ε β} :
    Plays moves does w (p >>= f).run log b w' ↔
      (∃ e, b = .error e ∧ Plays moves does w p.run log (.error e) w') ∨
      ∃ first rest a w₁, log = first ++ rest ∧ Plays moves does w p.run first (.ok a) w₁ ∧
        Plays moves does w₁ (f a).run rest b w' := by
  constructor
  · rintro ⟨hruns, hlinked⟩
    rcases runs_bindExcept.mp hruns with ⟨e, rfl, hp⟩ | ⟨before, behind, a, hlog, hp, hf⟩
    · exact Or.inl ⟨e, rfl, hp, hlinked⟩
    · obtain ⟨first, rest, rfl, rfl, rfl⟩ := List.map_eq_append_iff.mp hlog
      obtain ⟨w₁, hfirst, hrest⟩ := linked_append.mp hlinked
      exact Or.inr ⟨first, rest, a, w₁, rfl, ⟨hp, hfirst⟩, hf, hrest⟩
  · rintro (⟨e, rfl, hruns, hlinked⟩ | ⟨first, rest, a, w₁, rfl, hp, hf⟩)
    · exact ⟨runs_bindExcept.mpr (Or.inl ⟨e, rfl, hruns⟩), hlinked⟩
    · refine ⟨runs_bindExcept.mpr (Or.inr ⟨_, _, a, List.map_append, hp.runs, hf.runs⟩), ?_⟩
      exact linked_append.mpr ⟨w₁, hp.linked, hf.linked⟩

theorem plays_bindOk {p : ExceptT ε (Dialogue Q R) α} {f : α → ExceptT ε (Dialogue Q R) β}
    {w w' : σ} {log : List (Step σ Q R)} {b : β} :
    Plays moves does w (p >>= f).run log (.ok b) w' ↔
      ∃ first rest a w₁, log = first ++ rest ∧ Plays moves does w p.run first (.ok a) w₁ ∧
        Plays moves does w₁ (f a).run rest (.ok b) w' := by
  rw [plays_bindExcept]
  constructor
  · rintro (⟨e, he, -⟩ | h)
    · cases he
    · exact h
  · exact Or.inr

theorem plays_pureExcept {a : α} {w w' : σ} {log : List (Step σ Q R)} {b : Except ε α} :
    Plays moves does w (pure a : ExceptT ε (Dialogue Q R) α).run log b w' ↔
      log = [] ∧ b = .ok a ∧ w' = w :=
  plays_done

theorem plays_throwExcept {e : ε} {w w' : σ} {log : List (Step σ Q R)} {b : Except ε α} :
    Plays moves does w (throw e : ExceptT ε (Dialogue Q R) α).run log b w' ↔
      log = [] ∧ b = .error e ∧ w' = w :=
  plays_done

end World

/-! ## What may be asked -/

/-- Whatever the answers are, every question is one of these. -/
def Asks (P : Q → Prop) (p : Dialogue Q R α) : Prop :=
  ∀ log a, Runs p log a → ∀ x ∈ log, P x.1

namespace Asks
variable {P : Q → Prop}

theorem question {q : Q} (h : P q) {k : R q → Dialogue Q R α} (hk : ∀ r, Asks P (k r)) :
    Asks P (ask q k) := by
  intro log a hruns x hx
  obtain ⟨r, rest, rfl, hrest⟩ := runs_ask.mp hruns
  rcases List.mem_cons.mp hx with rfl | hx
  · exact h
  · exact hk r rest a hrest x hx

theorem pure (a : α) : Asks P (done a : Dialogue Q R α) := by
  intro log b hruns x hx
  rw [(runs_done.mp hruns).1] at hx
  cases hx

theorem bindExcept {p : ExceptT ε (Dialogue Q R) α} {f : α → ExceptT ε (Dialogue Q R) β}
    (hp : Asks P p.run) (hf : ∀ a, Asks P (f a).run) : Asks P (p >>= f).run := by
  intro log b hruns x hx
  rcases runs_bindExcept.mp hruns with ⟨e, rfl, hfirst⟩ | ⟨first, rest, a, rfl, hfirst, hrest⟩
  · exact hp log _ hfirst x hx
  · rcases List.mem_append.mp hx with hx | hx
    · exact hp first _ hfirst x hx
    · exact hf a rest b hrest x hx

end Asks

end Dialogue

end Porthop
