import Porthop.Account.Model

/- What a step of an agent does, and the invariant of the account.

   `Moved` says it once for every step: how the locks follow the stage, that the files change
   only in the hands of the owner, and what an agent has published. -/
namespace Porthop.Account

structure Inv (s : State) : Prop where
  holds : ∀ p a, s.agents p = some a → a.stage.holdsSocket = true → s.socketLock = some p
  held : ∀ p, s.socketLock = some p → ∃ a, s.agents p = some a ∧ a.stage.holdsSocket = true
  lockHeld : ∀ p, s.lock = some p → ∃ a, s.agents p = some a ∧ a.stage.holdsLock = true
  last : ∀ p, s.socketLock = some p → s.owners.head? = some p
  socket : ∀ p, s.socket = some p → (s.agents p).isSome = true
  todo : ∀ p a todo, s.agents p = some a → a.stage = .starting todo →
    todo <:+ startup a.clipboard
  published : ∀ p a, s.agents p = some a → a.stage.published = true →
    s.files .agentClient = some p
  refused : ∀ p a o, s.agents p = some a → a.stage = .refused o → (s.agents o).isSome = true
  answered : ∀ p a x, s.agents p = some a → a.stage = .ended (some x) →
    (s.agents x.owner).isSome = true

/-- What a step of `p` does, from `a` to `a'`. -/
structure Moved (s : State) (p : Pid) (a a' : Agent) (s' : State) : Prop where
  agents : s'.agents = fun q => if q = p then some a' else s.agents q
  client : a'.client = a.client
  clipboard : a'.clipboard = a.clipboard
  running : ∀ x, a.stage ≠ .ended x
  socketLock : s'.socketLock = if a'.stage.holdsSocket then some p
    else if a.stage.holdsSocket then none else s.socketLock
  free : a.stage.holdsSocket = false → a'.stage.holdsSocket = true → s.socketLock = none
  owners : s'.owners = if a.stage.holdsSocket = false ∧ a'.stage.holdsSocket = true
    then p :: s.owners else s.owners
  lock : ∀ q, s'.lock = some q → q = p ∧ a'.stage.holdsLock = true ∨ q ≠ p ∧ s.lock = some q
  socket : ∀ q, s'.socket = some q → q = p ∨ s.socket = some q
  owned : s'.files ≠ s.files ∨ s'.socket ≠ s.socket → a.stage.holdsSocket = true
  todo : ∀ todo, a'.stage = .starting todo → todo <:+ startup a.clipboard
  published : a'.stage.published = true → s'.files .agentClient = some p
  refused : ∀ o, a'.stage = .refused o → (s.agents o).isSome = true
  answered : ∀ x, a'.stage = .ended (some x) →
    ∃ o, a.stage = .refused o ∧ x = refusal o s.published a.client

theorem Stage.holdsSocket_of_holdsLock {stage : Stage} (h : stage.holdsLock = true) :
    stage.holdsSocket = true := by
  cases stage <;> first | rfl | cases h

theorem Stage.holdsSocket_of_published {stage : Stage} (h : stage.published = true) :
    stage.holdsSocket = true := by
  cases stage <;> first | rfl | cases h

section
variable {s s' : State} {p : Pid} {a a' : Agent}

/-- Another agent than a holder of the socket lock does not hold it. -/
theorem Inv.alone (h : Inv s) {q : Pid} {b : Agent} (ha : s.agents p = some a)
    (hb : s.agents q = some b) (hpa : a.stage.holdsSocket = true)
    (hqb : b.stage.holdsSocket = true) : p = q :=
  Option.some.inj ((h.holds p a ha hpa).symm.trans (h.holds q b hb hqb))

theorem Moved.self (h : Moved s p a a' s') : s'.agents p = some a' := by
  rw [h.agents]
  exact if_pos rfl

theorem Moved.other (h : Moved s p a a' s') {q : Pid} (hq : q ≠ p) :
    s'.agents q = s.agents q := by
  rw [h.agents]
  exact if_neg hq

theorem Moved.isSome (h : Moved s p a a' s') {q : Pid} (hq : (s.agents q).isSome = true) :
    (s'.agents q).isSome = true := by
  by_cases heq : q = p
  · rw [heq, h.self]
    rfl
  · rw [h.other heq]
    exact hq

/-- An agent after the step is `p` or was there before. -/
theorem Moved.cases (h : Moved s p a a' s') {q : Pid} {b : Agent} (hb : s'.agents q = some b) :
    q = p ∧ b = a' ∨ q ≠ p ∧ s.agents q = some b := by
  by_cases heq : q = p
  · refine Or.inl ⟨heq, ?_⟩
    rw [heq, h.self] at hb
    exact (Option.some.inj hb).symm
  · exact Or.inr ⟨heq, (h.other heq).symm.trans hb⟩

/-- The other agents' files stay where they are published. -/
theorem Moved.files (h : Moved s p a a' s') (hinv : Inv s) (ha : s.agents p = some a) {q : Pid}
    {b : Agent} (hq : q ≠ p) (hb : s.agents q = some b) (hholds : b.stage.holdsSocket = true) :
    s'.files = s.files := by
  apply Classical.byContradiction
  intro hne
  exact hq (hinv.alone hb ha hholds (h.owned (Or.inl hne)))

theorem Moved.inv (h : Moved s p a a' s') (hinv : Inv s) (ha : s.agents p = some a) : Inv s' := by
  refine ⟨?_, ?_, ?_, ?_, ?_, ?_, ?_, ?_, ?_⟩
  · intro q b hb hholds
    rcases h.cases hb with ⟨rfl, rfl⟩ | ⟨hq, hb⟩
    · rw [h.socketLock, if_pos hholds]
    · have hlock := hinv.holds q b hb hholds
      have ha' : a'.stage.holdsSocket = false := by
        apply eq_false_of_ne_true
        intro ha'
        cases hpa : a.stage.holdsSocket with
        | true => exact hq (hinv.alone hb ha hholds hpa)
        | false =>
          rw [h.free hpa ha'] at hlock
          cases hlock
      have hpa : a.stage.holdsSocket = false :=
        eq_false_of_ne_true fun hpa => hq (hinv.alone hb ha hholds hpa)
      rw [h.socketLock, ha', hpa]
      exact hlock
  · intro q hq
    rw [h.socketLock] at hq
    by_cases ha' : a'.stage.holdsSocket = true
    · rw [if_pos ha'] at hq
      obtain rfl := Option.some.inj hq
      exact ⟨a', h.self, ha'⟩
    · rw [if_neg ha'] at hq
      by_cases hpa : a.stage.holdsSocket = true
      · rw [if_pos hpa] at hq
        cases hq
      · rw [if_neg hpa] at hq
        obtain ⟨b, hb, hholds⟩ := hinv.held q hq
        have hne : q ≠ p := by
          intro heq
          rw [heq, ha] at hb
          rw [Option.some.inj hb] at hpa
          exact hpa hholds
        exact ⟨b, (h.other hne).trans hb, hholds⟩
  · intro q hq
    rcases h.lock q hq with ⟨rfl, hlock⟩ | ⟨hne, hq⟩
    · exact ⟨a', h.self, hlock⟩
    · obtain ⟨b, hb, hlock⟩ := hinv.lockHeld q hq
      exact ⟨b, (h.other hne).trans hb, hlock⟩
  · intro q hq
    rw [h.socketLock] at hq
    rw [h.owners]
    by_cases ha' : a'.stage.holdsSocket = true
    · rw [if_pos ha'] at hq
      obtain rfl := Option.some.inj hq
      by_cases hpa : a.stage.holdsSocket = true
      · rw [if_neg (by simp [hpa])]
        exact hinv.last p (hinv.holds p a ha hpa)
      · rw [if_pos ⟨eq_false_of_ne_true hpa, ha'⟩]
        rfl
    · rw [if_neg ha'] at hq
      rw [if_neg (by simp [ha'])]
      by_cases hpa : a.stage.holdsSocket = true
      · rw [if_pos hpa] at hq
        cases hq
      · rw [if_neg hpa] at hq
        exact hinv.last q hq
  · intro q hq
    rcases h.socket q hq with rfl | hq
    · rw [h.self]
      rfl
    · exact h.isSome (hinv.socket q hq)
  · intro q b todo hb hstage
    rcases h.cases hb with ⟨rfl, rfl⟩ | ⟨hq, hb⟩
    · rw [h.clipboard]
      exact h.todo todo hstage
    · exact hinv.todo q b todo hb hstage
  · intro q b hb hpublished
    rcases h.cases hb with ⟨rfl, rfl⟩ | ⟨hq, hb⟩
    · exact h.published hpublished
    · rw [h.files hinv ha hq hb (Stage.holdsSocket_of_published hpublished)]
      exact hinv.published q b hb hpublished
  · intro q b o hb hstage
    rcases h.cases hb with ⟨rfl, rfl⟩ | ⟨hq, hb⟩
    · exact h.isSome (h.refused o hstage)
    · exact h.isSome (hinv.refused q b o hb hstage)
  · intro q b x hb hstage
    rcases h.cases hb with ⟨rfl, rfl⟩ | ⟨hq, hb⟩
    · obtain ⟨o, ho, rfl⟩ := h.answered x hstage
      apply h.isSome
      have hisSome := hinv.refused q a o ha ho
      unfold refusal
      split
      · exact hisSome
      · exact hisSome
    · exact h.isSome (hinv.answered q b x hb hstage)

/-! ## Steps -/

/-- What the new stage says, whatever becomes of the locks and files. -/
structure Says (s : State) (a a' : Agent) : Prop where
  client : a'.client = a.client
  clipboard : a'.clipboard = a.clipboard
  running : ∀ x, a.stage ≠ .ended x
  todo : ∀ todo, a'.stage = .starting todo → todo <:+ startup a.clipboard
  published : a'.stage.published = true → a.stage.published = true
  refused : ∀ o, a'.stage = .refused o → (s.agents o).isSome = true
  answered : ∀ x, a'.stage = .ended (some x) →
    ∃ o, a.stage = .refused o ∧ x = refusal o s.published a.client

/-- A stage that neither starts, serves nor answers. -/
def Stage.plain : Stage → Bool
  | .starting _ | .serving | .refused _ | .ended (some _) => false
  | _ => true

theorem Stage.unpublished_of_plain {stage : Stage} (h : stage.plain = true) :
    stage.published = false := by
  cases stage with
  | starting todo => cases h
  | serving => cases h
  | _ => rfl

theorem Says.plain (stage : Stage) (listens : Bool) (hrunning : ∀ x, a.stage ≠ .ended x)
    (hplain : stage.plain = true) : Says s a { a with stage := stage, listens := listens } := by
  refine ⟨rfl, rfl, hrunning, ?_, ?_, ?_, ?_⟩
  · rintro todo rfl
    cases hplain
  · intro hpublished
    rw [Stage.unpublished_of_plain hplain] at hpublished
    cases hpublished
  · rintro o rfl
    cases hplain
  · rintro x rfl
    cases hplain

theorem Says.refused_by (hrunning : ∀ x, a.stage ≠ .ended x) {o : Pid}
    (ho : (s.agents o).isSome = true) : Says s a { a with stage := .refused o } := by
  refine ⟨rfl, rfl, hrunning, ?_, ?_, ?_, ?_⟩
  · intro todo h
    cases h
  · intro h
    cases h
  · rintro o' ⟨⟩
    exact ho
  · intro x h
    cases h

/-- A step that takes or leaves no lock. -/
theorem moved_keep (hinv : Inv s) (ha : s.agents p = some a) (hs : Says s a a')
    (hsocket : a'.stage.holdsSocket = a.stage.holdsSocket)
    (hlock : a.stage.holdsLock = true → a'.stage.holdsLock = true) : Moved s p a a' (s.put p a') := by
  refine ⟨rfl, hs.client, hs.clipboard, hs.running, ?_, ?_, ?_, ?_, ?_, ?_, hs.todo, ?_, hs.refused,
    hs.answered⟩
  · rw [hsocket]
    cases hholds : a.stage.holdsSocket with
    | true => exact hinv.holds p a ha hholds
    | false => rfl
  · intro hfalse htrue
    rw [hsocket, hfalse] at htrue
    cases htrue
  · rw [hsocket, if_neg (by simp)]
    rfl
  · intro q hq
    by_cases heq : q = p
    · obtain ⟨b, hb, hholds⟩ := hinv.lockHeld q hq
      rw [heq, ha] at hb
      rw [← Option.some.inj hb] at hholds
      exact Or.inl ⟨heq, hlock hholds⟩
    · exact Or.inr ⟨heq, hq⟩
  · exact fun q hq => Or.inr hq
  · rintro (hne | hne)
    · exact absurd rfl hne
    · exact absurd rfl hne
  · intro hpublished
    exact hinv.published p a ha (hs.published hpublished)

/-- A step that leaves the socket lock, and the second one if the agent has it. -/
theorem moved_release (hinv : Inv s) (ha : s.agents p = some a) (hs : Says s a a')
    (hsocket : a'.stage.holdsSocket = false) {t : State} (hagents : t.agents = s.agents)
    (hfiles : t.files = s.files) (hsame : t.socket = s.socket) (howners : t.owners = s.owners)
    (hsocketLock : t.socketLock = if s.socketLock = some p then none else s.socketLock)
    (hlock : ∀ q, t.lock = some q → q ≠ p ∧ s.lock = some q) : Moved s p a a' (t.put p a') := by
  refine ⟨?_, hs.client, hs.clipboard, hs.running, ?_, ?_, ?_, ?_, ?_, ?_, hs.todo, ?_, hs.refused,
    hs.answered⟩
  · change (fun q => if q = p then some a' else t.agents q) = _
    rw [hagents]
  · change t.socketLock = _
    rw [hsocketLock, hsocket, if_neg Bool.false_ne_true]
    by_cases hholds : a.stage.holdsSocket = true
    · rw [if_pos (hinv.holds p a ha hholds), if_pos hholds]
    · rw [if_neg hholds, if_neg]
      intro hp
      obtain ⟨b, hb, hbholds⟩ := hinv.held p hp
      rw [ha] at hb
      rw [Option.some.inj hb] at hholds
      exact hholds hbholds
  · intro _ htrue
    rw [hsocket] at htrue
    cases htrue
  · change t.owners = _
    rw [howners, if_neg]
    intro h
    rw [hsocket] at h
    cases h.2
  · exact fun q hq => Or.inr (hlock q hq)
  · intro q hq
    change t.socket = some q at hq
    rw [hsame] at hq
    exact Or.inr hq
  · rintro (hne | hne)
    · exact absurd hfiles hne
    · exact absurd hsame hne
  · intro hpublished
    have hholds := Stage.holdsSocket_of_published hpublished
    rw [hsocket] at hholds
    cases hholds

/-- An agent without the second lock lets go of the socket lock. -/
theorem moved_giveUp (hinv : Inv s) (ha : s.agents p = some a) (hs : Says s a a')
    (hsocket : a'.stage.holdsSocket = false) (hlock : a.stage.holdsLock = false) :
    Moved s p a a' ((s.release p).put p a') := by
  refine moved_release hinv ha hs hsocket rfl rfl rfl rfl rfl ?_
  intro q hq
  refine ⟨?_, hq⟩
  intro heq
  obtain ⟨b, hb, hholds⟩ := hinv.lockHeld q hq
  rw [heq, ha] at hb
  rw [← Option.some.inj hb, hlock] at hholds
  cases hholds

theorem startup_keeps (clipboard : Bool) (must : Bool) :
    Effect.remove .agentClient must ∉ startup clipboard := by
  cases clipboard <;> cases must <;> decide

/-- An effect of an owner: the step changes files only. -/
theorem moved_effect (hinv : Inv s) (ha : s.agents p = some a) {stage : Stage} (e : Effect)
    (hrunning : ∀ x, a.stage ≠ .ended x) (hholds : a.stage.holdsSocket = true)
    (hsocket : stage.holdsSocket = true) (hlock : stage.holdsLock = true)
    (htodo : ∀ todo, stage = .starting todo → todo <:+ startup a.clipboard)
    (hpublished : stage.published = true → (s.effect p e).files .agentClient = some p)
    (hrefused : ∀ o, stage ≠ .refused o) (hanswered : ∀ x, stage ≠ .ended x) :
    Moved s p a { a with stage := stage } ((s.effect p e).put p { a with stage := stage }) := by
  have hsame : (s.effect p e).agents = s.agents ∧ (s.effect p e).socketLock = s.socketLock ∧
      (s.effect p e).lock = s.lock ∧ (s.effect p e).socket = s.socket ∧
      (s.effect p e).owners = s.owners := by
    cases e <;> exact ⟨rfl, rfl, rfl, rfl, rfl⟩
  obtain ⟨hagents, hsocketLock, hlocks, hsockets, howners⟩ := hsame
  refine ⟨?_, rfl, rfl, hrunning, ?_, ?_, ?_, ?_, ?_, fun _ => hholds, htodo, hpublished, ?_, ?_⟩
  · change (fun q => if q = p then _ else (s.effect p e).agents q) = _
    rw [hagents]
  · change (s.effect p e).socketLock = _
    rw [hsocketLock, if_pos hsocket]
    exact hinv.holds p a ha hholds
  · intro hfalse
    rw [hholds] at hfalse
    cases hfalse
  · change (s.effect p e).owners = _
    rw [howners, hholds, if_neg (by simp)]
  · intro q hq
    change (s.effect p e).lock = some q at hq
    rw [hlocks] at hq
    by_cases heq : q = p
    · exact Or.inl ⟨heq, hlock⟩
    · exact Or.inr ⟨heq, hq⟩
  · intro q hq
    change (s.effect p e).socket = some q at hq
    rw [hsockets] at hq
    exact Or.inr hq
  · exact fun o h => absurd h (hrefused o)
  · exact fun x h => absurd h (hanswered (some x))

end

end Porthop.Account
