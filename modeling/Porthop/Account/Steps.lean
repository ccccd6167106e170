import Porthop.Account.Owned

/- Every step of an agent is one of the moves, so the invariant holds at any time. -/
namespace Porthop.Account

section
variable {s s' : State} {p : Pid} {a : Agent}

/-- A step to a stage that says nothing takes or leaves no lock. -/
theorem moved_plain (hinv : Inv s) (ha : s.agents p = some a) {stage : Stage} (listens : Bool)
    (hrunning : ∀ x, a.stage ≠ .ended x) (hplain : stage.plain = true)
    (hsocket : stage.holdsSocket = a.stage.holdsSocket)
    (hlock : a.stage.holdsLock = true → stage.holdsLock = true) :
    Moved s p a { a with stage := stage, listens := listens }
      (s.put p { a with stage := stage, listens := listens }) :=
  moved_keep hinv ha (Says.plain stage listens hrunning hplain) hsocket hlock

theorem unlock_lock {q : Pid} (h : (s.unlock p).lock = some q) : q ≠ p ∧ s.lock = some q := by
  change (if s.lock = some p then none else s.lock) = some q at h
  by_cases hp : s.lock = some p
  · rw [if_pos hp] at h
    cases h
  · rw [if_neg hp] at h
    refine ⟨?_, h⟩
    rintro rfl
    exact hp h

theorem unbind_socket {q : Pid} (h : (s.unbind p).socket = some q) : s.socket = some q := by
  change (if s.socket = some p then none else s.socket) = some q at h
  by_cases hp : s.socket = some p
  · rw [if_pos hp] at h
    cases h
  · rw [if_neg hp] at h
    exact h

/-- The first lock: it is taken, or its holder refuses. -/
theorem moved_locking (hinv : Inv s) (ha : s.agents p = some a) (hstage : a.stage = .locking)
    (hstep : s.go p a = some s') : ∃ a', Moved s p a a' s' := by
  have hrunning : ∀ x, a.stage ≠ .ended x := by
    intro x h
    rw [hstage] at h
    cases h
  unfold State.go at hstep
  rw [hstage] at hstep
  match hsocket : s.socketLock with
  | some owner =>
    simp only [hsocket] at hstep
    obtain rfl := Option.some.inj hstep
    obtain ⟨b, hb, -⟩ := hinv.held owner hsocket
    refine ⟨_, moved_keep hinv ha (Says.refused_by hrunning (by rw [hb]; rfl)) ?_ ?_⟩
    · rw [hstage]
      rfl
    · intro h
      rw [hstage] at h
      cases h
  | none =>
    simp only [hsocket] at hstep
    obtain rfl := Option.some.inj hstep
    have hsays := Says.plain (s := s) (a := a) .probing a.listens hrunning rfl
    refine ⟨{ a with stage := .probing }, rfl, rfl, rfl, hrunning, rfl, fun _ _ => hsocket, ?_, ?_,
      fun q hq => Or.inr hq, ?_, hsays.todo, ?_, hsays.refused, hsays.answered⟩
    · rw [hstage]
      rfl
    · intro q hq
      refine Or.inr ⟨?_, hq⟩
      rintro rfl
      obtain ⟨b, hb, hholds⟩ := hinv.lockHeld q hq
      rw [ha] at hb
      rw [← Option.some.inj hb, hstage] at hholds
      cases hholds
    · rintro (hne | hne)
      · exact absurd rfl hne
      · exact absurd rfl hne
    · intro h
      cases h

/-- A step of an owner of the socket lock that changes the socket file only. -/
theorem moved_socket (hinv : Inv s) (ha : s.agents p = some a) {stage : Stage} {listens : Bool}
    (hrunning : ∀ x, a.stage ≠ .ended x) (hplain : stage.plain = true)
    (hsocket : stage.holdsSocket = true) (hholds : a.stage.holdsSocket = true)
    (hlock : a.stage.holdsLock = true → stage.holdsLock = true) {socket : Option Pid}
    (hnew : ∀ q, socket = some q → q = p ∨ s.socket = some q) :
    Moved s p a { a with stage := stage, listens := listens }
      { s.put p { a with stage := stage, listens := listens } with socket := socket } := by
  have hmoved := moved_plain hinv ha listens hrunning hplain (hsocket.trans hholds.symm) hlock
  exact ⟨hmoved.agents, rfl, rfl, hrunning, hmoved.socketLock, hmoved.free, hmoved.owners,
    hmoved.lock, hnew, fun _ => hholds, hmoved.todo, hmoved.published, hmoved.refused, hmoved.answered⟩

/-- The second lock is taken or left. -/
theorem moved_lock (hinv : Inv s) (ha : s.agents p = some a) {stage : Stage}
    (hrunning : ∀ x, a.stage ≠ .ended x) (hplain : stage.plain = true)
    (hsocket : stage.holdsSocket = true) (hholds : a.stage.holdsSocket = true) {lock : Option Pid}
    (hlock : ∀ q, lock = some q → q = p ∧ stage.holdsLock = true ∨ q ≠ p ∧ s.lock = some q) :
    Moved s p a { a with stage := stage } { s.put p { a with stage := stage } with lock := lock } := by
  have hsays := Says.plain (s := s) (a := a) stage a.listens hrunning hplain
  refine ⟨rfl, rfl, rfl, hrunning, ?_, ?_, ?_, hlock, fun q hq => Or.inr hq, fun _ => hholds, hsays.todo,
    ?_, hsays.refused, hsays.answered⟩
  · rw [if_pos hsocket]
    exact hinv.holds p a ha hholds
  · intro hfalse
    rw [hholds] at hfalse
    cases hfalse
  · rw [hholds, if_neg (by simp)]
    rfl
  · intro hpublished
    rw [Stage.unpublished_of_plain hplain] at hpublished
    cases hpublished

/-- The steps of `Endpoint.fixed` under the lock. -/
theorem moved_binding (hinv : Inv s) (ha : s.agents p = some a)
    (hstage : a.stage = .probing ∨ a.stage = .connecting ∨ (∃ q, a.stage = .rechecking q) ∨
      a.stage = .unlinking ∨ a.stage = .binding)
    (hstep : s.go p a = some s') : ∃ a', Moved s p a a' s' := by
  unfold State.go at hstep
  rcases hstage with hstage | hstage | ⟨q, hstage⟩ | hstage | hstage
  · rw [hstage] at hstep
    obtain rfl := Option.some.inj hstep
    have hplain : (if s.socket.isSome then Stage.connecting else .binding).plain = true ∧
        (if s.socket.isSome then Stage.connecting else .binding).holdsSocket = true := by
      split <;> exact ⟨rfl, rfl⟩
    refine ⟨_, moved_plain hinv ha _ (by simp [hstage]) hplain.1 ?_ ?_⟩
    · rw [hplain.2, hstage]
      rfl
    · simp [hstage, Stage.holdsLock]
  · rw [hstage] at hstep
    match hsocket : s.socket with
    | none =>
      simp only [hsocket] at hstep
      obtain rfl := Option.some.inj hstep
      exact ⟨_, moved_plain hinv ha _ (by simp [hstage]) rfl (by rw [hstage]; rfl) (by simp [hstage, Stage.holdsLock])⟩
    | some q =>
      simp only [hsocket] at hstep
      split at hstep
      · obtain rfl := Option.some.inj hstep
        exact ⟨_, moved_giveUp hinv ha (Says.refused_by (by simp [hstage]) (hinv.socket q hsocket)) rfl
          (by rw [hstage]; rfl)⟩
      · obtain rfl := Option.some.inj hstep
        exact ⟨_, moved_plain hinv ha _ (by simp [hstage]) rfl (by rw [hstage]; rfl) (by simp [hstage, Stage.holdsLock])⟩
  · rw [hstage] at hstep
    simp only at hstep
    split at hstep
    · obtain rfl := Option.some.inj hstep
      exact ⟨_, moved_plain hinv ha _ (by simp [hstage]) rfl (by rw [hstage]; rfl) (by simp [hstage, Stage.holdsLock])⟩
    · obtain rfl := Option.some.inj hstep
      exact ⟨_, moved_giveUp hinv ha (Says.plain _ _ (by simp [hstage]) rfl) rfl (by rw [hstage]; rfl)⟩
  · rw [hstage] at hstep
    obtain rfl := Option.some.inj hstep
    exact ⟨_, moved_socket hinv ha (by simp [hstage]) rfl rfl (by rw [hstage]; rfl)
      (by simp [hstage, Stage.holdsLock]) (by simp)⟩
  · rw [hstage] at hstep
    match hsocket : s.socket with
    | some q =>
      simp only [hsocket] at hstep
      obtain rfl := Option.some.inj hstep
      exact ⟨_, moved_giveUp hinv ha (Says.refused_by (by simp [hstage]) (hinv.socket q hsocket)) rfl
        (by rw [hstage]; rfl)⟩
    | none =>
      simp only [hsocket] at hstep
      obtain rfl := Option.some.inj hstep
      refine ⟨_, moved_socket hinv ha (by simp [hstage]) rfl rfl (by rw [hstage]; rfl)
        (by simp [hstage, Stage.holdsLock]) ?_⟩
      intro q hq
      exact Or.inl (Option.some.inj hq).symm

/-- The steps of `Session.start` once the socket is bound, and those of `run`. -/
theorem moved_starting (hinv : Inv s) (ha : s.agents p = some a)
    (hstage : a.stage = .bound ∨ a.stage = .locked ∨ (∃ todo, a.stage = .starting todo) ∨
      a.stage = .serving)
    (hstep : s.go p a = some s') : ∃ a', Moved s p a a' s' := by
  unfold State.go at hstep
  rcases hstage with hstage | hstage | ⟨todo, hstage⟩ | hstage
  · rw [hstage] at hstep
    match hlock : s.lock with
    | some q =>
      simp only [hlock] at hstep
      obtain rfl := Option.some.inj hstep
      exact ⟨_, moved_plain hinv ha _ (by simp [hstage]) rfl (by rw [hstage]; rfl) (by simp [hstage, Stage.holdsLock])⟩
    | none =>
      simp only [hlock] at hstep
      obtain rfl := Option.some.inj hstep
      refine ⟨_, moved_lock hinv ha (by simp [hstage]) rfl rfl (by rw [hstage]; rfl) ?_⟩
      intro q hq
      exact Or.inl ⟨(Option.some.inj hq).symm, rfl⟩
  · rw [hstage] at hstep
    obtain rfl := Option.some.inj hstep
    refine ⟨_, moved_keep hinv ha ⟨rfl, rfl, by simp [hstage], ?_, ?_, ?_, ?_⟩ (by rw [hstage]; rfl) fun _ => rfl⟩
    · rintro todo ⟨⟩
      exact List.suffix_rfl
    · intro hpublished
      have hfalse : (Stage.starting (startup a.clipboard)).published = false := by
        cases a.clipboard <;> decide
      rw [hfalse] at hpublished
      cases hpublished
    · intro o h
      cases h
    · intro x h
      cases h
  · have hsuffix := hinv.todo p a todo ha hstage
    match todo with
    | [] =>
      rw [hstage] at hstep
      obtain rfl := Option.some.inj hstep
      refine ⟨_, moved_keep hinv ha ⟨rfl, rfl, by simp [hstage], ?_, ?_, ?_, ?_⟩ (by rw [hstage]; rfl) fun _ => rfl⟩
      · intro todo h
        cases h
      · intro _
        rw [hstage]
        rfl
      · intro o h
        cases h
      · intro x h
        cases h
    | e :: todo =>
      rw [hstage] at hstep
      obtain rfl := Option.some.inj hstep
      refine ⟨_, moved_effect hinv ha e (by simp [hstage]) (by rw [hstage]; rfl) rfl rfl ?_ ?_
        (by simp) (by simp)⟩
      · rintro todo' ⟨⟩
        exact (List.suffix_cons e todo).trans hsuffix
      · intro hpublished
        -- `agent-client` was written at this step or before it
        have htodo : Effect.write .agentClient ∉ todo := by simpa [Stage.published] using hpublished
        have hbefore : e ≠ .write .agentClient → s.files .agentClient = some p := by
          intro hne
          apply hinv.published p a ha
          rw [hstage]
          simp [Stage.published, htodo, Ne.symm hne]
        match e with
        | .write n =>
          by_cases hn : n = .agentClient
          · rw [hn]
            rfl
          · change (if Name.agentClient = n then some p else s.files .agentClient) = some p
            rw [if_neg (Ne.symm hn)]
            exact hbefore (by simp [hn])
        | .remove n must =>
          have hn : Name.agentClient ≠ n := by
            rintro rfl
            exact startup_keeps a.clipboard must (hsuffix.mem List.mem_cons_self)
          change (if Name.agentClient = n then none else s.files .agentClient) = some p
          rw [if_neg hn]
          exact hbefore (by simp)
        | .backend => exact hbefore (by simp)
  · rw [hstage] at hstep
    obtain rfl := Option.some.inj hstep
    exact ⟨_, moved_plain hinv ha _ (by simp [hstage]) rfl (by rw [hstage]; rfl) fun _ => rfl⟩

/-- The drops. -/
theorem moved_closing (hinv : Inv s) (ha : s.agents p = some a)
    (hstage : (∃ todo, a.stage = .closing todo) ∨ a.stage = .unlocking ∨ a.stage = .unbinding ∨
      a.stage = .releasing ∨ a.stage = .dropping)
    (hstep : s.go p a = some s') : ∃ a', Moved s p a a' s' := by
  unfold State.go at hstep
  rcases hstage with ⟨todo, hstage⟩ | hstage | hstage | hstage | hstage
  · match todo with
    | [] =>
      rw [hstage] at hstep
      obtain rfl := Option.some.inj hstep
      exact ⟨_, moved_plain hinv ha _ (by simp [hstage]) rfl (by rw [hstage]; rfl) fun _ => rfl⟩
    | e :: todo =>
      rw [hstage] at hstep
      obtain rfl := Option.some.inj hstep
      exact ⟨_, moved_effect hinv ha e (by simp [hstage]) (by rw [hstage]; rfl) rfl rfl (by simp)
        (by simp [Stage.published]) (by simp) (by simp)⟩
  · rw [hstage] at hstep
    obtain rfl := Option.some.inj hstep
    refine ⟨_, moved_lock hinv ha (by simp [hstage]) rfl rfl (by rw [hstage]; rfl) ?_⟩
    exact fun q hq => Or.inr (unlock_lock hq)
  · rw [hstage] at hstep
    obtain rfl := Option.some.inj hstep
    refine ⟨_, moved_socket hinv ha (by simp [hstage]) rfl rfl (by rw [hstage]; rfl)
      (by simp [hstage, Stage.holdsLock]) ?_⟩
    exact fun q hq => Or.inr (unbind_socket hq)
  · rw [hstage] at hstep
    obtain rfl := Option.some.inj hstep
    exact ⟨_, moved_giveUp hinv ha (Says.plain _ _ (by simp [hstage]) rfl) rfl (by rw [hstage]; rfl)⟩
  · rw [hstage] at hstep
    obtain rfl := Option.some.inj hstep
    exact ⟨_, moved_plain hinv ha _ (by simp [hstage]) rfl (by rw [hstage]; rfl) (by simp [hstage, Stage.holdsLock])⟩

/-- A refused agent reads the published client id and answers. -/
theorem moved_refused (hinv : Inv s) (ha : s.agents p = some a) {o : Pid}
    (hstage : a.stage = .refused o) (hstep : s.go p a = some s') :
    Moved s p a { a with stage := .ended (some (refusal o s.published a.client)) } s' := by
  unfold State.go at hstep
  rw [hstage] at hstep
  obtain rfl := Option.some.inj hstep
  refine moved_keep hinv ha ⟨rfl, rfl, by simp [hstage], ?_, ?_, ?_, ?_⟩ (by rw [hstage]; rfl)
    (by simp [hstage, Stage.holdsLock])
  · intro todo h
    cases h
  · intro h
    cases h
  · intro o' h
    cases h
  · rintro x ⟨⟩
    exact ⟨o, hstage, rfl⟩

theorem moved_go (hinv : Inv s) (ha : s.agents p = some a) (hstep : s.go p a = some s') :
    ∃ a', Moved s p a a' s' := by
  cases hstage : a.stage with
  | locking => exact moved_locking hinv ha hstage hstep
  | refused o => exact ⟨_, moved_refused hinv ha hstage hstep⟩
  | probing => exact moved_binding hinv ha (by simp [hstage]) hstep
  | connecting => exact moved_binding hinv ha (by simp [hstage]) hstep
  | rechecking q => exact moved_binding hinv ha (by simp [hstage]) hstep
  | unlinking => exact moved_binding hinv ha (by simp [hstage]) hstep
  | binding => exact moved_binding hinv ha (by simp [hstage]) hstep
  | bound => exact moved_starting hinv ha (by simp [hstage]) hstep
  | locked => exact moved_starting hinv ha (by simp [hstage]) hstep
  | starting todo => exact moved_starting hinv ha (by simp [hstage]) hstep
  | serving => exact moved_starting hinv ha (by simp [hstage]) hstep
  | closing todo => exact moved_closing hinv ha (by simp [hstage]) hstep
  | unlocking => exact moved_closing hinv ha (by simp [hstage]) hstep
  | unbinding => exact moved_closing hinv ha (by simp [hstage]) hstep
  | releasing => exact moved_closing hinv ha (by simp [hstage]) hstep
  | dropping => exact moved_closing hinv ha (by simp [hstage]) hstep
  | ended x =>
    unfold State.go at hstep
    rw [hstage] at hstep
    cases hstep

/-- A step that fails answers nothing. -/
theorem moved_fail (hinv : Inv s) (ha : s.agents p = some a) (hstep : s.fail p a = some s') :
    ∃ a', Moved s p a a' s' ∧ ∀ x, a'.stage ≠ .ended (some x) := by
  unfold State.fail at hstep
  have hgiveUp : ∀ stage : Stage, a.stage = stage → stage.holdsLock = false →
      (∀ x, stage ≠ .ended x) → Moved s p a { a with stage := .ended none }
        ((s.release p).put p { a with stage := .ended none }) := by
    intro stage hstage hlock hrunning
    apply moved_giveUp hinv ha (Says.plain _ _ (by rw [hstage]; exact hrunning) rfl) rfl
    rw [hstage]
    exact hlock
  cases hstage : a.stage with
  | locking =>
    rw [hstage] at hstep
    obtain rfl := Option.some.inj hstep
    exact ⟨_, moved_plain hinv ha _ (by simp [hstage]) rfl (by rw [hstage]; rfl)
      (by simp [hstage, Stage.holdsLock]), by simp⟩
  | probing =>
    rw [hstage] at hstep
    obtain rfl := Option.some.inj hstep
    exact ⟨_, hgiveUp _ hstage rfl (by simp), by simp⟩
  | connecting =>
    rw [hstage] at hstep
    obtain rfl := Option.some.inj hstep
    exact ⟨_, hgiveUp _ hstage rfl (by simp), by simp⟩
  | rechecking q =>
    rw [hstage] at hstep
    obtain rfl := Option.some.inj hstep
    exact ⟨_, hgiveUp _ hstage rfl (by simp), by simp⟩
  | unlinking =>
    rw [hstage] at hstep
    obtain rfl := Option.some.inj hstep
    exact ⟨_, hgiveUp _ hstage rfl (by simp), by simp⟩
  | binding =>
    rw [hstage] at hstep
    obtain rfl := Option.some.inj hstep
    exact ⟨_, hgiveUp _ hstage rfl (by simp), by simp⟩
  | bound =>
    rw [hstage] at hstep
    obtain rfl := Option.some.inj hstep
    exact ⟨_, moved_plain hinv ha _ (by simp [hstage]) rfl (by rw [hstage]; rfl)
      (by simp [hstage, Stage.holdsLock]), by simp⟩
  | locked =>
    rw [hstage] at hstep
    obtain rfl := Option.some.inj hstep
    exact ⟨_, moved_plain hinv ha _ (by simp [hstage]) rfl (by rw [hstage]; rfl) fun _ => rfl, by simp⟩
  | starting todo =>
    rw [hstage] at hstep
    obtain rfl := Option.some.inj hstep
    exact ⟨_, moved_plain hinv ha _ (by simp [hstage]) rfl (by rw [hstage]; rfl) fun _ => rfl, by simp⟩
  | serving =>
    rw [hstage] at hstep
    obtain rfl := Option.some.inj hstep
    exact ⟨_, moved_plain hinv ha _ (by simp [hstage]) rfl (by rw [hstage]; rfl) fun _ => rfl, by simp⟩
  | _ =>
    rw [hstage] at hstep
    cases hstep

theorem moved_skip (hinv : Inv s) (ha : s.agents p = some a) (hstep : s.skip p a = some s') :
    ∃ a', Moved s p a a' s' ∧ ∀ x, a'.stage ≠ .ended (some x) := by
  unfold State.skip at hstep
  split at hstep
  · next n todo hstage =>
    obtain rfl := Option.some.inj hstep
    refine ⟨_, moved_keep hinv ha ⟨rfl, rfl, by simp [hstage], ?_, ?_, ?_, ?_⟩ (by rw [hstage]; rfl)
      fun _ => rfl, by simp⟩
    · rintro todo' ⟨⟩
      exact (List.suffix_cons _ todo).trans (hinv.todo p a _ ha hstage)
    · intro hpublished
      rw [hstage]
      simpa [Stage.published] using hpublished
    · intro o h
      cases h
    · intro x h
      cases h
  · next e todo hstage =>
    obtain rfl := Option.some.inj hstep
    exact ⟨_, moved_plain hinv ha _ (by simp [hstage]) rfl (by rw [hstage]; rfl) fun _ => rfl, by simp⟩
  · next hstage =>
    obtain rfl := Option.some.inj hstep
    exact ⟨_, moved_plain hinv ha _ (by simp [hstage]) rfl (by rw [hstage]; rfl)
      (by simp [hstage, Stage.holdsLock]), by simp⟩
  · cases hstep

theorem moved_kill (hinv : Inv s) (ha : s.agents p = some a) (hrunning : ∀ x, a.stage ≠ .ended x) :
    Moved s p a { a with stage := .ended none, listens := false }
      (((s.release p).unlock p).put p { a with stage := .ended none, listens := false }) :=
  moved_release hinv ha (Says.plain _ _ hrunning rfl) rfl rfl rfl rfl rfl rfl fun _ hq => unlock_lock hq

theorem moved_publish (hinv : Inv s) (ha : s.agents p = some a) (hstage : a.stage = .serving)
    {n : Name} (hn : n ≠ .agentClient) : Moved s p a a (s.setFile n (some p)) := by
  have hholds : a.stage.holdsSocket = true := by
    rw [hstage]
    rfl
  refine ⟨?_, rfl, rfl, by simp [hstage], ?_, ?_, ?_, ?_, fun q hq => Or.inr hq, fun _ => hholds,
    by simp [hstage], ?_, by simp [hstage], by simp [hstage]⟩
  · funext q
    by_cases hq : q = p
    · rw [if_pos hq, hq]
      exact ha
    · rw [if_neg hq]
      rfl
  · rw [if_pos hholds]
    exact hinv.holds p a ha hholds
  · intro hfalse
    rw [hholds] at hfalse
    cases hfalse
  · rw [hholds, if_neg (by simp)]
    rfl
  · intro q hq
    by_cases heq : q = p
    · refine Or.inl ⟨heq, ?_⟩
      rw [hstage]
      rfl
    · exact Or.inr ⟨heq, hq⟩
  · intro hpublished
    change (if Name.agentClient = n then some p else s.files .agentClient) = some p
    rw [if_neg (Ne.symm hn)]
    exact hinv.published p a ha hpublished

/-! ## Any step -/

/-- Every step of an agent that is there moves it, and only one that goes on answers. -/
theorem step_moved (hinv : Inv s) {l : Label} (hstep : step s l = some s')
    (hspawn : ∀ q client clipboard, l ≠ .spawn q client clipboard) :
    ∃ a a', s.agents l.actor = some a ∧ Moved s l.actor a a' s' ∧
      ((∀ q, l ≠ .go q) → ∀ x, a'.stage ≠ .ended (some x)) := by
  cases l with
  | spawn q client clipboard => exact absurd rfl (hspawn q client clipboard)
  | go q =>
    obtain ⟨a, ha, hgo⟩ := Option.bind_eq_some_iff.mp hstep
    obtain ⟨a', hmoved⟩ := moved_go hinv ha hgo
    exact ⟨a, a', ha, hmoved, fun hne => absurd rfl (hne q)⟩
  | fail q =>
    obtain ⟨a, ha, hfail⟩ := Option.bind_eq_some_iff.mp hstep
    obtain ⟨a', hmoved, hsilent⟩ := moved_fail hinv ha hfail
    exact ⟨a, a', ha, hmoved, fun _ => hsilent⟩
  | skip q =>
    obtain ⟨a, ha, hskip⟩ := Option.bind_eq_some_iff.mp hstep
    obtain ⟨a', hmoved, hsilent⟩ := moved_skip hinv ha hskip
    exact ⟨a, a', ha, hmoved, fun _ => hsilent⟩
  | kill q =>
    obtain ⟨a, ha, hkill⟩ := Option.bind_eq_some_iff.mp hstep
    have hrunning : ∀ x, a.stage ≠ .ended x := by
      intro x hx
      rw [hx] at hkill
      cases hkill
    have hs' : s' = ((s.release q).unlock q).put q { a with stage := .ended none, listens := false } := by
      split at hkill
      · cases hkill
      · exact (Option.some.inj hkill).symm
    refine ⟨a, { a with stage := .ended none, listens := false }, ha, ?_, fun _ x => by simp⟩
    rw [hs']
    exact moved_kill hinv ha hrunning
  | publish q n =>
    obtain ⟨a, ha, hpublish⟩ := Option.bind_eq_some_iff.mp hstep
    split at hpublish
    · next hstage =>
      split at hpublish
      · cases hpublish
      · next hn =>
        obtain rfl := Option.some.inj hpublish
        exact ⟨a, a, ha, moved_publish hinv ha hstage hn, fun _ x => by simp [hstage]⟩
    · cases hpublish

/-- An agent that has not begun changes nothing. -/
theorem inv_spawn (hinv : Inv s) (hnone : s.agents p = none) (client : String) (clipboard : Bool) :
    Inv (s.put p ⟨client, clipboard, .locking, false⟩) := by
  have hold : ∀ q b, (s.put p ⟨client, clipboard, .locking, false⟩).agents q = some b →
      b = ⟨client, clipboard, .locking, false⟩ ∨ s.agents q = some b := by
    intro q b hb
    change (if q = p then some _ else s.agents q) = some b at hb
    by_cases hq : q = p
    · rw [if_pos hq] at hb
      exact Or.inl (Option.some.inj hb).symm
    · rw [if_neg hq] at hb
      exact Or.inr hb
  have hkeep : ∀ q b, s.agents q = some b →
      (s.put p ⟨client, clipboard, .locking, false⟩).agents q = some b := by
    intro q b hb
    change (if q = p then some _ else s.agents q) = some b
    rw [if_neg, hb]
    rintro rfl
    rw [hnone] at hb
    cases hb
  have hsome : ∀ q, (s.agents q).isSome = true →
      ((s.put p ⟨client, clipboard, .locking, false⟩).agents q).isSome = true := by
    intro q hq
    obtain ⟨b, hb⟩ := Option.isSome_iff_exists.mp hq
    rw [hkeep q b hb]
    rfl
  refine ⟨?_, ?_, ?_, hinv.last, fun q hq => hsome q (hinv.socket q hq), ?_, ?_, ?_, ?_⟩
  · intro q b hb hholds
    rcases hold q b hb with rfl | hb
    · cases hholds
    · exact hinv.holds q b hb hholds
  · intro q hq
    obtain ⟨b, hb, hholds⟩ := hinv.held q hq
    exact ⟨b, hkeep q b hb, hholds⟩
  · intro q hq
    obtain ⟨b, hb, hholds⟩ := hinv.lockHeld q hq
    exact ⟨b, hkeep q b hb, hholds⟩
  · intro q b todo hb hstage
    rcases hold q b hb with rfl | hb
    · cases hstage
    · exact hinv.todo q b todo hb hstage
  · intro q b hb hpublished
    rcases hold q b hb with rfl | hb
    · cases hpublished
    · exact hinv.published q b hb hpublished
  · intro q b o hb hstage
    rcases hold q b hb with rfl | hb
    · cases hstage
    · exact hsome o (hinv.refused q b o hb hstage)
  · intro q b x hb hstage
    rcases hold q b hb with rfl | hb
    · cases hstage
    · exact hsome x.owner (hinv.answered q b x hb hstage)

theorem spawn_eq {client : String} {clipboard : Bool}
    (hstep : step s (.spawn p client clipboard) = some s') :
    s.agents p = none ∧ s' = s.put p ⟨client, clipboard, .locking, false⟩ := by
  unfold step at hstep
  match hnone : s.agents p with
  | none =>
    simp only [hnone] at hstep
    exact ⟨rfl, (Option.some.inj hstep).symm⟩
  | some b =>
    simp only [hnone] at hstep
    cases hstep

theorem inv_step (hinv : Inv s) {l : Label} (hstep : step s l = some s') : Inv s' := by
  by_cases hspawn : ∃ q client clipboard, l = .spawn q client clipboard
  · obtain ⟨q, client, clipboard, rfl⟩ := hspawn
    obtain ⟨hnone, rfl⟩ := spawn_eq hstep
    exact inv_spawn hinv hnone client clipboard
  · have hne : ∀ q client clipboard, l ≠ .spawn q client clipboard := by
      intro q client clipboard heq
      exact hspawn ⟨q, client, clipboard, heq⟩
    obtain ⟨a, a', ha, hmoved, -⟩ := step_moved hinv hstep hne
    exact hmoved.inv hinv ha

theorem inv_initial : Inv State.initial := by
  refine ⟨?_, ?_, ?_, ?_, ?_, ?_, ?_, ?_, ?_⟩ <;> intro p <;> simp [State.initial]

end

end Porthop.Account
