import Porthop.Lib.Run
import Porthop.Account.Steps

/- One agent serves an account, no agent touches what a later one published, and when a refused
   agent is sent away for good. -/
namespace Porthop.Account

/-- Every agent that is sent away for good was refused by an agent of another client. -/
def Fair (s : State) : Prop :=
  ∀ p a x, s.agents p = some a → a.stage = .ended (some x) → x.reconnects = false →
    s.clientOf x.owner ≠ some a.client

/-- An agent refused by one of its own client finds that client's id published. -/
def known (s : State) : Label → Bool
  | .go p => (s.agents p).all fun a => match a.stage with
    | .refused o => s.clientOf o ≠ some a.client || s.published = some a.client
    | _ => true
  | _ => true

section
variable {s s' : State} {p : Pid} {a a' : Agent}

/-- The desktop comes back exactly when its client id was found. -/
theorem refusal_reconnects (o : Pid) (published : Option String) (client : String) :
    (refusal o published client).reconnects = decide (published = some client) := by
  unfold refusal
  split
  · next h =>
    rw [decide_eq_true h]
    have htext : (checkedEvent (errorKind .wouldBlock) "previous agent is still closing").all
        retryable = true := by decide
    exact htext
  · next h =>
    rw [decide_eq_false h]
    have htext : (checkedEvent (errorKind .other)
        "Integration is active in another Newport installation.").all retryable = false := by decide
    exact htext

theorem Moved.clientOf (h : Moved s p a a' s') (ha : s.agents p = some a) :
    s'.clientOf = s.clientOf := by
  funext q
  unfold State.clientOf
  by_cases hq : q = p
  · rw [hq, h.self, ha]
    exact congrArg some h.client
  · rw [h.other hq]

/-- A step of an agent answers fairly exactly when it knew its client. -/
theorem Moved.fair_iff (h : Moved s p a a' s') (ha : s.agents p = some a) :
    Fair s' ↔ Fair s ∧ ∀ x, a'.stage = .ended (some x) → x.reconnects = false →
      s.clientOf x.owner ≠ some a.client := by
  constructor
  · intro hfair
    refine ⟨?_, ?_⟩
    · intro q b x hb hstage hx
      have hq : q ≠ p := by
        rintro rfl
        rw [ha] at hb
        rw [← Option.some.inj hb] at hstage
        exact h.running (some x) hstage
      rw [← h.clientOf ha]
      exact hfair q b x ((h.other hq).trans hb) hstage hx
    · intro x hstage hx
      have hp := hfair p a' x h.self hstage hx
      rw [h.clientOf ha, h.client] at hp
      exact hp
  · intro ⟨hfair, hanswer⟩ q b x hb hstage hx
    rw [h.clientOf ha]
    rcases h.cases hb with ⟨rfl, rfl⟩ | ⟨hq, hb⟩
    · rw [h.client]
      exact hanswer x hstage hx
    · exact hfair q b x hb hstage hx

theorem fair_spawn (hinv : Inv s) (hnone : s.agents p = none) (client : String)
    (clipboard : Bool) : Fair (s.put p ⟨client, clipboard, .locking, false⟩) ↔ Fair s := by
  have hclient : ∀ q, (s.agents q).isSome = true →
      (s.put p ⟨client, clipboard, .locking, false⟩).clientOf q = s.clientOf q := by
    intro q hq
    unfold State.clientOf
    change (if q = p then some _ else s.agents q).map _ = _
    rw [if_neg]
    rintro rfl
    rw [hnone] at hq
    cases hq
  constructor
  · intro hfair q b x hb hstage hx
    rw [← hclient x.owner (hinv.answered q b x hb hstage)]
    refine hfair q b x ?_ hstage hx
    change (if q = p then some _ else s.agents q) = some b
    rw [if_neg, hb]
    rintro rfl
    rw [hnone] at hb
    cases hb
  · intro hfair q b x hb hstage hx
    change (if q = p then some _ else s.agents q) = some b at hb
    by_cases hq : q = p
    · rw [if_pos hq] at hb
      rw [← Option.some.inj hb] at hstage
      cases hstage
    · rw [if_neg hq] at hb
      rw [hclient x.owner (hinv.answered q b x hb hstage)]
      exact hfair q b x hb hstage hx

theorem known_go (ha : s.agents p = some a) {o : Pid} (hstage : a.stage = .refused o) :
    known s (.go p) = true ↔ (s.clientOf o = some a.client → s.published = some a.client) := by
  change (s.agents p).all _ = true ↔ _
  rw [ha, Option.all_some, hstage]
  simp only [ne_eq, decide_not, Bool.or_eq_true, Bool.not_eq_true', decide_eq_false_iff_not,
    decide_eq_true_eq]
  exact Decidable.imp_iff_not_or.symm

/-- The answer of a refused agent is fair exactly when it knows its client. -/
theorem fair_refused (hinv : Inv s) (ha : s.agents p = some a) {o : Pid}
    (hstage : a.stage = .refused o) (hgo : s.go p a = some s') :
    Fair s' ↔ Fair s ∧ known s (.go p) = true := by
  rw [(moved_refused hinv ha hstage hgo).fair_iff ha, known_go ha hstage]
  have howner : (refusal o s.published a.client).owner = o := by
    unfold refusal
    split <;> rfl
  apply and_congr_right
  intro _
  constructor
  · intro hanswer hclient
    apply Decidable.byContradiction
    intro hpublished
    have hne := hanswer _ rfl (by rw [refusal_reconnects, decide_eq_false hpublished])
    rw [howner] at hne
    exact hne hclient
  · rintro hknown x ⟨⟩ hx
    rw [refusal_reconnects, decide_eq_false_iff_not] at hx
    rw [howner]
    exact fun hclient => hx (hknown hclient)

/-- One step is fair exactly when the refused agent knows its client. -/
theorem fair_step (hinv : Inv s) {l : Label} (hstep : step s l = some s') :
    Fair s' ↔ Fair s ∧ known s l = true := by
  by_cases hspawn : ∃ q client clipboard, l = .spawn q client clipboard
  · obtain ⟨q, client, clipboard, rfl⟩ := hspawn
    obtain ⟨hnone, rfl⟩ := spawn_eq hstep
    rw [fair_spawn hinv hnone]
    exact ⟨fun h => ⟨h, rfl⟩, fun h => h.1⟩
  · by_cases hrefused : ∃ q b o, l = .go q ∧ s.agents q = some b ∧ b.stage = .refused o
    · obtain ⟨q, b, o, rfl, hb, hstage⟩ := hrefused
      obtain ⟨b', hb', hgo⟩ := Option.bind_eq_some_iff.mp hstep
      obtain rfl := Option.some.inj (hb.symm.trans hb')
      exact fair_refused hinv hb hstage hgo
    · obtain ⟨b, b', hb, hmoved, hsilent⟩ := step_moved hinv hstep fun q client clipboard heq =>
        hspawn ⟨q, client, clipboard, heq⟩
      have hknown : known s l = true := by
        cases l with
        | go q =>
          change (s.agents q).all _ = true
          rw [show s.agents q = some b from hb, Option.all_some]
          split
          · next o hstage => exact absurd ⟨q, b, o, rfl, hb, hstage⟩ hrefused
          · rfl
        | _ => rfl
      rw [hmoved.fair_iff hb]
      apply and_congr_right
      intro _
      refine ⟨fun _ => hknown, ?_⟩
      intro _ x hstage
      obtain ⟨o, ho, -⟩ := hmoved.answered x hstage
      cases l with
      | go q => exact absurd ⟨q, b, o, rfl, hb, ho⟩ hrefused
      | _ => exact absurd hstage (hsilent (by simp) x)

/-- A run is fair exactly when every refused agent knows its client. -/
theorem fair_run {ls : List Label} (hinv : Inv s) (hfair : Fair s)
    (hrun : Run.exec step ls s = some s') :
    Fair s' ↔ Run.Along step (fun s l => known s l = true) ls s := by
  have hkeep : ∀ {ms : List Label} {t : State}, Inv t → Run.exec step ms t = some s' → Fair s' →
      Fair t := by
    intro ms
    induction ms with
    | nil =>
      intro t _ ht hs
      obtain rfl := Option.some.inj ht
      exact hs
    | cons m ms ih =>
      intro t hinv ht hs
      obtain ⟨u, hu, ht⟩ := Run.exec_cons.mp ht
      exact ((fair_step hinv hu).mp (ih (inv_step hinv hu) ht hs)).1
  induction ls generalizing s with
  | nil =>
    obtain rfl := Option.some.inj hrun
    exact ⟨fun _ => trivial, fun _ => hfair⟩
  | cons l ls ih =>
    obtain ⟨t, ht, hrun⟩ := Run.exec_cons.mp hrun
    have hinvt := inv_step hinv ht
    constructor
    · intro hs'
      have hfairt := hkeep hinvt hrun hs'
      refine ⟨((fair_step hinv ht).mp hfairt).2, ?_⟩
      intro u hu
      obtain rfl := Option.some.inj (ht.symm.trans hu)
      exact (ih hinvt hfairt hrun).mp hs'
    · intro hknown
      have hfairt := (fair_step hinv ht).mpr ⟨hfair, hknown.1⟩
      exact (ih hinvt hfairt hrun).mpr (hknown.2 t ht)

/-- **Ownership of an account.** In any interleaving at most one agent serves; a step that
    changes a file is one of the last agent to take ownership; the second lock refuses nobody;
    and an agent is sent away for good only because of another client exactly when every agent
    that one of its own client refused found that client's id, which is there from when the
    owner has published it until it begins to clean up. -/
theorem account_owned {ls : List Label} (hrun : Run.exec step ls State.initial = some s) :
    (∀ p q a b, s.agents p = some a → s.agents q = some b → a.stage = .serving →
      b.stage = .serving → p = q) ∧
    (∀ l s', step s l = some s' → s'.files ≠ s.files ∨ s'.socket ≠ s.socket →
      s.socketLock = some l.actor ∧ s.owners.head? = some l.actor) ∧
    (∀ p a, s.agents p = some a → a.stage = .bound → s.lock = none) ∧
    (∀ p a, s.agents p = some a → a.stage.published = true → s.published = some a.client) ∧
    (Fair s ↔ Run.Along step (fun s l => known s l = true) ls State.initial) := by
  have hinv : Inv s := Run.exec_invariant (fun _ _ _ h hstep => inv_step h hstep) inv_initial hrun
  refine ⟨?_, ?_, ?_, ?_, ?_⟩
  · intro p q a b ha hb hpa hqb
    exact hinv.alone ha hb (by rw [hpa]; rfl) (by rw [hqb]; rfl)
  · intro l s' hstep hchange
    have hspawn : ∀ q client clipboard, l ≠ .spawn q client clipboard := by
      rintro q client clipboard rfl
      obtain ⟨-, rfl⟩ := spawn_eq hstep
      rcases hchange with hne | hne
      · exact hne rfl
      · exact hne rfl
    obtain ⟨a, a', ha, hmoved, -⟩ := step_moved hinv hstep hspawn
    have hlock := hinv.holds l.actor a ha (hmoved.owned hchange)
    exact ⟨hlock, hinv.last l.actor hlock⟩
  · intro p a ha hstage
    match hlock : s.lock with
    | none => rfl
    | some q =>
      obtain ⟨b, hb, hholds⟩ := hinv.lockHeld q hlock
      have hq := hinv.alone ha hb (by rw [hstage]; rfl) (Stage.holdsSocket_of_holdsLock hholds)
      rw [← hq, ha] at hb
      rw [← Option.some.inj hb, hstage] at hholds
      cases hholds
  · intro p a ha hpublished
    unfold State.published State.clientOf
    rw [hinv.published p a ha hpublished]
    change (s.agents p).map _ = _
    rw [ha]
    rfl
  · have hnone : Fair State.initial := by
      intro p a x ha
      cases ha
    exact fair_run inv_initial hnone hrun

end

/-! ## A reconnect that is refused for good -/

/-- An agent that starts and ends, as far as the removal of its client id. -/
def closingRun : List Label :=
  .spawn 1 "desk" false :: List.replicate 22 (.go 1)

/-- The next agent of the client meets it there. -/
def reconnectRun : List Label := closingRun ++ [.spawn 2 "desk" false, .go 2, .go 2]

/-- What an agent that has ended answered. -/
def Stage.answer : Stage → Option Answer
  | .ended answer => answer
  | _ => none

theorem Stage.ended_of_answer {stage : Stage} {x : Answer} (h : stage.answer = some x) :
    stage = .ended (some x) := by
  cases stage with
  | ended answer => exact congrArg Stage.ended h
  | _ => cases h

/-- The next agent of the client comes while the first one serves. -/
def overlapRun : List Label :=
  .spawn 1 "desk" false :: List.replicate 17 (.go 1) ++ [.spawn 2 "desk" false, .go 2, .go 2]

set_option maxRecDepth 4000 in
/-- The agent that is closing is of the same client, and the desktop does not come back. -/
theorem reconnect_refused : ∃ s, Run.exec step reconnectRun State.initial = some s ∧ ¬ Fair s := by
  have hsome : ((Run.exec step reconnectRun State.initial).any fun s =>
      (s.agents 2).any fun a => a.stage.answer.any fun x =>
        !x.reconnects && s.clientOf x.owner = some a.client) = true := by decide
  obtain ⟨s, hrun, hs⟩ := (Option.any_eq_true _ _).mp hsome
  refine ⟨s, hrun, ?_⟩
  intro hfair
  obtain ⟨a, ha, hanswer⟩ := (Option.any_eq_true _ _).mp hs
  obtain ⟨x, hx, hrefused⟩ := (Option.any_eq_true _ _).mp hanswer
  simp only [Bool.and_eq_true, Bool.not_eq_true', decide_eq_true_eq] at hrefused
  exact hfair 2 a x ha (Stage.ended_of_answer hx) hrefused.1 hrefused.2

set_option maxRecDepth 4000 in
theorem overlap_fair : ∃ s, Run.exec step overlapRun State.initial = some s ∧ Fair s := by
  have hsome : (Run.exec step overlapRun State.initial).isSome = true := by decide
  have hknown : Run.along step known overlapRun State.initial = true := by decide
  obtain ⟨s, hrun⟩ := Option.isSome_iff_exists.mp hsome
  exact ⟨s, hrun, (account_owned hrun).2.2.2.2.mpr (Run.along_of_decide hknown)⟩

end Porthop.Account
