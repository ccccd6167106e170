import Porthop.Lib.Run
import Porthop.Session.Steps

/- What holds of every run of a session: the order of its requests, that none is sent twice, and
   what the callers of writes are told. -/
namespace Porthop.Session

open Porthop.Log Porthop.Run

namespace GitSession

variable {V : Type} {s s' : GitSession V}

theorem Inv.enqueue (h : Inv s) (q : GitRequest) (signal : Bool) : Inv (s.enqueue q signal) := by
  refine ⟨h.order.enqueue q signal, h.logged.enqueue q signal, ?_⟩
  have hadd : ∀ (barrier : List Nat) (p : Phase V) (i : Nat) (r : Request V),
      (s.requests ++ [⟨q, signal, false, barrier, p⟩])[i]? = some r → r.aborted = true →
        r.signal = true := by
    intro barrier p i r hr ha
    rw [List.getElem?_append] at hr
    split at hr
    · exact h.aborted i r hr ha
    · rw [List.getElem?_singleton] at hr
      split at hr
      · rw [← Option.some.inj hr] at ha
        cases ha
      · cases hr
  rw [GitSession.enqueue]
  split
  · exact hadd _ _
  · split
    · exact hadd _ _
    · exact hadd _ _

theorem Inv.abort {i : Nat} {r : Request V} (h : Inv s) (hr : s.requests[i]? = some r)
    (hsignal : r.signal = true) :
    Inv { s with requests := s.requests.modify i fun r => { r with aborted := true } } := by
  refine ⟨h.order.abort i, h.logged.abort i, fun j r' hr' ha => ?_⟩
  change (s.requests.modify i _)[j]? = some r' at hr'
  rw [List.getElem?_modify] at hr'
  obtain ⟨old, hold, rfl⟩ := Option.map_eq_some_iff.mp hr'
  by_cases hij : i = j
  · rw [if_pos hij]
    rw [← hij, hr] at hold
    rw [← Option.some.inj hold]
    exact hsignal
  · rw [if_neg hij] at ha ⊢
    exact h.aborted j old hold ha

theorem Inv.dispose (h : Inv s) : Inv s.dispose :=
  ⟨h.order.congr rfl rfl rfl rfl rfl, h.logged.dispose, h.aborted⟩

theorem Inv.forgetFor (h : Inv s) : Inv (s.forget false) := by
  refine ⟨h.order.forget fun hown => absurd hown Bool.false_ne_true, h.logged.forget false, ?_⟩
  rw [forget_requests]
  exact h.aborted

/-- The answer to `git_request`. -/
theorem Inv.replied {i : Nat} {r : Request V} {attempt : Option Nat} {captured : GitRequest}
    (h : Inv s) (hr : s.requests[i]? = some r) (hp : r.phase = .sent attempt captured none)
    (x : Except GitError V) :
    Inv (s.put i (.sent attempt captured (some x)) [.replied i x]) := by
  have hopen : r.isSettled = false := open_of_phase fun o => by rw [hp]; intro heq; cases heq
  have hq : r.phase ≠ .queued := by rw [hp]; intro heq; cases heq
  have hunder : underWay r = true := by rw [underWay, hp]
  obtain ⟨hsent, hnone⟩ := h.logged.sent i r attempt captured none hr hp
  refine ⟨?_, ?_, h.abortedPut⟩
  · exact h.order.put hr hopen (h.passed hr hopen hq) (fun heq => by cases heq)
      (fun _ heq => by cases heq) fun _ hw => h.order.alone i r hr hw hunder
  · refine @Logged.put V s i r (.sent attempt captured (some x)) (some (.replied i x)) h.logged hr
      hopen ?_ ?_ ?_ ?_ ?_ ?_ ?_
    · rintro z ⟨⟩
      rfl
    · intro o
      simp
    · exact fun _ => .inr ⟨_, _, _, rfl⟩
    · rintro a c y ⟨⟩
      obtain ⟨q, hq'⟩ := hsent
      refine ⟨⟨q, List.mem_append_left _ hq'⟩, fun z => ?_⟩
      rw [List.mem_append, hnone z]
      simp [eq_comm]
    · exact fun _ _ => hsent
    · intro q heq
      cases heq
    · rintro z ⟨⟩
      trivial

theorem inv_step {e : Event V} (h : Inv s) (hstep : s.step e = some s') : Inv s' := by
  cases e with
  | request q signal =>
    rw [← Option.some.inj hstep]
    exact h.enqueue q signal
  | abort i =>
    obtain ⟨r, hr, hstep⟩ := Option.bind_eq_some_iff.mp hstep
    split at hstep
    · next hsignal =>
      have habort := h.abort hr hsignal
      dsimp only at hstep
      split at hstep
      · rw [← Option.some.inj hstep]
        split
        · exact habort
        · exact habort.cancelRead i
      · rw [← Option.some.inj hstep]
        exact habort
    · cases hstep
  | dispose =>
    rw [← Option.some.inj hstep]
    exact h.dispose
  | forget =>
    rw [← Option.some.inj hstep]
    exact h.forgetFor
  | resume i =>
    obtain ⟨r, hr, hstep⟩ := Option.bind_eq_some_iff.mp hstep
    exact h.resume hr hstep
  | readSettled i =>
    obtain ⟨r, hr, hstep⟩ := Option.bind_eq_some_iff.mp hstep
    split at hstep
    · next hsettled =>
      rw [← Option.some.inj hstep]
      exact ⟨h.order.readSettled hr hsettled, h.logged.congr rfl rfl rfl rfl, h.aborted⟩
    · cases hstep
  | connected c r =>
    simp only [step] at hstep
    split at hstep
    · rw [← Option.some.inj hstep]
      exact h.connections _ _
    · cases hstep
  | connectionFailed c =>
    simp only [step] at hstep
    split at hstep
    · rw [← Option.some.inj hstep]
      split
      · exact h.connections _ _
      · exact h
    · cases hstep
  | registered i reply =>
    obtain ⟨r, hr, hstep⟩ := Option.bind_eq_some_iff.mp hstep
    split at hstep
    · next attempt captured hp =>
      rw [← Option.some.inj hstep]
      obtain ⟨hopen, hq, hold⟩ := of_preparing (r := r) (by rw [hp]; rfl)
      have hunder : underWay r = true := by rw [underWay, hp]
      exact h.move hr hopen (h.passed hr hopen hq) hold (fun heq => by cases heq)
        (fun _ _ _ heq => by cases heq) (fun _ heq => by cases heq) (fun _ heq => by cases heq)
        fun _ hw => h.order.alone i r hr hw hunder
    · cases hstep
  | replied i reply =>
    obtain ⟨r, hr, hstep⟩ := Option.bind_eq_some_iff.mp hstep
    split at hstep
    · next attempt captured hp =>
      rw [← Option.some.inj hstep]
      exact h.replied hr hp reply
    · cases hstep
  | resetFinished n =>
    simp only [step] at hstep
    split at hstep
    · next own hn =>
      rw [← Option.some.inj hstep]
      exact ⟨(h.order.resetFinished n own).congr rfl rfl rfl rfl rfl, h.logged.resetFinished hn,
        h.aborted⟩
    · cases hstep
  | resetCleared n =>
    change (if _ then _ else _) = _ at hstep
    split at hstep
    · next hcleared =>
      rw [← Option.some.inj hstep]
      obtain ⟨hfinished, hresetting⟩ := Bool.and_eq_true_iff.mp hcleared
      exact ⟨h.order.resetCleared hfinished (of_decide_eq_true hresetting),
        h.logged.congr rfl rfl rfl rfl, h.aborted⟩
    · cases hstep

theorem inv_new : Inv (new : GitSession V) := by
  have hnone : ∀ (i : Nat) (r : Request V), (new : GitSession V).requests[i]? ≠ some r := by
    intro i r hr
    cases hr
  have hreset : ∀ (n : Nat) (x : Reset), (new : GitSession V).resets[n]? ≠ some x := by
    intro n x hn
    cases hn
  have hlog : ∀ y : Entry V, y ∉ (new : GitSession V).log := fun y => List.not_mem_nil
  refine ⟨⟨?_, ?_, ?_, ?_, ?_, ?_, ?_, ?_⟩, ⟨rfl, ?_, ?_, ?_, ?_, ?_, ?_, ?_, ?_, ?_, each_nil⟩, ?_⟩
  · exact fun i r hr => absurd hr (hnone i r)
  · exact fun i r hr => absurd hr (hnone i r)
  · exact fun i r hr => absurd hr (hnone i r)
  · exact fun i r hr => absurd hr (hnone i r)
  · exact fun i r hr => absurd hr (hnone i r)
  · exact fun n own hn => absurd hn (hreset n _)
  · exact fun i r _ hr => absurd hr (hnone i r)
  · exact fun i r hr => absurd hr (hnone i r)
  · exact fun i q signal => ⟨fun hy => absurd hy (hlog _), fun ⟨r, hr, _⟩ => absurd hr (hnone i r)⟩
  · exact fun i o => ⟨fun hy => absurd hy (hlog _), fun ⟨r, hr, _⟩ => absurd hr (hnone i r)⟩
  · exact fun i q hy => absurd hy (hlog _)
  · exact fun i r _ _ _ hr => absurd hr (hnone i r)
  · exact fun i x hy => absurd hy (hlog _)
  · exact ⟨fun hy => absurd hy (hlog _), fun hc => absurd hc Bool.false_ne_true⟩
  · exact fun n own => ⟨fun hy => absurd hy (hlog _), fun ⟨_, hn⟩ => absurd hn (hreset n _)⟩
  · exact fun n => ⟨fun hy => absurd hy (hlog _), fun ⟨_, hn⟩ => absurd hn (hreset n _)⟩
  · exact List.nodup_nil
  · exact fun i r hr => absurd hr (hnone i r)

/-- While a write is under way, the session lets go of no connection by itself. -/
theorem Inv.kept {i : Nat} {q q' : GitRequest} {signal : Bool} (h : Inv s)
    (hq : .requested i q signal ∈ s.log) (hmutation : q.isGitMutation = true)
    (hsent : .dispatched i q' ∈ s.log) (hopen : ∀ o, .settled i o ∉ s.log) (n : Nat)
    (hn : .disconnect n true ∈ s.log) : .disconnected n ∈ s.log := by
  obtain ⟨r, hr, hrequest, hsignal⟩ := (h.logged.requested i q signal).mp hq
  have hunsettled : r.isSettled = false := open_of_phase fun o ho =>
    hopen o ((h.logged.settled i o).mpr ⟨r, hr, ho⟩)
  obtain ⟨r', hr', hor⟩ := h.logged.dispatched i q' hsent
  rw [hr] at hr'
  rw [← Option.some.inj hr'] at hor
  have hunder : underWay r = true := by
    rcases hor with hs | ⟨a, c, x, hp⟩
    · rw [hunsettled] at hs
      cases hs
    · rw [underWay, hp]
  have hwrite : r.isWrite = true := by
    have hnot := h.notRefused hr hunsettled
    rw [Request.isRefused, hrequest, hmutation, Bool.true_and] at hnot
    rw [Request.isWrite, hrequest, hmutation, hnot]
    rfl
  obtain ⟨finished, hfinished⟩ := (h.logged.disconnect n true).mp hn
  refine (h.logged.disconnected n).mpr ⟨true, ?_⟩
  cases finished with
  | true => exact hfinished
  | false => exact absurd hfinished (h.order.alone i r hr hwrite hunder n)

/-- **The requests of a session are ordered and sent at most once.** Requests are numbered as
    they come. A request is sent when all writes before it have settled, and a write when all
    requests before it have; while a write that was sent has not settled, the session has no
    disconnect of its own under way. A write that was sent is told as a success if its answer is
    one and the session was not closed before, as an unknown outcome if it was, or if the error
    has no code or a terminal one, and as that error else, with its id. -/
theorem requests_ordered (es : List (Event V)) (s : GitSession V)
    (hrun : exec step es new = some s) :
    s.log.filterMap requestedIndex = List.range s.requests.length ∧
    (∀ pre post i captured, s.log = pre ++ .dispatched i captured :: post →
      ∃ q signal, .requested i q signal ∈ pre ∧ ∀ j < i, ∃ q' signal',
        .requested j q' signal' ∈ pre ∧ (q.isGitMutation = true ∨ q'.isGitMutation = true →
          ∃ o, .settled j o ∈ pre)) ∧
    (s.log.filterMap dispatchedIndex).Nodup ∧
    (∀ i q signal captured, .requested i q signal ∈ s.log → q.isGitMutation = true →
      .dispatched i captured ∈ s.log → (∀ o, .settled i o ∉ s.log) →
        ∀ n, .disconnect n true ∈ s.log → .disconnected n ∈ s.log) ∧
    ∀ pre post i o captured, s.log = pre ++ .settled i o :: post → .dispatched i captured ∈ pre →
      ∀ q signal id, .requested i q signal ∈ pre → q.operationId = some id →
        ∃ x, .replied i x ∈ pre ∧ (∀ y, .replied i y ∈ pre → y = x) ∧
          match x with
          | .ok v => (.closed ∉ pre ∧ o = .value v) ∨
              (.closed ∈ pre ∧ ∃ message, o = .operation id "OUTCOME_UNKNOWN" message)
          | .error e => o = .operation id
              (if e.code.isNone || e.terminal then "OUTCOME_UNKNOWN" else e.code.getD "")
              e.message := by
  have hinv : Inv s := exec_invariant (fun _ _ _ h hstep => inv_step h hstep) inv_new hrun
  refine ⟨hinv.logged.came, ?_, hinv.logged.once, ?_, ?_⟩
  · intro pre post i captured hlog
    exact hinv.logged.good pre _ post hlog
  · intro i q signal captured hq hmutation hsent hopen n hn
    exact hinv.kept hq hmutation hsent hopen n hn
  · intro pre post i o captured hlog hsent q signal id hq hid
    obtain ⟨x, hx, hreported, hunique⟩ :=
      hinv.logged.good pre _ post hlog ⟨captured, hsent⟩ q signal id hq hid
    refine ⟨x, hx, hunique, ?_⟩
    cases x with
    | ok v => exact hreported
    | error e => exact hreported

/-- A write behind a read that fails for good: it waits for the end of the disconnect, and is
    told as unknown since the session is closed before its answer. -/
theorem closedWrite_unknown :
    let id : OperationId := ⟨"a", by decide⟩
    let capabilities : Capabilities := ⟨["repo.tag", "repo.init"], none, none⟩
    let tag : GitRequest := .read .tag ⟨none, none, none, none, none, none, none, none⟩
    let es : List (Event Nat) := [.request tag false, .request (.repoInit id) false, .resume 0,
      .resume 0, .connected 0 (.ok capabilities), .resume 0,
      .replied 0 (.error ⟨some "CANCELLED", ""⟩), .resume 0, .resume 1, .resetFinished 0,
      .resume 1, .connected 1 (.ok capabilities), .resume 1, .dispose, .replied 1 (.ok 7),
      .resume 1]
    ∃ s : GitSession Nat, exec step es new = some s ∧
      s.log.filterMap dispatchedIndex = [0, 1] ∧ (s.log.filterMap dispatchedIndex).Nodup ∧
      s.requests[1]?.any (fun r => match r.phase with
        | .settled (.operation id' code _) => id'.text = "a" && code = "OUTCOME_UNKNOWN"
        | _ => false) = true := by
  intro id capabilities tag es
  have hsome : (exec step es (new : GitSession Nat)).any (fun s =>
      s.log.filterMap dispatchedIndex = [0, 1] && s.requests[1]?.any (fun r => match r.phase with
        | .settled (.operation id' code _) => id'.text = "a" && code = "OUTCOME_UNKNOWN"
        | _ => false)) = true := by decide
  obtain ⟨s, hrun, hs⟩ := (Option.any_eq_true _ _).mp hsome
  obtain ⟨hsent, htold⟩ := Bool.and_eq_true_iff.mp hs
  exact ⟨s, hrun, of_decide_eq_true hsent, (requests_ordered es s hrun).2.2.1, htold⟩

end GitSession

end Porthop.Session
