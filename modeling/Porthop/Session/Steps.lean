import Porthop.Session.Logged

/- Every step of a session keeps the order of its requests and what the log says of them. -/
namespace Porthop.Session

open Porthop.Log

namespace GitSession

variable {V : Type} {s s' : GitSession V}

structure Inv (s : GitSession V) : Prop where
  order : Order s
  logged : Logged s
  aborted : ∀ (i : Nat) (r : Request V), s.requests[i]? = some r → r.aborted = true →
    r.signal = true

theorem operationId_of_read {q : GitRequest} (h : q.isGitMutation = false) :
    q.operationId = none := by
  cases q with
  | read m p => rfl
  | operationStart id a => cases h
  | repoInit id => cases h
  | repoClone id => cases h

theorem Inv.notRefused {i : Nat} {r : Request V} (h : Inv s) (hr : s.requests[i]? = some r)
    (hopen : r.isSettled = false) : r.isRefused = false := by
  apply eq_false_of_ne_true
  intro href
  rw [h.order.refused i r hr href] at hopen
  cases hopen

theorem Inv.passed {i : Nat} {r : Request V} (h : Inv s) (hr : s.requests[i]? = some r)
    (hopen : r.isSettled = false) (hq : r.phase ≠ .queued) : Passed s i r :=
  h.order.passed i r hr hq (h.notRefused hr hopen)

/-- A request whose waits have settled stands behind none that has not. -/
theorem Inv.opened {i : Nat} {r : Request V} (h : Inv s) (hr : s.requests[i]? = some r)
    (hq : r.phase = .queued) (hopened : s.opened r.barrier = true) : Passed s i r := by
  have hsettled : ∀ k ∈ r.barrier, ∀ rk, s.requests[k]? = some rk → rk.isSettled = true := by
    intro k hk rk hrk
    have hany := List.all_eq_true.mp hopened k hk
    rw [hrk] at hany
    exact hany
  intro j other hj hother hbehind
  rcases h.order.queued i r hr hq j other hj hother hbehind with hs | ⟨k, hk, hjk, -, rfl | ⟨rk, hrk, hw⟩⟩
  · exact hs
  · exact hsettled j hk other hother
  · have hks := hsettled k hk rk hrk
    rcases Nat.eq_or_lt_of_le hjk with rfl | hlt
    · rw [hrk] at hother
      rw [← Option.some.inj hother]
      exact hks
    · refine h.order.passed k rk hrk ?_ ?_ j other hlt hother (.inl hw)
      · intro hkq
        rw [Request.isSettled, hkq] at hks
        cases hks
      · rw [Request.isWrite] at hw
        rw [Request.isRefused]
        cases hm : rk.request.isGitMutation
        · rfl
        · rw [hm, Bool.true_and, Bool.not_eq_true'] at hw
          rw [hw]
          rfl

/-- Nothing was sent for a request that is not that far. -/
theorem Inv.notSent {i : Nat} {r : Request V} (h : Inv s) (hr : s.requests[i]? = some r)
    (hopen : r.isSettled = false) (hphase : ∀ a c x, r.phase ≠ .sent a c x) (q : GitRequest) :
    .dispatched i q ∉ s.log := by
  intro hq
  obtain ⟨r', hr', hor⟩ := h.logged.dispatched i q hq
  rw [hr] at hr'
  obtain rfl := Option.some.inj hr'
  rcases hor with hs | ⟨a, c, x, hp⟩
  · rw [hopen] at hs
    cases hs
  · exact hphase a c x hp

theorem Inv.abortedPut {i : Nat} {p : Phase V} {es : List (Entry V)} (h : Inv s) (j : Nat)
    (r' : Request V) (hr' : (s.put i p es).requests[j]? = some r') (ha : r'.aborted = true) :
    r'.signal = true := by
  rw [getElem?_put] at hr'
  obtain ⟨old, hold, rfl⟩ := Option.map_eq_some_iff.mp hr'
  by_cases hij : i = j
  · rw [if_pos hij] at ha ⊢
    exact h.aborted j old hold ha
  · rw [if_neg hij] at ha ⊢
    exact h.aborted j old hold ha

/-! ## Settling -/

theorem Inv.settle {i : Nat} {r : Request V} {o : Outcome V} (h : Inv s)
    (hr : s.requests[i]? = some r) (hopen : r.isSettled = false) (hpass : Passed s i r)
    (hgood : Good s.log (.settled i o)) : Inv (s.settle i o) where
  order := h.order.put hr hopen hpass (fun hp => by cases hp) (fun _ hp => by cases hp)
    (fun hu => by cases hu)
  logged := by
    refine @Logged.put V s i r (.settled o) (some (.settled i o)) h.logged hr hopen ?_ ?_ ?_ ?_ ?_ ?_ ?_
    · rintro z ⟨⟩
      rfl
    · intro o'
      simp
    · exact fun _ => .inl rfl
    · intro a c x hp
      cases hp
    · intro x hx
      cases hx
    · intro q hq
      cases hq
    · rintro z ⟨⟩
      exact hgood
  aborted := h.abortedPut

/-- A request that was not sent may settle in any way. -/
theorem good_of_notSent {pre : List (Entry V)} {i : Nat} {o : Outcome V}
    (h : ∀ q, .dispatched i q ∉ pre) : Good pre (.settled i o) := by
  rintro ⟨q, hq⟩
  exact absurd hq (h q)

/-- A read may settle in any way. -/
theorem Inv.good_of_read {i : Nat} {r : Request V} {o : Outcome V} (h : Inv s)
    (hr : s.requests[i]? = some r) (hread : r.request.operationId = none) :
    Good s.log (.settled i o) := by
  intro _ q signal id hq hid
  obtain ⟨r', hr', hrequest, -⟩ := (h.logged.requested i q signal).mp hq
  rw [hr] at hr'
  rw [← hrequest, ← Option.some.inj hr', hread] at hid
  cases hid

/-- A request with a signal that has not settled is a read. -/
theorem Inv.read_of_signal {i : Nat} {r : Request V} (h : Inv s) (hr : s.requests[i]? = some r)
    (hopen : r.isSettled = false) (hsignal : r.signal = true) : r.request.operationId = none := by
  apply operationId_of_read
  have hnot := h.notRefused hr hopen
  rw [Request.isRefused, hsignal, Bool.and_true] at hnot
  exact hnot

/-- A write that was sent settles as its answer says. -/
theorem Inv.good_of_reply {i : Nat} {r : Request V} {o : Outcome V} {a : Option Nat}
    {c : GitRequest} {x : Except GitError V} (h : Inv s) (hr : s.requests[i]? = some r)
    (hp : r.phase = .sent a c (some x))
    (ho : ∀ id, r.request.operationId = some id → Reported id (s.closed = true) x o) :
    Good s.log (.settled i o) := by
  intro _ q signal id hq hid
  obtain ⟨r', hr', hrequest, -⟩ := (h.logged.requested i q signal).mp hq
  rw [hr] at hr'
  rw [← hrequest, ← Option.some.inj hr'] at hid
  have hreply := (h.logged.sent i r a c (some x) hr hp).2
  refine ⟨x, (hreply x).mpr rfl, ?_, fun y hy => (Option.some.inj ((hreply y).mp hy)).symm⟩
  rw [h.logged.closed]
  exact ho id hid

/-- An entry that is no entry of a request, and not that of the closing, changes no outcome. -/
theorem good_note {pre : List (Entry V)} {y : Entry V} {i : Nat} {o : Outcome V}
    (hy : ofRequest y = false) (hclosed : y ≠ .closed) (h : Good pre (.settled i o)) :
    Good (pre ++ [y]) (.settled i o) := by
  have hmem : ∀ z : Entry V, ofRequest z = true ∨ z = .closed → (z ∈ pre ++ [y] ↔ z ∈ pre) := by
    intro z hz
    rw [List.mem_append, List.mem_singleton]
    constructor
    · rintro (hp | rfl)
      · exact hp
      · rcases hz with hz | hz
        · rw [hy] at hz
          cases hz
        · exact absurd hz hclosed
    · exact .inl
  rintro ⟨q, hq⟩ q' signal id hq' hid
  rw [hmem _ (.inl rfl)] at hq hq'
  obtain ⟨x, hx, hreported, hunique⟩ := h ⟨q, hq⟩ q' signal id hq' hid
  refine ⟨x, (hmem _ (.inl rfl)).mpr hx, ?_, fun y hy => hunique y ((hmem _ (.inl rfl)).mp hy)⟩
  rw [hmem _ (.inr rfl)]
  exact hreported

theorem Inv.cancelRead (h : Inv s) (i : Nat) : Inv (s.cancelRead i) :=
  ⟨h.order.congr rfl rfl rfl rfl rfl, h.logged.cancelRead i, h.aborted⟩

/-- A request that fails lets go of the connection while it is still under way itself. -/
theorem Inv.forgetSettle {i : Nat} {r : Request V} {o : Outcome V} (h : Inv s)
    (hr : s.requests[i]? = some r) (hopen : r.isSettled = false) (hq : r.phase ≠ .queued)
    (hgood : Good s.log (.settled i o)) : Inv ((s.forget true).settle i o) := by
  have hpass := h.passed hr hopen hq
  have hsettled := h.settle hr hopen hpass hgood
  have hrequests := forget_requests s true
  have hr' : (s.forget true).requests[i]? = some r := by
    rw [hrequests]
    exact hr
  refine ⟨?_, ?_, ?_⟩
  · have hidle : ∀ (j : Nat) (w : Request V), (s.settle i o).requests[j]? = some w →
        w.isWrite = true → (∀ reset, w.phase ≠ .resetting reset) ∧ underWay w = false := by
      intro j w hw hwrite
      have hactive : w.isSettled = false → w.phase ≠ .queued → False := by
        intro hwo hwq
        by_cases hij : i = j
        · subst hij
          rw [GitSession.settle, put_same hr] at hw
          rw [← Option.some.inj hw] at hwo
          cases hwo
        · rw [GitSession.settle, put_other hij] at hw
          rw [h.order.exclusive hr hw hij hq hwq hopen hwo] at hwrite
          cases hwrite
      constructor
      · intro reset hp
        refine hactive ?_ ?_
        · rw [Request.isSettled, hp]
          rfl
        · rw [hp]
          intro hpq
          cases hpq
      · apply eq_false_of_ne_true
        intro hu
        refine hactive ?_ ?_
        · rw [Request.isSettled]
          rw [underWay] at hu
          split at hu
          · next hp => rw [hp]; rfl
          · next hp => rw [hp]; rfl
          · next hp => rw [hp]; rfl
          · cases hu
        · intro hpq
          rw [underWay, hpq] at hu
          cases hu
    have horder : Order ((s.settle i o).forget true) := hsettled.order.forget fun _ => hidle
    have hsame : ((s.forget true).settle i o).requests = ((s.settle i o).forget true).requests ∧
        ((s.forget true).settle i o).writeBarrier = ((s.settle i o).forget true).writeBarrier ∧
        ((s.forget true).settle i o).reads = ((s.settle i o).forget true).reads ∧
        ((s.forget true).settle i o).resetting = ((s.settle i o).forget true).resetting ∧
        ((s.forget true).settle i o).resets = ((s.settle i o).forget true).resets := by
      rw [GitSession.forget, GitSession.forget, GitSession.settle, GitSession.settle, put, put]
      cases s.resetting with
      | none => exact ⟨rfl, rfl, rfl, rfl, rfl⟩
      | some n => exact ⟨rfl, rfl, rfl, rfl, rfl⟩
    exact horder.congr hsame.1 hsame.2.1 hsame.2.2.1 hsame.2.2.2.1 hsame.2.2.2.2
  · refine @Logged.put V (s.forget true) i r (.settled o) (some (.settled i o))
      (h.logged.forget true) hr' hopen ?_ ?_ ?_ ?_ ?_ ?_ ?_
    · rintro z ⟨⟩
      rfl
    · intro o'
      simp
    · exact fun _ => .inl rfl
    · intro a c x hp
      cases hp
    · intro x hx
      cases hx
    · intro q hq
      cases hq
    · rintro z ⟨⟩
      rw [GitSession.forget]
      split
      · exact hgood
      · exact good_note rfl (fun heq => by cases heq) hgood
  · intro j w hw ha
    rw [GitSession.settle, getElem?_put, hrequests] at hw
    obtain ⟨old, hold, rfl⟩ := Option.map_eq_some_iff.mp hw
    by_cases hij : i = j
    · rw [if_pos hij] at ha ⊢
      exact h.aborted j old hold ha
    · rw [if_neg hij] at ha ⊢
      exact h.aborted j old hold ha

theorem Inv.fail {i : Nat} {r : Request V} {attempt : Option Nat} {e : GitError} (h : Inv s)
    (hr : s.requests[i]? = some r) (hopen : r.isSettled = false) (hq : r.phase ≠ .queued)
    (hgood : ∀ id, r.request.operationId = some id →
      Good s.log (.settled i (operationError id e))) : Inv (s.fail i r attempt e) := by
  rw [GitSession.fail]
  split
  · next haborted =>
    exact h.settle hr hopen (h.passed hr hopen hq)
      (h.good_of_read hr (h.read_of_signal hr hopen (h.aborted i r hr haborted)))
  · cases hid : r.request.operationId with
    | some id =>
      dsimp only
      split
      · exact h.forgetSettle hr hopen hq (hgood id hid)
      · exact h.settle hr hopen (h.passed hr hopen hq) (hgood id hid)
    | none =>
      dsimp only
      split
      · exact h.forgetSettle hr hopen hq (h.good_of_read hr hid)
      · exact h.settle hr hopen (h.passed hr hopen hq) (h.good_of_read hr hid)

/-! ## Going on -/

/-- A request goes on to a wait before it is sent. -/
theorem Inv.move {i : Nat} {r : Request V} {p : Phase V} (h : Inv s)
    (hr : s.requests[i]? = some r) (hopen : r.isSettled = false) (hpass : Passed s i r)
    (hold : ∀ a c x, r.phase ≠ .sent a c x) (hp : p ≠ .queued) (hnew : ∀ a c x, p ≠ .sent a c x)
    (hs : ∀ o, p ≠ .settled o) (hreset : ∀ reset, p = .resetting reset → reset = s.resetting)
    (hunder : underWay { r with phase := p } = true → r.isWrite = true → ∀ n, ¬ Letting s n) :
    Inv (s.put i p []) where
  order := h.order.put hr hopen hpass hp hreset hunder
  logged := by
    refine @Logged.put V s i r p none h.logged hr hopen ?_ ?_ ?_ ?_ ?_ ?_ ?_
    · intro z hz
      cases hz
    · intro o
      constructor
      · intro heq
        cases heq
      · exact fun hpo => absurd hpo (hs o)
    · rintro ⟨q, hq⟩
      rw [Option.toList_none, List.append_nil] at hq
      exact absurd hq (h.notSent hr hopen hold q)
    · intro a c x hpx
      exact absurd hpx (hnew a c x)
    · intro x hx
      cases hx
    · intro q hq
      cases hq
    · intro z hz
      cases hz
  aborted := h.abortedPut

/-- A request that may be sent stands behind none that has not settled. -/
theorem Inv.good_of_passed {i : Nat} {r : Request V} {captured : GitRequest} (h : Inv s)
    (hr : s.requests[i]? = some r) (hopen : r.isSettled = false) (hpass : Passed s i r) :
    Good s.log (.dispatched i captured) := by
  have hlt := (List.getElem?_eq_some_iff.mp hr).1
  refine ⟨r.request, r.signal, (h.logged.requested _ _ _).mpr ⟨r, hr, rfl, rfl⟩, fun j hji => ?_⟩
  have hother : s.requests[j]? = some s.requests[j] := List.getElem?_eq_getElem (hji.trans hlt)
  generalize s.requests[j] = other at hother
  refine ⟨other.request, other.signal, (h.logged.requested _ _ _).mpr ⟨other, hother, rfl, rfl⟩, ?_⟩
  intro hmutation
  have hsettled : other.isSettled = true := by
    by_cases href : other.isRefused = true
    · exact h.order.refused j other hother href
    · refine hpass j other hji hother ?_
      have hnot := h.notRefused hr hopen
      rw [Request.isRefused] at hnot href
      rcases hmutation with hm | hm
      · left
        rw [hm, Bool.true_and] at hnot
        rw [Request.isWrite, hm, hnot]
        rfl
      · right
        rw [hm, Bool.true_and] at href
        rw [Request.isWrite, hm, eq_false_of_ne_true href]
        rfl
  cases hp : other.phase with
  | settled o => exact ⟨o, (h.logged.settled j o).mpr ⟨other, hother, hp⟩⟩
  | _ =>
    rw [Request.isSettled, hp] at hsettled
    cases hsettled

theorem Inv.send {i : Nat} {r : Request V} {attempt : Option Nat} {captured : GitRequest}
    (h : Inv s) (hr : s.requests[i]? = some r) (hopen : r.isSettled = false)
    (hq : r.phase ≠ .queued) (hold : ∀ a c x, r.phase ≠ .sent a c x)
    (hunder : underWay r = true) : Inv (s.send i attempt captured) where
  order := h.order.put hr hopen (h.passed hr hopen hq) (fun hp => by cases hp)
    (fun _ hp => by cases hp) fun _ hw => h.order.alone i r hr hw hunder
  logged := by
    have hnot := h.notSent hr hopen hold
    refine @Logged.put V s i r (.sent attempt captured none) (some (.dispatched i captured))
      h.logged hr hopen ?_ ?_ ?_ ?_ ?_ ?_ ?_
    · rintro z ⟨⟩
      rfl
    · intro o
      simp
    · exact fun _ => .inr ⟨_, _, _, rfl⟩
    · rintro a c x ⟨⟩
      refine ⟨⟨captured, List.mem_append_right _ List.mem_cons_self⟩, fun z => ?_⟩
      constructor
      · intro hz
        rcases List.mem_append.mp hz with hz | hz
        · obtain ⟨q, hq⟩ := h.logged.replied i z hz
          exact absurd hq (hnot q)
        · cases List.mem_singleton.mp hz
      · intro heq
        cases heq
    · intro x hx
      cases hx
    · rintro q - q'
      exact hnot q'
    · rintro z ⟨⟩
      exact h.good_of_passed hr hopen (h.passed hr hopen hq)
  aborted := h.abortedPut

/-- Which connection there is says nothing of the requests. -/
theorem Inv.connections (h : Inv s) (c : Option Nat)
    (cs : List (Option (Except GitError Capabilities))) :
    Inv { s with connection := c, connections := cs } :=
  ⟨h.order.congr rfl rfl rfl rfl rfl, h.logged.congr rfl rfl rfl rfl, h.aborted⟩

theorem open_of_phase {r : Request V} (h : ∀ o, r.phase ≠ .settled o) : r.isSettled = false := by
  cases hp : r.phase with
  | settled o => exact absurd hp (h o)
  | _ =>
    rw [Request.isSettled, hp]
    rfl

/-- Where a request waits that has passed those before it, and was not sent. -/
def preparing : Phase V → Bool
  | .resetting _ | .connecting _ | .registering _ _ _ => true
  | _ => false

theorem of_preparing {r : Request V} (h : preparing r.phase = true) : r.isSettled = false ∧
    r.phase ≠ .queued ∧ ∀ a c x, r.phase ≠ .sent a c x := by
  rw [Request.isSettled]
  cases hp : r.phase with
  | resetting reset =>
    exact ⟨rfl, by simp, by simp⟩
  | connecting c =>
    exact ⟨rfl, by simp, by simp⟩
  | registering a c p =>
    exact ⟨rfl, by simp, by simp⟩
  | queued =>
    rw [hp] at h
    cases h
  | sent a c p =>
    rw [hp] at h
    cases h
  | settled o =>
    rw [hp] at h
    cases h

theorem Inv.connect {i : Nat} {r : Request V} {reset : Option Nat} (h : Inv s)
    (hr : s.requests[i]? = some r) (hp : r.phase = .resetting reset)
    (hfinished : (reset.all fun n => s.resets[n]?.any Reset.finished) = true) :
    Inv (s.connect i) := by
  obtain ⟨hopen, hq, hold⟩ := of_preparing (r := r) (by rw [hp]; rfl)
  -- A write waited for the only disconnect there can be.
  have hnone : r.isWrite = true → ∀ n, ¬ Letting s n := by
    intro hw n hn
    have hreset := h.order.waits i r reset hr hw hp n hn
    rw [hreset, Option.all_some, hn] at hfinished
    cases hfinished
  have hmove : ∀ c cn cs, Inv ({ s with connection := cn, connections := cs }.put i
      (.connecting c) []) := by
    intro c cn cs
    exact (h.connections cn cs).move hr hopen (h.passed hr hopen hq) hold
      (fun heq => by cases heq) (fun _ _ _ heq => by cases heq) (fun _ heq => by cases heq)
      (fun _ heq => by cases heq) fun _ hw => hnone hw
  rw [GitSession.connect]
  split
  · next c hc => exact hmove c s.connection s.connections
  · exact hmove _ _ _

theorem Inv.connected {i : Nat} {r : Request V} {c : Nat} (h : Inv s)
    (hr : s.requests[i]? = some r) (hp : r.phase = .connecting c) (cap : Capabilities) :
    Inv (s.connected i r cap) := by
  obtain ⟨hopen, hq, hold⟩ := of_preparing (r := r) (by rw [hp]; rfl)
  have hunder : underWay r = true := by
    rw [underWay, hp]
  have hpass := h.passed hr hopen hq
  have hgood : ∀ o, Good s.log (.settled i o) := fun o => good_of_notSent (h.notSent hr hopen hold)
  rw [GitSession.connected]
  split
  · exact h.settle hr hopen hpass (hgood _)
  · split
    · exact h.settle hr hopen hpass (hgood _)
    · split
      · exact h.settle hr hopen hpass (hgood _)
      · split
        · exact h.move hr hopen hpass hold (fun heq => by cases heq) (fun _ _ _ heq => by cases heq)
            (fun _ heq => by cases heq) (fun _ heq => by cases heq)
            fun _ hw => h.order.alone i r hr hw hunder
        · exact h.send hr hopen hq hold hunder

theorem Inv.registered {i : Nat} {r : Request V} {attempt : Option Nat} {captured : GitRequest}
    {reply : Option (Except GitError String)} (h : Inv s) (hr : s.requests[i]? = some r)
    (hp : r.phase = .registering attempt captured reply) (x : Except GitError String) :
    Inv (s.registered i r attempt captured x) := by
  obtain ⟨hopen, hq, hold⟩ := of_preparing (r := r) (by rw [hp]; rfl)
  have hunder : underWay r = true := by
    rw [underWay, hp]
  have hgood : ∀ o, Good s.log (.settled i o) := fun o => good_of_notSent (h.notSent hr hopen hold)
  have hgood' : ∀ o, Good (s.cancelRead i).log (.settled i o) :=
    fun o => good_note rfl (fun heq => by cases heq) (hgood o)
  have hpass := h.passed hr hopen hq
  unfold GitSession.registered
  split
  · exact h.fail hr hopen hq fun _ _ => hgood _
  · split
    · exact (h.cancelRead i).settle hr hopen hpass (hgood' _)
    · split
      · exact (h.cancelRead i).fail hr hopen hq fun _ _ => hgood' _
      · exact h.send hr hopen hq hold hunder

theorem Inv.answer {i : Nat} {r : Request V} {attempt a : Option Nat} {captured : GitRequest}
    {x : Except GitError V} (h : Inv s) (hr : s.requests[i]? = some r)
    (hp : r.phase = .sent a captured (some x)) : Inv (s.answer i r attempt x) := by
  have hopen : r.isSettled = false := open_of_phase fun o => by rw [hp]; intro heq; cases heq
  have hq : r.phase ≠ .queued := by rw [hp]; intro heq; cases heq
  have hpass := h.passed hr hopen hq
  unfold GitSession.answer
  split
  · exact h.fail hr hopen hq fun id hid => h.good_of_reply hr hp fun id' hid' => by
      rw [hid] at hid'
      rw [Option.some.inj hid']
      rfl
  · next v =>
    split
    · next haborted =>
      exact h.settle hr hopen hpass
        (h.good_of_read hr (h.read_of_signal hr hopen (h.aborted i r hr haborted)))
    · split
      · next hclosed =>
        refine h.fail hr hopen hq fun id hid => h.good_of_reply hr hp fun id' hid' => ?_
        rw [hid] at hid'
        rw [← Option.some.inj hid', hid]
        exact .inr ⟨hclosed, _, rfl⟩
      · next hclosed =>
        exact h.settle hr hopen hpass (h.good_of_reply hr hp fun _ _ => .inl ⟨hclosed, rfl⟩)

theorem Inv.resume {i : Nat} {r : Request V} (h : Inv s) (hr : s.requests[i]? = some r)
    (hstep : s.resume i r = some s') : Inv s' := by
  rw [GitSession.resume] at hstep
  split at hstep
  · next hp =>
    have hopen : r.isSettled = false := open_of_phase fun o => by rw [hp]; intro heq; cases heq
    have hold : ∀ a c x, r.phase ≠ .sent a c x := fun a c x => by rw [hp]; intro heq; cases heq
    have hgood : ∀ o, Good s.log (.settled i o) :=
      fun o => good_of_notSent (h.notSent hr hopen hold)
    split at hstep
    · next hopened =>
      have hpass := h.opened hr hp hopened
      split at hstep
      · rw [← Option.some.inj hstep]
        exact h.settle hr hopen hpass (hgood _)
      · split at hstep
        · rw [← Option.some.inj hstep]
          exact h.settle hr hopen hpass (hgood _)
        · rw [← Option.some.inj hstep]
          exact h.move hr hopen hpass hold (fun heq => by cases heq) (fun _ _ _ heq => by cases heq)
            (fun _ heq => by cases heq) (fun _ heq => by cases heq; rfl) fun hu => by cases hu
    · cases hstep
  · next reset hp =>
    obtain ⟨hopen, hq, hold⟩ := of_preparing (r := r) (by rw [hp]; rfl)
    split at hstep
    · next hfinished =>
      split at hstep
      · rw [← Option.some.inj hstep]
        exact h.settle hr hopen (h.passed hr hopen hq)
          (good_of_notSent (h.notSent hr hopen hold))
      · rw [← Option.some.inj hstep]
        exact h.connect hr hp hfinished
    · cases hstep
  · next c hp =>
    obtain ⟨hopen, hq, hold⟩ := of_preparing (r := r) (by rw [hp]; rfl)
    split at hstep
    · rw [← Option.some.inj hstep]
      exact h.connected hr hp _
    · rw [← Option.some.inj hstep]
      exact h.settle hr hopen (h.passed hr hopen hq) (good_of_notSent (h.notSent hr hopen hold))
    · cases hstep
  · next attempt captured reply hp =>
    rw [← Option.some.inj hstep]
    exact h.registered hr hp reply
  · next attempt captured reply hp =>
    rw [← Option.some.inj hstep]
    exact h.answer hr hp
  · cases hstep

end GitSession

end Porthop.Session
