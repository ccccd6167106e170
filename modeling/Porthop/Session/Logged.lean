import Mathlib.Data.List.Nodup
import Porthop.Lib.Log
import Porthop.Session.Order

/- What the log of a session says, entry by entry. -/
namespace Porthop.Session

open Porthop.Log

namespace GitSession

variable {V : Type} {s s' : GitSession V}

def dispatchedIndex : Entry V → Option Nat
  | .dispatched i _ => some i
  | _ => none

def requestedIndex : Entry V → Option Nat
  | .requested i _ _ => some i
  | _ => none

/-- What the caller of a write is told after the answer of the desktop. -/
def Reported (id : OperationId) (closed : Prop) (x : Except GitError V) (o : Outcome V) : Prop :=
  match x with
  | .ok v => (¬ closed ∧ o = .value v) ∨
      (closed ∧ ∃ message, o = .operation id "OUTCOME_UNKNOWN" message)
  | .error e => o = operationError id e

/-- An entry is as it should be after those before it. A request is sent when the writes before
    it have settled, and a write when all before it have; the outcome of a write that was sent
    is told by its answer. -/
def Good (pre : List (Entry V)) : Entry V → Prop
  | .dispatched i _ => ∃ q signal, .requested i q signal ∈ pre ∧ ∀ j < i, ∃ q' signal',
      .requested j q' signal' ∈ pre ∧ (q.isGitMutation = true ∨ q'.isGitMutation = true →
        ∃ o, .settled j o ∈ pre)
  | .settled i o => (∃ q, .dispatched i q ∈ pre) → ∀ q signal id, .requested i q signal ∈ pre →
      q.operationId = some id → ∃ x, .replied i x ∈ pre ∧ Reported id (.closed ∈ pre) x o ∧
        ∀ y, .replied i y ∈ pre → y = x
  | _ => True

structure Logged (s : GitSession V) : Prop where
  came : s.log.filterMap requestedIndex = List.range s.requests.length
  requested : ∀ (i : Nat) (q : GitRequest) (signal : Bool), .requested i q signal ∈ s.log ↔
    ∃ r, s.requests[i]? = some r ∧ r.request = q ∧ r.signal = signal
  settled : ∀ (i : Nat) (o : Outcome V), .settled i o ∈ s.log ↔
    ∃ r, s.requests[i]? = some r ∧ r.phase = .settled o
  dispatched : ∀ (i : Nat) (q : GitRequest), .dispatched i q ∈ s.log → ∃ r,
    s.requests[i]? = some r ∧ (r.isSettled = true ∨ ∃ a c p, r.phase = .sent a c p)
  sent : ∀ (i : Nat) (r : Request V) (a : Option Nat) (c : GitRequest)
    (p : Option (Except GitError V)), s.requests[i]? = some r → r.phase = .sent a c p →
      (∃ q, .dispatched i q ∈ s.log) ∧ ∀ x, .replied i x ∈ s.log ↔ p = some x
  replied : ∀ (i : Nat) (x : Except GitError V), .replied i x ∈ s.log → ∃ q, .dispatched i q ∈ s.log
  closed : .closed ∈ s.log ↔ s.closed = true
  disconnect : ∀ (n : Nat) (own : Bool), .disconnect n own ∈ s.log ↔
    ∃ finished, s.resets[n]? = some ⟨own, finished⟩
  disconnected : ∀ n : Nat, .disconnected n ∈ s.log ↔ ∃ own, s.resets[n]? = some ⟨own, true⟩
  once : (s.log.filterMap dispatchedIndex).Nodup
  good : Each Good s.log

/-! ## Entries that say nothing of the requests -/

def ofRequest : Entry V → Bool
  | .requested _ _ _ | .dispatched _ _ | .replied _ _ | .settled _ _ => true
  | _ => false

theorem mem_note {y z : Entry V} (hy : ofRequest y = false) (hz : ofRequest z = true)
    (hlog : s'.log = s.log ++ [y]) : z ∈ s'.log ↔ z ∈ s.log := by
  rw [hlog, List.mem_append, List.mem_singleton]
  constructor
  · rintro (h | rfl)
    · exact h
    · rw [hy] at hz
      cases hz
  · exact .inl

theorem Logged.note {y : Entry V} (h : Logged s) (hy : ofRequest y = false)
    (hrequests : s'.requests = s.requests) (hlog : s'.log = s.log ++ [y])
    (hclosed : .closed ∈ s'.log ↔ s'.closed = true)
    (hdisconnect : ∀ (n : Nat) (own : Bool), .disconnect n own ∈ s'.log ↔
      ∃ finished, s'.resets[n]? = some ⟨own, finished⟩)
    (hdisconnected : ∀ n : Nat, .disconnected n ∈ s'.log ↔ ∃ own, s'.resets[n]? = some ⟨own, true⟩) :
    Logged s' where
  came := by
    have hnone : requestedIndex y = none := by
      cases y with
      | requested i q signal => cases hy
      | _ => rfl
    rw [hlog, hrequests, List.filterMap_append, List.filterMap_cons_none hnone, List.filterMap_nil,
      List.append_nil]
    exact h.came
  requested i q signal := by
    rw [mem_note hy rfl hlog, hrequests]
    exact h.requested i q signal
  settled i o := by
    rw [mem_note hy rfl hlog, hrequests]
    exact h.settled i o
  dispatched i q hi := by
    rw [mem_note hy rfl hlog] at hi
    rw [hrequests]
    exact h.dispatched i q hi
  sent i r a c p hr hp := by
    rw [hrequests] at hr
    obtain ⟨⟨q, hq⟩, hreply⟩ := h.sent i r a c p hr hp
    refine ⟨⟨q, (mem_note hy rfl hlog).mpr hq⟩, fun x => ?_⟩
    rw [mem_note hy rfl hlog]
    exact hreply x
  replied i x hx := by
    rw [mem_note hy rfl hlog] at hx
    obtain ⟨q, hq⟩ := h.replied i x hx
    exact ⟨q, (mem_note hy rfl hlog).mpr hq⟩
  closed := hclosed
  disconnect := hdisconnect
  disconnected := hdisconnected
  once := by
    have hnone : dispatchedIndex y = none := by
      cases y with
      | dispatched i q => cases hy
      | _ => rfl
    rw [hlog, List.filterMap_append, List.filterMap_cons_none hnone, List.filterMap_nil,
      List.append_nil]
    exact h.once
  good := by
    rw [hlog]
    apply each_concat h.good
    cases y with
    | dispatched i q => cases hy
    | settled i o => cases hy
    | _ => trivial

theorem Logged.cancelRead (h : Logged s) (i : Nat) : Logged (s.cancelRead i) := by
  refine h.note (y := .cancelled i) rfl rfl rfl ?_ ?_ ?_
  · simpa [GitSession.cancelRead] using h.closed
  · simpa [GitSession.cancelRead] using h.disconnect
  · simpa [GitSession.cancelRead] using h.disconnected

theorem Logged.dispose (h : Logged s) : Logged s.dispose := by
  refine h.note (y := .closed) rfl rfl rfl ?_ ?_ ?_
  · simp [GitSession.dispose]
  · simpa [GitSession.dispose] using h.disconnect
  · simpa [GitSession.dispose] using h.disconnected

/-- What the log does not speak of. -/
theorem Logged.congr (h : Logged s) (hrequests : s'.requests = s.requests) (hlog : s'.log = s.log)
    (hclosed : s'.closed = s.closed) (hresets : s'.resets = s.resets) : Logged s' where
  came := by
    rw [hrequests, hlog]
    exact h.came
  requested := by
    rw [hrequests, hlog]
    exact h.requested
  settled := by
    rw [hrequests, hlog]
    exact h.settled
  dispatched := by
    rw [hrequests, hlog]
    exact h.dispatched
  sent := by
    rw [hrequests, hlog]
    exact h.sent
  replied := by
    rw [hlog]
    exact h.replied
  closed := by
    rw [hlog, hclosed]
    exact h.closed
  disconnect := by
    rw [hlog, hresets]
    exact h.disconnect
  disconnected := by
    rw [hlog, hresets]
    exact h.disconnected
  once := by
    rw [hlog]
    exact h.once
  good := by
    rw [hlog]
    exact h.good

theorem Logged.forget (h : Logged s) (own : Bool) : Logged (s.forget own) := by
  cases hresetting : s.resetting with
  | some n =>
    have hs' : s.forget own = { s with connection := none } := by rw [GitSession.forget, hresetting]
    rw [hs']
    exact h.congr rfl rfl rfl rfl
  | none =>
    have hs' : s.forget own = { s with
        connection := none
        resetting := some s.resets.length
        resets := s.resets ++ [⟨own, false⟩]
        log := s.log ++ [.disconnect s.resets.length own] } := by rw [GitSession.forget, hresetting]
    rw [hs']
    refine h.note (y := .disconnect s.resets.length own) rfl rfl rfl ?_ ?_ ?_
    · simpa using h.closed
    · intro n b
      rw [List.mem_append, List.mem_singleton, h.disconnect, List.getElem?_append]
      constructor
      · rintro (⟨f, hf⟩ | heq)
        · refine ⟨f, ?_⟩
          rw [if_pos (List.getElem?_eq_some_iff.mp hf).1]
          exact hf
        · cases heq
          exact ⟨false, by simp⟩
      · rintro ⟨f, hf⟩
        split at hf
        · exact .inl ⟨f, hf⟩
        · rw [List.getElem?_singleton] at hf
          split at hf
          · next hlt hz =>
            have hn : n = s.resets.length := by omega
            have hb : own = b := congrArg Reset.own (Option.some.inj hf)
            rw [hn, hb]
            exact .inr rfl
          · cases hf
    · intro n
      rw [List.mem_append, List.mem_singleton, h.disconnected, List.getElem?_append]
      constructor
      · rintro (⟨b, hb⟩ | heq)
        · refine ⟨b, ?_⟩
          rw [if_pos (List.getElem?_eq_some_iff.mp hb).1]
          exact hb
        · cases heq
      · rintro ⟨b, hb⟩
        split at hb
        · exact .inl ⟨b, hb⟩
        · rw [List.getElem?_singleton] at hb
          split at hb
          · cases hb
          · cases hb

theorem Logged.resetFinished {n : Nat} {own : Bool} (h : Logged s)
    (hn : s.resets[n]? = some ⟨own, false⟩) : Logged { s with
      resets := s.resets.set n ⟨own, true⟩, log := s.log ++ [.disconnected n] } := by
  have hlt := (List.getElem?_eq_some_iff.mp hn).1
  refine h.note (y := .disconnected n) rfl rfl rfl ?_ ?_ ?_
  · simpa using h.closed
  · intro k b
    rw [List.mem_append, List.mem_singleton, h.disconnect, List.getElem?_set]
    by_cases hk : n = k
    · subst hk
      rw [hn, if_pos rfl, if_pos hlt]
      simp
    · rw [if_neg hk]
      simp
  · intro k
    rw [List.mem_append, List.mem_singleton, h.disconnected, List.getElem?_set]
    by_cases hk : n = k
    · subst hk
      rw [if_pos rfl, if_pos hlt]
      simp
    · rw [if_neg hk]
      simp [Ne.symm hk]

/-! ## A request goes on -/

/-- The request an entry is about. -/
def entryIndex : Entry V → Option Nat
  | .dispatched i _ | .replied i _ | .settled i _ => some i
  | _ => none

theorem put_log (s : GitSession V) (i : Nat) (p : Phase V) (es : List (Entry V)) :
    (s.put i p es).log = s.log ++ es := rfl

/-- A request that goes on, with the entry it makes. -/
theorem Logged.put {i : Nat} {r : Request V} {p : Phase V} {y : Option (Entry V)} (h : Logged s)
    (hr : s.requests[i]? = some r) (hopen : r.isSettled = false)
    (hy : ∀ z ∈ y, entryIndex z = some i)
    (hsettled : ∀ o, y = some (.settled i o) ↔ p = .settled o)
    (hdispatched : (∃ q, .dispatched i q ∈ s.log ++ y.toList) → p.isSettled = true ∨
      ∃ a c x, p = .sent a c x)
    (hsent : ∀ a c x, p = .sent a c x → (∃ q, .dispatched i q ∈ s.log ++ y.toList) ∧
      ∀ z, .replied i z ∈ s.log ++ y.toList ↔ x = some z)
    (hreplied : ∀ x, y = some (.replied i x) → ∃ q, .dispatched i q ∈ s.log)
    (honce : ∀ q, y = some (.dispatched i q) → ∀ q', .dispatched i q' ∉ s.log)
    (hgood : ∀ z ∈ y, Good s.log z) : Logged (s.put i p y.toList) := by
  have hmem : ∀ z : Entry V, entryIndex z ≠ some i → (z ∈ s.log ++ y.toList ↔ z ∈ s.log) := by
    intro z hz
    rw [List.mem_append, Option.mem_toList]
    exact ⟨fun hor => hor.resolve_right fun hzy => hz (hy z hzy), .inl⟩
  have hother : ∀ (z : Entry V) (j : Nat), entryIndex z = some j → i ≠ j →
      (z ∈ s.log ++ y.toList ↔ z ∈ s.log) := by
    intro z j hz hij
    apply hmem
    rw [hz]
    exact fun heq => hij (Option.some.inj heq).symm
  refine ⟨?_, ?_, ?_, ?_, ?_, ?_, ?_, ?_, ?_, ?_, ?_⟩
  · have hlength : (s.put i p y.toList).requests.length = s.requests.length :=
      List.length_modify _ _ _
    rw [put_log, hlength, List.filterMap_append]
    cases y with
    | none => simpa using h.came
    | some z =>
      have hnone : requestedIndex z = none := by
        cases z with
        | requested j q signal => cases hy _ rfl
        | _ => rfl
      rw [Option.toList_some, List.filterMap_cons_none hnone, List.filterMap_nil, List.append_nil]
      exact h.came
  · intro j q signal
    rw [put_log, hmem _ (fun hz => by cases hz), h.requested]
    constructor
    · rintro ⟨old, hold, hq, hsignal⟩
      by_cases hij : i = j
      · subst hij
        rw [hr] at hold
        obtain rfl := Option.some.inj hold
        exact ⟨_, put_same hr, hq, hsignal⟩
      · exact ⟨old, by rw [put_other hij, hold], hq, hsignal⟩
    · rintro ⟨new, hnew, hq, hsignal⟩
      by_cases hij : i = j
      · subst hij
        rw [put_same hr] at hnew
        obtain rfl := Option.some.inj hnew
        exact ⟨r, hr, hq, hsignal⟩
      · rw [put_other hij] at hnew
        exact ⟨new, hnew, hq, hsignal⟩
  · intro j o
    by_cases hij : i = j
    · subst hij
      have hnot : .settled i o ∉ s.log := by
        intro hlog
        obtain ⟨old, hold, hphase⟩ := (h.settled i o).mp hlog
        rw [hr] at hold
        rw [Option.some.inj hold, Request.isSettled, hphase] at hopen
        cases hopen
      rw [put_log, List.mem_append, Option.mem_toList, or_iff_right hnot, hsettled]
      constructor
      · intro hp
        exact ⟨_, put_same hr, hp⟩
      · rintro ⟨new, hnew, hp⟩
        rw [put_same hr] at hnew
        obtain rfl := Option.some.inj hnew
        exact hp
    · rw [put_log, hother _ j rfl hij, put_other hij]
      exact h.settled j o
  · intro j q hj
    by_cases hij : i = j
    · subst hij
      exact ⟨_, put_same hr, hdispatched ⟨q, hj⟩⟩
    · rw [put_log, hother _ j rfl hij] at hj
      rw [put_other hij]
      exact h.dispatched j q hj
  · intro j new a c x hnew hp
    by_cases hij : i = j
    · subst hij
      rw [put_same hr] at hnew
      obtain rfl := Option.some.inj hnew
      exact hsent a c x hp
    · rw [put_other hij] at hnew
      obtain ⟨⟨q, hq⟩, hreply⟩ := h.sent j new a c x hnew hp
      refine ⟨⟨q, List.mem_append_left _ hq⟩, fun z => ?_⟩
      rw [put_log, hother _ j rfl hij]
      exact hreply z
  · intro j x hx
    rw [put_log, List.mem_append, Option.mem_toList] at hx
    rcases hx with hx | hx
    · obtain ⟨q, hq⟩ := h.replied j x hx
      exact ⟨q, List.mem_append_left _ hq⟩
    · have hij : j = i := Option.some.inj (hy _ hx)
      subst hij
      obtain ⟨q, hq⟩ := hreplied x hx
      exact ⟨q, List.mem_append_left _ hq⟩
  · rw [put_log, hmem _ (fun hz => by cases hz)]
    exact h.closed
  · intro n own
    rw [put_log, hmem _ (fun hz => by cases hz)]
    exact h.disconnect n own
  · intro n
    rw [put_log, hmem _ (fun hz => by cases hz)]
    exact h.disconnected n
  · rw [put_log, List.filterMap_append]
    cases y with
    | none => simpa using h.once
    | some z =>
      cases hz : dispatchedIndex z with
      | none =>
        rw [Option.toList_some, List.filterMap_cons_none hz, List.filterMap_nil, List.append_nil]
        exact h.once
      | some j =>
        rw [Option.toList_some, List.filterMap_cons_some hz, List.filterMap_nil]
        refine List.nodup_append.mpr ⟨h.once, List.nodup_singleton j, ?_⟩
        intro k hk k' hk' heq
        obtain ⟨z', hz', hkz⟩ := List.mem_filterMap.mp hk
        rw [List.mem_singleton.mp hk'] at heq
        -- The entry is the sending of the request, which was not sent before.
        cases z with
        | dispatched i' q =>
          cases z' with
          | dispatched k₀ q' =>
            have hji : i' = i := Option.some.inj (hy _ rfl)
            have hj : i' = j := Option.some.inj hz
            have hk₀ : k₀ = k := Option.some.inj hkz
            have hki : k₀ = i := hk₀.trans (heq.trans (hj.symm.trans hji))
            rw [hki] at hz'
            exact honce q (by rw [hji]) q' hz'
          | _ => cases hkz
        | _ => cases hz
  · rw [put_log]
    cases y with
    | none =>
      rw [Option.toList_none, List.append_nil]
      exact h.good
    | some z => exact each_concat h.good (hgood z rfl)

theorem Logged.abort (h : Logged s) (i : Nat) :
    Logged { s with requests := s.requests.modify i fun r => { r with aborted := true } } := by
  have hof : ∀ {j : Nat} {r' : Request V},
      (s.requests.modify i fun r => { r with aborted := true })[j]? = some r' →
      ∃ old, s.requests[j]? = some old ∧ r'.request = old.request ∧ r'.signal = old.signal ∧
        r'.phase = old.phase := by
    intro j r' hr'
    rw [List.getElem?_modify] at hr'
    obtain ⟨old, hold, rfl⟩ := Option.map_eq_some_iff.mp hr'
    refine ⟨old, hold, ?_⟩
    by_cases hij : i = j
    · simp [hij]
    · simp [hij]
  have hto : ∀ {j : Nat} {old : Request V}, s.requests[j]? = some old →
      ∃ r', (s.requests.modify i fun r => { r with aborted := true })[j]? = some r' ∧
        r'.request = old.request ∧ r'.signal = old.signal ∧ r'.phase = old.phase := by
    intro j old hold
    rw [List.getElem?_modify, hold]
    by_cases hij : i = j
    · exact ⟨_, rfl, by simp [hij]⟩
    · exact ⟨_, rfl, by simp [hij]⟩
  refine ⟨?_, ?_, ?_, ?_, ?_, h.replied, h.closed, h.disconnect, h.disconnected, h.once, h.good⟩
  · rw [List.length_modify]
    exact h.came
  · intro j q signal
    rw [h.requested]
    constructor
    · rintro ⟨old, hold, hq, hsignal⟩
      obtain ⟨r', hr', hrequest, hsig, -⟩ := hto hold
      exact ⟨r', hr', hrequest.trans hq, hsig.trans hsignal⟩
    · rintro ⟨r', hr', hq, hsignal⟩
      obtain ⟨old, hold, hrequest, hsig, -⟩ := hof hr'
      exact ⟨old, hold, hrequest.symm.trans hq, hsig.symm.trans hsignal⟩
  · intro j o
    rw [h.settled]
    constructor
    · rintro ⟨old, hold, ho⟩
      obtain ⟨r', hr', -, -, hphase⟩ := hto hold
      exact ⟨r', hr', hphase.trans ho⟩
    · rintro ⟨r', hr', ho⟩
      obtain ⟨old, hold, -, -, hphase⟩ := hof hr'
      exact ⟨old, hold, hphase.symm.trans ho⟩
  · intro j q hj
    obtain ⟨old, hold, hor⟩ := h.dispatched j q hj
    obtain ⟨r', hr', -, -, hphase⟩ := hto hold
    refine ⟨r', hr', ?_⟩
    rw [Request.isSettled, hphase]
    exact hor
  · intro j r' a c x hr' hp
    obtain ⟨old, hold, -, -, hphase⟩ := hof hr'
    exact h.sent j old a c x hold (hphase.symm.trans hp)

/-- The entries of a new request: that it came, and that it was refused. -/
def newEntries (i : Nat) (new : Request V) : List (Entry V) :=
  match new.phase with
  | .settled o => [.requested i new.request new.signal, .settled i o]
  | _ => [.requested i new.request new.signal]

theorem Logged.add {new : Request V} (h : Logged s) (hphase : ∀ a c x, new.phase ≠ .sent a c x) :
    Logged { s with
      requests := s.requests ++ [new]
      log := s.log ++ newEntries s.requests.length new } := by
  have hlt : ∀ {j : Nat} {r : Request V}, s.requests[j]? = some r → j < s.requests.length :=
    fun hr => (List.getElem?_eq_some_iff.mp hr).1
  have hget : ∀ {j : Nat} {r : Request V}, (s.requests ++ [new])[j]? = some r ↔
      s.requests[j]? = some r ∨ j = s.requests.length ∧ r = new := by
    intro j r
    rw [List.getElem?_append]
    split
    · next hj =>
      constructor
      · exact .inl
      · rintro (hr | ⟨rfl, -⟩)
        · exact hr
        · exact absurd hj (Nat.lt_irrefl _)
    · next hj =>
      rw [List.getElem?_singleton]
      constructor
      · intro hr
        split at hr
        · exact .inr ⟨by omega, (Option.some.inj hr).symm⟩
        · cases hr
      · rintro (hr | ⟨rfl, rfl⟩)
        · exact absurd (hlt hr) hj
        · rw [Nat.sub_self, if_pos rfl]
  have hrequested : ∀ (j : Nat) (q : GitRequest) (signal : Bool),
      .requested j q signal ∈ newEntries s.requests.length new ↔
        j = s.requests.length ∧ q = new.request ∧ signal = new.signal := by
    intro j q signal
    rw [newEntries]
    split
    · simp
    · simp
  have hsettled : ∀ (j : Nat) (o : Outcome V), .settled j o ∈ newEntries s.requests.length new ↔
      j = s.requests.length ∧ new.phase = .settled o := by
    intro j o
    rw [newEntries]
    split
    · next o' ho' =>
      rw [ho']
      simp [eq_comm]
    · next hnot =>
      constructor
      · intro hmem
        cases List.mem_singleton.mp hmem
      · intro hand
        exact absurd hand.2 (hnot o)
  have hothers : ∀ z : Entry V, z ∈ newEntries s.requests.length new →
      (∃ j q signal, z = .requested j q signal) ∨ ∃ j o, z = .settled j o := by
    intro z hz
    rw [newEntries] at hz
    split at hz
    · rcases List.mem_cons.mp hz with rfl | hz
      · exact .inl ⟨_, _, _, rfl⟩
      · exact .inr ⟨_, _, List.mem_singleton.mp hz⟩
    · exact .inl ⟨_, _, _, List.mem_singleton.mp hz⟩
  have hold : ∀ z : Entry V, (∀ j q signal, z ≠ .requested j q signal) → (∀ j o, z ≠ .settled j o) →
      (z ∈ s.log ++ newEntries s.requests.length new ↔ z ∈ s.log) := by
    intro z hz hz'
    rw [List.mem_append]
    constructor
    · rintro (hlog | hnew)
      · exact hlog
      · rcases hothers z hnew with ⟨j, q, signal, rfl⟩ | ⟨j, o, rfl⟩
        · exact absurd rfl (hz j q signal)
        · exact absurd rfl (hz' j o)
    · exact .inl
  refine ⟨?_, ?_, ?_, ?_, ?_, ?_, ?_, ?_, ?_, ?_, ?_⟩
  · have hnew : (newEntries s.requests.length new).filterMap requestedIndex = [s.requests.length] := by
      rw [newEntries]
      split
      · rfl
      · rfl
    rw [List.filterMap_append, hnew, h.came, List.length_append, List.length_singleton,
      List.range_succ]
  · intro j q signal
    rw [List.mem_append, hrequested, h.requested]
    constructor
    · rintro (⟨r, hr, hq, hsignal⟩ | ⟨rfl, rfl, rfl⟩)
      · exact ⟨r, hget.mpr (.inl hr), hq, hsignal⟩
      · exact ⟨new, hget.mpr (.inr ⟨rfl, rfl⟩), rfl, rfl⟩
    · rintro ⟨r, hr, hq, hsignal⟩
      rcases hget.mp hr with hr | ⟨rfl, rfl⟩
      · exact .inl ⟨r, hr, hq, hsignal⟩
      · exact .inr ⟨rfl, hq.symm, hsignal.symm⟩
  · intro j o
    rw [List.mem_append, hsettled, h.settled]
    constructor
    · rintro (⟨r, hr, ho⟩ | ⟨rfl, ho⟩)
      · exact ⟨r, hget.mpr (.inl hr), ho⟩
      · exact ⟨new, hget.mpr (.inr ⟨rfl, rfl⟩), ho⟩
    · rintro ⟨r, hr, ho⟩
      rcases hget.mp hr with hr | ⟨rfl, rfl⟩
      · exact .inl ⟨r, hr, ho⟩
      · exact .inr ⟨rfl, ho⟩
  · intro j q hj
    rw [hold _ (fun _ _ _ => by simp) (fun _ _ => by simp)] at hj
    obtain ⟨r, hr, hor⟩ := h.dispatched j q hj
    exact ⟨r, hget.mpr (.inl hr), hor⟩
  · intro j r a c x hr hp
    rcases hget.mp hr with hr | ⟨rfl, rfl⟩
    · obtain ⟨⟨q, hq⟩, hreply⟩ := h.sent j r a c x hr hp
      refine ⟨⟨q, List.mem_append_left _ hq⟩, fun z => ?_⟩
      rw [hold _ (fun _ _ _ => by simp) (fun _ _ => by simp)]
      exact hreply z
    · exact absurd hp (hphase a c x)
  · intro j x hx
    rw [hold _ (fun _ _ _ => by simp) (fun _ _ => by simp)] at hx
    obtain ⟨q, hq⟩ := h.replied j x hx
    exact ⟨q, List.mem_append_left _ hq⟩
  · rw [hold _ (fun _ _ _ => by simp) (fun _ _ => by simp)]
    exact h.closed
  · intro n own
    rw [hold _ (fun _ _ _ => by simp) (fun _ _ => by simp)]
    exact h.disconnect n own
  · intro n
    rw [hold _ (fun _ _ _ => by simp) (fun _ _ => by simp)]
    exact h.disconnected n
  · have hnone : (newEntries s.requests.length new).filterMap dispatchedIndex = [] := by
      rw [newEntries]
      split
      · rfl
      · rfl
    rw [List.filterMap_append, hnone, List.append_nil]
    exact h.once
  · have hfirst : Each Good (s.log ++ [.requested s.requests.length new.request new.signal]) :=
      each_concat h.good trivial
    have hnever : ∀ q, .dispatched s.requests.length q ∉
        s.log ++ [.requested s.requests.length new.request new.signal] := by
      intro q hq
      rcases List.mem_append.mp hq with hq | hq
      · obtain ⟨r, hr, -⟩ := h.dispatched _ q hq
        exact absurd (hlt hr) (Nat.lt_irrefl _)
      · cases List.mem_singleton.mp hq
    rw [newEntries]
    split
    · next o ho =>
      show Each Good (s.log ++ [.requested s.requests.length new.request new.signal,
        .settled s.requests.length o])
      rw [List.append_cons]
      refine each_concat hfirst ?_
      rintro ⟨q, hq⟩
      exact absurd hq (hnever q)
    · exact hfirst

theorem Logged.enqueue (h : Logged s) (r : GitRequest) (signal : Bool) :
    Logged (s.enqueue r signal) := by
  rw [GitSession.enqueue]
  split
  · exact (@Logged.add V s ⟨r, signal, false, [], .settled _⟩ h
      (fun _ _ _ heq => by cases heq)).congr rfl rfl rfl rfl
  · split
    · exact (@Logged.add V s ⟨r, signal, false, _, .queued⟩ h
        (fun _ _ _ heq => by cases heq)).congr rfl rfl rfl rfl
    · exact (@Logged.add V s ⟨r, signal, false, _, .queued⟩ h
        (fun _ _ _ heq => by cases heq)).congr rfl rfl rfl rfl

end GitSession

end Porthop.Session
