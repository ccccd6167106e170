import Porthop.Session.Model

/- The order of the requests of a session.

   A request may go on when those have settled that it stands behind: a write behind all that
   came before it, a read behind the writes. What it waits for is shorter, the last write and
   the reads that are known not to have settled; the invariant is that this is enough. From it
   follows that a write is under way alone, and so that no failure of another request can give
   up its connection. -/
namespace Porthop.Session

namespace GitSession

variable {V : Type} {s s' : GitSession V}

/-- The first request stands behind the second. -/
def Behind (r other : Request V) : Prop := r.isWrite = true ∨ other.isWrite = true

/-- All have settled that a request stands behind. -/
def Passed (s : GitSession V) (i : Nat) (r : Request V) : Prop :=
  ∀ j other, j < i → s.requests[j]? = some other → Behind r other → other.isSettled = true

/-- The request has a connection, or asks for one. -/
def underWay (r : Request V) : Bool :=
  match r.phase with
  | .connecting _ | .registering _ _ _ | .sent _ _ _ => true
  | _ => false

/-- A disconnect by the session itself that has not finished. -/
def Letting (s : GitSession V) (n : Nat) : Prop := s.resets[n]? = some ⟨true, false⟩

structure Order (s : GitSession V) : Prop where
  queued : ∀ (i : Nat) (r : Request V), s.requests[i]? = some r → r.phase = .queued → ∀ (j : Nat) (other : Request V), j < i →
    s.requests[j]? = some other → Behind r other → other.isSettled = true ∨
      ∃ k ∈ r.barrier, j ≤ k ∧ k < i ∧
        (j = k ∨ ∃ rk, s.requests[k]? = some rk ∧ rk.isWrite = true)
  passed : ∀ (i : Nat) (r : Request V), s.requests[i]? = some r → r.phase ≠ .queued → r.isRefused = false → Passed s i r
  refused : ∀ (i : Nat) (r : Request V), s.requests[i]? = some r → r.isRefused = true → r.isSettled = true
  writeBarrier : ∀ (j : Nat) (other : Request V), s.requests[j]? = some other → other.isWrite = true →
    ∃ w rw, s.writeBarrier = some w ∧ j ≤ w ∧ s.requests[w]? = some rw ∧ rw.isWrite = true
  reads : ∀ (j : Nat) (other : Request V), s.requests[j]? = some other → other.request.isGitMutation = false →
    other.isSettled = false → j ∈ s.reads
  resets : ∀ n own, s.resets[n]? = some ⟨own, false⟩ → s.resetting = some n
  waits : ∀ (i : Nat) (r : Request V) (reset : Option Nat), s.requests[i]? = some r → r.isWrite = true → r.phase = .resetting reset →
    ∀ n, Letting s n → reset = some n
  alone : ∀ (i : Nat) (r : Request V), s.requests[i]? = some r → r.isWrite = true → underWay r = true →
    ∀ n, ¬ Letting s n

/-- The log, the connections and the closing are no part of it. -/
theorem Order.congr (h : Order s) (hrequests : s'.requests = s.requests)
    (hbarrier : s'.writeBarrier = s.writeBarrier) (hreads : s'.reads = s.reads)
    (hresetting : s'.resetting = s.resetting) (hresets : s'.resets = s.resets) : Order s' where
  queued := by
    rw [hrequests]
    exact h.queued
  passed i r := by
    rw [Passed, hrequests]
    exact h.passed i r
  refused := by
    rw [hrequests]
    exact h.refused
  writeBarrier := by
    rw [hrequests, hbarrier]
    exact h.writeBarrier
  reads := by
    rw [hrequests, hreads]
    exact h.reads
  resets := by
    rw [hresets, hresetting]
    exact h.resets
  waits i r reset hr hw hp n hn := by
    rw [hrequests] at hr
    rw [Letting, hresets] at hn
    exact h.waits i r reset hr hw hp n hn
  alone i r hr hw hu n hn := by
    rw [hrequests] at hr
    rw [Letting, hresets] at hn
    exact h.alone i r hr hw hu n hn

/-! ## Going on -/

theorem getElem?_put (s : GitSession V) (i j : Nat) (p : Phase V) (es : List (Entry V)) :
    (s.put i p es).requests[j]? =
      (s.requests[j]?).map fun r => if i = j then { r with phase := p } else r := by
  show (s.requests.modify i _)[j]? = _
  rw [List.getElem?_modify]
  cases s.requests[j]? with
  | none => rfl
  | some r =>
    by_cases hij : i = j
    · simp [hij]
    · simp [hij]

theorem put_other {i j : Nat} {p : Phase V} {es : List (Entry V)} (hij : i ≠ j) :
    (s.put i p es).requests[j]? = s.requests[j]? := by
  rw [getElem?_put]
  simp [hij]

theorem put_same {i : Nat} {r : Request V} {p : Phase V} {es : List (Entry V)}
    (hr : s.requests[i]? = some r) : (s.put i p es).requests[i]? = some { r with phase := p } := by
  rw [getElem?_put, hr]
  simp

/-- What a request is is not changed by where it waits. -/
theorem of_put {i j : Nat} {r r' : Request V} {p : Phase V} {es : List (Entry V)}
    (hr : s.requests[i]? = some r) (hopen : r.isSettled = false)
    (hr' : (s.put i p es).requests[j]? = some r') :
    ∃ old, s.requests[j]? = some old ∧ old.isWrite = r'.isWrite ∧ old.isRefused = r'.isRefused ∧
      old.barrier = r'.barrier ∧ old.request = r'.request ∧
      (old.isSettled = true → r'.isSettled = true) ∧ (i ≠ j → old = r') ∧
      (i = j → old = r ∧ r'.phase = p) := by
  by_cases hij : i = j
  · subst hij
    rw [put_same hr] at hr'
    obtain rfl := Option.some.inj hr'
    refine ⟨r, hr, rfl, rfl, rfl, rfl, fun hs => ?_, fun hne => absurd rfl hne, fun _ => ⟨rfl, rfl⟩⟩
    rw [hopen] at hs
    cases hs
  · rw [put_other hij] at hr'
    exact ⟨r', hr', rfl, rfl, rfl, rfl, id, fun _ => rfl, fun h => absurd h hij⟩

theorem to_put {i j : Nat} {old r : Request V} {p : Phase V} {es : List (Entry V)}
    (hr : s.requests[i]? = some r) (hold : s.requests[j]? = some old) :
    ∃ r', (s.put i p es).requests[j]? = some r' ∧ r'.isWrite = old.isWrite := by
  by_cases hij : i = j
  · subst hij
    rw [hr] at hold
    obtain rfl := Option.some.inj hold
    exact ⟨_, put_same hr, rfl⟩
  · exact ⟨old, by rw [put_other hij, hold], rfl⟩

/-- A request whose turn has come goes on to its next wait, or settles. -/
theorem Order.put {i : Nat} {r : Request V} {p : Phase V} {es : List (Entry V)} (h : Order s)
    (hr : s.requests[i]? = some r) (hopen : r.isSettled = false) (hpass : Passed s i r)
    (hp : p ≠ .queued) (hreset : ∀ reset, p = .resetting reset → reset = s.resetting)
    (hunder : underWay { r with phase := p } = true → r.isWrite = true → ∀ n, ¬ Letting s n) :
    Order (s.put i p es) where
  queued j r' hr' hq k other' hk hother' hbehind := by
    obtain ⟨old, hold, hwrite, -, hbarrier, -, -, hsame, hself⟩ := of_put hr hopen hr'
    have hij : i ≠ j := by
      rintro rfl
      rw [(hself rfl).2] at hq
      exact hp hq
    obtain rfl := hsame hij
    obtain ⟨other, hother, hwrite', -, -, -, hsettled, -, -⟩ := of_put hr hopen hother'
    rw [Behind, ← hwrite'] at hbehind
    rcases h.queued j old hold hq k other hk hother hbehind with hs | ⟨b, hb, hkb, hbj, hend⟩
    · exact .inl (hsettled hs)
    · refine .inr ⟨b, hb, hkb, hbj, hend.imp_right ?_⟩
      rintro ⟨rb, hrb, hrbw⟩
      obtain ⟨rb', hrb', hsamew⟩ := @to_put _ s i b rb r p es hr hrb
      exact ⟨rb', hrb', hsamew.trans hrbw⟩
  passed j r' hr' hq href k other' hk hother' hbehind := by
    obtain ⟨old, hold, hwrite, hrefused, -, -, -, hsame, hself⟩ := of_put hr hopen hr'
    obtain ⟨other, hother, hwrite', -, -, -, hsettled, -, -⟩ := of_put hr hopen hother'
    rw [Behind, ← hwrite, ← hwrite'] at hbehind
    apply hsettled
    by_cases hij : i = j
    · subst hij
      obtain ⟨rfl, -⟩ := hself rfl
      exact hpass k other hk hother hbehind
    · obtain rfl := hsame hij
      exact h.passed j old hold hq href k other hk hother hbehind
  refused j r' hr' href := by
    obtain ⟨old, hold, -, hrefused, -, -, hsettled, -, -⟩ := of_put hr hopen hr'
    rw [← hrefused] at href
    exact hsettled (h.refused j old hold href)
  writeBarrier j r' hr' hw := by
    obtain ⟨old, hold, hwrite, -⟩ := of_put hr hopen hr'
    rw [← hwrite] at hw
    obtain ⟨w, rw', hbarrier, hle, hrw, hrww⟩ := h.writeBarrier j old hold hw
    obtain ⟨rw'', hrw'', hsamew⟩ := @to_put _ s i w rw' r p es hr hrw
    exact ⟨w, rw'', hbarrier, hle, hrw'', hsamew.trans hrww⟩
  reads j r' hr' hm hs := by
    obtain ⟨old, hold, -, -, -, hrequest, hsettled, -, -⟩ := of_put hr hopen hr'
    rw [← hrequest] at hm
    apply h.reads j old hold hm
    apply eq_false_of_ne_true
    intro hos
    rw [hsettled hos] at hs
    cases hs
  resets := h.resets
  waits j r' reset hr' hw hphase n hn := by
    obtain ⟨old, hold, hwrite, -, -, -, -, hsame, hself⟩ := of_put hr hopen hr'
    by_cases hij : i = j
    · rw [(hself hij).2] at hphase
      rw [hreset reset hphase]
      exact h.resets n true hn
    · obtain rfl := hsame hij
      exact h.waits j old reset hold hw hphase n hn
  alone j r' hr' hw hu n hn := by
    obtain ⟨old, hold, hwrite, -, -, -, -, hsame, hself⟩ := of_put hr hopen hr'
    by_cases hij : i = j
    · obtain ⟨rfl, hphase⟩ := hself hij
      rw [← hwrite] at hw
      refine hunder ?_ hw n hn
      rw [underWay, hphase] at hu
      exact hu
    · obtain rfl := hsame hij
      exact h.alone j old hold hw hu n hn

/-- A write is under way alone. -/
theorem Order.exclusive {i j : Nat} {r other : Request V} (h : Order s)
    (hr : s.requests[i]? = some r) (hother : s.requests[j]? = some other) (hne : i ≠ j)
    (hq : r.phase ≠ .queued) (hq' : other.phase ≠ .queued) (hopen : r.isSettled = false)
    (hopen' : other.isSettled = false) : other.isWrite = false := by
  have hrefused : ∀ {k : Nat} {x : Request V}, s.requests[k]? = some x → x.isSettled = false →
      x.isRefused = false := by
    intro k x hx hxs
    apply eq_false_of_ne_true
    intro href
    rw [h.refused k x hx href] at hxs
    cases hxs
  apply eq_false_of_ne_true
  intro hw
  rcases Nat.lt_or_gt_of_ne hne with hlt | hgt
  · have hs := h.passed j other hother hq' (hrefused hother hopen') i r hlt hr (.inl hw)
    rw [hs] at hopen
    cases hopen
  · have hs := h.passed i r hr hq (hrefused hr hopen) j other hgt hother (.inr hw)
    rw [hs] at hopen'
    cases hopen'

theorem Order.abort (h : Order s) (i : Nat) :
    Order { s with requests := s.requests.modify i fun r => { r with aborted := true } } := by
  have hof : ∀ {j : Nat} {r' : Request V},
      (s.requests.modify i fun r => { r with aborted := true })[j]? = some r' →
      ∃ old, s.requests[j]? = some old ∧ r'.request = old.request ∧ r'.signal = old.signal ∧
        r'.barrier = old.barrier ∧ r'.phase = old.phase := by
    intro j r' hr'
    rw [List.getElem?_modify] at hr'
    obtain ⟨old, hold, rfl⟩ := Option.map_eq_some_iff.mp hr'
    refine ⟨old, hold, ?_⟩
    by_cases hij : i = j
    · simp [hij]
    · simp [hij]
  have hto : ∀ {j : Nat} {old : Request V}, s.requests[j]? = some old →
      ∃ r', (s.requests.modify i fun r => { r with aborted := true })[j]? = some r' ∧
        r'.isWrite = old.isWrite := by
    intro j old hold
    rw [List.getElem?_modify, hold]
    by_cases hij : i = j
    · exact ⟨_, rfl, by simp [hij, Request.isWrite]⟩
    · exact ⟨_, rfl, by simp [hij]⟩
  constructor
  · intro j r' hr' hq k other' hk hother' hbehind
    obtain ⟨old, hold, hrequest, hsignal, hbarrier, hphase⟩ := hof hr'
    obtain ⟨other, hother, hrequest', hsignal', -, hphase'⟩ := hof hother'
    rw [hphase] at hq
    rw [Behind, Request.isWrite, Request.isWrite, hrequest, hsignal, hrequest', hsignal'] at hbehind
    rw [Request.isSettled, hphase', hbarrier]
    rcases h.queued j old hold hq k other hk hother hbehind with hs | ⟨b, hb, hkb, hbj, hend⟩
    · exact .inl hs
    · refine .inr ⟨b, hb, hkb, hbj, hend.imp_right ?_⟩
      rintro ⟨rb, hrb, hrbw⟩
      obtain ⟨rb', hrb', hsamew⟩ := hto hrb
      exact ⟨rb', hrb', hsamew.trans hrbw⟩
  · intro j r' hr' hq href k other' hk hother' hbehind
    obtain ⟨old, hold, hrequest, hsignal, -, hphase⟩ := hof hr'
    obtain ⟨other, hother, hrequest', hsignal', -, hphase'⟩ := hof hother'
    rw [hphase] at hq
    rw [Request.isRefused, hrequest, hsignal] at href
    rw [Behind, Request.isWrite, Request.isWrite, hrequest, hsignal, hrequest', hsignal'] at hbehind
    rw [Request.isSettled, hphase']
    exact h.passed j old hold hq href k other hk hother hbehind
  · intro j r' hr' href
    obtain ⟨old, hold, hrequest, hsignal, -, hphase⟩ := hof hr'
    rw [Request.isRefused, hrequest, hsignal] at href
    rw [Request.isSettled, hphase]
    exact h.refused j old hold href
  · intro j r' hr' hw
    obtain ⟨old, hold, hrequest, hsignal, -, -⟩ := hof hr'
    rw [Request.isWrite, hrequest, hsignal] at hw
    obtain ⟨w, rw', hbarrier, hle, hrw, hrww⟩ := h.writeBarrier j old hold hw
    obtain ⟨rw'', hrw'', hsamew⟩ := hto hrw
    exact ⟨w, rw'', hbarrier, hle, hrw'', hsamew.trans hrww⟩
  · intro j r' hr' hm hs
    obtain ⟨old, hold, hrequest, -, -, hphase⟩ := hof hr'
    rw [hrequest] at hm
    rw [Request.isSettled, hphase] at hs
    exact h.reads j old hold hm hs
  · exact h.resets
  · intro j r' reset hr' hw hp
    obtain ⟨old, hold, hrequest, hsignal, -, hphase⟩ := hof hr'
    rw [Request.isWrite, hrequest, hsignal] at hw
    rw [hphase] at hp
    exact h.waits j old reset hold hw hp
  · intro j r' hr' hw hu
    obtain ⟨old, hold, hrequest, hsignal, -, hphase⟩ := hof hr'
    rw [Request.isWrite, hrequest, hsignal] at hw
    rw [underWay, hphase] at hu
    exact h.alone j old hold hw hu

/-! ## Giving up the connection -/

theorem forget_requests (s : GitSession V) (own : Bool) : (s.forget own).requests = s.requests := by
  rw [forget]
  split
  · rfl
  · rfl

/-- The disconnects after the connection was let go of. -/
theorem forget_resets (h : Order s) (own : Bool) : (∀ n b, (s.forget own).resets[n]? = some ⟨b, false⟩ →
    (s.forget own).resetting = some n) ∧
      ∀ n, Letting (s.forget own) n → Letting s n ∨ own = true := by
  rw [forget]
  split
  · next k hk =>
    constructor
    · intro n b hn
      show s.resetting = some n
      exact h.resets n b hn
    · intro n hn
      exact .inl hn
  · next hnone =>
    have hold : ∀ (n : Nat) (b : Bool), s.resets[n]? ≠ some ⟨b, false⟩ := by
      intro n b hn
      rw [h.resets n b hn] at hnone
      cases hnone
    have hnew : ∀ (n : Nat) (b : Bool), (s.resets ++ [⟨own, false⟩])[n]? = some ⟨b, false⟩ →
        n = s.resets.length ∧ b = own := by
      intro n b hn
      rw [List.getElem?_append] at hn
      split at hn
      · exact absurd hn (hold n b)
      · rw [List.getElem?_singleton] at hn
        split at hn
        · next hlt hz => exact ⟨by omega, congrArg Reset.own (Option.some.inj hn).symm⟩
        · cases hn
    constructor
    · intro n b hn
      show some s.resets.length = some n
      rw [(hnew n b hn).1]
    · intro n hn
      exact .inr (hnew n true hn).2.symm

/-- The connection is let go of by the caller, or by the session while no write is under way. -/
theorem Order.forget {own : Bool} (h : Order s) (hidle : own = true → ∀ (i : Nat) (r : Request V),
    s.requests[i]? = some r → r.isWrite = true →
      (∀ reset, r.phase ≠ .resetting reset) ∧ underWay r = false) : Order (s.forget own) := by
  obtain ⟨hresets, hletting⟩ := forget_resets h own
  have hsame := forget_requests s own
  have hfields : (s.forget own).writeBarrier = s.writeBarrier ∧ (s.forget own).reads = s.reads := by
    rw [GitSession.forget]
    split
    · exact ⟨rfl, rfl⟩
    · exact ⟨rfl, rfl⟩
  refine ⟨?_, ?_, ?_, ?_, ?_, hresets, ?_, ?_⟩
  · rw [hsame]
    exact h.queued
  · intro i r
    rw [Passed, hsame]
    exact h.passed i r
  · rw [hsame]
    exact h.refused
  · rw [hsame, hfields.1]
    exact h.writeBarrier
  · rw [hsame, hfields.2]
    exact h.reads
  · intro i r reset hr hw hp n hn
    rw [hsame] at hr
    rcases hletting n hn with hold | hown
    · exact h.waits i r reset hr hw hp n hold
    · exact absurd hp ((hidle hown i r hr hw).1 reset)
  · intro i r hr hw hu n hn
    rw [hsame] at hr
    rcases hletting n hn with hold | hown
    · exact h.alone i r hr hw hu n hold
    · rw [(hidle hown i r hr hw).2] at hu
      cases hu

theorem Order.resetFinished (h : Order s) (n : Nat) (own : Bool) :
    Order { s with resets := s.resets.set n ⟨own, true⟩ } := by
  have hold : ∀ (k : Nat) (b : Bool), (s.resets.set n ⟨own, true⟩)[k]? = some ⟨b, false⟩ →
      s.resets[k]? = some ⟨b, false⟩ := by
    intro k b hk
    rw [List.getElem?_set] at hk
    split at hk
    · split at hk
      · cases hk
      · cases hk
    · exact hk
  exact ⟨h.queued, h.passed, h.refused, h.writeBarrier, h.reads, fun k b hk => h.resets k b (hold k b hk),
    fun i r reset hr hw hp k hk => h.waits i r reset hr hw hp k (hold k true hk),
    fun i r hr hw hu k hk => h.alone i r hr hw hu k (hold k true hk)⟩

theorem Order.resetCleared {n : Nat} (h : Order s) (hn : s.resets[n]?.any Reset.finished = true)
    (hresetting : s.resetting = some n) : Order { s with resetting := none } := by
  refine ⟨h.queued, h.passed, h.refused, h.writeBarrier, h.reads, fun k b hk => ?_, h.waits, h.alone⟩
  have hk' := h.resets k b hk
  rw [hresetting] at hk'
  rw [Option.some.inj hk', hk] at hn
  cases hn

/-! ## New requests -/

theorem Order.readSettled {i : Nat} {r : Request V} (h : Order s) (hr : s.requests[i]? = some r)
    (hs : r.isSettled = true) : Order { s with reads := s.reads.filter fun k => k ≠ i } := by
  refine ⟨h.queued, h.passed, h.refused, h.writeBarrier, fun j other hother hm hopen => ?_, h.resets,
    h.waits, h.alone⟩
  refine List.mem_filter.mpr ⟨h.reads j other hother hm hopen, decide_eq_true ?_⟩
  rintro rfl
  rw [hr] at hother
  rw [← Option.some.inj hother, hs] at hopen
  cases hopen

/-- A new request that waits for what it has to. -/
theorem Order.add {new : Request V} {writeBarrier : Option Nat} {reads : List Nat} (h : Order s)
    (hqueued : new.phase = .queued → ∀ (j : Nat) (other : Request V), s.requests[j]? = some other →
      Behind new other → other.isSettled = true ∨ ∃ k ∈ new.barrier, j ≤ k ∧
        (j = k ∨ ∃ rk, s.requests[k]? = some rk ∧ rk.isWrite = true))
    (hpassed : new.phase ≠ .queued → new.isSettled = true ∧ new.isRefused = true)
    (hrefused : new.isRefused = true → new.isSettled = true)
    (hwrites : writeBarrier = if new.isWrite then some s.requests.length else s.writeBarrier)
    (hreads : (∀ k ∈ s.reads, k ∈ reads) ∧ (new.request.isGitMutation = false →
      new.isSettled = false → s.requests.length ∈ reads)) :
    Order { s with
      requests := s.requests ++ [new], writeBarrier := writeBarrier, reads := reads } := by
  have hof : ∀ {j : Nat} {r : Request V}, (s.requests ++ [new])[j]? = some r →
      s.requests[j]? = some r ∨ j = s.requests.length ∧ r = new := by
    intro j r hr
    rw [List.getElem?_append] at hr
    split at hr
    · exact .inl hr
    · next hlt =>
      rw [List.getElem?_singleton] at hr
      split at hr
      · exact .inr ⟨by omega, (Option.some.inj hr).symm⟩
      · cases hr
  have hto : ∀ {j : Nat} {r : Request V}, s.requests[j]? = some r →
      (s.requests ++ [new])[j]? = some r := by
    intro j r hr
    rw [List.getElem?_append_left (List.getElem?_eq_some_iff.mp hr).1]
    exact hr
  have hlt : ∀ {j : Nat} {r : Request V}, s.requests[j]? = some r → j < s.requests.length :=
    fun hr => (List.getElem?_eq_some_iff.mp hr).1
  -- What stands behind another came later, so an old request stands behind old ones.
  have hbefore : ∀ {i j : Nat} {r other : Request V}, s.requests[i]? = some r → j < i →
      (s.requests ++ [new])[j]? = some other → s.requests[j]? = some other := by
    intro i j r other hr hji hother
    rcases hof hother with hother | ⟨rfl, -⟩
    · exact hother
    · exact absurd (hlt hr) (by omega)
  refine ⟨?_, ?_, ?_, ?_, ?_, h.resets, ?_, ?_⟩
  · intro i r hr hq j other hji hother hbehind
    rcases hof hr with hr | ⟨rfl, rfl⟩
    · rcases h.queued i r hr hq j other hji (hbefore hr hji hother) hbehind with hs | ⟨k, hk, hjk, hki, hend⟩
      · exact .inl hs
      · exact .inr ⟨k, hk, hjk, hki, hend.imp_right fun ⟨rk, hrk, hw⟩ => ⟨rk, hto hrk, hw⟩⟩
    · rcases hof hother with hother | ⟨rfl, -⟩
      · rcases hqueued hq j other hother hbehind with hs | ⟨k, hk, hjk, hend⟩
        · exact .inl hs
        · refine .inr ⟨k, hk, hjk, ?_, hend.imp_right fun ⟨rk, hrk, hw⟩ => ⟨rk, hto hrk, hw⟩⟩
          rcases hend with rfl | ⟨rk, hrk, -⟩
          · exact hji
          · exact hlt hrk
      · exact absurd hji (by omega)
  · intro i r hr hq href j other hji hother hbehind
    rcases hof hr with hr | ⟨rfl, rfl⟩
    · exact h.passed i r hr hq href j other hji (hbefore hr hji hother) hbehind
    · rw [(hpassed hq).2] at href
      cases href
  · intro i r hr href
    rcases hof hr with hr | ⟨rfl, rfl⟩
    · exact h.refused i r hr href
    · exact hrefused href
  · intro j other hother hw
    rcases hof hother with hother | ⟨rfl, rfl⟩
    · obtain ⟨w, rw', hbarrier, hle, hrw, hrww⟩ := h.writeBarrier j other hother hw
      by_cases hnew : new.isWrite = true
      · refine ⟨s.requests.length, new, ?_, (hlt hother).le, ?_, hnew⟩
        · rw [hwrites, if_pos hnew]
        · exact List.getElem?_concat_length
      · refine ⟨w, rw', ?_, hle, hto hrw, hrww⟩
        rw [hwrites, if_neg hnew]
        exact hbarrier
    · refine ⟨s.requests.length, other, ?_, le_refl _, hother, hw⟩
      rw [hwrites, if_pos hw]
  · intro j other hother hm hopen
    rcases hof hother with hother | ⟨rfl, rfl⟩
    · exact hreads.1 j (h.reads j other hother hm hopen)
    · exact hreads.2 hm hopen
  · intro i r reset hr hw hp
    rcases hof hr with hr | ⟨rfl, rfl⟩
    · exact h.waits i r reset hr hw hp
    · have hnot := hpassed (by rw [hp]; intro; contradiction)
      rw [Request.isSettled, hp] at hnot
      cases hnot.1
  · intro i r hr hw hu
    rcases hof hr with hr | ⟨rfl, rfl⟩
    · exact h.alone i r hr hw hu
    · have hq : r.phase ≠ .queued := by
        intro hq
        rw [underWay, hq] at hu
        cases hu
      have hs := (hpassed hq).1
      rw [underWay] at hu
      rw [Request.isSettled] at hs
      split at hu
      · next c hp =>
        rw [hp] at hs
        cases hs
      · next a c p hp =>
        rw [hp] at hs
        cases hs
      · next a c p hp =>
        rw [hp] at hs
        cases hs
      · cases hu

theorem Order.enqueue (h : Order s) (r : GitRequest) (signal : Bool) :
    Order (s.enqueue r signal) := by
  -- The last write is behind every other one, and reads are known until they have settled.
  have hwrite : ∀ {j : Nat} {other : Request V}, s.requests[j]? = some other →
      other.isWrite = true → ∃ k ∈ s.writeBarrier.toList, j ≤ k ∧
        (j = k ∨ ∃ rk, s.requests[k]? = some rk ∧ rk.isWrite = true) := by
    intro j other hother hw
    obtain ⟨w, rw', hbarrier, hle, hrw, hrww⟩ := h.writeBarrier j other hother hw
    exact ⟨w, by simp [hbarrier], hle, .inr ⟨rw', hrw, hrww⟩⟩
  rw [GitSession.enqueue]
  split
  · next hrefused =>
    obtain ⟨hsignal, hmutation⟩ := Bool.and_eq_true_iff.mp hrefused
    refine (@Order.add V s ⟨r, signal, false, [], _⟩ _ _ h ?_ ?_ ?_ ?_ ?_).congr rfl rfl rfl rfl rfl
    · intro hq
      cases hq
    · exact fun _ => ⟨rfl, Bool.and_eq_true_iff.mpr ⟨hmutation, hsignal⟩⟩
    · exact fun _ => rfl
    · show _ = if r.isGitMutation && !signal then _ else _
      rw [hsignal, Bool.not_true, Bool.and_false]
      rfl
    · exact ⟨fun _ hk => hk, fun hm => by rw [hmutation] at hm; cases hm⟩
  · next hnot =>
    split
    · next hmutation =>
      have hsignal : signal = false := by
        apply eq_false_of_ne_true
        intro hsignal
        exact hnot (Bool.and_eq_true_iff.mpr ⟨hsignal, hmutation⟩)
      refine (@Order.add V s ⟨r, signal, false, _, .queued⟩ _ _ h ?_ ?_ ?_ ?_ ?_).congr rfl rfl rfl rfl rfl
      · intro _ j other hother _
        by_cases hs : other.isSettled = true
        · exact .inl hs
        · right
          by_cases hm : other.request.isGitMutation = true
          · have hw : other.isWrite = true := by
              rw [Request.isWrite, hm, Bool.true_and, Bool.not_eq_true']
              apply eq_false_of_ne_true
              intro hos
              exact hs (h.refused j other hother (Bool.and_eq_true_iff.mpr ⟨hm, hos⟩))
            obtain ⟨k, hk, hrest⟩ := hwrite hother hw
            exact ⟨k, List.mem_append_left _ hk, hrest⟩
          · have hread := h.reads j other hother (eq_false_of_ne_true hm) (eq_false_of_ne_true hs)
            exact ⟨j, List.mem_append_right _ hread, le_refl j, .inl rfl⟩
      · exact fun hq => absurd rfl hq
      · intro href
        rw [Request.isRefused, hsignal, Bool.and_false] at href
        cases href
      · show _ = if r.isGitMutation && !signal then _ else _
        rw [hmutation, hsignal]
        rfl
      · exact ⟨fun _ hk => hk, fun hm => by rw [hmutation] at hm; cases hm⟩
    · next hmutation =>
      have hread := eq_false_of_ne_true hmutation
      refine (@Order.add V s ⟨r, signal, false, _, .queued⟩ _ _ h ?_ ?_ ?_ ?_ ?_).congr rfl rfl rfl rfl rfl
      · intro _ j other hother hbehind
        right
        rcases hbehind with hw | hw
        · rw [Request.isWrite, hread] at hw
          cases hw
        · exact hwrite hother hw
      · exact fun hq => absurd rfl hq
      · intro href
        rw [Request.isRefused, hread] at href
        cases href
      · show _ = if r.isGitMutation && !signal then _ else _
        rw [hread]
        rfl
      · exact ⟨fun _ hk => List.mem_cons_of_mem _ hk, fun _ _ => List.mem_cons_self⟩

end GitSession

end Porthop.Session
