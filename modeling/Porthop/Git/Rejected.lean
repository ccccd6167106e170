import Porthop.Git.Honest
import Porthop.Git.Once

/- A rejected receipt is truthful, in every run in which no lookup's missing record is
   recorded too early.

   An operation is `Dead` when its action has not started and no write of it is left that
   could start it. Death is for good, since its row keeps the id from being sent again.
   What remains is that the desktop only writes `Rejected` for the dead: a write is
   answered with one of the listed errors before its action, and then nothing of it is
   left; a lookup that finds no record says nothing of a write that is still on its way,
   and this is where `premature` comes in. -/
namespace Porthop.Git
open Run
open Pending (ReceiptState Fault Receipt)
open Porthop.Lists (getElem?_set_cases getElem?_concat)

/-- The operation's action has not started and nothing is left that could start it. -/
def Dead (uuid : String → Option Uuid) (me : String) (w : World) (u : Uuid) : Prop :=
  (∀ op, uuid op = some u → ⟨me, op⟩ ∉ w.sys.started) ∧
    ∀ (n : Nat) (x : Exchange), w.calls[n]? = some x → x.live = true →
      x.writes uuid u = false

/-- The rows that say `Rejected` are of dead operations. -/
def Truthful (uuid : String → Option Uuid) (me : String) (w : World) : Prop :=
  ∀ u, w.Recorded u .rejected → Dead uuid me w u

section
variable {uuid : String → Option Uuid} {server : Uuid} {me : String} {w w' : World} {u : Uuid}
  {e : Event}

theorem World.Recorded.known {state : ReceiptState} (h : w.Recorded u state) : w.Known u := by
  obtain ⟨rows, r, hrows, hr, hid, -⟩ := h
  exact ⟨rows, hrows, List.mem_map.mpr ⟨r, hr, hid⟩⟩

theorem Exchange.writes_write {x : Exchange} {v : Write} (hreq : x.req = .write v)
    (h : x.writes uuid u = false) : uuid v.op ≠ some u := by
  simpa [Exchange.writes, hreq] using h

/-- Nothing new can start the operation, and nothing has. -/
theorem Dead.frame (h : Dead uuid me w u) (hstarted : w'.sys.started = w.sys.started)
    (hcalls : ∀ (n : Nat) (x : Exchange), w'.calls[n]? = some x → x.live = true →
      (∃ (m : Nat) (x₀ : Exchange), w.calls[m]? = some x₀ ∧ x₀.live = true ∧ x₀.req = x.req) ∨
        x.writes uuid u = false) :
    Dead uuid me w' u := by
  refine ⟨fun op hop => by rw [hstarted]; exact h.1 op hop, fun n x hx hlive => ?_⟩
  rcases hcalls n x hx hlive with ⟨m, x₀, hx₀, hlive₀, hreq⟩ | hx
  · have := h.2 m x₀ hx₀ hlive₀
    rwa [Exchange.writes, hreq] at this
  · exact hx

/-- An exchange put in another's place. -/
theorem Dead.set (h : Dead uuid me w u) {s : Sys} {f : Pending.File} {n : Nat} {x y : Exchange}
    (hstarted : s.started = w.sys.started) (hx : w.calls[n]? = some x) (hreq : x.req = y.req)
    (hlive : y.live = true → x.live = true) :
    Dead uuid me ⟨s, f, w.calls.set n y⟩ u := by
  refine h.frame hstarted fun m z hz hzlive => .inl ?_
  rcases getElem?_set_cases hz with ⟨rfl, rfl⟩ | ⟨-, hz⟩
  · exact ⟨m, x, hx, hlive hzlive, hreq⟩
  · exact ⟨m, z, hz, hzlive, rfl⟩

theorem Dead.dispatch (h : Dead uuid me w u) {p : Pid} {req : Request} {supported : Bool}
    (hreq : ∀ v, req = .write v → uuid v.op ≠ some u) :
    Dead uuid me (w.dispatch p req supported) u := by
  refine h.frame rfl fun n x hx hlive => ?_
  rcases (getElem?_concat hx).symm with ⟨-, rfl⟩ | hx
  · refine .inr ?_
    cases req with
    | write v => simpa [Exchange.writes] using hreq v rfl
    | get op => rfl
    | review op => rfl
  · exact .inl ⟨n, x, hx, hlive, rfl⟩

/-- A step of the agents starts no dead operation. -/
theorem Dead.agent (hd : Dead uuid me w u) (h : Honest uuid me w) {l : Label} {s' : Sys}
    (hs : Steps w.sys l s') : Dead uuid me { w with sys := s' } u := by
  refine ⟨fun op hop hmem => ?_, hd.2⟩
  rcases hs.begins with hst | ⟨p, c, v, r, hp, -, hst⟩
  · rw [hst] at hmem
    exact hd.1 op hop hmem
  rw [hst] at hmem
  rcases List.mem_cons.mp hmem with heq | hmem
  · -- the process that starts it works on a write of it
    obtain ⟨rfl, rfl⟩ : me = c ∧ op = v.op := by simpa using heq
    obtain ⟨n, x, hx, -, hw, hmay⟩ := h.serving p _ hp rfl
    have hdead := hd.2 n x hx (by simp [Exchange.live, hw])
    exact Exchange.writes_write (hmay v rfl) hdead hop
  · exact hd.1 op hop hmem

/-- **Death is for good.** -/
theorem dead_step (h : Honest uuid me w) (hu : w.Known u) (hd : Dead uuid me w u)
    (hs : World.step uuid server me w e = some w') : w'.Known u ∧ Dead uuid me w' u := by
  obtain ⟨rows, hrows⟩ := h.readable
  have hknown : ∀ c fault, (∀ server op, c ≠ Pending.Call.acknowledge server op) →
      World.Known { w with ledger := (c.run fault w.ledger).2 } u :=
    fun c fault hc => known_run c fault hrows hc hu
  cases e with
  | agent l =>
    simp only [World.step] at hs
    split at hs
    · cases hs
    obtain ⟨s', hstep, rfl⟩ := Option.map_eq_some_iff.mp hs
    exact ⟨hu, hd.agent h (step_steps hstep)⟩
  | send p req action supported fault =>
    cases req with
    | write v =>
      simp only [World.step] at hs
      split at hs
      · split at hs
        · cases hs
        next u' hu' =>
        have hsaved := hknown (.begin server u' action) fault (by simp)
        split at hs
        · cases hs
          exact ⟨hsaved, hd.frame rfl fun n x hx hlive => .inl ⟨n, x, hx, hlive, rfl⟩⟩
        · next hok =>
          cases hs
          refine ⟨hsaved, Dead.dispatch (hd.frame rfl fun n x hx hlive =>
            .inl ⟨n, x, hx, hlive, rfl⟩) fun v' hv' heq => ?_⟩
          -- the id of a new write is not in the ledger
          obtain rfl : v = v' := by simpa using hv'
          obtain rfl := Option.some.inj (hu'.symm.trans heq)
          obtain ⟨rows', hrows', hmem⟩ := hu
          obtain rfl := Except.ok.inj (hrows.symm.trans hrows')
          exact (Pending.begin_saved hrows hok).1 hmem
      · cases hs
    | get op =>
      simp only [World.step] at hs
      split at hs <;> cases hs
      exact ⟨hu, hd.dispatch fun v hv => by cases hv⟩
    | review op =>
      simp only [World.step] at hs
      split at hs <;> cases hs
      exact ⟨hu, hd.dispatch fun v hv => by cases hv⟩
  | deliver n =>
    simp only [World.step] at hs
    split at hs
    · next p req waiting hx =>
      split at hs
      · obtain ⟨s', hstep, rfl⟩ := Option.map_eq_some_iff.mp hs
        simp only [step] at hstep
        split at hstep <;> cases hstep
        exact ⟨hu, hd.set rfl hx rfl fun _ => rfl⟩
      · cases hs
    · cases hs
  | answer n fits =>
    simp only [World.step] at hs
    split at hs
    · next p req waiting hx =>
      split at hs
      · next c reply hp =>
        obtain ⟨s', hstep, rfl⟩ := Option.map_eq_some_iff.mp hs
        simp only [step, hp] at hstep
        cases hstep
        exact ⟨hu, hd.set rfl hx rfl fun _ => rfl⟩
      · cases hs
    · cases hs
  | receive n =>
    simp only [World.step] at hs
    split at hs <;> cases hs
    next hx => exact ⟨hu, hd.set rfl hx rfl fun hlive => by cases hlive⟩
  | record n fault =>
    simp only [World.step] at hs
    split at hs <;> cases hs
    next p req reply hx =>
    refine ⟨?_, hd.set rfl hx rfl fun hlive => by cases hlive⟩
    show World.Known { w with ledger := w.observed uuid server req reply fault } u
    unfold World.observed
    split
    · exact hknown _ fault (by simp)
    · exact hu
  | cut n =>
    simp only [World.step] at hs
    split at hs <;> cases hs
    next x hx => exact ⟨hu, hd.set rfl hx rfl fun hlive => hlive⟩
  | lose n =>
    simp only [World.step] at hs
    split at hs <;> cases hs
    · next hx => exact ⟨hu, hd.set rfl hx rfl fun hlive => by cases hlive⟩
    · next hx => exact ⟨hu, hd.set rfl hx rfl fun hlive => by cases hlive⟩
  | crash p =>
    simp only [World.step] at hs
    split at hs
    · obtain ⟨s', hstep, rfl⟩ := Option.map_eq_some_iff.mp hs
      obtain ⟨pr, -, rfl⟩ := Option.map_eq_some_iff.mp hstep
      refine ⟨hu, hd.frame rfl fun n x hx hlive => .inl ?_⟩
      rw [List.getElem?_map, Option.map_eq_some_iff] at hx
      obtain ⟨x₀, hx₀, rfl⟩ := hx
      unfold Exchange.lost at hlive ⊢
      split at hlive
      · cases hlive
      · next hp => exact ⟨n, x₀, hx₀, hlive, by rw [if_neg hp]⟩
    · cases hs

/-! ## What is recorded -/

/-- Only a listed error, or a missing record, is recorded as a refusal. -/
theorem remoteOutcome_ne_rejected (r : Record) (id : String) :
    remoteOutcome r id ≠ some .rejected := by
  unfold remoteOutcome
  split
  · simp
  · split <;> simp

/-- **The verdict.** A refusal is recorded of the dead. -/
theorem verdict_dead (h : Honest uuid me w) {n : Nat} {fault : Fault} {p : Pid} {req : Request}
    {reply : Reply} (hx : w.calls[n]? = some ⟨p, req, .received reply, true⟩)
    (hu : uuid req.op = some u) (hv : verdict req reply = some .rejected)
    (hok : premature uuid me w (.record n fault) = false) : Dead uuid me w u := by
  cases reply with
  | ok r => exact absurd hv (by cases req <;> exact remoteOutcome_ne_rejected r _)
  | error e =>
  cases req with
  | review op => cases hv
  | get op =>
    have hcode : e.code = "OPERATION_NOT_FOUND" := by
      by_contra hne
      simp [verdict, hne] at hv
    have hop : uuid op = some u := hu
    simp only [premature, hx, hcode, hop, decide_true, Bool.true_and, Option.any_some] at hok
    simp only [World.unsettled, Bool.or_eq_false_iff, List.any_eq_false] at hok
    obtain ⟨hcalls, hentries⟩ := hok
    refine ⟨fun op' hop' hmem => ?_, fun m x hx' hlive => ?_⟩
    · have hkey := h.kept.started _ hmem
      obtain ⟨entry, hentry, hname⟩ := List.mem_map.mp (AList.mem_keys.mp hkey)
      have := hentries entry hentry
      simp [hname, hop'] at this
    · have := hcalls x (List.mem_of_getElem? hx')
      simpa [hlive] using this
  | write v =>
    have hlisted : acted (.error e) = false := by
      by_contra hne
      simp only [acted, Bool.not_eq_false, Bool.not_eq_true', Bool.or_eq_false_iff] at hne
      simp [verdict, hne.1, hne.2] at hv
    have hown : ∀ (m : Nat) (x : Exchange) (v' : Write), w.calls[m]? = some x →
        x.req = .write v' → uuid v'.op = some u → m = n := by
      intro m x v' hx' hreq hv'
      exact h.sent.unique m n x _ v' v hx' hx hreq rfl (hv'.trans hu.symm)
    refine ⟨fun op hop hmem => ?_, fun m x hx' hlive => ?_⟩
    · -- a started action's exchange is this one, and its answer would be another
      obtain ⟨m, x, v', hx', hreq, rfl, hspoke⟩ := h.begun op hmem
      obtain rfl := hown m x v' hx' hreq hop
      obtain rfl := Option.some.inj (hx.symm.trans hx')
      exact absurd hspoke (by simp [Spoke, hlisted])
    · by_contra hwrites
      cases hreq : x.req with
      | write v' =>
        simp only [Exchange.writes, hreq, decide_eq_true_eq, Bool.not_eq_false] at hwrites
        obtain rfl := hown m x v' hx' hreq hwrites
        obtain rfl := Option.some.inj (hx.symm.trans hx')
        cases hlive
      | get op => simp [Exchange.writes, hreq] at hwrites
      | review op => simp [Exchange.writes, hreq] at hwrites

/-- A rejected row is an old one, or the step records it. -/
theorem rejected_cases (h : Honest uuid me w) (hs : World.step uuid server me w e = some w')
    (hr : w'.Recorded u .rejected) : w.Recorded u .rejected ∨
      ∃ n fault p req reply, e = .record n fault ∧
        w.calls[n]? = some ⟨p, req, .received reply, true⟩ ∧ uuid req.op = some u ∧
        verdict req reply = some .rejected := by
  obtain ⟨rows, hrows⟩ := h.readable
  obtain ⟨rows', r, hrows', hmem, rfl, hstate⟩ := hr
  have same : w'.ledger = w.ledger → w.Recorded r.operationId .rejected := fun heq =>
    ⟨rows', r, by rw [← heq]; exact hrows', hmem, rfl, hstate⟩
  cases e with
  | agent l =>
    simp only [World.step] at hs
    split at hs
    · cases hs
    obtain ⟨s', -, rfl⟩ := Option.map_eq_some_iff.mp hs
    exact .inl (same rfl)
  | send p req action supported fault =>
    cases req with
    | write v =>
      simp only [World.step] at hs
      split at hs
      · split at hs
        · cases hs
        next u' hu' =>
        have hledger : w'.ledger = ((Pending.Call.begin server u' action).run fault w.ledger).2 := by
          split at hs <;> cases hs <;> rfl
        obtain ⟨rows₁, hread, hcases⟩ :=
          Pending.run_rows (.begin server u' action) fault hrows
        rw [← hledger] at hread
        obtain rfl := Except.ok.inj (hrows'.symm.trans hread)
        rcases hcases with rfl | happly
        · exact .inl ⟨rows', r, hrows, hmem, rfl, hstate⟩
        · obtain ⟨rfl, -⟩ := Pending.begin_ok happly
          rcases List.mem_append.mp hmem with hmem | hmem
          · exact .inl ⟨rows, r, hrows, hmem, rfl, hstate⟩
          · obtain rfl := List.mem_singleton.mp hmem
            cases hstate
      · cases hs
    | get op =>
      simp only [World.step] at hs
      split at hs <;> cases hs
      exact .inl (same rfl)
    | review op =>
      simp only [World.step] at hs
      split at hs <;> cases hs
      exact .inl (same rfl)
  | deliver n =>
    simp only [World.step] at hs
    split at hs
    · split at hs
      · obtain ⟨s', -, rfl⟩ := Option.map_eq_some_iff.mp hs
        exact .inl (same rfl)
      · cases hs
    · cases hs
  | answer n fits =>
    simp only [World.step] at hs
    split at hs
    · split at hs
      · obtain ⟨s', -, rfl⟩ := Option.map_eq_some_iff.mp hs
        exact .inl (same rfl)
      · cases hs
    · cases hs
  | receive n =>
    simp only [World.step] at hs
    split at hs <;> cases hs
    exact .inl (same rfl)
  | record n fault =>
    simp only [World.step] at hs
    split at hs <;> cases hs
    next p req reply hx =>
    simp only [World.observed] at hrows'
    split at hrows'
    · next u' state hop hv =>
      obtain ⟨rows₁, hread, hcases⟩ :=
        Pending.run_rows (.observe server u' state) fault hrows
      obtain rfl := Except.ok.inj (hrows'.symm.trans hread)
      rcases hcases with rfl | happly
      · exact .inl ⟨rows', r, hrows, hmem, rfl, hstate⟩
      · obtain rfl := Pending.observe_ok happly
        rcases Pending.mem_setState hmem with hmem | ⟨r₀, -, rfl, -, rfl⟩
        · exact .inl ⟨rows, r, hrows, hmem, rfl, hstate⟩
        · obtain rfl : state = .rejected := hstate
          exact .inr ⟨n, fault, p, req, reply, rfl, hx, hop, hv⟩
    · exact .inl ⟨rows', r, hrows', hmem, rfl, hstate⟩
  | cut n =>
    simp only [World.step] at hs
    split at hs <;> cases hs
    exact .inl (same rfl)
  | lose n =>
    simp only [World.step] at hs
    split at hs <;> cases hs <;> exact .inl (same rfl)
  | crash p =>
    simp only [World.step] at hs
    split at hs
    · obtain ⟨s', -, rfl⟩ := Option.map_eq_some_iff.mp hs
      exact .inl (same rfl)
    · cases hs

/-- **Step lemma.** -/
theorem truthful_step (h : Honest uuid me w) (ht : Truthful uuid me w)
    (hok : premature uuid me w e = false) (hs : World.step uuid server me w e = some w') :
    Truthful uuid me w' := by
  intro u hr
  rcases rejected_cases h hs hr with hold | ⟨n, fault, p, req, reply, rfl, hx, hop, hv⟩
  · exact (dead_step h hold.known (ht u hold) hs).2
  · -- the row may be new to the step, its id is not
    have hdead := verdict_dead h hx hop hv hok
    by_cases hknown : w.Known u
    · exact (dead_step h hknown hdead hs).2
    · simp only [World.step, hx, Option.some.injEq] at hs
      subst hs
      exact hdead.set rfl hx rfl fun hlive => by cases hlive

end

/-! ## Every run -/

section
variable {uuid : String → Option Uuid} {server : Uuid} {me : String} {w v : World} {u : Uuid}

/-- **Run lemma.** -/
theorem truthful_run {es : List Event}
    (hok : Along (World.step uuid server me) (fun w e => premature uuid me w e = false) es
      World.init)
    (hrun : exec (World.step uuid server me) es World.init = some w) :
    Honest uuid me w ∧ Truthful uuid me w := by
  have hinit : Truthful uuid me World.init := by
    rintro u ⟨rows, r, hrows, hr, -⟩
    cases hrows
    cases hr
  have hstep : ∀ w e w', Honest uuid me w ∧ Truthful uuid me w → premature uuid me w e = false →
      World.step uuid server me w e = some w' → Honest uuid me w' ∧ Truthful uuid me w' :=
    fun _ _ _ h hok hs => ⟨honest_step h.1 hs, truthful_step h.1 h.2 hok hs⟩
  exact along_invariant hstep ⟨honest_init, hinit⟩ hok hrun

/-- The dead stay dead. -/
theorem dead_run {fs : List Event} (h : Honest uuid me w) (hu : w.Known u)
    (hd : Dead uuid me w u) (hrun : exec (World.step uuid server me) fs w = some v) :
    Dead uuid me v u :=
  (exec_invariant
    (fun _ _ _ (h : Honest uuid me _ ∧ World.Known _ u ∧ Dead uuid me _ u) hs =>
      ⟨honest_step h.1 hs, dead_step h.1 h.2.1 h.2.2 hs⟩) ⟨h, hu, hd⟩ hrun).2.2

end

/-- **A rejected receipt is truthful.** In every run in which no missing record is recorded
    while its operation is unsettled, when the ledger says `Rejected` of an operation its
    action has not started, and it does not start however the run goes on. -/
theorem rejected_is_truthful (uuid : String → Option Uuid) (server : Uuid) (me : String)
    (es fs : List Event) (w v : World)
    (hok : Along (World.step uuid server me) (fun w e => premature uuid me w e = false) es
      World.init)
    (hw : exec (World.step uuid server me) es World.init = some w)
    (hv : exec (World.step uuid server me) fs w = some v)
    (u : Uuid) (hr : w.Recorded u .rejected) (op : String) (hop : uuid op = some u) :
    ⟨me, op⟩ ∉ w.sys.started ∧ ⟨me, op⟩ ∉ v.sys.started := by
  obtain ⟨h, ht⟩ := truthful_run hok hw
  have hd := ht u hr
  exact ⟨hd.1 op hop, (dead_run h hr.known hd hv).1 op hop⟩

/-! A write that is slow and one that is refused. -/

def operation : Uuid := 0x7f9619ff8b86d011b42d00cf4fc964ff

def pendingRow : Receipt := ⟨operation, 1, "repo.init", .pending⟩

/-- The receipt is saved and the request leaves. -/
def sendRun : List Event :=
  [.agent (.spawn 1 clientId), .send 1 (.write (initRequest 7)) "repo.init" true .none]

/-- The world after it, with some ledger. -/
def sentWorld (f : Pending.File) : World :=
  { sys := Sys.init.goto 1 clientId .idle, ledger := f,
    calls := [⟨1, .write (initRequest 7), .queued, true⟩] }

theorem exec_sendRun : exec (World.step sampleUuid 1 clientId) sendRun World.init =
    some (sentWorld (some (Pending.encode [pendingRow]))) := by
  have hbegin : (Pending.Call.begin 1 operation "repo.init").run .none none =
      (.ok (), some (Pending.encode [pendingRow])) := rfl
  have hsend : exec (World.step sampleUuid 1 clientId) sendRun World.init =
      some (sentWorld ((Pending.Call.begin 1 operation "repo.init").run .none none).2) := rfl
  rw [hsend, hbegin]

/-- A run that goes on from there to a rejection has the rejection in its ledger. -/
theorem rejected_row {es : List Event}
    (h : ∀ f, (exec (World.step sampleUuid 1 clientId) es (sentWorld f)).map World.ledger =
      some ((Pending.Call.observe 1 operation .rejected).run .none f).2) :
    ∃ w, exec (World.step sampleUuid 1 clientId) (sendRun ++ es) World.init = some w ∧
      w.Recorded operation .rejected := by
  obtain ⟨w, hw, hl⟩ := Option.map_eq_some_iff.mp (h (some (Pending.encode [pendingRow])))
  refine ⟨w, by rw [exec_append, exec_sendRun]; exact hw, ?_⟩
  have hrun : ((Pending.Call.observe 1 operation .rejected).run .none
      (some (Pending.encode [pendingRow]))).2 =
      some (Pending.encode [{ pendingRow with state := .rejected }]) := by
    simp only [Pending.Call.run, Pending.call, @Pending.read_encode [pendingRow] (by decide)]
    rfl
  refine ⟨[{ pendingRow with state := .rejected }], _, ?_, List.mem_singleton.mpr rfl, rfl, rfl⟩
  rw [hl, hrun, Pending.read_encode (by decide)]

/-- The first agent has the write and has looked at nothing yet when the desktop gives up on
    it. A second one, after the reconnect, finds no record. -/
def slowRun : List Event :=
  [.deliver 0, .cut 0, .agent (.spawn 2 clientId), .send 2 (.get operationId) "" true .none,
    .deliver 1, .agent (.step 2), .answer 1 true, .receive 1, .record 1 .none]

/-- Then the first goes on. -/
def lateSteps : List Event := (List.replicate 8 1).map fun p => .agent (.step p)

theorem slow_write_starts_after_rejection :
    ¬ ∀ (uuid : String → Option Uuid) (server : Uuid) (me : String) (es fs : List Event)
      (w v : World), exec (World.step uuid server me) es World.init = some w →
        exec (World.step uuid server me) fs w = some v → ∀ u, w.Recorded u .rejected →
          ∀ op, uuid op = some u → ⟨me, op⟩ ∉ w.sys.started ∧ ⟨me, op⟩ ∉ v.sys.started := by
  intro h
  obtain ⟨w, hw, hr⟩ := @rejected_row slowRun fun f => rfl
  have hstarted : (exec (World.step sampleUuid 1 clientId) ((sendRun ++ slowRun) ++ lateSteps)
      World.init).map (fun w => w.sys.started) = some [⟨clientId, operationId⟩] := by
    decide +kernel
  rw [exec_append, hw] at hstarted
  obtain ⟨v, hv, hs⟩ := Option.map_eq_some_iff.mp hstarted
  have := (h sampleUuid 1 clientId _ lateSteps w v hw hv operation hr operationId (by decide)).2
  rw [hs] at this
  exact absurd this (by decide)

/-- The agent refuses the write: the directory is already a repository. -/
def refusedRun : List Event :=
  [.deliver 0, .agent (.step 1), .agent (.step 1), .agent (.step 1),
    .agent (.fail 1 (.new "ALREADY_REPOSITORY"
      "The selected directory is already inside a repository.")),
    .agent (.step 1), .answer 0 true, .receive 0, .record 0 .none]

theorem refused_write_is_dead : ∃ w,
    exec (World.step sampleUuid 1 clientId) (sendRun ++ refusedRun) World.init = some w ∧
    w.Recorded operation .rejected ∧ ⟨clientId, operationId⟩ ∉ w.sys.started := by
  obtain ⟨w, hw, hr⟩ := @rejected_row refusedRun fun f => rfl
  have hok : along (World.step sampleUuid 1 clientId)
      (fun w e => !premature sampleUuid clientId w e) (sendRun ++ refusedRun) World.init =
      true := by decide +kernel
  have hok := along_weaken (fun s l h => by simpa using h) (along_of_decide hok)
  exact ⟨w, hw, hr, (rejected_is_truthful sampleUuid 1 clientId _ [] w w hok hw rfl operation
    hr operationId (by decide)).1⟩

end Porthop.Git
