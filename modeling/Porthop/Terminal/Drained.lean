import Mathlib.Algebra.Ring.Nat
import Porthop.Terminal.Going

/- All that is typed is written once the remote side takes it.

   A step of the native session or of the chain of the writes is always possible while something
   waits, and each leaves less to do. The native session goes first, so that its queue has room
   whenever a chunk arrives. -/
namespace Porthop.Terminal

open Porthop.Run
open Porthop.Lists

def written (native : Option Native) : Bytes := (native.map Native.written).getD []

/-! ## What is left to do -/

def Input.weight : Input → Nat
  | .data _ => 2
  | .resize _ _ => 1

def Native.weight (v : Native) : Nat :=
  (v.input.map Input.weight).sum + if v.writing.isSome then 1 else 0

def Send.weight (w : Send) : Nat :=
  5 * w.rest.length + 1 + match w.call with
  | none => 0
  | some (_, .sent) => 4
  | some (_, .answered _) => 1

def Session.weight (x : Session) : Nat :=
  (x.native.map Native.weight).getD 0 + (x.writes.map Send.weight).sum

/-- What is left to do for the session `n`. -/
def left (n : Nat) (s : State) : Nat := ((s.sessions[n]?).map Session.weight).getD 0

/-- The session is ready, and has that typed. -/
structure Readied (n : Nat) (typed : Bytes) (s : State) : Prop where
  inv : GoingInv n s
  session : ∃ x, s.sessions[n]? = some x ∧ x.ready = true ∧ x.typed = typed

/-- All of it is written. -/
def Wrote (n : Nat) (typed : Bytes) (s : State) : Prop :=
  ∀ x, s.sessions[n]? = some x → written x.native = typed

variable {s t : State} {e : Event} {n : Nat} {x : Session} {typed : Bytes}

theorem left_of (hx : s.sessions[n]? = some x) : left n s = x.weight := by
  rw [left, hx]
  rfl

/-- A step that changes the session and leaves it ready. -/
theorem Readied.put (h : Readied n typed s) (hx : s.sessions[n]? = some x) (x' : Session)
    (hok : Accepts n s e) (hstep : s.step e = some (s.put n x')) (hready : x'.ready = x.ready)
    (htyped : x'.typed = x.typed) (hless : x'.weight < x.weight) :
    ∃ l s', Accepts n s l ∧ s.step l = some s' ∧ Readied n typed s' ∧ left n s' < left n s := by
  obtain ⟨y, hy, hyready, hytyped⟩ := h.session
  obtain rfl := Option.some.inj (hx.symm.trans hy)
  have hx' : (s.put n x').sessions[n]? = some x' := getElem?_set_some x' hx
  refine ⟨e, s.put n x', hok, hstep, ⟨h.inv.step hok hstep, x', hx', ?_, ?_⟩, ?_⟩
  · rw [hready]
    exact hyready
  · rw [htyped]
    exact hytyped
  · rw [left_of hx, left_of hx']
    exact hless

/-! ## One step -/

/-- The native session takes or writes an input. -/
theorem native_progress {v : Native} (hrunning : v.running = true) (hstarted : v.started = true)
    (hleft : v.writing.isSome = true ∨ v.input ≠ []) :
    ∃ event v', v.task event = some v' ∧ (∀ code, event ≠ .exit code) ∧
      (∀ text, event ≠ .fail text) ∧ v'.weight < v.weight := by
  cases hwriting : v.writing with
  | some bytes =>
    refine ⟨.wrote bytes.length, { v with written := v.written ++ bytes, writing := none }, ?_,
      (fun code heq => by cases heq), (fun text heq => by cases heq), ?_⟩
    · simp [Native.task, hrunning, hwriting]
    · simp [Native.weight, hwriting]
  | none =>
    cases hinput : v.input with
    | nil => simp [hwriting, hinput] at hleft
    | cons i input =>
      cases i with
      | data bytes =>
        refine ⟨.take, { v with input := input, writing := some bytes }, ?_,
          (fun code heq => by cases heq), (fun text heq => by cases heq), ?_⟩
        · simp [Native.task, hrunning, hstarted, hwriting, hinput]
        · simp [Native.weight, hwriting, hinput, Input.weight]
          omega
      | resize cols rows =>
        refine ⟨.take, { v with input := input }, ?_, (fun code heq => by cases heq),
          (fun text heq => by cases heq), ?_⟩
        · simp [Native.task, hrunning, hstarted, hwriting, hinput]
        · simp [Native.weight, hwriting, hinput, Input.weight]

theorem accepts_task {event : TaskEvent} (hexit : ∀ code, event ≠ .exit code)
    (hfail : ∀ text, event ≠ .fail text) : Accepts n s (.task n event) := by
  cases event with
  | exit code => exact absurd rfl (hexit code)
  | fail text => exact absurd rfl (hfail text)
  | ready | output | take | wrote => exact ⟨rfl, rfl⟩

/-- A write goes on when nothing waits in the native session. -/
theorem write_progress (h : Readied n typed s) (hx : s.sessions[n]? = some x)
    (hcurrent : s.session = some n) {v : Native} (hv : x.native = some v) (hok : NativeOk x v)
    (hinput : v.input = []) {w : Send} {writes : List Send} (hwrites : x.writes = w :: writes)
    (hw : ∀ bytes call, w.call = some (bytes, call) →
      bytes.length ≤ chunkSize ∧ ∀ error, call ≠ .answered (.error error)) :
    ∃ l s', Accepts n s l ∧ s.step l = some s' ∧ Readied n typed s' ∧ left n s' < left n s := by
  have hchain : s.step (.chain n) = s.chain n x := by
    simp only [State.step, hx, Option.bind_some]
  cases hcall : w.call with
  | none =>
    by_cases hrest : w.rest = []
    · refine h.put hx x.settle (e := .chain n) ⟨rfl, rfl⟩ ?_ ?_ ?_ ?_
      · rw [hchain, State.chain, hwrites]
        simp [hcall, hrest]
      · rw [settle_cons hwrites]
      · rw [settle_cons hwrites]
      · rw [settle_cons hwrites]
        simp only [Session.weight, hwrites, Send.weight, List.map_cons, List.sum_cons]
        omega
    · refine h.put hx (e := .chain n) ({ x with writes :=
        ⟨w.length, w.rest.drop chunkSize, some (w.rest.take chunkSize, .sent)⟩ :: writes })
        ⟨rfl, rfl⟩ ?_ rfl rfl ?_
      · rw [hchain, State.chain, hwrites]
        simp [hcall, hrest, hcurrent]
      · -- a chunk has a byte at least, which weighs more than its call
        have hlength := List.length_pos_iff.mpr hrest
        simp only [Session.weight, hwrites, Send.weight, hcall, List.map_cons, List.sum_cons,
          List.length_drop, chunkSize]
        omega
  | some c =>
    obtain ⟨bytes, call⟩ := c
    obtain ⟨hlength, herror⟩ := hw bytes call hcall
    cases call with
    | sent =>
      have hroom : v.input.length < capacity := by
        rw [hinput]
        decide
      have hsent := write_ok hok.listed hok.running hroom hlength
      refine h.put hx (e := .serveWrite n) ({ x with
        writes := { w with call := some (bytes, .answered (.ok ())) } :: writes
        native := some { v with input := v.input ++ [.data bytes] } }) ⟨rfl, ?_⟩ ?_ rfl rfl ?_
      · simp [finds, hx, Session.hasRoom, hv, hroom]
      · simp only [State.step, hx, Option.bind_some, State.serveWrite, hwrites, hcall, hv, hsent]
      · simp [Session.weight, hwrites, Send.weight, hcall, hv, Native.weight, hinput, Input.weight]
        omega
    | answered r =>
      cases r with
      | error error => exact absurd rfl (herror error)
      | ok =>
        refine h.put hx (e := .chain n) ({ x with
          writes := { w with call := none } :: writes }) ⟨rfl, rfl⟩ ?_ rfl rfl ?_
        · rw [hchain, State.chain, hwrites]
          simp [hcall]
        · simp [Session.weight, hwrites, Send.weight, hcall]

/-- While not all is written, some step of the input is possible. -/
theorem progress (h : Readied n typed s) (hnot : ¬ Wrote n typed s) :
    ∃ l s', Accepts n s l ∧ s.step l = some s' ∧ Readied n typed s' ∧ left n s' < left n s := by
  obtain ⟨x, hx, hready, htyped⟩ := h.session
  have hgoing := h.inv.going x hx
  have hcurrent := hgoing.ready hready
  have hcalm := hgoing.calm hcurrent
  obtain ⟨v, hv⟩ := Option.isSome_iff_exists.mp (hcalm.isSome hready)
  have hok := hcalm.native v hv
  have hstarted : v.started = true := by
    apply eq_true_of_ne_false
    intro hfalse
    rw [(hok.started hfalse).1] at hready
    cases hready
  by_cases hleft : v.writing.isSome = true ∨ v.input ≠ []
  · obtain ⟨event, v', htask, hexit, hfail, hless⟩ :=
      native_progress hok.running hstarted hleft
    refine h.put hx (e := .task n event) ({ x with native := some v' })
      (accepts_task hexit hfail) ?_ rfl rfl ?_
    · simp only [State.step, hx, hv, htask, Option.bind_some, Option.map_some]
    · simp only [Session.weight, hv, Option.map_some, Option.getD_some]
      omega
  · obtain ⟨hwriting, hinput⟩ : v.writing = none ∧ v.input = [] := by
      simpa using hleft
    cases hwrites : x.writes with
    | cons w writes =>
      exact write_progress h hx hcurrent hv hok hinput hwrites fun bytes call heq =>
        hcalm.writes w (by rw [hwrites]; exact List.mem_cons_self) bytes call heq
    | nil =>
      -- nothing waits anywhere, so what was taken is what is written
      exfalso
      apply hnot
      intro y hy
      obtain rfl := Option.some.inj (hx.symm.trans hy)
      cases (h.inv.input.sessions n x hx).typed with
      | stopped hn => exact absurd hcurrent hn
      | whole hwhole =>
        rw [Session.waiting, hwrites, hv, htyped] at hwhole
        rw [hv]
        simpa [taken, Native.taken, hwriting, hinput, written] using hwhole

/-- What is written is a part of what was taken. -/
theorem written_part (native : Option Native) : written native <+: taken native := by
  cases native with
  | none => exact List.prefix_refl _
  | some v =>
    refine ⟨v.writing.getD [] ++ v.input.flatMap Input.bytes, ?_⟩
    exact (List.append_assoc ..).symm

/-! ## All runs -/

/-- **Input is whole and in order.** What was written for a session is the start of what was typed
    into it, whatever happens. In a run in which each input finds room, a session that is ready
    stays the one of the view, none of its input is lost, and all of it can be written. -/
theorem input_whole {cols rows : Nat} {es : List Event} {s : State} {n : Nat} {x : Session}
    (hrun : exec State.step es (.initial cols rows) = some s) (hx : s.sessions[n]? = some x) :
    written x.native <+: x.typed ∧
      (Along State.step (Accepts n) es (.initial cols rows) → x.ready = true →
        s.session = some n ∧ taken x.native ++ x.waiting = x.typed ∧
          ∃ rest t y, Along State.step (Accepts n) rest s ∧ exec State.step rest s = some t ∧
            t.sessions[n]? = some y ∧ y.typed = x.typed ∧ written y.native = x.typed) := by
  have hinput := inputInv_run hrun
  have htyped := (hinput.sessions n x hx).typed
  refine ⟨(written_part x.native).trans htyped.prefixed, fun hok hready => ?_⟩
  have hinv := goingInv_run hok hrun
  have hcurrent := (hinv.going x hx).ready hready
  refine ⟨hcurrent, ?_, ?_⟩
  · cases htyped with
    | whole hwhole => exact hwhole
    | stopped hn => exact absurd hcurrent hn
  · obtain ⟨rest, t, hrest, ht, hreadied, hwrote⟩ :=
      along_reaches (left n) (fun s hs hnot => progress hs hnot)
        (⟨hinv, x, hx, hready, rfl⟩ : Readied n x.typed s)
    obtain ⟨y, hy, -, hytyped⟩ := hreadied.session
    exact ⟨rest, t, y, hrest, ht, hy, hytyped, hwrote y hy⟩

/-! ## A remote side that takes its time -/

namespace Busy

def start : State := .initial 80 24

/-- A session that is opened, and ready. -/
def opened : List Event :=
  [.connect, .resume 0, .loaded 0 (.ok ()), .serveOpen 0 (.ok ()), .resume 0, .serveRead 0,
    .task 0 .ready, .receive 0, .resume 0, .serveResize 0, .resume 0, .task 0 .take]

/-- A key that is sent, and given to the native session. -/
def key : List Event := [.send [97], .chain 0, .serveWrite 0, .chain 0, .chain 0]

/-- The remote side takes nothing after the first of the keys. -/
def keys (count : Nat) : List Event :=
  opened ++ key ++ [.task 0 .take] ++ (List.replicate count key).flatten

/-- One key more than there is room for. -/
def tooMany : List Event := keys 32 ++ [.send [97], .chain 0, .serveWrite 0, .chain 0]

end Busy

open Busy in
/-- Two keys reach the channel. -/
theorem keys_written : ∃ s x rest t y, exec State.step (keys 1) start = some s ∧
    s.sessions[0]? = some x ∧ exec State.step rest s = some t ∧ t.sessions[0]? = some y ∧
      written y.native = [97, 97] := by
  obtain ⟨s, hs⟩ : ∃ s, exec State.step (keys 1) start = some s :=
    Option.isSome_iff_exists.mp (by decide)
  have hsession : (exec State.step (keys 1) start).map (fun s => s.sessions.map fun x =>
    (x.ready, x.typed)) = some [(true, [97, 97])] := by decide
  rw [hs] at hsession
  obtain ⟨x, hx, hfields⟩ : ∃ x, s.sessions[0]? = some x ∧
      (x.ready, x.typed) = (true, [97, 97]) := by
    have hmap := congrArg (·[0]?) (Option.some.inj hsession)
    simp only [List.getElem?_map] at hmap
    exact Option.map_eq_some_iff.mp hmap
  obtain ⟨hready, htyped⟩ := Prod.mk.inj hfields
  have hok : Along State.step (Accepts 0) (keys 1) start := by
    refine along_and (along_of_decide ?_) (along_of_decide ?_)
    · decide
    · decide
  obtain ⟨-, -, rest, t, y, -, ht, hy, -, hwritten⟩ := (input_whole hs hx).2 hok hready
  exact ⟨s, x, rest, t, y, hs, hx, ht, hy, hwritten.trans htyped⟩

open Busy in
/-- With one key being written and a full queue behind it, one more key ends the session. -/
theorem keys_refused : ¬ ∀ (es : List Event) (s : State) (x : Session),
    exec State.step es start = some s →
    Along State.step (fun s e => undisturbed 0 s e = true) es start → s.sessions[0]? = some x →
    x.ready = true → s.session = some 0 := by
  intro hclaim
  obtain ⟨s, hs⟩ : ∃ s, exec State.step tooMany start = some s :=
    Option.isSome_iff_exists.mp (by decide +kernel)
  have hsession : (exec State.step tooMany start).map (fun s => (s.session,
    s.sessions.map Session.ready)) = some (none, [true]) := by decide +kernel
  rw [hs] at hsession
  obtain ⟨hnone, hready⟩ := Prod.mk.inj (Option.some.inj hsession)
  obtain ⟨x, hx, hready⟩ : ∃ x, s.sessions[0]? = some x ∧ x.ready = true := by
    have hmap := congrArg (·[0]?) hready
    simp only [List.getElem?_map] at hmap
    exact Option.map_eq_some_iff.mp hmap
  have hok : Along State.step (fun s e => undisturbed 0 s e = true) tooMany start :=
    along_of_decide (by decide +kernel)
  have hcurrent := hclaim tooMany s x hs hok hx hready
  rw [hnone] at hcurrent
  cases hcurrent

end Porthop.Terminal
