import Porthop.Terminal.Steps

/- What becomes of what is typed.

   Until something ends a session, what was typed into it is what its native session took and
   then what still waits in the view. A chunk that is refused is the last one: the session of
   the view is no more this one when the chain goes on, and no session becomes it again. -/
namespace Porthop.Terminal

open Porthop.Run
open Porthop.Lists

def Input.bytes : Input → Bytes
  | .data bytes => bytes
  | .resize _ _ => []

/-- What a native session has taken: what is written, what is being written, and what waits. -/
def Native.taken (v : Native) : Bytes :=
  v.written ++ v.writing.getD [] ++ v.input.flatMap Input.bytes

def taken (native : Option Native) : Bytes := (native.map Native.taken).getD []

/-- What the native session has not taken. -/
def Send.left (w : Send) : Bytes :=
  match w.call with
  | some (bytes, .sent) | some (bytes, .answered (.error _)) => bytes ++ w.rest
  | _ => w.rest

/-- No chunk is on its way. -/
def Send.still (w : Send) : Bool :=
  match w.call with
  | some (_, .sent) => false
  | _ => true

def Session.waiting (x : Session) : Bytes := x.writes.flatMap Send.left

/-- The native session has not been asked for. -/
def Stage.unopened : Stage → Bool
  | .draining _ | .loading | .opening _ _ .sent => true
  | _ => false

/-- All that was typed is there, or the rest will not be sent. -/
inductive Typed (session : Option Nat) (n : Nat) (x : Session) : Prop where
  | whole : taken x.native ++ x.waiting = x.typed → Typed session n x
  | stopped : session ≠ some n → taken x.native <+: x.typed →
    (∀ w ∈ x.writes, w.still = true) → Typed session n x

structure InputOk (session : Option Nat) (n : Nat) (x : Session) : Prop where
  quiet : x.ready = false → x.writes = [] ∧ x.typed = []
  unopened : x.stage.unopened = true → x.ready = false ∧ x.native = none
  calls : ∀ w ∈ x.writes.tail, w.call = none
  typed : Typed session n x

variable {s t : State} {e : Event} {n : Nat} {x x' : Session} {session : Option Nat}

theorem Typed.prefixed (h : Typed session n x) : taken x.native <+: x.typed := by
  cases h with
  | whole h => exact ⟨x.waiting, h⟩
  | stopped _ h _ => exact h

theorem still_of_none {w : Send} (h : w.call = none) : w.still = true := by
  rw [Send.still, h]

/-! ## What a native session takes -/

/-- Writing and taking only move what was taken. -/
theorem taken_task {v v' : Native} {event : TaskEvent} (h : v.task event = some v') :
    v'.taken = v.taken := by
  cases event with
  | ready | output | exit | fail =>
    simp only [Native.task] at h
    split at h
    · cases h
      rfl
    · cases h
  | take =>
    simp only [Native.task] at h
    split at h
    · split at h
      · next hwriting hinput =>
        cases h
        simp [Native.taken, hwriting, hinput, Input.bytes]
      · next hwriting hinput =>
        cases h
        simp [Native.taken, hwriting, hinput, Input.bytes]
      · cases h
    · cases h
  | wrote k =>
    simp only [Native.task] at h
    split at h
    · next bytes hrunning hwriting =>
      cases h
      have hrest : (if (bytes.drop k).isEmpty then none else some (bytes.drop k)).getD [] =
          bytes.drop k := by
        split
        · next hnil => exact (List.isEmpty_iff.mp hnil).symm
        · rfl
      show v.written ++ bytes.take k ++ _ ++ _ = _
      rw [hrest, List.append_assoc v.written, List.take_append_drop, Native.taken, hwriting]
      rfl
    · cases h

theorem taken_close (native : Option Native) : taken (native.map Native.close) = taken native := by
  cases native with
  | none => rfl
  | some v => rfl

/-- An input is taken or refused. -/
theorem sendTo_cases (native : Option Native) (input : Input) :
    (sendTo native input).1 = .ok () ∧ taken (sendTo native input).2 = taken native ++ input.bytes ∨
      ∃ error, (sendTo native input).1 = .error error ∧ (sendTo native input).2 = native := by
  cases native with
  | none => exact .inr ⟨closed, rfl, rfl⟩
  | some v =>
    simp only [sendTo, Native.send]
    split
    · exact .inr ⟨closed, rfl, rfl⟩
    · split
      · refine .inl ⟨rfl, ?_⟩
        simp [taken, Native.taken]
      · exact .inr ⟨busy, rfl, rfl⟩

theorem terminalWrite_cases (native : Option Native) (bytes : Bytes) :
    (terminalWrite native bytes).1 = .ok () ∧
        taken (terminalWrite native bytes).2 = taken native ++ bytes ∨
      ∃ error, (terminalWrite native bytes).1 = .error error ∧
        (terminalWrite native bytes).2 = native := by
  rw [terminalWrite]
  split
  · exact .inr ⟨_, rfl, rfl⟩
  · exact sendTo_cases native (.data bytes)

theorem taken_resize (native : Option Native) (cols rows : Nat) :
    taken (terminalResize native cols rows).2 = taken native := by
  rw [terminalResize]
  split
  · rfl
  · rcases sendTo_cases native (.resize cols rows) with ⟨-, h⟩ | ⟨error, -, h⟩
    · rw [h]
      exact List.append_nil _
    · rw [h]

/-! ## One session -/

/-- What another session does, and the session of the view that ends. -/
theorem InputOk.mono {session' : Option Nat} (h : InputOk session n x)
    (hsession : session ≠ some n → session' ≠ some n) : InputOk session' n x where
  quiet := h.quiet
  unopened := h.unopened
  calls := h.calls
  typed := by
    cases h.typed with
    | whole h => exact .whole h
    | stopped hn h hstill => exact .stopped (hsession hn) h hstill

/-- A step that only moves `connect` on. -/
theorem InputOk.move (h : InputOk session n x) {stage : Stage}
    (hstage : stage.unopened = true → x.stage.unopened = true) :
    InputOk session n { x with stage := stage } where
  quiet := h.quiet
  unopened hu := h.unopened (hstage hu)
  calls := h.calls
  typed := by
    cases h.typed with
    | whole h => exact .whole h
    | stopped hn h hstill => exact .stopped hn h hstill

/-- A step of the native session that takes nothing. -/
theorem InputOk.setNative (h : InputOk session n x) {native : Option Native}
    (htaken : taken native = taken x.native) (hnone : x.native = none → native = none) :
    InputOk session n { x with native := native } where
  quiet := h.quiet
  unopened hu := ⟨(h.unopened hu).1, hnone (h.unopened hu).2⟩
  calls := h.calls
  typed := by
    cases h.typed with
    | whole h =>
      apply Typed.whole
      show taken native ++ x.waiting = x.typed
      rw [htaken]
      exact h
    | stopped hn h hstill =>
      refine .stopped hn ?_ hstill
      show taken native <+: x.typed
      rw [htaken]
      exact h

theorem resize_none {native : Option Native} {cols rows : Nat} (h : native = none) :
    (terminalResize native cols rows).2 = none := by
  subst h
  rw [terminalResize]
  split
  · rfl
  · rfl

/-- A session whose `connect` goes on with the first of its writes changed. -/
theorem InputOk.setWrites (h : InputOk session n x) {w : Send} {writes : List Send}
    (hwrites : x.writes = w :: writes) {new : List Send} (hnew : new.tail = writes)
    {native : Option Native} (hnone : x.native = none → native = none)
    (htyped : Typed session n { x with writes := new, native := native }) :
    InputOk session n { x with writes := new, native := native } where
  quiet hready := by
    have hnil := (h.quiet hready).1
    rw [hwrites] at hnil
    cases hnil
  unopened hu := ⟨(h.unopened hu).1, hnone (h.unopened hu).2⟩
  calls w' hw' := by
    have hcalls := h.calls w'
    rw [hwrites] at hcalls
    rw [hnew] at hw'
    exact hcalls hw'
  typed := htyped

theorem settle_cons {w : Send} {writes : List Send} (hwrites : x.writes = w :: writes) :
    x.settle = { x with writes := writes, queued := x.queued - w.length } := by
  rw [Session.settle, hwrites]

/-- The first of the writes has ended: it was sent, or the session is not the one of the view. -/
theorem InputOk.settle (h : InputOk session n x) {w : Send} {writes : List Send}
    (hwrites : x.writes = w :: writes)
    (hend : w.left = [] ∨ session ≠ some n) : InputOk session n x.settle := by
  rw [settle_cons hwrites]
  have hcalls : ∀ w' ∈ writes, w'.call = none := by
    intro w' hw'
    apply h.calls
    rw [hwrites]
    exact hw'
  refine ⟨fun hready => ?_, h.unopened, fun w' hw' => hcalls w' (List.mem_of_mem_tail hw'), ?_⟩
  · have hnil := (h.quiet hready).1
    rw [hwrites] at hnil
    cases hnil
  · have hstill : ∀ w' ∈ writes, w'.still = true := fun w' hw' => still_of_none (hcalls w' hw')
    rcases hend with hleft | hn
    · cases h.typed with
      | whole hwhole =>
        rw [Session.waiting, hwrites, List.flatMap_cons, hleft] at hwhole
        exact .whole hwhole
      | stopped hn hpart _ => exact .stopped hn hpart hstill
    · exact .stopped hn h.typed.prefixed hstill

/-- Every step keeps the account of a session. -/
theorem InputOk.change {log : List Shown} (h : InputOk s.session n x)
    (hchange : Change s e t n x x' log)
    (hsession : t.session = s.session ∨ t.session = none ∧ s.session = some n) :
    InputOk t.session n x' := by
  have hmono : s.session ≠ some n → t.session ≠ some n := by
    intro hn
    rcases hsession with hsame | ⟨-, hcurrent⟩
    · rw [hsame]
      exact hn
    · exact absurd hcurrent hn
  cases hchange with
  | drained hstage =>
    refine (h.mono hmono).move fun _ => ?_
    rw [hstage]
    rfl
  | loaded hstage =>
    refine (h.mono hmono).move fun _ => ?_
    rw [hstage]
    rfl
  | opened hstage =>
    obtain ⟨hready, hnone⟩ := h.unopened (by rw [hstage]; rfl)
    obtain ⟨hwrites, htyped⟩ := h.quiet hready
    refine ⟨fun _ => ⟨hwrites, htyped⟩, (fun hu => by cases hu), h.calls, .whole ?_⟩
    show [] ++ x.waiting = x.typed
    rw [Session.waiting, hwrites, htyped]
    rfl
  | refused hstage | looped hstage | left hstage | failed hstage | ended hstage | asked hstage
  | absent hstage | stopped hstage | idled hstage | returned hstage | shown hstage =>
    exact (h.mono hmono).move fun hu => by cases hu
  | readied hstage =>
    have hm := h.mono hmono
    refine ⟨(fun hready => by cases hready), (fun hu => by cases hu), hm.calls, ?_⟩
    cases hm.typed with
    | whole h => exact .whole h
    | stopped hn h hstill => exact .stopped hn h hstill
  | @received v o output hstage hnative houtput =>
    have htaken : taken (some { v with output := output }) = taken x.native := by
      rw [hnative]
      rfl
    have hn := (h.mono hmono).setNative htaken fun hnone => by
      rw [hnative] at hnone
      cases hnone
    exact hn.move (fun hu => by cases hu)
  | @resized cols rows _ hstage =>
    have hn := (h.mono hmono).setNative (taken_resize x.native cols rows) resize_none
    exact hn.move fun hu => by cases hu
  | fitted => exact (h.mono hmono).setNative (taken_resize x.native _ _) resize_none
  | closed _ hstage =>
    have hn := (h.mono hmono).setNative (taken_close x.native) fun hnone => by rw [hnone]; rfl
    exact hn.move fun hu => by cases hu
  | removed =>
    exact (h.mono hmono).setNative (taken_close x.native) fun hnone => by rw [hnone]; rfl
  | @typed bytes hready hcurrent hstill hroom =>
    refine ⟨fun hfalse => ?_, h.unopened, fun w hw => ?_, ?_⟩
    · rw [hready] at hfalse
      cases hfalse
    · cases hwrites : x.writes with
      | nil =>
        rw [hwrites] at hw
        cases hw
      | cons w' writes =>
        rw [hwrites] at hw
        rcases List.mem_append.mp hw with hw | hw
        · exact h.calls w (by rw [hwrites]; exact hw)
        · rw [List.mem_singleton.mp hw]
    · cases h.typed with
      | whole hwhole =>
        apply Typed.whole
        show taken x.native ++ (x.writes ++ [_]).flatMap Send.left = x.typed ++ bytes
        rw [← hwhole, List.flatMap_append, ← List.append_assoc, List.flatMap_singleton]
        rfl
      | stopped hn => exact absurd hcurrent hn
  | @chunk w writes hwrites hcall hrest hcurrent hstill =>
    refine (h.mono hmono).setWrites hwrites rfl id ?_
    cases h.typed with
    | whole hwhole =>
      apply Typed.whole
      rw [← hwhole, Session.waiting, Session.waiting, hwrites]
      simp [Send.left, hcall]
    | stopped hn => exact absurd hcurrent hn
  | @sent w writes hwrites hcall hend hsame =>
    refine (h.mono hmono).settle hwrites ?_
    rcases hend with hnil | hn
    · left
      rw [Send.left, hcall]
      exact hnil
    · exact .inr (hmono hn)
  | @acknowledged w writes bytes hwrites hcall hsame =>
    refine (h.mono hmono).setWrites hwrites rfl id ?_
    cases (h.mono hmono).typed with
    | whole hwhole =>
      apply Typed.whole
      rw [← hwhole, Session.waiting, Session.waiting, hwrites]
      simp [Send.left, hcall]
    | stopped hn hpart hstill =>
      refine .stopped hn hpart fun w' hw' => ?_
      rcases List.mem_cons.mp hw' with rfl | hw'
      · rfl
      · exact hstill w' (by rw [hwrites]; exact List.mem_cons_of_mem _ hw')
  | @rejected w writes bytes error hwrites hcall hn =>
    exact (h.mono hmono).settle hwrites (.inr hn)
  | @wrote w writes bytes _ hwrites hcall hsame =>
    have hnone : x.native = none → (terminalWrite x.native bytes).2 = none := by
      intro hnone
      rw [hnone, terminalWrite]
      split
      · rfl
      · rfl
    refine (h.mono hmono).setWrites hwrites rfl hnone ?_
    cases h.typed with
    | whole hwhole =>
      apply Typed.whole
      rw [← hwhole]
      rcases terminalWrite_cases x.native bytes with ⟨hok, htaken⟩ | ⟨error, herror, hsame⟩
      · show taken (terminalWrite x.native bytes).2 ++ _ = _
        rw [htaken, hok, Session.waiting, Session.waiting, hwrites]
        simp [Send.left, hcall]
      · show taken (terminalWrite x.native bytes).2 ++ _ = _
        rw [hsame, herror, Session.waiting, Session.waiting, hwrites]
        simp [Send.left, hcall]
    | stopped hn hpart hstill =>
      have hsent := hstill w (by rw [hwrites]; exact List.mem_cons_self)
      rw [Send.still, hcall] at hsent
      cases hsent
  | task _ hnative hv' =>
    refine (h.mono hmono).setNative ?_ fun hnone => ?_
    · rw [hnative]
      exact taken_task hv'
    · rw [hnative] at hnone
      cases hnone

/-! ## All sessions -/

structure InputInv (s : State) : Prop where
  session : ∀ k, s.session = some k → k < s.sessions.length
  sessions : ∀ n x, s.sessions[n]? = some x → InputOk s.session n x

theorem InputInv.step (h : InputInv s) (hstep : s.step e = some t) : InputInv t := by
  cases moved_step hstep with
  | quiet hsessions hsession =>
    refine ⟨fun k hk => ?_, fun n x hx => ?_⟩
    · rcases hsession with hsame | ⟨hnone, -⟩
      · rw [hsessions]
        exact h.session k (hsame.symm.trans hk)
      · rw [hnone] at hk
        cases hk
    · rw [hsessions] at hx
      refine (h.sessions n x hx).mono fun hn => ?_
      rcases hsession with hsame | ⟨hnone, -⟩
      · rw [hsame]
        exact hn
      · rw [hnone]
        nofun
  | connected hnone hsessions hsession =>
    refine ⟨fun k hk => ?_, fun n x hx => ?_⟩
    · obtain rfl := Option.some.inj (hsession.symm.trans hk)
      rw [hsessions]
      simp
    · rw [hsessions] at hx
      rcases getElem?_concat hx with hold | ⟨-, rfl⟩
      · refine (h.sessions n x hold).mono fun _ heq => ?_
        have hlt := (List.getElem?_eq_some_iff.mp hold).1
        rw [hsession] at heq
        have := Option.some.inj heq
        omega
      · exact ⟨fun _ => ⟨rfl, rfl⟩, fun _ => ⟨rfl, rfl⟩, fun w hw => absurd hw List.not_mem_nil,
          .whole rfl⟩
  | changed n x x' log hx hsessions hchange hsession =>
    refine ⟨fun k hk => ?_, fun i y hy => ?_⟩
    · rw [hsessions, List.length_set]
      rcases hsession with hsame | ⟨hnone, -⟩
      · exact h.session k (hsame.symm.trans hk)
      · rw [hnone] at hk
        cases hk
    · rw [hsessions] at hy
      rcases getElem?_set_cases hy with ⟨rfl, rfl⟩ | ⟨hne, hold⟩
      · exact (h.sessions i x hx).change hchange hsession
      · refine (h.sessions i y hold).mono fun hi => ?_
        rcases hsession with hsame | ⟨hnone, -⟩
        · rw [hsame]
          exact hi
        · rw [hnone]
          nofun

theorem inputInv_initial (cols rows : Nat) : InputInv (.initial cols rows) :=
  ⟨(fun k hk => by cases hk), fun n x hx => by cases hx⟩

theorem inputInv_run {cols rows : Nat} {es : List Event}
    (hrun : exec State.step es (.initial cols rows) = some s) : InputInv s :=
  exec_invariant (fun _ _ _ hs he => hs.step he) (inputInv_initial cols rows) hrun

end Porthop.Terminal
