import Porthop.Terminal.Typed

/- What becomes of the output.

   As long as `connect` goes round its loop, what was shown of a session, what it carries to the
   screen and what waits in the native queue is all that the shell has put out. Only a session
   that is not the one of the view any more drops what it read. -/
namespace Porthop.Terminal

open Porthop.Run
open Porthop.Lists

def Output.bytes : Output → Bytes
  | .data bytes => bytes
  | .ready | .exit _ | .error _ => []

/-- The shell has not come to its end. -/
def Output.calm : Output → Bool
  | .ready | .data _ => true
  | .exit _ | .error _ => false

def pending (native : Option Native) : Bytes :=
  (native.map fun v => v.output.flatMap Output.bytes).getD []

def emitted (native : Option Native) : Bytes := (native.map Native.emitted).getD []

/-- What was read and is not shown. -/
def Stage.carried : Stage → Bytes
  | .reading (.answered (.ok (some o))) => o.bytes
  | _ => []

/-- What was read is the end of the shell. -/
def Stage.last : Stage → Bool
  | .reading (.answered (.ok (some o))) => !o.calm
  | _ => false

def Shown.of (n : Nat) : Shown → Bytes
  | .write k bytes => if k = n then bytes else []
  | .reset _ => []

def shownOf (n : Nat) (screen : List Shown) : Bytes := screen.flatMap (Shown.of n)

/-- All output is there, or no more of it will be shown. -/
inductive Account (session : Option Nat) (n : Nat) (shown : Bytes) (x : Session) : Prop where
  | whole : shown ++ x.stage.carried ++ pending x.native = emitted x.native →
    Account session n shown x
  | cut : session ≠ some n → x.stage.live = false → shown <+: emitted x.native →
    Account session n shown x

/-- The end of the shell is the last that is told. -/
structure Ordered (v : Native) : Prop where
  front : ∀ o ∈ v.output.dropLast, o.calm = true
  going : v.running = true → ∀ o ∈ v.output, o.calm = true

structure OutputOk (session : Option Nat) (n : Nat) (shown : Bytes) (x : Session) : Prop where
  account : Account session n shown x
  ordered : ∀ v, x.native = some v → Ordered v
  last : x.stage.last = true → ∃ v, x.native = some v ∧ v.output = [] ∧ v.running = false

variable {s t : State} {e : Event} {n : Nat} {x x' : Session} {session : Option Nat}
  {shown : Bytes}

/-! ## What a native session tells -/

/-- What the shell puts out is told. -/
structure Tells (native native' : Option Native) : Prop where
  more : ∃ more, emitted native' = emitted native ++ more ∧
    pending native' = pending native ++ more
  ordered : (∀ v, native = some v → Ordered v) → ∀ v, native' = some v → Ordered v
  stopped : (∃ v, native = some v ∧ v.output = [] ∧ v.running = false) →
    ∃ v, native' = some v ∧ v.output = [] ∧ v.running = false

theorem tells_same {v v' : Native} (houtput : v'.output = v.output)
    (hrunning : v'.running = true → v.running = true) (hemitted : v'.emitted = v.emitted) :
    Tells (some v) (some v') where
  more := by
    refine ⟨[], ?_⟩
    simp [emitted, pending, houtput, hemitted]
  ordered h u hu := by
    obtain rfl := Option.some.inj hu
    obtain ⟨hfront, hgoing⟩ := h v rfl
    refine ⟨?_, fun hr => ?_⟩
    · rw [houtput]
      exact hfront
    · rw [houtput]
      exact hgoing (hrunning hr)
  stopped h := by
    obtain ⟨u, hu, hnil, hstopped⟩ := h
    obtain rfl := Option.some.inj hu
    refine ⟨v', rfl, houtput.trans hnil, eq_false_of_ne_true fun hr => ?_⟩
    rw [hrunning hr] at hstopped
    cases hstopped

theorem tells_refl (native : Option Native) : Tells native native :=
  ⟨⟨[], by simp⟩, fun h => h, fun h => h⟩

theorem tells_sendTo (native : Option Native) (input : Input) :
    Tells native (sendTo native input).2 := by
  cases native with
  | none => exact tells_refl none
  | some v =>
    simp only [sendTo, Native.send]
    split
    · exact tells_refl _
    · split
      · exact tells_same rfl id rfl
      · exact tells_refl _

theorem tells_write (native : Option Native) (bytes : Bytes) :
    Tells native (terminalWrite native bytes).2 := by
  rw [terminalWrite]
  split
  · exact tells_refl _
  · exact tells_sendTo native (.data bytes)

theorem tells_resize (native : Option Native) (cols rows : Nat) :
    Tells native (terminalResize native cols rows).2 := by
  rw [terminalResize]
  split
  · exact tells_refl _
  · exact tells_sendTo native (.resize cols rows)

theorem tells_close (native : Option Native) : Tells native (native.map Native.close) := by
  cases native with
  | none => exact tells_refl none
  | some v => exact tells_same rfl (fun h => by cases h) rfl

/-- An output is told while the shell runs. -/
theorem tells_tell {v v' : Native} {o : Output} (hrunning : v.running = true)
    (houtput : v'.output = v.output ++ [o]) (hemitted : v'.emitted = v.emitted ++ o.bytes)
    (hcalm : v'.running = true → o.calm = true) : Tells (some v) (some v') where
  more := by
    refine ⟨o.bytes, hemitted, ?_⟩
    simp [pending, houtput]
  ordered h u hu := by
    obtain rfl := Option.some.inj hu
    have hgoing := (h v rfl).going hrunning
    refine ⟨?_, fun hr o' ho' => ?_⟩
    · rw [houtput, List.dropLast_concat]
      exact hgoing
    · rw [houtput] at ho'
      rcases List.mem_append.mp ho' with hold | hnew
      · exact hgoing o' hold
      · rw [List.mem_singleton.mp hnew]
        exact hcalm hr
  stopped h := by
    obtain ⟨u, hu, -, hstopped⟩ := h
    obtain rfl := Option.some.inj hu
    rw [hrunning] at hstopped
    cases hstopped

theorem tells_task {v v' : Native} {event : TaskEvent} (h : v.task event = some v') :
    Tells (some v) (some v') := by
  cases event with
  | ready =>
    simp only [Native.task] at h
    split at h
    · next hready =>
      cases h
      simp only [Bool.and_eq_true] at hready
      exact tells_tell (o := .ready) hready.1.1 rfl (List.append_nil _).symm fun _ => rfl
    · cases h
  | output bytes =>
    simp only [Native.task] at h
    split at h
    · next hready =>
      cases h
      simp only [Bool.and_eq_true] at hready
      exact tells_tell (o := .data bytes) hready.1.1 rfl rfl fun _ => rfl
    · cases h
  | take =>
    simp only [Native.task] at h
    split at h
    · split at h
      · cases h
        exact tells_same rfl id rfl
      · cases h
        exact tells_same rfl id rfl
      · cases h
    · cases h
  | wrote k =>
    simp only [Native.task] at h
    split at h
    · cases h
      exact tells_same rfl id rfl
    · cases h
  | exit code =>
    simp only [Native.task] at h
    split at h
    · next hready =>
      cases h
      simp only [Bool.and_eq_true] at hready
      exact tells_tell (o := .exit code) hready.1.1 rfl (List.append_nil _).symm
        fun hr => by cases hr
    · cases h
  | fail text =>
    simp only [Native.task] at h
    split at h
    · next hready =>
      cases h
      simp only [Bool.and_eq_true] at hready
      exact tells_tell (o := .error text) hready.1 rfl (List.append_nil _).symm
        fun hr => by cases hr
    · cases h

/-! ## One session -/

/-- What another session does, and the session of the view that ends. -/
theorem OutputOk.mono {session' : Option Nat} (h : OutputOk session n shown x)
    (hsession : session ≠ some n → session' ≠ some n) : OutputOk session' n shown x where
  account := by
    cases h.account with
    | whole h => exact .whole h
    | cut hn hstage h => exact .cut (hsession hn) hstage h
  ordered := h.ordered
  last := h.last

/-- `connect` goes on with nothing in its hands. -/
theorem OutputOk.move (h : OutputOk session n shown x) {stage : Stage}
    (hcarried : x.stage.carried = []) (hnew : stage.carried = []) (hlast : stage.last = false)
    (hlive : x.stage.live = false → stage.live = false) :
    OutputOk session n shown { x with stage := stage } where
  account := by
    cases h.account with
    | whole h =>
      apply Account.whole
      show shown ++ stage.carried ++ pending x.native = emitted x.native
      rw [hnew, ← hcarried]
      exact h
    | cut hn hstage h => exact .cut hn (hlive hstage) h
  ordered := h.ordered
  last hs := by
    change stage.last = true at hs
    rw [hlast] at hs
    cases hs

theorem OutputOk.setNative (h : OutputOk session n shown x) {native : Option Native}
    (htells : Tells x.native native) : OutputOk session n shown { x with native := native } where
  account := by
    obtain ⟨more, hemitted, hpending⟩ := htells.more
    cases h.account with
    | whole h =>
      apply Account.whole
      show shown ++ x.stage.carried ++ pending native = emitted native
      rw [hemitted, hpending, ← h, List.append_assoc _ (pending x.native)]
    | cut hn hstage h =>
      refine .cut hn hstage ?_
      show shown <+: emitted native
      rw [hemitted]
      exact h.trans (List.prefix_append _ _)
  ordered := htells.ordered h.ordered
  last hs := htells.stopped (h.last hs)

/-- What is typed, and what the chain of the writes does. -/
theorem OutputOk.setWrites (h : OutputOk session n shown x) {writes : List Send} {queued : Nat}
    {typed : Bytes} {ready : Bool} : OutputOk session n shown
      { x with writes := writes, queued := queued, typed := typed, ready := ready } where
  account := by
    cases h.account with
    | whole h => exact .whole h
    | cut hn hstage h => exact .cut hn hstage h
  ordered := h.ordered
  last := h.last

/-- `connect` comes to its end, and drops what it has in its hands. -/
theorem OutputOk.leave (h : OutputOk session n shown x) (hn : session ≠ some n) :
    OutputOk session n shown { x with stage := .closing .sent } where
  account := by
    refine .cut hn rfl ?_
    cases h.account with
    | whole h => exact ⟨x.stage.carried ++ pending x.native, (List.append_assoc ..).symm.trans h⟩
    | cut _ _ h => exact h
  ordered := h.ordered
  last hs := by cases hs

/-- An output that is read comes from the queue into the hands of `connect`. -/
theorem OutputOk.receive (h : OutputOk session n shown x) {v : Native} {o : Output}
    {output : List Output} (hstage : x.stage = .reading .receiving) (hnative : x.native = some v)
    (houtput : v.output = o :: output) : OutputOk session n shown { x with
      stage := .reading (.answered (.ok (some o)))
      native := some { v with output := output } } where
  account := by
    cases h.account with
    | whole h =>
      apply Account.whole
      rw [hstage, hnative] at h
      show shown ++ o.bytes ++ output.flatMap Output.bytes = v.emitted
      calc shown ++ o.bytes ++ output.flatMap Output.bytes
          = shown ++ [] ++ (o :: output).flatMap Output.bytes := by simp
        _ = v.emitted := by
          rw [← houtput]
          exact h
    | cut _ hlive _ =>
      rw [hstage] at hlive
      cases hlive
  ordered u hu := by
    obtain rfl := Option.some.inj hu
    obtain ⟨hfront, hgoing⟩ := h.ordered v hnative
    rw [houtput] at hfront hgoing
    refine ⟨fun o' ho' => ?_, fun hr o' ho' => hgoing hr o' (List.mem_cons_of_mem _ ho')⟩
    cases output with
    | nil => cases ho'
    | cons p rest => exact hfront o' (List.mem_cons_of_mem _ ho')
  last hs := by
    obtain ⟨hfront, hgoing⟩ := h.ordered v hnative
    rw [houtput] at hfront hgoing
    have hend : o.calm = false := by simpa [Stage.last] using hs
    refine ⟨_, rfl, ?_, eq_false_of_ne_true fun hr => ?_⟩
    · cases output with
      | nil => rfl
      | cons p rest =>
        rw [hfront o List.mem_cons_self] at hend
        cases hend
    · rw [hgoing hr o List.mem_cons_self] at hend
      cases hend

/-- What a step adds to the screen. -/
theorem Change.log {log : List Shown} (h : Change s e t n x x' log) : log = [] ∨
    (log = [.reset n] ∧ (∃ write, x.stage = .draining write ∧ write ≤ s.finished) ∧
      s.session = some n) ∨
    ∃ bytes, log = [.write n bytes] ∧ x.stage = .reading (.answered (.ok (some (.data bytes)))) ∧
      s.session = some n ∧ t.session = some n := by
  cases h with
  | drained hstage hdone hcurrent =>
    exact .inr (.inl ⟨rfl, ⟨_, hstage, hdone⟩, hcurrent⟩)
  | shown hstage hcurrent hsame => exact .inr (.inr ⟨_, rfl, hstage, hcurrent, hsame⟩)
  | _ => exact .inl rfl

theorem shownOf_other {log : List Shown} (h : Change s e t n x x' log) {k : Nat} (hk : n ≠ k) :
    shownOf k log = [] := by
  rcases h.log with rfl | ⟨rfl, -⟩ | ⟨bytes, rfl, -⟩
  · rfl
  · rfl
  · simp [shownOf, Shown.of, hk]

/-- A step that shows nothing of the session. -/
theorem OutputOk.still {log : List Shown} (h : OutputOk session n shown x)
    (hlog : shownOf n log = []) : OutputOk session n (shown ++ shownOf n log) x := by
  rw [hlog, List.append_nil]
  exact h

/-- Every step keeps the account of the output. -/
theorem OutputOk.change {log : List Shown} (h : OutputOk s.session n shown x)
    (hin : InputOk s.session n x) (hchange : Change s e t n x x' log)
    (hsession : t.session = s.session ∨ t.session = none ∧ s.session = some n) :
    OutputOk t.session n (shown ++ shownOf n log) x' := by
  have hmono : s.session ≠ some n → t.session ≠ some n := by
    intro hn
    rcases hsession with hsame | ⟨-, hcurrent⟩
    · rw [hsame]
      exact hn
    · exact absurd hcurrent hn
  have hm := h.mono hmono
  cases hchange with
  | drained hstage | loaded hstage =>
    refine OutputOk.still ?_ rfl
    exact hm.move (by rw [hstage]; rfl) rfl rfl fun hl => by rw [hstage] at hl; cases hl
  | opened hstage =>
    -- there was no native session, so nothing has been shown
    have hnone := (hin.unopened (by rw [hstage]; rfl)).2
    refine OutputOk.still ?_ rfl
    refine ⟨.whole ?_, fun v hv => ?_, fun hs => by cases hs⟩
    · cases h.account with
      | whole hwhole =>
        rw [hstage, hnone] at hwhole
        exact hwhole
      | cut _ hlive =>
        rw [hstage] at hlive
        cases hlive
    · obtain rfl := Option.some.inj hv
      exact ⟨(fun o ho => absurd ho List.not_mem_nil), fun _ o ho => absurd ho List.not_mem_nil⟩
  | refused hstage | asked hstage | absent hstage | idled hstage | returned hstage =>
    refine OutputOk.still ?_ rfl
    refine hm.move (by rw [hstage]; rfl) rfl rfl fun hl => ?_
    first
      | rfl
      | rw [hstage] at hl
        cases hl
  | stopped hstage hnative houtput hstopped =>
    refine OutputOk.still ?_ rfl
    refine ⟨?_, hm.ordered, fun _ => ⟨_, hnative, houtput, hstopped⟩⟩
    cases hm.account with
    | whole hwhole =>
      rw [hstage] at hwhole
      exact .whole hwhole
    | cut _ hlive =>
      rw [hstage] at hlive
      cases hlive
  | looped hstage =>
    refine OutputOk.still ?_ rfl
    have hboth : x.stage.carried = [] ∧ x.stage.live = true := by
      rcases hstage with ⟨_, _, hs⟩ | ⟨_, _, hs⟩ | hs | ⟨_, hs⟩ <;> (rw [hs]; exact ⟨rfl, rfl⟩)
    exact hm.move hboth.1 rfl rfl fun hl => by rw [hboth.2] at hl; cases hl
  | left _ hn hsame =>
    refine OutputOk.still ?_ rfl
    exact hm.leave (hmono hn)
  | failed _ _ hnone | ended _ _ hnone =>
    refine OutputOk.still ?_ rfl
    exact hm.leave (by rw [hnone]; exact fun heq => by cases heq)
  | readied hstage =>
    refine OutputOk.still ?_ rfl
    exact (hm.move (by rw [hstage]; rfl) rfl rfl fun hl => by rw [hstage] at hl; cases hl).setWrites
  | @shown bytes hstage hcurrent hsame =>
    have hlog : shownOf n [.write n bytes] = bytes := by simp [shownOf, Shown.of]
    rw [hlog]
    refine ⟨?_, hm.ordered, fun hs => by cases hs⟩
    cases hm.account with
    | whole hwhole =>
      apply Account.whole
      rw [hstage] at hwhole
      show shown ++ bytes ++ [] ++ pending x.native = emitted x.native
      rw [List.append_nil]
      exact hwhole
    | cut hn => exact absurd hsame hn
  | received hstage hnative houtput =>
    refine OutputOk.still ?_ rfl
    exact hm.receive hstage hnative houtput
  | @resized cols rows _ hstage =>
    refine OutputOk.still ?_ rfl
    exact (hm.setNative (tells_resize x.native cols rows)).move (by rw [hstage]; rfl) rfl rfl
      fun hl => by rw [hstage] at hl; cases hl
  | fitted =>
    refine OutputOk.still ?_ rfl
    exact hm.setNative (tells_resize x.native _ _)
  | closed _ hstage =>
    refine OutputOk.still ?_ rfl
    exact (hm.setNative (tells_close x.native)).move (by rw [hstage]; rfl) rfl rfl fun _ => rfl
  | removed =>
    refine OutputOk.still ?_ rfl
    exact hm.setNative (tells_close x.native)
  | typed | chunk | acknowledged =>
    refine OutputOk.still ?_ rfl
    exact hm.setWrites
  | sent hwrites | rejected hwrites =>
    refine OutputOk.still ?_ rfl
    rw [settle_cons hwrites]
    exact hm.setWrites
  | wrote =>
    refine OutputOk.still ?_ rfl
    exact (hm.setNative (tells_write x.native _)).setWrites
  | task _ hnative htask =>
    refine OutputOk.still ?_ rfl
    exact hm.setNative (by rw [hnative]; exact tells_task htask)

/-! ## All sessions -/

structure OutputInv (s : State) : Prop where
  input : InputInv s
  outputs : ∀ n x, s.sessions[n]? = some x → OutputOk s.session n (shownOf n s.screen) x
  unshown : ∀ n, s.sessions.length ≤ n → shownOf n s.screen = []
  finished : s.finished ≤ s.started
  draining : ∀ n x write, s.session = some n → s.sessions[n]? = some x →
    x.stage = .draining write → write = s.started
  disposed : s.disposed = true → s.session = none

/-- Only a session that waits for the output of the one before was waiting for it. -/
theorem Change.draining {log : List Shown} {write : Nat} (h : Change s e t n x x' log)
    (hstage : x'.stage = .draining write) : x.stage = .draining write ∧ log = [] := by
  cases h with
  | fitted | removed | typed | chunk | acknowledged | wrote | task => exact ⟨hstage, rfl⟩
  | sent hwrites | rejected hwrites =>
    rw [settle_cons hwrites] at hstage
    exact ⟨hstage, rfl⟩
  | drained | loaded | opened | refused | looped | left | failed | ended | readied | shown | asked
  | absent | received | stopped | idled | resized | closed | returned => cases hstage

theorem shownOf_append (n : Nat) (screen log : List Shown) :
    shownOf n (screen ++ log) = shownOf n screen ++ shownOf n log := List.flatMap_append

theorem OutputInv.step (h : OutputInv s) (hstep : s.step e = some t) : OutputInv t := by
  have hinput := h.input.step hstep
  cases moved_step hstep with
  | quiet hsessions hsession hscreen hstarted hfinished hdisposed =>
    have hmono : ∀ n, s.session ≠ some n → t.session ≠ some n := by
      intro n hn
      rcases hsession with hsame | ⟨hnone, -⟩
      · rw [hsame]
        exact hn
      · rw [hnone]
        exact fun heq => by cases heq
    refine ⟨hinput, fun n x hx => ?_, fun n hn => ?_, ?_, fun n x write hcurrent hx hstage => ?_,
      fun hd => ?_⟩
    · rw [hsessions] at hx
      rw [hscreen]
      exact (h.outputs n x hx).mono (hmono n)
    · rw [hsessions] at hn
      rw [hscreen]
      exact h.unshown n hn
    · have := h.finished
      rcases hfinished with heq | heq <;> omega
    · rw [hsessions] at hx
      rw [hstarted]
      have hold : s.session = some n := by
        rcases hsession with hsame | ⟨hnone, -⟩
        · exact hsame.symm.trans hcurrent
        · rw [hnone] at hcurrent
          cases hcurrent
      exact h.draining n x write hold hx hstage
    · rcases hdisposed with hsame | hnone
      · have hnone := h.disposed (hsame.symm.trans hd)
        rcases hsession with hsame | ⟨hnone, -⟩
        · exact hsame.trans hnone
        · exact hnone
      · exact hnone
  | connected hnone hsessions hsession hscreen hstarted hfinished hopen =>
    refine ⟨hinput, fun n x hx => ?_, fun n hn => ?_, ?_, fun n x write hcurrent hx hstage => ?_,
      fun hd => ?_⟩
    · rw [hsessions] at hx
      rw [hscreen]
      rcases getElem?_concat hx with hold | ⟨rfl, rfl⟩
      · refine (h.outputs n x hold).mono fun _ heq => ?_
        have hlt := (List.getElem?_eq_some_iff.mp hold).1
        rw [hsession] at heq
        have := Option.some.inj heq
        omega
      · rw [h.unshown _ (Nat.le_refl _)]
        exact ⟨.whole rfl, (fun v hv => by cases hv), fun hs => by cases hs⟩
    · rw [hsessions, List.length_append] at hn
      rw [hscreen]
      exact h.unshown n (by omega)
    · rw [hstarted, hfinished]
      exact h.finished
    · obtain rfl := Option.some.inj (hsession.symm.trans hcurrent)
      rw [hsessions] at hx
      rw [hstarted]
      rcases getElem?_concat hx with hold | ⟨-, rfl⟩
      · have := (List.getElem?_eq_some_iff.mp hold).1
        omega
      · cases hstage
        rfl
    · rw [hopen] at hd
      cases hd
  | changed k y y' log hy hsessions hchange hsession hscreen hstarted hfinished hdisposed =>
    have hold : ∀ n, t.session = some n → s.session = some n := by
      intro n hcurrent
      rcases hsession with hsame | ⟨hnone, -⟩
      · exact hsame.symm.trans hcurrent
      · rw [hnone] at hcurrent
        cases hcurrent
    have hk := (List.getElem?_eq_some_iff.mp hy).1
    refine ⟨hinput, fun n x hx => ?_, fun n hn => ?_, ?_, fun n x write hcurrent hx hstage => ?_,
      fun hd => ?_⟩
    · rw [hsessions] at hx
      rw [hscreen, shownOf_append]
      rcases getElem?_set_cases hx with ⟨rfl, rfl⟩ | ⟨hne, hx⟩
      · exact (h.outputs n y hy).change (h.input.sessions n y hy) hchange hsession
      · refine OutputOk.still ?_ (shownOf_other hchange (Ne.symm hne))
        exact (h.outputs n x hx).mono fun hn heq => hn (hold n heq)
    · rw [hsessions, List.length_set] at hn
      rw [hscreen, shownOf_append, h.unshown n hn]
      exact shownOf_other hchange (by omega)
    · rw [hstarted, hfinished]
      exact Nat.le_trans h.finished (Nat.le_add_right _ _)
    · rw [hsessions] at hx
      have hlog : t.started = s.started := by
        rw [hstarted]
        rcases hchange.log with rfl | ⟨rfl, -⟩ | ⟨bytes, rfl, hread, hshown, -⟩
        · rfl
        · rfl
        · -- the session that shows is the one of the view, and it is not waiting
          exfalso
          obtain rfl := Option.some.inj (hshown.symm.trans (hold n hcurrent))
          rcases getElem?_set_cases hx with ⟨-, rfl⟩ | ⟨hne, -⟩
          · have := (hchange.draining hstage).2
            cases this
          · exact hne rfl
      rw [hlog]
      rcases getElem?_set_cases hx with ⟨rfl, rfl⟩ | ⟨-, hx⟩
      · exact h.draining n y write (hold n hcurrent) hy (hchange.draining hstage).1
      · exact h.draining n x write (hold n hcurrent) hx hstage
    · have hnone := h.disposed (hdisposed.symm.trans hd)
      rcases hsession with hsame | ⟨hnone, -⟩
      · exact hsame.trans hnone
      · exact hnone

theorem outputInv_initial (cols rows : Nat) : OutputInv (.initial cols rows) :=
  ⟨inputInv_initial cols rows, (fun n x hx => by cases hx), fun _ _ => rfl, Nat.le_refl _,
    (fun n x write hcurrent => by cases hcurrent), fun _ => rfl⟩

theorem outputInv_run {cols rows : Nat} {es : List Event}
    (hrun : exec State.step es (.initial cols rows) = some s) : OutputInv s :=
  exec_invariant (fun _ _ _ hs he => hs.step he) (outputInv_initial cols rows) hrun

end Porthop.Terminal
