import Porthop.Terminal.Shown

/- A session that is not the one of the view any more is closed, and `connect` returns.

   From then on every step of `connect` brings it nearer to its end, whatever the answers are, and
   the native session is closed after the call that could have opened it was answered. -/
namespace Porthop.Terminal

open Porthop.Run
open Porthop.Lists

/-- The close that `connect` waits for has been carried out. -/
def Stage.done : Stage → Bool
  | .closing (.answered _) | .returned => true
  | _ => false

/-- How much output has to be written before `connect` goes on. -/
def Stage.awaits : Stage → Option Nat
  | .draining write | .writing write => some write
  | _ => none

/-- How far `connect` is from its end when the session is not the one of the view. -/
def Stage.rank : Stage → Nat
  | .reading .sent => 5
  | .opening _ _ .sent | .reading .receiving | .resizing _ _ .sent => 4
  | .draining _ | .loading | .opening _ _ (.answered _) | .reading (.answered _)
  | .resizing _ _ (.answered _) | .writing _ => 3
  | .closing .sent => 2
  | .closing (.answered _) => 1
  | .returned => 0

def Shut (native : Option Native) : Prop :=
  ∀ v, native = some v → v.listed = false ∧ v.running = false

variable {s t : State} {e : Event} {n : Nat} {x x' : Session} {log : List Shown}

/-! ## Closed sessions -/

theorem shut_close (native : Option Native) : Shut (native.map Native.close) := by
  intro v hv
  obtain ⟨u, -, rfl⟩ := Option.map_eq_some_iff.mp hv
  exact ⟨rfl, rfl⟩

theorem Shut.sendTo {native : Option Native} (h : Shut native) (input : Input) :
    (sendTo native input).2 = native := by
  cases native with
  | none => rfl
  | some v =>
    have hlisted := (h v rfl).1
    simp [Terminal.sendTo, Native.send, hlisted]

theorem Shut.write {native : Option Native} (h : Shut native) (bytes : Bytes) :
    (terminalWrite native bytes).2 = native := by
  rw [terminalWrite]
  split
  · rfl
  · exact h.sendTo _

theorem Shut.resize {native : Option Native} (h : Shut native) (cols rows : Nat) :
    (terminalResize native cols rows).2 = native := by
  rw [terminalResize]
  split
  · rfl
  · exact h.sendTo _

/-- A task that was aborted does nothing more. -/
theorem task_stopped {v v' : Native} {event : TaskEvent} (h : v.running = false) :
    v.task event ≠ some v' := by
  cases event <;> simp [Native.task, h]

theorem Change.shut (h : Change s e t n x x' log)
    (hx : x.stage.done = true → Shut x.native) (hdone : x'.stage.done = true) :
    Shut x'.native := by
  cases h with
  | closed | removed => exact shut_close x.native
  | returned hstage => exact hx (by rw [hstage]; rfl)
  | fitted =>
    have hshut := hx hdone
    rw [hshut.resize]
    exact hshut
  | wrote =>
    have hshut := hx hdone
    rw [hshut.write]
    exact hshut
  | task _ hnative htask => exact absurd htask (task_stopped (hx hdone _ hnative).2)
  | typed | chunk | acknowledged => exact hx hdone
  | sent hwrites | rejected hwrites =>
    rw [settle_cons hwrites] at hdone ⊢
    exact hx hdone
  | drained | loaded | opened | refused | looped | left | failed | ended | readied | shown | asked
  | absent | received | stopped | idled | resized => cases hdone

/-- Only a close that is carried out ends a session. -/
theorem Change.done (h : Change s e t n x x' log) (hdone : x'.stage.done = true) :
    x.stage.done = true ∨ e = .serveClose n := by
  cases h with
  | closed hevent => exact .inr hevent
  | returned hstage =>
    left
    rw [hstage]
    rfl
  | fitted | wrote | task | typed | chunk | acknowledged | removed => exact .inl hdone
  | sent hwrites | rejected hwrites =>
    rw [settle_cons hwrites] at hdone
    exact .inl hdone
  | drained | loaded | opened | refused | looped | left | failed | ended | readied | shown | asked
  | absent | received | stopped | idled | resized => cases hdone

/-- Without the view, each step of `connect` brings it nearer to its end. -/
theorem Change.rank (h : Change s e t n x x' log) (hn : s.session ≠ some n) :
    x'.stage = x.stage ∨ x'.stage.rank < x.stage.rank := by
  cases h with
  | drained _ _ hcurrent | loaded _ hcurrent | looped _ hcurrent | failed _ hcurrent
  | ended _ hcurrent | readied _ hcurrent | shown _ hcurrent => exact absurd hcurrent hn
  | absent hstage =>
    right
    rw [hstage]
    exact Nat.lt_of_sub_eq_succ rfl
  | opened hstage | refused hstage | asked hstage | received hstage | stopped hstage | idled hstage
  | resized _ hstage | closed _ hstage | returned hstage =>
    right
    rw [hstage]
    exact Nat.lt_succ_self _
  | left hlive =>
    right
    show 2 < x.stage.rank
    cases hstage : x.stage with
    | closing | returned =>
      rw [hstage] at hlive
      cases hlive
    | draining | loading | writing => simp [Stage.rank]
    | opening _ _ call | resizing _ _ call => cases call <;> simp [Stage.rank]
    | reading call => cases call <;> simp [Stage.rank]
  | fitted | wrote | task | typed | chunk | acknowledged | removed => exact .inl rfl
  | sent hwrites | rejected hwrites =>
    left
    rw [settle_cons hwrites]

/-- What `connect` waits for was given to the screen. -/
theorem Change.awaits (h : Change s e t n x x' log) {write : Nat}
    (hwrite : x'.stage.awaits = some write) :
    x.stage.awaits = some write ∨ write = s.started + 1 ∧ ∃ bytes, log = [.write n bytes] := by
  cases h with
  | shown =>
    right
    exact ⟨(Option.some.inj hwrite).symm, _, rfl⟩
  | fitted | wrote | task | typed | chunk | acknowledged | removed => exact .inl hwrite
  | sent hwrites | rejected hwrites =>
    rw [settle_cons hwrites] at hwrite
    exact .inl hwrite
  | drained | loaded | opened | refused | looped | left | failed | ended | readied | asked
  | absent | received | stopped | idled | resized | closed | returned => cases hwrite

theorem isSome_sendTo (native : Option Native) (input : Input) :
    (sendTo native input).2.isSome = native.isSome := by
  cases native with
  | none => rfl
  | some v => rfl

theorem isSome_write (native : Option Native) (bytes : Bytes) :
    (terminalWrite native bytes).2.isSome = native.isSome := by
  rw [terminalWrite]
  split
  · rfl
  · exact isSome_sendTo native _

theorem isSome_resize (native : Option Native) (cols rows : Nat) :
    (terminalResize native cols rows).2.isSome = native.isSome := by
  rw [terminalResize]
  split
  · rfl
  · exact isSome_sendTo native _

/-- A read waits for a native session that there is. -/
theorem Change.receiving (h : Change s e t n x x' log)
    (hx : x.stage = .reading .receiving → x.native.isSome = true)
    (hstage : x'.stage = .reading .receiving) : x'.native.isSome = true := by
  cases h with
  | asked _ hlisted =>
    cases hnative : x.native with
    | none =>
      rw [hnative] at hlisted
      cases hlisted
    | some v => rfl
  | fitted =>
    show (terminalResize _ _ _).2.isSome = true
    rw [isSome_resize]
    exact hx hstage
  | wrote =>
    show (terminalWrite _ _).2.isSome = true
    rw [isSome_write]
    exact hx hstage
  | removed =>
    show (x.native.map Native.close).isSome = true
    rw [Option.isSome_map]
    exact hx hstage
  | task => rfl
  | typed | chunk | acknowledged => exact hx hstage
  | sent hwrites | rejected hwrites =>
    rw [settle_cons hwrites] at hstage ⊢
    exact hx hstage
  | drained | loaded | opened | refused | looped | left | failed | ended | readied | shown
  | absent | received | stopped | idled | resized | closed | returned => cases hstage

/-! ## All sessions -/

structure Returning (s : State) : Prop where
  output : OutputInv s
  shut : ∀ (n : Nat) (x : Session), s.sessions[n]? = some x → x.stage.done = true → Shut x.native
  awaits : ∀ (n : Nat) (x : Session) (write : Nat), s.sessions[n]? = some x →
    x.stage.awaits = some write → write ≤ s.started
  receiving : ∀ (n : Nat) (x : Session), s.sessions[n]? = some x → x.stage = .reading .receiving →
    x.native.isSome = true

theorem Returning.step (h : Returning s) (hstep : s.step e = some t) : Returning t := by
  have houtput := h.output.step hstep
  cases moved_step hstep with
  | quiet hsessions _ _ hstarted =>
    refine ⟨houtput, ?_, ?_, ?_⟩
    · rw [hsessions]
      exact h.shut
    · rw [hsessions, hstarted]
      exact h.awaits
    · rw [hsessions]
      exact h.receiving
  | connected _ hsessions _ _ hstarted =>
    refine ⟨houtput, fun n x hx hdone => ?_, fun n x write hx hwrite => ?_, fun n x hx hstage => ?_⟩
    · rw [hsessions] at hx
      rcases getElem?_concat hx with hold | ⟨-, rfl⟩
      · exact h.shut n x hold hdone
      · cases hdone
    · rw [hsessions] at hx
      rw [hstarted]
      rcases getElem?_concat hx with hold | ⟨-, rfl⟩
      · exact h.awaits n x write hold hwrite
      · exact Nat.le_of_eq (Option.some.inj hwrite).symm
    · rw [hsessions] at hx
      rcases getElem?_concat hx with hold | ⟨-, rfl⟩
      · exact h.receiving n x hold hstage
      · cases hstage
  | changed k y y' log hy hsessions hchange _ _ hstarted =>
    refine ⟨houtput, fun n x hx hdone => ?_, fun n x write hx hwrite => ?_, fun n x hx hstage => ?_⟩
    · rw [hsessions] at hx
      rcases getElem?_set_cases hx with ⟨rfl, rfl⟩ | ⟨-, hold⟩
      · exact hchange.shut (h.shut n y hy) hdone
      · exact h.shut n x hold hdone
    · rw [hsessions] at hx
      have hgrow : s.started ≤ t.started := by omega
      rcases getElem?_set_cases hx with ⟨rfl, rfl⟩ | ⟨-, hold⟩
      · rcases hchange.awaits hwrite with hold | ⟨rfl, bytes, rfl⟩
        · exact Nat.le_trans (h.awaits n y write hy hold) hgrow
        · exact Nat.le_of_eq hstarted.symm
      · exact Nat.le_trans (h.awaits n x write hold hwrite) hgrow
    · rw [hsessions] at hx
      rcases getElem?_set_cases hx with ⟨rfl, rfl⟩ | ⟨-, hold⟩
      · exact hchange.receiving (h.receiving n y hy) hstage
      · exact h.receiving n x hold hstage

theorem returning_run {cols rows : Nat} {es : List Event}
    (hrun : exec State.step es (.initial cols rows) = some s) : Returning s := by
  refine exec_invariant (fun s e t hs he => hs.step he) ?_ hrun
  exact ⟨outputInv_initial cols rows, (fun n x hx => by cases hx),
    (fun n x write hx => by cases hx), fun n x hx => by cases hx⟩

/-- A session that is not the one of the view does not become it, and comes to its end. -/
theorem rank_step (hstep : s.step e = some t) (hx : s.sessions[n]? = some x)
    (hn : s.session ≠ some n) : t.session ≠ some n ∧ ∃ y, t.sessions[n]? = some y ∧
      (y.stage = x.stage ∨ y.stage.rank < x.stage.rank) := by
  cases moved_step hstep with
  | quiet hsessions hsession =>
    refine ⟨?_, x, by rw [hsessions]; exact hx, .inl rfl⟩
    rcases hsession with hsame | ⟨hnone, -⟩
    · rw [hsame]
      exact hn
    · rw [hnone]
      exact fun heq => by cases heq
  | connected _ hsessions hsession =>
    have hlt := (List.getElem?_eq_some_iff.mp hx).1
    refine ⟨?_, x, ?_, .inl rfl⟩
    · rw [hsession]
      intro heq
      have := Option.some.inj heq
      omega
    · rw [hsessions, List.getElem?_append_left hlt]
      exact hx
  | changed k y y' log hy hsessions hchange hsession =>
    refine ⟨?_, ?_⟩
    · rcases hsession with hsame | ⟨hnone, -⟩
      · rw [hsame]
        exact hn
      · rw [hnone]
        exact fun heq => by cases heq
    · rw [hsessions]
      by_cases hk : k = n
      · subst hk
        obtain rfl := Option.some.inj (hx.symm.trans hy)
        exact ⟨y', getElem?_set_some y' hx, hchange.rank hn⟩
      · exact ⟨x, by rw [List.getElem?_set_ne hk]; exact hx, .inl rfl⟩

/-! ## The way to the end -/

/-- The steps of `connect` and of the calls it waits for. -/
def own (n : Nat) : Event → Bool
  | .resume k | .loaded k _ | .serveOpen k _ | .serveRead k | .receive k | .idle k
  | .serveResize k | .serveClose k => k = n
  | .parsed => true
  | _ => false

/-- A session that is left. -/
structure Left (n : Nat) (s : State) : Prop where
  inv : Returning s
  session : s.session ≠ some n
  stays : ∃ x, s.sessions[n]? = some x

def Back (n : Nat) (s : State) : Prop := ∀ x, s.sessions[n]? = some x → x.stage = .returned

/-- The way to the end, with one step more while the output is not written. -/
def toGo (n : Nat) (s : State) : Nat :=
  ((s.sessions[n]?).map fun x => 2 * x.stage.rank +
    if (x.stage.awaits).any (s.finished < ·) then 1 else 0).getD 0

theorem toGo_of (hx : s.sessions[n]? = some x) : toGo n s = 2 * x.stage.rank +
    if (x.stage.awaits).any (s.finished < ·) then 1 else 0 := by
  rw [toGo, hx]
  rfl

/-- A step that brings `connect` on. -/
theorem Left.on (h : Left n s) (hx : s.sessions[n]? = some x) (hown : own n e = true)
    {x' : Session} (hstep : s.step e = some t) (hx' : t.sessions[n]? = some x')
    (hless : x'.stage.rank < x.stage.rank) :
    ∃ l s', own n l = true ∧ s.step l = some s' ∧ Left n s' ∧ toGo n s' < toGo n s := by
  refine ⟨e, t, hown, hstep, ⟨h.inv.step hstep, (rank_step hstep hx h.session).1, x', hx'⟩, ?_⟩
  rw [toGo_of hx, toGo_of hx']
  split <;> omega

/-- The session is left, so `connect` closes it. -/
theorem Left.finish (h : Left n s) (hx : s.sessions[n]? = some x)
    (hstep : s.step (.resume n) = some (s.finish n x)) (hrank : x.stage.rank = 3) :
    ∃ l s', own n l = true ∧ s.step l = some s' ∧ Left n s' ∧ toGo n s' < toGo n s := by
  refine h.on hx (e := .resume n) (by simp [own]) hstep (getElem?_set_some _ hx) ?_
  rw [hrank]
  exact Nat.lt_succ_self _

theorem loop_left (hn : s.session ≠ some n) : s.loop n x = s.finish n x := by
  rw [State.loop, if_neg hn]

/-- Where `connect` has not returned, some step brings it on. -/
theorem Left.progress (h : Left n s) (hnot : ¬ Back n s) :
    ∃ l s', own n l = true ∧ s.step l = some s' ∧ Left n s' ∧ toGo n s' < toGo n s := by
  obtain ⟨x, hx⟩ := h.stays
  have hn := h.session
  have hstays : x.stage ≠ .returned := by
    intro hback
    apply hnot
    intro y hy
    obtain rfl := Option.some.inj (hx.symm.trans hy)
    exact hback
  have hresume : s.step (.resume n) = s.resume n x := by
    simp only [State.step, hx, Option.bind_some]
  -- the screen writes what `connect` waits for
  have hparsed : ∀ write, x.stage.awaits = some write → s.finished < write →
      ∃ l s', own n l = true ∧ s.step l = some s' ∧ Left n s' ∧ toGo n s' < toGo n s := by
    intro write hwrite hless
    have hle := h.inv.awaits n x write hx hwrite
    refine ⟨.parsed, { s with finished := s.started }, rfl, rfl,
      ⟨h.inv.step (e := .parsed) rfl, hn, x, hx⟩, ?_⟩
    rw [toGo_of hx, toGo_of (s := { s with finished := s.started }) hx, hwrite]
    simp [hless, Nat.not_lt.mpr hle]
  cases hstage : x.stage with
  | returned => exact absurd hstage hstays
  | draining write =>
    by_cases hless : s.finished < write
    · exact hparsed write (by rw [hstage]; rfl) hless
    · refine h.finish hx ?_ (by rw [hstage]; rfl)
      rw [hresume, State.resume, hstage]
      simp [hless, hn]
  | loading =>
    refine h.on hx (e := .loaded n (.ok ())) (t := s.finish n x) (by simp [own]) ?_
      (getElem?_set_some _ hx) ?_
    · simp [State.step, hx, State.loaded, hstage, hn]
    · rw [hstage]
      exact Nat.lt_succ_self _
  | opening cols rows call =>
    cases call with
    | sent =>
      refine h.on hx (e := .serveOpen n (.error closed)) (t := s.put n { x with
        stage := .opening cols rows (.answered (.error closed)) }) (by simp [own]) ?_
        (getElem?_set_some _ hx) ?_
      · simp [State.step, hx, State.serveOpen, hstage]
      · rw [hstage]
        exact Nat.lt_succ_self _
    | answered r =>
      refine h.finish hx ?_ (by rw [hstage]; rfl)
      rw [hresume, State.resume, hstage]
      cases r with
      | ok => exact congrArg some (loop_left hn)
      | error => rfl
  | reading call =>
    cases call with
    | sent =>
      by_cases hlisted : x.native.any Native.listed = true
      · refine h.on hx (e := .serveRead n) (t := s.put n { x with stage := .reading .receiving })
          (by simp [own]) ?_ (getElem?_set_some _ hx) ?_
        · simp [State.step, hx, State.serveRead, hstage, hlisted]
        · rw [hstage]
          exact Nat.lt_succ_self _
      · refine h.on hx (e := .serveRead n) (t := s.put n { x with
          stage := .reading (.answered (.error closed)) }) (by simp [own]) ?_
          (getElem?_set_some _ hx) ?_
        · simp [State.step, hx, State.serveRead, hstage, hlisted]
        · rw [hstage]
          exact Nat.lt_of_sub_eq_succ rfl
    | receiving =>
      obtain ⟨v, hv⟩ := Option.isSome_iff_exists.mp (h.inv.receiving n x hx hstage)
      cases houtput : v.output with
      | nil =>
        refine h.on hx (e := .idle n) (t := s.put n { x with
          stage := .reading (.answered (.ok none)) }) (by simp [own]) ?_
          (getElem?_set_some _ hx) ?_
        · simp [State.step, hx, State.idle, hstage, hv, houtput]
        · rw [hstage]
          exact Nat.lt_succ_self _
      | cons o output =>
        refine h.on hx (e := .receive n) (t := s.put n { x with
          stage := .reading (.answered (.ok (some o)))
          native := some { v with output := output } }) (by simp [own]) ?_
          (getElem?_set_some _ hx) ?_
        · simp [State.step, hx, State.receive, hstage, hv, houtput]
        · rw [hstage]
          exact Nat.lt_succ_self _
    | answered r =>
      refine h.finish hx ?_ (by rw [hstage]; rfl)
      rw [hresume, State.resume, hstage]
      cases r with
      | ok o => simp [hn]
      | error => rfl
  | resizing cols rows call =>
    cases call with
    | sent =>
      refine h.on hx (e := .serveResize n) (t := s.put n { x with
        stage := .resizing cols rows (.answered (terminalResize x.native cols rows).1)
        native := (terminalResize x.native cols rows).2 }) (by simp [own]) ?_
        (getElem?_set_some _ hx) ?_
      · simp [State.step, hx, State.serveResize, hstage]
      · rw [hstage]
        exact Nat.lt_succ_self _
    | answered r =>
      refine h.finish hx ?_ (by rw [hstage]; rfl)
      rw [hresume, State.resume, hstage]
      cases r with
      | ok => exact congrArg some (loop_left hn)
      | error => rfl
  | writing write =>
    by_cases hless : s.finished < write
    · exact hparsed write (by rw [hstage]; rfl) hless
    · refine h.finish hx ?_ (by rw [hstage]; rfl)
      rw [hresume, State.resume, hstage]
      simp [hless, loop_left hn]
  | closing call =>
    cases call with
    | sent =>
      refine h.on hx (e := .serveClose n) (t := s.closeNative n { x with
        stage := .closing (.answered (.ok ())) }) (by simp [own]) ?_ (getElem?_set_some _ hx) ?_
      · simp [State.step, hx, State.serveClose, hstage]
      · rw [hstage]
        exact Nat.lt_succ_self _
    | answered r =>
      refine h.on hx (e := .resume n) (t := s.put n { x with stage := .returned })
        (by simp [own]) ?_ (getElem?_set_some _ hx) ?_
      · rw [hresume, State.resume, hstage]
      · rw [hstage]
        exact Nat.lt_succ_self _

/-- `connect` has not been told of a close. -/
def Undone (n : Nat) (s : State) : Prop := ∃ x, s.sessions[n]? = some x ∧ x.stage.done = false

theorem undone_serveOpen {server : Except String Unit}
    (hstep : s.step (.serveOpen n server) = some t) : Undone n t := by
  obtain ⟨x, hx, hstep⟩ := Option.bind_eq_some_iff.mp hstep
  rw [State.serveOpen] at hstep
  split at hstep
  · simp only at hstep
    split at hstep
    · cases hstep
      exact ⟨_, getElem?_set_some _ hx, rfl⟩
    · cases hstep
      exact ⟨_, getElem?_set_some _ hx, rfl⟩
    · split at hstep
      · cases hstep
        exact ⟨_, getElem?_set_some _ hx, rfl⟩
      · split at hstep
        · cases hstep
          exact ⟨_, getElem?_set_some _ hx, rfl⟩
        · cases hstep
          exact ⟨_, getElem?_set_some _ hx, rfl⟩
  · cases hstep

theorem Undone.step (h : Undone n s) (hne : e ≠ .serveClose n) (hstep : s.step e = some t) :
    Undone n t := by
  obtain ⟨x, hx, hundone⟩ := h
  cases moved_step hstep with
  | quiet hsessions => exact ⟨x, by rw [hsessions]; exact hx, hundone⟩
  | connected _ hsessions =>
    have hlt := (List.getElem?_eq_some_iff.mp hx).1
    exact ⟨x, by rw [hsessions, List.getElem?_append_left hlt]; exact hx, hundone⟩
  | changed k y y' log hy hsessions hchange =>
    rw [Undone, hsessions]
    by_cases hk : k = n
    · subst hk
      obtain rfl := Option.some.inj (hx.symm.trans hy)
      refine ⟨y', getElem?_set_some y' hx, eq_false_of_ne_true fun hdone => ?_⟩
      rcases hchange.done hdone with hold | hclose
      · rw [hundone] at hold
        cases hold
      · exact hne hclose
    · exact ⟨x, by rw [List.getElem?_set_ne hk]; exact hx, hundone⟩

/-- After the call that could open the native session, `connect` returns only once its close has
    been carried out. -/
theorem closes_after {before after : List Event} {start : State} {server : Except String Unit}
    (hrun : exec State.step (before ++ .serveOpen n server :: after) start = some s)
    (hx : s.sessions[n]? = some x) (hstage : x.stage = .returned) : .serveClose n ∈ after := by
  rw [exec_append] at hrun
  obtain ⟨m, -, hrun⟩ := Option.bind_eq_some_iff.mp hrun
  obtain ⟨m', hopen, hrun⟩ := exec_cons.mp hrun
  by_contra hnot
  have hok : Along State.step (fun _ e => e ≠ .serveClose n) after m' := by
    refine along_of_forall (fun e he _ heq => ?_) m'
    rw [heq] at he
    exact hnot he
  have hundone : Undone n s :=
    along_invariant (fun s e t hs hne hstep => hs.step hne hstep) (undone_serveOpen hopen) hok hrun
  obtain ⟨y, hy, hfalse⟩ := hundone
  obtain rfl := Option.some.inj (hx.symm.trans hy)
  rw [hstage] at hfalse
  cases hfalse

/-! ## All of it -/

/-- What may be given to the screen: what the session of the view has read, and a reset when all
    that was given before is written. -/
def MayShow (s : State) : Shown → Prop
  | .write n bytes => s.session = some n ∧ ∃ x, s.sessions[n]? = some x ∧
    x.stage = .reading (.answered (.ok (some (.data bytes))))
  | .reset n => s.session = some n ∧ s.finished = s.started ∧ s.disposed = false

/-- The sessions of a terminal after a run, apart from one another and all closed. -/
structure Apart (es : List Event) (s : State) : Prop where
  /-- A session becomes the one of the view when there is none, and as a new one. -/
  current : ∀ e t, s.step e = some t → t.session = s.session ∨ t.session = none ∨
    s.session = none ∧ t.session = some s.sessions.length
  shows : ∀ e t, s.step e = some t →
    ∃ log, t.screen = s.screen ++ log ∧ ∀ shown ∈ log, MayShow s shown
  /-- What is shown is in order, and nothing is lost until the session ends. -/
  inOrder : ∀ (n : Nat) (x : Session), s.sessions[n]? = some x →
    shownOf n s.screen <+: emitted x.native ∧ (s.session = some n →
      shownOf n s.screen ++ x.stage.carried ++ pending x.native = emitted x.native ∧
        (x.stage.last = true → shownOf n s.screen = emitted x.native))
  closes : ∀ (n : Nat) (before after : List Event) (server : Except String Unit) (x : Session),
    es = before ++ .serveOpen n server :: after → s.sessions[n]? = some x →
    x.stage = .returned → .serveClose n ∈ after
  shut : ∀ (n : Nat) (x : Session), s.sessions[n]? = some x → x.stage = .returned →
    Shut x.native
  /-- A session that is left comes nearer to its end with every step of `connect`, and there is
      one as long as it has not returned. -/
  returns : ∀ (n : Nat) (x : Session), s.sessions[n]? = some x → s.session ≠ some n →
    (∀ e t, s.step e = some t → ∃ y, t.sessions[n]? = some y ∧
      (y.stage = x.stage ∨ y.stage.rank < x.stage.rank)) ∧
    ∃ rest t y, (∀ e ∈ rest, own n e = true) ∧ exec State.step rest s = some t ∧
      t.sessions[n]? = some y ∧ y.stage = .returned

theorem mayShow_step (h : OutputInv s) (hstep : s.step e = some t) :
    ∃ log, t.screen = s.screen ++ log ∧ ∀ shown ∈ log, MayShow s shown := by
  cases moved_step hstep with
  | quiet _ _ hscreen => exact ⟨[], by rw [hscreen, List.append_nil], by simp⟩
  | connected _ _ _ hscreen => exact ⟨[], by rw [hscreen, List.append_nil], by simp⟩
  | changed n x x' log hx _ hchange _ hscreen =>
    refine ⟨log, hscreen, fun shown hshown => ?_⟩
    rcases hchange.log with rfl | ⟨rfl, ⟨write, hstage, hdone⟩, hcurrent⟩ |
      ⟨bytes, rfl, hstage, hcurrent, -⟩
    · cases hshown
    · obtain rfl := List.mem_singleton.mp hshown
      have hwrite := h.draining n x write hcurrent hx hstage
      refine ⟨hcurrent, Nat.le_antisymm h.finished (by omega), eq_false_of_ne_true fun hd => ?_⟩
      rw [h.disposed hd] at hcurrent
      cases hcurrent
    · obtain rfl := List.mem_singleton.mp hshown
      exact ⟨hcurrent, x, hx, hstage⟩

theorem inOrder_of {session : Option Nat} {shown : Bytes} (h : OutputOk session n shown x) :
    shown <+: emitted x.native ∧ (session = some n →
      shown ++ x.stage.carried ++ pending x.native = emitted x.native ∧
        (x.stage.last = true → shown = emitted x.native)) := by
  cases h.account with
  | cut hn _ hpart => exact ⟨hpart, fun hcurrent => absurd hcurrent hn⟩
  | whole hwhole =>
    refine ⟨⟨_, (List.append_assoc ..).symm.trans hwhole⟩, fun _ => ⟨hwhole, fun hlast => ?_⟩⟩
    -- nothing is left behind what was read last
    obtain ⟨v, hv, hnil, -⟩ := h.last hlast
    have hpending : pending x.native = [] := by
      rw [hv]
      simp [pending, hnil]
    have hcarried : x.stage.carried = [] := by
      cases hstage : x.stage with
      | reading call =>
        rw [hstage] at hlast
        cases call with
        | sent | receiving => rfl
        | answered r =>
          cases r with
          | error text => rfl
          | ok o =>
            cases o with
            | none => rfl
            | some o =>
              cases o with
              | ready | exit | error => rfl
              | data bytes => cases hlast
      | draining | loading | opening | resizing | writing | closing | returned => rfl
    rw [← hwhole, hpending, hcarried, List.append_nil, List.append_nil]

/-- **Sessions neither leak nor mix**, whatever the order of the steps. -/
theorem sessions_apart {cols rows : Nat} {es : List Event} {s : State}
    (hrun : exec State.step es (.initial cols rows) = some s) : Apart es s where
  current e t hstep := by
    cases moved_step hstep with
    | quiet _ hsession => exact hsession.imp_right fun h => .inl h.1
    | connected hnone _ hsession => exact .inr (.inr ⟨hnone, hsession⟩)
    | changed _ _ _ _ _ _ _ hsession => exact hsession.imp_right fun h => .inl h.1
  shows e t hstep := mayShow_step (outputInv_run hrun) hstep
  inOrder n x hx := inOrder_of ((outputInv_run hrun).outputs n x hx)
  closes n before after server x hes hx hstage := by
    subst hes
    exact closes_after hrun hx hstage
  shut n x hx hstage := (returning_run hrun).shut n x hx (by rw [hstage]; rfl)
  returns n x hx hn := by
    refine ⟨fun e t hstep => (rank_step hstep hx hn).2, ?_⟩
    have hleft : Left n s := ⟨returning_run hrun, hn, x, hx⟩
    have hreach : ∃ rest t, Along State.step (fun _ e => own n e = true) rest s ∧
        exec State.step rest s = some t ∧ Left n t ∧ Back n t :=
      along_reaches (toGo n) (fun s hs hnot => hs.progress hnot) hleft
    obtain ⟨rest, t, hown, ht, hleft, hback⟩ := hreach
    obtain ⟨y, hy⟩ := hleft.stays
    exact ⟨rest, t, y, forall_of_along ht hown, ht, hy, hback y hy⟩

/-! ## A session that is left while its output is written -/

namespace Reconnected

/-- The output of a session is shown, the session is left, and the next one waits to be opened. -/
def reconnected : List Event :=
  [.connect, .resume 0, .loaded 0 (.ok ()), .serveOpen 0 (.ok ()), .resume 0, .serveRead 0,
    .task 0 .ready, .task 0 (.output [104, 105]), .receive 0, .resume 0, .serveResize 0, .resume 0,
    .serveRead 0, .receive 0, .resume 0, .disconnect, .connect, .serveDisconnect 0, .parsed,
    .resume 0, .serveClose 0, .resume 0, .resume 1]

end Reconnected

open Reconnected in
/-- The first session has been closed after it was opened, and its output is on the screen. -/
theorem reconnected_apart : ∃ s x, exec State.step reconnected (.initial 80 24) = some s ∧
    s.sessions[0]? = some x ∧ x.stage = .returned ∧ Shut x.native ∧ s.session = some 1 ∧
      [104, 105] <+: emitted x.native := by
  obtain ⟨s, hs⟩ : ∃ s, exec State.step reconnected (.initial 80 24) = some s :=
    Option.isSome_iff_exists.mp (by decide)
  have hsession : (exec State.step reconnected (.initial 80 24)).map (fun s =>
    (s.session, shownOf 0 s.screen)) = some (some 1, [104, 105]) := by decide
  have hstage : (exec State.step reconnected (.initial 80 24)).bind (fun s =>
    (s.sessions[0]?).map Session.stage) = some .returned := rfl
  rw [hs] at hsession hstage
  obtain ⟨hcurrent, hshown⟩ := Prod.mk.inj (Option.some.inj hsession)
  obtain ⟨x, hx, hreturned⟩ := Option.map_eq_some_iff.mp hstage
  have hapart := sessions_apart hs
  refine ⟨s, x, hs, hx, hreturned, hapart.shut 0 x hx hreturned, hcurrent, ?_⟩
  rw [← hshown]
  exact (hapart.inOrder 0 x hx).1

end Porthop.Terminal
