import Porthop.Terminal.Whole
import Porthop.Terminal.Shown

/- A session goes on as long as every input finds room. -/
namespace Porthop.Terminal

open Porthop.Run
open Porthop.Lists

/-- Nothing `connect` waits for ends a session that is ready, and nothing makes it so too early. -/
def Stage.calm (ready : Bool) : Stage → Bool
  | .draining _ | .loading | .opening _ _ _ => !ready
  | .reading (.answered (.ok (some o))) => o.calm
  | .reading (.answered (.error _)) | .resizing _ _ (.answered (.error _)) => false
  | .closing _ | .returned => false
  | _ => true

/-- There is a native session. -/
def Stage.opened : Stage → Bool
  | .opening _ _ (.answered (.ok ())) | .reading _ | .resizing _ _ _ | .writing _ => true
  | _ => false

/-- The output that was told is on its way to the view. -/
def Stage.carries : Stage → Bool
  | .reading (.answered (.ok (some _))) => true
  | _ => false

structure NativeOk (x : Session) (v : Native) : Prop where
  listed : v.listed = true
  running : v.running = true
  calm : ∀ o ∈ v.output, o.calm = true
  started : v.started = false → x.ready = false ∧ v.output = [] ∧ x.stage.carries = false

structure Calm (x : Session) : Prop where
  stage : x.stage.calm x.ready = true
  native : ∀ v, x.native = some v → NativeOk x v
  opened : x.stage.opened = true → x.native.isSome = true
  writes : ∀ w ∈ x.writes, ∀ bytes call, w.call = some (bytes, call) →
    bytes.length ≤ chunkSize ∧ ∀ error, call ≠ .answered (.error error)

structure Going (s : State) (n : Nat) (x : Session) : Prop where
  ready : x.ready = true → s.session = some n
  calm : s.session = some n → Calm x
  closes : s.session = some n → n ∉ s.closes
  resizes : s.session = some n → ∀ call ∈ s.resizes, call.session = n →
    ∀ error, call.call ≠ .answered (.error error)
  asked : ∀ call ∈ s.resizes, call.session = n → x.ready = true

variable {s t : State} {e : Event} {n : Nat} {x x' : Session}

/-- A session that is not the one of the view any more, and was not ready. -/
theorem going_gone (hready : x.ready = true → t.session = some n) (hsession : t.session ≠ some n)
    (hasked : ∀ call ∈ t.resizes, call.session = n → x.ready = true) : Going t n x :=
  ⟨hready, fun h => absurd h hsession, fun h => absurd h hsession, fun h => absurd h hsession,
    hasked⟩

/-! ## What arrives finds room -/

/-- A native session takes an input that finds room. -/
theorem send_ok {v : Native} (hlisted : v.listed = true) (hrunning : v.running = true)
    (hroom : v.input.length < capacity) (input : Input) :
    v.send input = (.ok (), { v with input := v.input ++ [input] }) := by
  rw [Native.send, hlisted, hrunning]
  simp [hroom]

theorem size_ok {cols rows : Nat} (h : sized cols rows = true) : size cols rows = .ok () := by
  simp only [sized, Bool.and_eq_true, decide_eq_true_eq] at h
  obtain ⟨⟨⟨h₁, h₂⟩, h₃⟩, h₄⟩ := h
  rw [size, if_pos ⟨h₁, h₂, h₃, h₄⟩]

theorem resize_ok {v : Native} {cols rows : Nat} (hlisted : v.listed = true)
    (hrunning : v.running = true) (hroom : v.input.length < capacity)
    (hsize : sized cols rows = true) : terminalResize (some v) cols rows =
      (.ok (), some { v with input := v.input ++ [.resize cols rows] }) := by
  simp only [terminalResize, size_ok hsize, sendTo, send_ok hlisted hrunning hroom]

theorem write_ok {v : Native} {bytes : Bytes} (hlisted : v.listed = true)
    (hrunning : v.running = true) (hroom : v.input.length < capacity)
    (hlength : bytes.length ≤ chunkSize) : terminalWrite (some v) bytes =
      (.ok (), some { v with input := v.input ++ [.data bytes] }) := by
  have hsmall : ¬ bytes.length > 65536 := by
    rw [chunkSize] at hlength
    omega
  simp only [terminalWrite, if_neg hsmall, sendTo, send_ok hlisted hrunning hroom]

theorem room_of {v : Native} (hnative : x.native = some v) (h : x.hasRoom = true) :
    v.input.length < capacity := by
  rw [Session.hasRoom, hnative] at h
  exact of_decide_eq_true h

/-! ## The parts of a session -/

/-- `connect` goes on to a stage that carries no output. -/
theorem Calm.move (h : Calm x) {stage : Stage} (hcalm : stage.calm x.ready = true)
    (hopened : stage.opened = true → x.native.isSome = true) (hcarries : stage.carries = false) :
    Calm { x with stage := stage } where
  stage := hcalm
  native v hv := by
    have hok := h.native v hv
    exact ⟨hok.listed, hok.running, hok.calm, fun hs => ⟨(hok.started hs).1, (hok.started hs).2.1,
      hcarries⟩⟩
  opened := hopened
  writes := h.writes

/-- The native session goes on, and is still there. -/
theorem Calm.setNative (h : Calm x) {v v' : Native} (hv : x.native = some v)
    (hlisted : v'.listed = v.listed) (hrunning : v'.running = v.running)
    (hcalm : ∀ o ∈ v'.output, o ∈ v.output ∨ o.calm = true)
    (hstarted : v'.started = false → v.started = false ∧ v'.output = v.output) :
    Calm { x with native := some v' } where
  stage := h.stage
  native u hu := by
    obtain rfl := Option.some.inj hu
    have hok := h.native v hv
    refine ⟨hlisted.trans hok.listed, hrunning.trans hok.running, fun o ho => ?_, fun hs => ?_⟩
    · rcases hcalm o ho with hold | hnew
      · exact hok.calm o hold
      · exact hnew
    · obtain ⟨hold, hsame⟩ := hstarted hs
      obtain ⟨hready, hnil, hcarries⟩ := hok.started hold
      exact ⟨hready, hsame.trans hnil, hcarries⟩
  opened _ := rfl
  writes := h.writes

theorem Calm.setWrites (h : Calm x) {writes : List Send} {queued : Nat} {typed : Bytes}
    (hwrites : ∀ w ∈ writes, w ∈ x.writes ∨ ∀ bytes call, w.call = some (bytes, call) →
      bytes.length ≤ chunkSize ∧ ∀ error, call ≠ .answered (.error error)) :
    Calm { x with writes := writes, queued := queued, typed := typed } where
  stage := h.stage
  native v hv := by
    have hok := h.native v hv
    exact ⟨hok.listed, hok.running, hok.calm, hok.started⟩
  opened := h.opened
  writes w hw := by
    rcases hwrites w hw with hold | hnew
    · exact h.writes w hold
    · exact hnew

/-- What a native session does that the remote side does not end. -/
theorem Calm.task (h : Calm x) {v v' : Native} {event : TaskEvent} (hv : x.native = some v)
    (hstep : v.task event = some v') (hexit : ∀ code, event ≠ .exit code)
    (hfail : ∀ text, event ≠ .fail text) : Calm { x with native := some v' } := by
  cases event with
  | exit code => exact absurd rfl (hexit code)
  | fail text => exact absurd rfl (hfail text)
  | ready =>
    simp only [Native.task] at hstep
    split at hstep
    · cases hstep
      refine h.setNative hv rfl rfl (fun o ho => ?_) fun hs => by cases hs
      rcases List.mem_append.mp ho with ho | ho
      · exact .inl ho
      · rw [List.mem_singleton.mp ho]
        exact .inr rfl
    · cases hstep
  | output bytes =>
    simp only [Native.task] at hstep
    split at hstep
    · next hready =>
      cases hstep
      refine h.setNative hv rfl rfl (fun o ho => ?_) fun hs => ?_
      · rcases List.mem_append.mp ho with ho | ho
        · exact .inl ho
        · rw [List.mem_singleton.mp ho]
          exact .inr rfl
      · simp only [Bool.and_eq_true] at hready
        change v.started = false at hs
        rw [hready.1.2] at hs
        cases hs
    · cases hstep
  | take =>
    simp only [Native.task] at hstep
    split at hstep
    · split at hstep
      · cases hstep
        exact h.setNative hv rfl rfl (fun o ho => .inl ho) fun hs => ⟨hs, rfl⟩
      · cases hstep
        exact h.setNative hv rfl rfl (fun o ho => .inl ho) fun hs => ⟨hs, rfl⟩
      · cases hstep
    · cases hstep
  | wrote k =>
    simp only [Native.task] at hstep
    split at hstep
    · cases hstep
      exact h.setNative hv rfl rfl (fun o ho => .inl ho) fun hs => ⟨hs, rfl⟩
    · cases hstep

/-- A resize that finds room. -/
theorem Calm.resize (h : Calm x) {v : Native} {cols rows : Nat} (hv : x.native = some v)
    (hroom : x.hasRoom = true) (hsize : sized cols rows = true) :
    (terminalResize x.native cols rows).1 = .ok () ∧
      Calm { x with native := (terminalResize x.native cols rows).2 } := by
  have hok := h.native v hv
  have hsent := resize_ok hok.listed hok.running (room_of hv hroom) hsize
  rw [hv, hsent]
  refine ⟨rfl, ?_⟩
  exact h.setNative hv rfl rfl (fun o ho => .inl ho) fun hs => ⟨hs, rfl⟩

/-! ## A step -/

/-- A session that is ready has a native one. -/
theorem Calm.isSome (h : Calm x) (hready : x.ready = true) : x.native.isSome = true := by
  apply h.opened
  have hstage := h.stage
  rw [hready] at hstage
  cases hx : x.stage with
  | draining | loading | opening | closing | returned =>
    rw [hx] at hstage
    cases hstage
  | reading | resizing | writing => rfl

/-- The calls that no one waits for, after a step that keeps the session. -/
theorem going_calls (h : Going s n x) (hx : s.sessions[n]? = some x) (hmoved : CallsMoved s e t)
    (hkept : s.session = some n) (hsame : t.session = some n) (hroom : finds n s e = true) :
    n ∉ t.closes ∧ ∀ call ∈ t.resizes, call.session = n →
      ∀ error, call.call ≠ .answered (.error error) := by
  constructor
  · intro hmem
    rcases hmoved.closes n hmem with hold | ⟨-, hnone⟩
    · exact h.closes hkept hold
    · rw [hsame] at hnone
      cases hnone
  · intro call hcall hn error herror
    rcases hmoved.resizes call hcall with hold | ⟨hsent, -⟩ | ⟨i, old, y, rfl, hold, hy, rfl⟩
    · exact h.resizes hkept call hold hn error herror
    · rw [hsent] at herror
      cases herror
    · change old.session = n at hn
      subst hn
      obtain rfl := Option.some.inj (hy.symm.trans hx)
      have hcalm := h.calm hkept
      have hready := h.asked old (List.mem_of_getElem? hold) rfl
      obtain ⟨v, hv⟩ := Option.isSome_iff_exists.mp (hcalm.isSome hready)
      simp only [finds, hold, hx, Option.all_some, ne_eq, not_true_eq_false, decide_false,
        Bool.false_or, Bool.and_eq_true] at hroom
      have hok := (hcalm.resize hv hroom.2 hroom.1).1
      change Call.answered (terminalResize y.native old.cols old.rows).1 = _ at herror
      rw [hok] at herror
      cases herror

/-- Only a session that is ready is resized. -/
theorem going_asked (h : Going s n x) (hx : s.sessions[n]? = some x) (hmoved : CallsMoved s e t) :
    ∀ call ∈ t.resizes, call.session = n → x.ready = true := by
  intro call hcall hn
  rcases hmoved.resizes call hcall with hold | ⟨-, -, hready⟩ | ⟨i, old, y, -, hold, -, rfl⟩
  · exact h.asked call hold hn
  · rw [hn, hx] at hready
    exact hready
  · exact h.asked old (List.mem_of_getElem? hold) hn

/-- The session stays the one of the view, and calm. -/
theorem Going.keep (h : Going s n x) (hx : s.sessions[n]? = some x) (hmoved : CallsMoved s e t)
    (hkept : s.session = some n) (hsame : t.session = some n) (hroom : finds n s e = true)
    (hready : x.ready = true → x'.ready = true) (hcalm : Calm x') : Going t n x' := by
  obtain ⟨hcloses, hresizes⟩ := going_calls h hx hmoved hkept hsame hroom
  exact ⟨fun _ => hsame, fun _ => hcalm, fun _ => hcloses, fun _ => hresizes,
    fun call hcall hn => hready (going_asked h hx hmoved call hcall hn)⟩

/-- A session that was not the one of the view. -/
theorem Going.away (h : Going s n x) (hx : s.sessions[n]? = some x) (hmoved : CallsMoved s e t)
    (hn : s.session ≠ some n) (hsame : t.session ≠ some n) (hready : x'.ready = x.ready) :
    Going t n x' := by
  have hfalse : x.ready = false := eq_false_of_ne_true fun htrue => hn (h.ready htrue)
  refine going_gone (fun htrue => ?_) hsame fun call hcall heq => ?_
  · rw [hready, hfalse] at htrue
    cases htrue
  · rw [hready]
    exact going_asked h hx hmoved call hcall heq

/-- A session that was not ready ends. -/
theorem Going.lose (h : Going s n x) (hx : s.sessions[n]? = some x) (hmoved : CallsMoved s e t)
    (hfalse : x.ready = false) (hsession : t.session = none) (hready : x'.ready = x.ready) :
    Going t n x' := by
  refine going_gone (fun htrue => ?_) (by rw [hsession]; nofun) fun call hcall heq => ?_
  · rw [hready, hfalse] at htrue
    cases htrue
  · rw [hready]
    exact going_asked h hx hmoved call hcall heq

theorem accepts_wrote {bytes : Bytes} {w : Send} {writes : List Send} (hcalm : Calm x)
    (hready : x.ready = true) (hwrites : x.writes = w :: writes)
    (hcall : w.call = some (bytes, .sent)) (hroom : x.hasRoom = true) :
    (terminalWrite x.native bytes).1 = .ok () ∧ Calm { x with
      writes := { w with call := some (bytes, .answered (terminalWrite x.native bytes).1) } :: writes
      native := (terminalWrite x.native bytes).2 } := by
  obtain ⟨v, hv⟩ := Option.isSome_iff_exists.mp (hcalm.isSome hready)
  have hok := hcalm.native v hv
  have hw := hcalm.writes w (by rw [hwrites]; exact List.mem_cons_self) bytes .sent hcall
  have hsent := write_ok hok.listed hok.running (room_of hv hroom) hw.1
  rw [hv, hsent]
  refine ⟨rfl, ?_⟩
  have hnative : Calm { x with native := some { v with input := v.input ++ [.data bytes] } } :=
    hcalm.setNative hv rfl rfl (fun o ho => .inl ho) fun hs => ⟨hs, rfl⟩
  refine hnative.setWrites fun w' hw' => ?_
  rcases List.mem_cons.mp hw' with rfl | hw'
  · refine .inr fun b call hsame => ?_
    obtain ⟨rfl, rfl⟩ := Prod.mk.inj (Option.some.inj hsame)
    exact ⟨hw.1, nofun⟩
  · exact .inl (by rw [hwrites]; exact List.mem_cons_of_mem _ hw')

/-- Every step of a session for which what arrives finds room. -/
theorem Going.change {log : List Shown} (h : Going s n x) (hin : InputOk s.session n x)
    (hx : s.sessions[n]? = some x) (hmoved : CallsMoved s e t) (hok : Accepts n s e)
    (hchange : Change s e t n x x' log) : Going t n x' := by
  obtain ⟨hquiet, hroom⟩ := hok
  have hready_of_writes : ∀ w writes, x.writes = w :: writes → x.ready = true := by
    intro w writes hwrites
    apply eq_true_of_ne_false
    intro hfalse
    rw [(hin.quiet hfalse).1] at hwrites
    cases hwrites
  cases hchange with
  | drained hstage _ hcurrent hsame =>
    have hcalm := h.calm hcurrent
    have hready := (hin.unopened (by rw [hstage]; rfl)).1
    refine h.keep hx hmoved hcurrent hsame hroom id (hcalm.move ?_ nofun rfl)
    rw [hready]
    rfl
  | loaded hstage hcurrent hsame =>
    have hcalm := h.calm hcurrent
    have hready := (hin.unopened (by rw [hstage]; rfl)).1
    refine h.keep hx hmoved hcurrent hsame hroom id (hcalm.move ?_ nofun rfl)
    rw [hready]
    rfl
  | opened hstage hsame =>
    have hready := (hin.unopened (by rw [hstage]; rfl)).1
    by_cases hcurrent : s.session = some n
    · refine h.keep hx hmoved hcurrent (hsame.trans hcurrent) hroom id ?_
      refine ⟨?_, fun v hv => ?_, fun _ => rfl, (h.calm hcurrent).writes⟩
      · show (!x.ready) = true
        rw [hready]
        rfl
      · obtain rfl := Option.some.inj hv
        exact ⟨rfl, rfl, fun o ho => absurd ho List.not_mem_nil, fun _ => ⟨hready, rfl, rfl⟩⟩
    · exact h.away hx hmoved hcurrent (by rw [hsame]; exact hcurrent) rfl
  | refused hstage hsame =>
    have hready := (hin.unopened (by rw [hstage]; rfl)).1
    by_cases hcurrent : s.session = some n
    · refine h.keep hx hmoved hcurrent (hsame.trans hcurrent) hroom id
        ((h.calm hcurrent).move ?_ nofun rfl)
      rw [hready]
      rfl
    · exact h.away hx hmoved hcurrent (by rw [hsame]; exact hcurrent) rfl
  | looped hstage hcurrent hsame =>
    have hcalm := h.calm hcurrent
    have hsome : x.native.isSome = true := by
      apply hcalm.opened
      rcases hstage with ⟨_, _, hs⟩ | ⟨_, _, hs⟩ | hs | ⟨_, hs⟩ <;> (rw [hs]; rfl)
    exact h.keep hx hmoved hcurrent hsame hroom id (hcalm.move rfl (fun _ => hsome) rfl)
  | left _ hcurrent hsame => exact h.away hx hmoved hcurrent (by rw [hsame]; exact hcurrent) rfl
  | failed hstage hcurrent hnone =>
    have hcalm := (h.calm hcurrent).stage
    refine h.lose hx hmoved ?_ hnone rfl
    rcases hstage with ⟨_, _, hs⟩ | ⟨_, _, hs⟩ | hs | hs
    · rw [hs] at hcalm
      simpa [Stage.calm] using hcalm
    · rw [hs] at hcalm
      cases hcalm
    · rw [hs] at hcalm
      cases hcalm
    · exact (hin.unopened (by rw [hs]; rfl)).1
  | ended hstage hcurrent =>
    have hcalm := (h.calm hcurrent).stage
    rcases hstage with ⟨_, hs⟩ | ⟨_, hs⟩
    · rw [hs] at hcalm
      cases hcalm
    · rw [hs] at hcalm
      cases hcalm
  | readied hstage hcurrent hsame =>
    have hcalm := h.calm hcurrent
    have hsome : x.native.isSome = true := hcalm.opened (by rw [hstage]; rfl)
    refine h.keep hx hmoved hcurrent hsame hroom (fun _ => rfl)
      ⟨rfl, fun v hv => ?_, fun _ => hsome, hcalm.writes⟩
    have hok := hcalm.native v hv
    refine ⟨hok.listed, hok.running, hok.calm, fun hs => ?_⟩
    have hcarries := (hok.started hs).2.2
    rw [hstage] at hcarries
    cases hcarries
  | shown hstage hcurrent hsame =>
    have hcalm := h.calm hcurrent
    have hsome : x.native.isSome = true := hcalm.opened (by rw [hstage]; rfl)
    exact h.keep hx hmoved hcurrent hsame hroom id (hcalm.move rfl (fun _ => hsome) rfl)
  | asked hstage _ hsame =>
    by_cases hcurrent : s.session = some n
    · have hcalm := h.calm hcurrent
      have hsome : x.native.isSome = true := hcalm.opened (by rw [hstage]; rfl)
      exact h.keep hx hmoved hcurrent (hsame.trans hcurrent) hroom id
        (hcalm.move rfl (fun _ => hsome) rfl)
    · exact h.away hx hmoved hcurrent (by rw [hsame]; exact hcurrent) rfl
  | absent hstage hgone hsame =>
    by_cases hcurrent : s.session = some n
    · have hcalm := h.calm hcurrent
      obtain ⟨v, hv⟩ := Option.isSome_iff_exists.mp (hcalm.opened (by rw [hstage]; rfl))
      rw [hv, Option.any_some, (hcalm.native v hv).listed] at hgone
      cases hgone
    · exact h.away hx hmoved hcurrent (by rw [hsame]; exact hcurrent) rfl
  | @received v o output hstage hnative houtput hsame =>
    by_cases hcurrent : s.session = some n
    · have hcalm := h.calm hcurrent
      have hok := hcalm.native v hnative
      have hstarted : v.started = true := by
        apply eq_true_of_ne_false
        intro hfalse
        have hnil := (hok.started hfalse).2.1
        rw [houtput] at hnil
        cases hnil
      refine h.keep hx hmoved hcurrent (hsame.trans hcurrent) hroom id
        ⟨hok.calm o (by rw [houtput]; exact List.mem_cons_self), fun u hu => ?_, fun _ => rfl,
          hcalm.writes⟩
      obtain rfl := Option.some.inj hu
      refine ⟨hok.listed, hok.running, fun o' ho' => ?_, fun hs => ?_⟩
      · exact hok.calm o' (by rw [houtput]; exact List.mem_cons_of_mem _ ho')
      · change v.started = false at hs
        rw [hstarted] at hs
        cases hs
    · exact h.away hx hmoved hcurrent (by rw [hsame]; exact hcurrent) rfl
  | stopped hstage hnative _ hstopped hsame =>
    by_cases hcurrent : s.session = some n
    · have hrunning := ((h.calm hcurrent).native _ hnative).running
      rw [hstopped] at hrunning
      cases hrunning
    · exact h.away hx hmoved hcurrent (by rw [hsame]; exact hcurrent) rfl
  | idled hstage hsame =>
    by_cases hcurrent : s.session = some n
    · have hcalm := h.calm hcurrent
      have hsome : x.native.isSome = true := hcalm.opened (by rw [hstage]; rfl)
      exact h.keep hx hmoved hcurrent (hsame.trans hcurrent) hroom id
        (hcalm.move rfl (fun _ => hsome) rfl)
    · exact h.away hx hmoved hcurrent (by rw [hsame]; exact hcurrent) rfl
  | @resized cols rows hevent hstage hsame =>
    by_cases hcurrent : s.session = some n
    · have hcalm := h.calm hcurrent
      obtain ⟨v, hv⟩ := Option.isSome_iff_exists.mp (hcalm.opened (by rw [hstage]; rfl))
      subst hevent
      simp only [finds, hx, hstage, Option.all_some, ne_eq, not_true_eq_false, decide_false,
        Bool.false_or, Bool.and_eq_true] at hroom
      obtain ⟨hok, hnative⟩ := hcalm.resize hv hroom.1 hroom.2
      refine h.keep hx hmoved hcurrent (hsame.trans hcurrent) ?_ id
        (hnative.move ?_ (fun _ => ?_) rfl)
      · simp only [finds, hx, hstage, Option.all_some, hroom.1, hroom.2, Bool.and_true,
          Bool.or_true]
      · rw [hok]
        rfl
      · rw [hv, resize_ok (hcalm.native v hv).listed (hcalm.native v hv).running
          (room_of hv hroom.1) hroom.2]
        rfl
    · exact h.away hx hmoved hcurrent (by rw [hsame]; exact hcurrent) rfl
  | @fitted i call hevent hcall hn hsame =>
    by_cases hcurrent : s.session = some n
    · have hcalm := h.calm hcurrent
      have hready := h.asked call (List.mem_of_getElem? hcall) hn
      obtain ⟨v, hv⟩ := Option.isSome_iff_exists.mp (hcalm.isSome hready)
      have hfound := hroom
      subst hevent
      simp only [finds, hcall, hn, hx, Option.all_some, ne_eq, not_true_eq_false, decide_false,
        Bool.false_or, Bool.and_eq_true] at hfound
      exact h.keep hx hmoved hcurrent (hsame.trans hcurrent) hroom id
        (hcalm.resize hv hfound.2 hfound.1).2
    · exact h.away hx hmoved hcurrent (by rw [hsame]; exact hcurrent) rfl
  | closed _ hstage hsame =>
    by_cases hcurrent : s.session = some n
    · have hcalm := (h.calm hcurrent).stage
      rw [hstage] at hcalm
      cases hcalm
    · exact h.away hx hmoved hcurrent (by rw [hsame]; exact hcurrent) rfl
  | returned hstage hsame =>
    by_cases hcurrent : s.session = some n
    · have hcalm := (h.calm hcurrent).stage
      rw [hstage] at hcalm
      cases hcalm
    · exact h.away hx hmoved hcurrent (by rw [hsame]; exact hcurrent) rfl
  | removed hevent hsame =>
    by_cases hcurrent : s.session = some n
    · rcases hevent with ⟨i, rfl, hi⟩ | rfl
      · exact absurd (List.mem_of_getElem? hi) (h.closes hcurrent)
      · simp [undisturbed] at hquiet
    · exact h.away hx hmoved hcurrent (by rw [hsame]; exact hcurrent) rfl
  | typed _ hcurrent hsame =>
    refine h.keep hx hmoved hcurrent hsame hroom id ((h.calm hcurrent).setWrites fun w hw => ?_)
    rcases List.mem_append.mp hw with hw | hw
    · exact .inl hw
    · rw [List.mem_singleton.mp hw]
      exact .inr nofun
  | @chunk w writes hwrites _ _ hcurrent hsame =>
    refine h.keep hx hmoved hcurrent hsame hroom id ((h.calm hcurrent).setWrites fun w' hw' => ?_)
    rcases List.mem_cons.mp hw' with rfl | hw'
    · refine .inr fun bytes call heq => ?_
      obtain ⟨rfl, rfl⟩ := Prod.mk.inj (Option.some.inj heq)
      refine ⟨?_, nofun⟩
      rw [List.length_take]
      exact Nat.min_le_left _ _
    · exact .inl (by rw [hwrites]; exact List.mem_cons_of_mem _ hw')
  | @sent w writes hwrites _ _ hsame =>
    have hready := hready_of_writes w writes hwrites
    have hcurrent := h.ready hready
    rw [settle_cons hwrites]
    refine h.keep hx hmoved hcurrent (hsame.trans hcurrent) hroom id
      ((h.calm hcurrent).setWrites fun w' hw' => .inl ?_)
    rw [hwrites]
    exact List.mem_cons_of_mem _ hw'
  | @acknowledged w writes bytes hwrites _ hsame =>
    have hready := hready_of_writes w writes hwrites
    have hcurrent := h.ready hready
    refine h.keep hx hmoved hcurrent (hsame.trans hcurrent) hroom id
      ((h.calm hcurrent).setWrites fun w' hw' => ?_)
    rcases List.mem_cons.mp hw' with rfl | hw'
    · exact .inr nofun
    · exact .inl (by rw [hwrites]; exact List.mem_cons_of_mem _ hw')
  | @rejected w writes bytes error hwrites hcall =>
    have hready := hready_of_writes w writes hwrites
    have hcalm := h.calm (h.ready hready)
    have hw := hcalm.writes w (by rw [hwrites]; exact List.mem_cons_self) bytes _ hcall
    exact absurd rfl (hw.2 error)
  | @wrote w writes bytes hevent hwrites hcall hsame =>
    have hready := hready_of_writes w writes hwrites
    have hcurrent := h.ready hready
    subst hevent
    have hfound := hroom
    simp only [finds, hx, Option.all_some, ne_eq, not_true_eq_false, decide_false,
      Bool.false_or] at hfound
    exact h.keep hx hmoved hcurrent (hsame.trans hcurrent) hroom id
      (accepts_wrote (h.calm hcurrent) hready hwrites hcall hfound).2
  | @task v v' event hevent hnative hv' hsame =>
    by_cases hcurrent : s.session = some n
    · subst hevent
      refine h.keep hx hmoved hcurrent (hsame.trans hcurrent) hroom id
        ((h.calm hcurrent).task hnative hv' (fun code heq => ?_) fun text heq => ?_)
      · subst heq
        simp [undisturbed] at hquiet
      · subst heq
        simp [undisturbed] at hquiet
    · exact h.away hx hmoved hcurrent (by rw [hsame]; exact hcurrent) rfl

/-! ## All steps -/

structure GoingInv (n : Nat) (s : State) : Prop where
  input : InputInv s
  closes : ∀ k ∈ s.closes, k < s.sessions.length
  resizes : ∀ call ∈ s.resizes, call.session < s.sessions.length
  going : ∀ x, s.sessions[n]? = some x → Going s n x

theorem moved_length (h : Moved s e t) : s.sessions.length ≤ t.sessions.length := by
  cases h with
  | quiet hsessions => exact Nat.le_of_eq (congrArg List.length hsessions.symm)
  | connected _ hsessions =>
    rw [hsessions, List.length_append]
    omega
  | changed _ _ _ _ _ hsessions =>
    exact Nat.le_of_eq ((congrArg List.length hsessions).trans List.length_set).symm

theorem GoingInv.step (h : GoingInv n s) (hok : Accepts n s e) (hstep : s.step e = some t) :
    GoingInv n t := by
  have hmoved := moved_step hstep
  have hcalls := calls_step hstep
  have hlength := moved_length hmoved
  refine ⟨h.input.step hstep, fun k hk => ?_, fun call hcall => ?_, fun x hx => ?_⟩
  · rcases hcalls.closes k hk with hold | ⟨hcurrent, -⟩
    · exact Nat.lt_of_lt_of_le (h.closes k hold) hlength
    · exact Nat.lt_of_lt_of_le (h.input.session k hcurrent) hlength
  · rcases hcalls.resizes call hcall with hold | ⟨-, hcurrent, -⟩ | ⟨i, old, y, -, hold, -, rfl⟩
    · exact Nat.lt_of_lt_of_le (h.resizes call hold) hlength
    · exact Nat.lt_of_lt_of_le (h.input.session _ hcurrent) hlength
    · exact Nat.lt_of_lt_of_le (h.resizes old (List.mem_of_getElem? hold)) hlength
  · cases hmoved with
    | quiet hsessions hsession =>
      rw [hsessions] at hx
      have hgoing := h.going x hx
      by_cases hcurrent : s.session = some n
      · rcases hsession with hsame | ⟨hnone, hends⟩
        · exact hgoing.keep hx hcalls hcurrent (hsame.trans hcurrent) hok.2 id
            (hgoing.calm hcurrent)
        · exfalso
          obtain ⟨hquiet, -⟩ := hok
          cases hends with
          | disconnect | dispose => simp [undisturbed, hcurrent] at hquiet
          | overflow hsession hy hfull =>
            obtain rfl := Option.some.inj (hsession.symm.trans hcurrent)
            simp only [undisturbed, hcurrent, hy, Option.all_some, ne_eq, not_true_eq_false,
              decide_false, Bool.false_or, decide_eq_true_eq] at hquiet
            omega
          | resized hcall herror hsession =>
            have hn := Option.some.inj (hsession.symm.trans hcurrent)
            exact hgoing.resizes hcurrent _ (List.mem_of_getElem? hcall) hn _ herror
      · refine hgoing.away hx hcalls hcurrent ?_ rfl
        rcases hsession with hsame | ⟨hnone, -⟩
        · rw [hsame]
          exact hcurrent
        · rw [hnone]
          nofun
    | connected hnone hsessions hsession =>
      rw [hsessions] at hx
      rcases getElem?_concat hx with hold | ⟨rfl, rfl⟩
      · refine (h.going x hold).away hold hcalls (by rw [hnone]; nofun) (fun heq => ?_) rfl
        have hlt := (List.getElem?_eq_some_iff.mp hold).1
        have := Option.some.inj (hsession.symm.trans heq)
        omega
      · have hcalm : Calm (Session.new s.started) := ⟨rfl, (fun v hv => by cases hv),
          (fun ho => by cases ho), fun w hw => absurd hw List.not_mem_nil⟩
        refine ⟨(fun hready => by cases hready), fun _ => hcalm, fun _ hmem => ?_,
          fun _ call hcall hn => ?_, fun call hcall hn => ?_⟩
        · rcases hcalls.closes _ hmem with hold | ⟨hcurrent, -⟩
          · exact Nat.lt_irrefl _ (h.closes _ hold)
          · rw [hnone] at hcurrent
            cases hcurrent
        · exfalso
          rcases hcalls.resizes call hcall with hold | ⟨-, hcurrent, -⟩ |
            ⟨i, old, y, -, hold, -, rfl⟩
          · have := h.resizes call hold
            omega
          · rw [hnone] at hcurrent
            cases hcurrent
          · have := h.resizes old (List.mem_of_getElem? hold)
            change old.session = _ at hn
            omega
        · exfalso
          rcases hcalls.resizes call hcall with hold | ⟨-, hcurrent, -⟩ |
            ⟨i, old, y, -, hold, -, rfl⟩
          · have := h.resizes call hold
            omega
          · rw [hnone] at hcurrent
            cases hcurrent
          · have := h.resizes old (List.mem_of_getElem? hold)
            change old.session = _ at hn
            omega
    | changed k y y' log hy hsessions hchange hsession =>
      rw [hsessions] at hx
      rcases getElem?_set_cases hx with ⟨rfl, rfl⟩ | ⟨hne, hold⟩
      · exact (h.going y hy).change (h.input.sessions n y hy) hy hcalls hok hchange
      · have hgoing := h.going x hold
        by_cases hcurrent : s.session = some n
        · rcases hsession with hsame | ⟨-, hk⟩
          · exact hgoing.keep hold hcalls hcurrent (hsame.trans hcurrent) hok.2 id
              (hgoing.calm hcurrent)
          · exact absurd (Option.some.inj (hcurrent.symm.trans hk)) hne
        · refine hgoing.away hold hcalls hcurrent ?_ rfl
          rcases hsession with hsame | ⟨hnone, -⟩
          · rw [hsame]
            exact hcurrent
          · rw [hnone]
            nofun

theorem goingInv_run {cols rows : Nat} {es : List Event}
    (hok : Along State.step (Accepts n) es (.initial cols rows))
    (hrun : exec State.step es (.initial cols rows) = some s) : GoingInv n s := by
  refine along_invariant (fun s e t hs he hstep => hs.step he hstep)
    ⟨inputInv_initial cols rows, fun k hk => absurd hk List.not_mem_nil,
      fun call hcall => absurd hcall List.not_mem_nil, fun x hx => by cases hx⟩ hok hrun

end Porthop.Terminal
