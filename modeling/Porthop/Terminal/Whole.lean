import Porthop.Terminal.Typed

/- A session that nothing but its input could end.

   The view lets a session have a lot of input waiting, but the native queue is short and refuses
   what it has no room for, and the view ends a session when an input is refused. So input is
   whole where the queue has room for whatever arrives. -/
namespace Porthop.Terminal

open Porthop.Run
open Porthop.Lists

/-! ## The conditions -/

/-- The user and the remote side do not end the session, and not too much waits in the view. -/
def undisturbed (n : Nat) (s : State) : Event → Bool
  | .disconnect | .dispose => s.session ≠ some n
  | .send bytes => s.session ≠ some n ||
    (s.sessions[n]?).all fun x => x.queued + bytes.length ≤ limit
  | .closeServer k => k ≠ n
  | .task k (.exit _) | .task k (.fail _) => k ≠ n
  | _ => true

def Session.hasRoom (x : Session) : Bool := x.native.all fun v => v.input.length < capacity

def sized (cols rows : Nat) : Bool := 2 ≤ cols && cols ≤ 500 && 1 ≤ rows && rows ≤ 300

/-- An input that arrives at the native session finds room, and a resize a size that is allowed. -/
def finds (n : Nat) (s : State) : Event → Bool
  | .serveWrite k => k ≠ n || (s.sessions[k]?).all Session.hasRoom
  | .serveResize k => k ≠ n || (s.sessions[k]?).all fun x => x.hasRoom &&
    match x.stage with
    | .resizing cols rows _ => sized cols rows
    | _ => true
  | .serveResized i => (s.resizes[i]?).all fun call => call.session ≠ n ||
    (sized call.cols call.rows && (s.sessions[n]?).all Session.hasRoom)
  | _ => true

def Accepts (n : Nat) (s : State) (e : Event) : Prop :=
  undisturbed n s e = true ∧ finds n s e = true

/-! ## The calls under way -/

/-- What becomes of the calls that no `connect` waits for. -/
structure CallsMoved (s : State) (e : Event) (t : State) : Prop where
  closes : ∀ k ∈ t.closes, k ∈ s.closes ∨ s.session = some k ∧ t.session = none
  resizes : ∀ call ∈ t.resizes, call ∈ s.resizes ∨
    call.call = .sent ∧ s.session = some call.session ∧
      (s.sessions[call.session]?).any Session.ready = true ∨
    ∃ i old x, e = .serveResized i ∧ s.resizes[i]? = some old ∧
      s.sessions[old.session]? = some x ∧
      call = { old with call := .answered (terminalResize x.native old.cols old.rows).1 }

variable {s t : State} {e : Event} {n : Nat} {x x' : Session}

theorem calls_same (hcloses : t.closes = s.closes) (hresizes : t.resizes = s.resizes) :
    CallsMoved s e t where
  closes _ hk := .inl (hcloses ▸ hk)
  resizes _ hcall := .inl (hresizes ▸ hcall)

theorem calls_disconnect (s : State) : CallsMoved s e s.disconnect := by
  rw [State.disconnect]
  split
  · exact calls_same rfl rfl
  · next n hsession =>
    refine ⟨fun k hk => ?_, fun call hcall => .inl hcall⟩
    rcases List.mem_append.mp hk with hk | hk
    · exact .inl hk
    · rw [List.mem_singleton.mp hk]
      exact .inr ⟨hsession, rfl⟩

theorem calls_failed (s : State) (n : Nat) : CallsMoved s e (s.failed n) := by
  rw [State.failed]
  split
  · exact calls_disconnect s
  · exact calls_same rfl rfl

theorem calls_send (s : State) (bytes : Bytes) : CallsMoved s e (s.send bytes) := by
  rw [State.send]
  split
  · exact calls_same rfl rfl
  · split
    · exact calls_same rfl rfl
    · split
      · exact calls_same rfl rfl
      · split
        · exact calls_failed s _
        · exact calls_same rfl rfl

theorem calls_resize (s : State) (cols rows : Nat) : CallsMoved s e (s.resize cols rows) := by
  cases hsession : s.session with
  | none =>
    simp only [State.resize, hsession]
    exact calls_same rfl rfl
  | some n =>
    simp only [State.resize, hsession]
    split
    · next hready =>
      refine ⟨fun k hk => .inl hk, fun call hcall => ?_⟩
      rcases List.mem_append.mp hcall with hcall | hcall
      · exact .inl hcall
      · rw [List.mem_singleton.mp hcall]
        exact .inr (.inl ⟨rfl, hsession, (Bool.and_eq_true_iff.mp hready).1⟩)
    · exact calls_same rfl rfl

theorem calls_loop (s : State) (n : Nat) (x : Session) : CallsMoved s e (s.loop n x) := by
  rw [State.loop]
  split
  · exact calls_same rfl rfl
  · exact calls_same rfl rfl

theorem calls_handle (s : State) (n : Nat) (x : Session) (o : Option Output) :
    CallsMoved s e (s.handle n x o) := by
  cases o with
  | none => exact calls_loop s n x
  | some o =>
    cases o with
    | ready | data | exit | error => exact calls_same rfl rfl

theorem calls_resume (hstep : s.resume n x = some t) : CallsMoved s e t := by
  rw [State.resume] at hstep
  split at hstep
  · split at hstep
    · cases hstep
    · split at hstep
      · cases hstep
        exact calls_same rfl rfl
      · cases hstep
        exact calls_same rfl rfl
  · split at hstep
    · cases hstep
      exact calls_loop s n x
    · cases hstep
      exact calls_same rfl rfl
  · split at hstep
    · cases hstep
      exact calls_loop s n x
    · cases hstep
      exact calls_same rfl rfl
  · split at hstep
    · split at hstep
      · cases hstep
        exact calls_handle s n x _
      · cases hstep
        exact calls_same rfl rfl
    · cases hstep
      exact calls_same rfl rfl
  · split at hstep
    · cases hstep
    · cases hstep
      exact calls_loop s n x
  · cases hstep
    exact calls_same rfl rfl
  · cases hstep

theorem calls_chain (hstep : s.chain n x = some t) : CallsMoved s e t := by
  rw [State.chain] at hstep
  split at hstep
  · cases hstep
  · split at hstep
    · split at hstep
      · cases hstep
        exact calls_same rfl rfl
      · cases hstep
        exact calls_same rfl rfl
    · cases hstep
    · cases hstep
      exact calls_same rfl rfl
    · cases hstep
      obtain ⟨hcloses, hresizes⟩ := calls_failed (e := e) s n
      exact ⟨hcloses, hresizes⟩

theorem calls_serveOpen {server : Except String Unit} (hstep : s.serveOpen n x server = some t) :
    CallsMoved s e t := by
  rw [State.serveOpen] at hstep
  split at hstep
  · simp only at hstep
    split at hstep
    · cases hstep
      exact calls_same rfl rfl
    · cases hstep
      exact calls_same rfl rfl
    · split at hstep
      · cases hstep
        exact calls_same rfl rfl
      · split at hstep
        · cases hstep
          exact calls_same rfl rfl
        · cases hstep
          exact calls_same rfl rfl
  · cases hstep

theorem calls_step (hstep : s.step e = some t) : CallsMoved s e t := by
  cases e with
  | connect =>
    cases hstep
    rw [State.connect]
    split
    · exact calls_same rfl rfl
    · exact calls_same rfl rfl
  | disconnect =>
    cases hstep
    exact calls_disconnect s
  | dispose =>
    cases hstep
    rw [State.dispose]
    split
    · exact calls_same rfl rfl
    · obtain ⟨hcloses, hresizes⟩ := calls_disconnect (e := .dispose) s
      exact ⟨hcloses, hresizes⟩
  | send bytes =>
    cases hstep
    exact calls_send s bytes
  | resize cols rows =>
    cases hstep
    exact calls_resize s cols rows
  | parsed | others =>
    cases hstep
    exact calls_same rfl rfl
  | resume n =>
    obtain ⟨x, -, hstep⟩ := Option.bind_eq_some_iff.mp hstep
    exact calls_resume hstep
  | chain n =>
    obtain ⟨x, -, hstep⟩ := Option.bind_eq_some_iff.mp hstep
    exact calls_chain hstep
  | serveOpen n server =>
    obtain ⟨x, -, hstep⟩ := Option.bind_eq_some_iff.mp hstep
    exact calls_serveOpen hstep
  | loaded n r =>
    obtain ⟨x, -, hstep⟩ := Option.bind_eq_some_iff.mp hstep
    unfold State.loaded at hstep
    split at hstep
    · split at hstep <;> (cases hstep; exact calls_same rfl rfl)
    · cases hstep
      exact calls_same rfl rfl
    · cases hstep
  | serveRead n =>
    obtain ⟨x, -, hstep⟩ := Option.bind_eq_some_iff.mp hstep
    rw [State.serveRead] at hstep
    split at hstep
    · split at hstep <;> (cases hstep; exact calls_same rfl rfl)
    · cases hstep
  | receive n =>
    obtain ⟨x, -, hstep⟩ := Option.bind_eq_some_iff.mp hstep
    rw [State.receive] at hstep
    split at hstep
    · split at hstep
      · cases hstep
        exact calls_same rfl rfl
      · split at hstep
        · cases hstep
        · cases hstep
          exact calls_same rfl rfl
    · cases hstep
  | idle n =>
    obtain ⟨x, -, hstep⟩ := Option.bind_eq_some_iff.mp hstep
    rw [State.idle] at hstep
    split at hstep
    · split at hstep
      · cases hstep
        exact calls_same rfl rfl
      · cases hstep
    · cases hstep
  | serveResize n =>
    obtain ⟨x, -, hstep⟩ := Option.bind_eq_some_iff.mp hstep
    rw [State.serveResize] at hstep
    split at hstep
    · cases hstep
      exact calls_same rfl rfl
    · cases hstep
  | serveWrite n =>
    obtain ⟨x, -, hstep⟩ := Option.bind_eq_some_iff.mp hstep
    rw [State.serveWrite] at hstep
    split at hstep
    · split at hstep
      · cases hstep
        exact calls_same rfl rfl
      · cases hstep
    · cases hstep
  | serveClose n =>
    obtain ⟨x, -, hstep⟩ := Option.bind_eq_some_iff.mp hstep
    rw [State.serveClose] at hstep
    split at hstep
    · cases hstep
      exact calls_same rfl rfl
    · cases hstep
  | closeServer n =>
    obtain ⟨x, -, rfl⟩ := Option.map_eq_some_iff.mp hstep
    exact calls_same rfl rfl
  | task n e =>
    obtain ⟨x, -, hstep⟩ := Option.bind_eq_some_iff.mp hstep
    obtain ⟨v, -, hstep⟩ := Option.bind_eq_some_iff.mp hstep
    obtain ⟨v', -, rfl⟩ := Option.map_eq_some_iff.mp hstep
    exact calls_same rfl rfl
  | serveDisconnect i =>
    obtain ⟨n, -, hstep⟩ := Option.bind_eq_some_iff.mp hstep
    obtain ⟨x, -, rfl⟩ := Option.map_eq_some_iff.mp hstep
    exact ⟨fun k hk => .inl (List.mem_of_mem_eraseIdx hk), fun call hcall => .inl hcall⟩
  | resized i =>
    obtain ⟨call, -, hstep⟩ := Option.bind_eq_some_iff.mp hstep
    rw [State.resized] at hstep
    split at hstep
    · cases hstep
    · have herase : ∀ c ∈ s.resizes.eraseIdx i, c ∈ s.resizes := fun c hc =>
        List.mem_of_mem_eraseIdx hc
      split at hstep
      · cases hstep
        exact ⟨fun k hk => .inl hk, fun c hc => .inl (herase c hc)⟩
      · cases hstep
        obtain ⟨hcloses, hresizes⟩ := calls_failed (e := .send [])
          { s with resizes := s.resizes.eraseIdx i } call.session
        refine ⟨hcloses, fun c hc => ?_⟩
        rcases hresizes c hc with hold | hsent | ⟨_, _, _, hevent, -⟩
        · exact .inl (herase c hold)
        · exact .inr (.inl hsent)
        · cases hevent
  | serveResized i =>
    obtain ⟨call, hcall, hstep⟩ := Option.bind_eq_some_iff.mp hstep
    obtain ⟨x, hx, hstep⟩ := Option.bind_eq_some_iff.mp hstep
    rw [State.serveResized] at hstep
    split at hstep
    · cases hstep
      refine ⟨fun k hk => .inl hk, fun c hc => ?_⟩
      obtain ⟨k, hk⟩ := List.mem_iff_getElem?.mp hc
      rcases getElem?_set_cases hk with ⟨-, rfl⟩ | ⟨-, hold⟩
      · exact .inr (.inr ⟨i, call, x, rfl, hcall, hx, rfl⟩)
      · exact .inl (List.mem_of_getElem? hold)
    · cases hstep

end Porthop.Terminal
