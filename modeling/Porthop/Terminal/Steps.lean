import Porthop.Terminal.Session

/- What a step can do to a session, and to the rest of the terminal. -/
namespace Porthop.Terminal

/-- `connect` has not come to its end. -/
def Stage.live : Stage → Bool
  | .closing _ | .returned => false
  | _ => true

/-- What a step does to the session `n`, and what it adds to the screen. -/
inductive Change (s : State) (e : Event) (t : State) (n : Nat) :
    Session → Session → List Shown → Prop where
  | drained {x : Session} {write : Nat} : x.stage = .draining write → write ≤ s.finished →
    s.session = some n → t.session = some n →
    Change s e t n x { x with stage := .loading } [.reset n]
  | loaded {x : Session} : x.stage = .loading → s.session = some n → t.session = some n →
    Change s e t n x { x with stage := .opening s.cols s.rows .sent } []
  | opened {x : Session} {cols rows : Nat} : x.stage = .opening cols rows .sent →
    t.session = s.session →
    Change s e t n x { x with
      stage := .opening cols rows (.answered (.ok ())), native := some .new } []
  | refused {x : Session} {cols rows : Nat} {error : String} :
    x.stage = .opening cols rows .sent → t.session = s.session →
    Change s e t n x { x with stage := .opening cols rows (.answered (.error error)) } []
  | looped {x : Session} : (∃ cols rows, x.stage = .opening cols rows (.answered (.ok ()))) ∨
      (∃ cols rows, x.stage = .resizing cols rows (.answered (.ok ()))) ∨
      x.stage = .reading (.answered (.ok none)) ∨ (∃ write, x.stage = .writing write) →
    s.session = some n → t.session = some n →
    Change s e t n x { x with stage := .reading .sent } []
  | left {x : Session} : x.stage.live = true → s.session ≠ some n → t.session = s.session →
    Change s e t n x { x with stage := .closing .sent } []
  | failed {x : Session} {error : String} :
    (∃ cols rows, x.stage = .opening cols rows (.answered (.error error))) ∨
      (∃ cols rows, x.stage = .resizing cols rows (.answered (.error error))) ∨
      x.stage = .reading (.answered (.error error)) ∨ x.stage = .loading →
    s.session = some n → t.session = none →
    Change s e t n x { x with stage := .closing .sent } []
  | ended {x : Session} : (∃ code, x.stage = .reading (.answered (.ok (some (.exit code))))) ∨
      (∃ text, x.stage = .reading (.answered (.ok (some (.error text))))) →
    s.session = some n → t.session = none →
    Change s e t n x { x with stage := .closing .sent } []
  | readied {x : Session} {cols rows : Nat} :
    x.stage = .reading (.answered (.ok (some .ready))) → s.session = some n → t.session = some n →
    Change s e t n x { x with ready := true, stage := .resizing cols rows .sent } []
  | shown {x : Session} {bytes : Bytes} :
    x.stage = .reading (.answered (.ok (some (.data bytes)))) → s.session = some n →
    t.session = some n →
    Change s e t n x { x with stage := .writing (s.started + 1) } [.write n bytes]
  | asked {x : Session} : x.stage = .reading .sent → x.native.any Native.listed = true →
    t.session = s.session → Change s e t n x { x with stage := .reading .receiving } []
  | absent {x : Session} : x.stage = .reading .sent → x.native.any Native.listed = false →
    t.session = s.session →
    Change s e t n x { x with stage := .reading (.answered (.error closed)) } []
  | received {x : Session} {v : Native} {o : Output} {output : List Output} :
    x.stage = .reading .receiving → x.native = some v → v.output = o :: output →
    t.session = s.session →
    Change s e t n x { x with
      stage := .reading (.answered (.ok (some o))), native := some { v with output := output } } []
  | stopped {x : Session} {v : Native} : x.stage = .reading .receiving → x.native = some v →
    v.output = [] → v.running = false → t.session = s.session →
    Change s e t n x { x with stage := .reading (.answered (.ok (some (.exit none)))) } []
  | idled {x : Session} : x.stage = .reading .receiving → t.session = s.session →
    Change s e t n x { x with stage := .reading (.answered (.ok none)) } []
  | resized {x : Session} {cols rows : Nat} : e = .serveResize n →
    x.stage = .resizing cols rows .sent → t.session = s.session →
    Change s e t n x { x with
      stage := .resizing cols rows (.answered (terminalResize x.native cols rows).1)
      native := (terminalResize x.native cols rows).2 } []
  | fitted {x : Session} {i : Nat} {call : Resize} : e = .serveResized i →
    s.resizes[i]? = some call → call.session = n → t.session = s.session →
    Change s e t n x { x with native := (terminalResize x.native call.cols call.rows).2 } []
  | closed {x : Session} : e = .serveClose n → x.stage = .closing .sent → t.session = s.session →
    Change s e t n x { x with
      stage := .closing (.answered (.ok ())), native := x.native.map Native.close } []
  | returned {x : Session} {r : Except String Unit} : x.stage = .closing (.answered r) →
    t.session = s.session → Change s e t n x { x with stage := .returned } []
  | removed {x : Session} :
    (∃ i, e = .serveDisconnect i ∧ s.closes[i]? = some n) ∨ e = .closeServer n →
    t.session = s.session →
    Change s e t n x { x with native := x.native.map Native.close } []
  | typed {x : Session} {bytes : Bytes} : x.ready = true → s.session = some n →
    t.session = some n → x.queued + bytes.length ≤ limit →
    Change s e t n x { x with
      queued := x.queued + bytes.length
      writes := x.writes ++ [⟨bytes.length, bytes, none⟩]
      typed := x.typed ++ bytes } []
  | chunk {x : Session} {w : Send} {writes : List Send} : x.writes = w :: writes → w.call = none →
    w.rest ≠ [] → s.session = some n → t.session = some n →
    Change s e t n x { x with writes :=
      ⟨w.length, w.rest.drop chunkSize, some (w.rest.take chunkSize, .sent)⟩ :: writes } []
  | sent {x : Session} {w : Send} {writes : List Send} : x.writes = w :: writes → w.call = none →
    w.rest = [] ∨ s.session ≠ some n → t.session = s.session → Change s e t n x x.settle []
  | acknowledged {x : Session} {w : Send} {writes : List Send} {bytes : Bytes} :
    x.writes = w :: writes → w.call = some (bytes, .answered (.ok ())) → t.session = s.session →
    Change s e t n x { x with writes := { w with call := none } :: writes } []
  | rejected {x : Session} {w : Send} {writes : List Send} {bytes : Bytes} {error : String} :
    x.writes = w :: writes → w.call = some (bytes, .answered (.error error)) →
    t.session ≠ some n →
    Change s e t n x x.settle []
  | wrote {x : Session} {w : Send} {writes : List Send} {bytes : Bytes} : e = .serveWrite n →
    x.writes = w :: writes → w.call = some (bytes, .sent) → t.session = s.session →
    Change s e t n x { x with
      writes := { w with call := some (bytes, .answered (terminalWrite x.native bytes).1) } :: writes
      native := (terminalWrite x.native bytes).2 } []
  | task {x : Session} {v v' : Native} {event : TaskEvent} : e = .task n event →
    x.native = some v → v.task event = some v' → t.session = s.session →
    Change s e t n x { x with native := some v' } []

/-- What ends the session of the view but its own calls. -/
inductive Ends (s : State) : Event → Prop where
  | disconnect : Ends s .disconnect
  | dispose : Ends s .dispose
  | overflow {bytes : Bytes} {n : Nat} {x : Session} : s.session = some n →
    s.sessions[n]? = some x → limit < x.queued + bytes.length → Ends s (.send bytes)
  | resized {i : Nat} {call : Resize} {error : String} : s.resizes[i]? = some call →
    call.call = .answered (.error error) → s.session = some call.session → Ends s (.resized i)

/-- What a step does to the terminal. -/
inductive Moved (s : State) (e : Event) (t : State) : Prop where
  | quiet : t.sessions = s.sessions → t.session = s.session ∨ t.session = none ∧ Ends s e →
    t.screen = s.screen → t.started = s.started → t.finished = s.finished ∨ t.finished = s.started →
    t.disposed = s.disposed ∨ t.session = none → Moved s e t
  | connected : s.session = none → t.sessions = s.sessions ++ [.new s.started] →
    t.session = some s.sessions.length → t.screen = s.screen → t.started = s.started →
    t.finished = s.finished → t.disposed = false → Moved s e t
  | changed (n : Nat) (x x' : Session) (log : List Shown) : s.sessions[n]? = some x →
    t.sessions = s.sessions.set n x' → Change s e t n x x' log →
    t.session = s.session ∨ t.session = none ∧ s.session = some n →
    t.screen = s.screen ++ log →
    t.started = s.started + (log.filter fun | .write _ _ => true | .reset _ => false).length →
    t.finished = s.finished → t.disposed = s.disposed → Moved s e t

variable {s t : State} {e : Event} {n : Nat} {x : Session}

/-! ## Parts of a step -/

/-- A failure that ends the session of the view, or none. -/
theorem failed_session (s : State) (n : Nat) : (s.failed n).session ≠ some n ∧
    ((s.failed n).session = s.session ∨ (s.failed n).session = none ∧ s.session = some n) := by
  rw [State.failed]
  split
  · next hsession =>
    have hnone : s.disconnect.session = none := by
      rw [State.disconnect, hsession]
    rw [hnone]
    exact ⟨nofun, .inr ⟨rfl, hsession⟩⟩
  · next hsession => exact ⟨hsession, .inl rfl⟩

theorem failed_rest (s : State) (n : Nat) : (s.failed n).sessions = s.sessions ∧
    (s.failed n).screen = s.screen ∧ (s.failed n).started = s.started ∧
      (s.failed n).finished = s.finished ∧ (s.failed n).disposed = s.disposed := by
  rw [State.failed]
  split
  · rw [State.disconnect]
    split
    · exact ⟨rfl, rfl, rfl, rfl, rfl⟩
    · exact ⟨rfl, rfl, rfl, rfl, rfl⟩
  · exact ⟨rfl, rfl, rfl, rfl, rfl⟩

theorem moved_failed (hends : s.session = some n → Ends s e) : Moved s e (s.failed n) := by
  obtain ⟨-, hsession⟩ := failed_session s n
  obtain ⟨hsessions, hscreen, hstarted, hfinished, hdisposed⟩ := failed_rest s n
  exact .quiet hsessions (hsession.imp_right fun h => ⟨h.1, hends h.2⟩) hscreen hstarted
    (.inl hfinished) (.inl hdisposed)

theorem moved_disconnect (s : State) : Moved s .disconnect s.disconnect := by
  rw [State.disconnect]
  split
  · exact .quiet rfl (.inl rfl) rfl rfl (.inl rfl) (.inl rfl)
  · exact .quiet rfl (.inr ⟨rfl, .disconnect⟩) rfl rfl (.inl rfl) (.inl rfl)

theorem moved_dispose (s : State) : Moved s .dispose s.dispose := by
  rw [State.dispose]
  split
  · exact .quiet rfl (.inl rfl) rfl rfl (.inl rfl) (.inl rfl)
  · cases hsession : s.session with
    | none =>
      simp only [State.disconnect, hsession]
      exact .quiet rfl (.inl hsession.symm) rfl rfl (.inr rfl) (.inr rfl)
    | some n =>
      simp only [State.disconnect, hsession]
      exact .quiet rfl (.inr ⟨rfl, .dispose⟩) rfl rfl (.inr rfl) (.inr rfl)

/-- A change of a session that leaves the session of the view and the screen. -/
theorem moved_put {x' : Session} (hx : s.sessions[n]? = some x)
    (hchange : Change s e (s.put n x') n x x' []) : Moved s e (s.put n x') :=
  .changed n x x' [] hx rfl hchange (.inl rfl) (List.append_nil _).symm rfl rfl rfl

theorem moved_finish (hx : s.sessions[n]? = some x) (hlive : x.stage.live = true)
    (hcurrent : s.session = some n → ∀ t : State, t.session = none →
      Change s e t n x { x with stage := .closing .sent } []) : Moved s e (s.finish n x) := by
  by_cases hsession : s.session = some n
  · have hnone : (s.finish n x).session = none := by
      show (if _ then _ else _) = none
      rw [if_pos hsession]
    exact .changed n x _ [] hx rfl (hcurrent hsession _ hnone) (.inr ⟨hnone, hsession⟩)
      (List.append_nil _).symm rfl rfl rfl
  · have hsame : (s.finish n x).session = s.session := by
      show (if _ then _ else _) = s.session
      rw [if_neg hsession]
    exact .changed n x _ [] hx rfl (.left hlive hsession hsame) (.inl hsame)
      (List.append_nil _).symm rfl rfl rfl

theorem moved_loop (hx : s.sessions[n]? = some x)
    (hstage : (∃ cols rows, x.stage = .opening cols rows (.answered (.ok ()))) ∨
      (∃ cols rows, x.stage = .resizing cols rows (.answered (.ok ()))) ∨
      x.stage = .reading (.answered (.ok none)) ∨ (∃ write, x.stage = .writing write)) :
    Moved s e (s.loop n x) := by
  rw [State.loop]
  split
  · next hsession => exact moved_put hx (.looped hstage hsession hsession)
  · next hsession =>
    have hlive : x.stage.live = true := by
      rcases hstage with ⟨_, _, h⟩ | ⟨_, _, h⟩ | h | ⟨_, h⟩ <;>
        (rw [h]; rfl)
    exact moved_finish hx hlive fun h => absurd h hsession

theorem moved_handle {o : Option Output} (hx : s.sessions[n]? = some x)
    (hstage : x.stage = .reading (.answered (.ok o))) (hsession : s.session = some n) :
    Moved s e (s.handle n x o) := by
  have hlive : x.stage.live = true := by
    rw [hstage]
    rfl
  cases o with
  | none => exact moved_loop hx (.inr (.inr (.inl hstage)))
  | some o =>
    cases o with
    | ready => exact moved_put hx (.readied hstage hsession hsession)
    | data bytes =>
      exact .changed n x _ [.write n bytes] hx rfl (.shown hstage hsession hsession) (.inl rfl) rfl
        rfl rfl rfl
    | exit code =>
      exact moved_finish hx hlive fun _ t ht =>
        .ended (.inl ⟨code, hstage⟩) hsession ht
    | error text =>
      exact moved_finish hx hlive fun _ t ht =>
        .ended (.inr ⟨text, hstage⟩) hsession ht

theorem moved_resume (hx : s.sessions[n]? = some x) (hstep : s.resume n x = some t) :
    Moved s e t := by
  rw [State.resume] at hstep
  split at hstep
  · next write hstage =>
    split at hstep
    · cases hstep
    · next hdone =>
      split at hstep
      · next hsession =>
        cases hstep
        exact moved_finish hx (by rw [hstage]; rfl) fun h => absurd h hsession
      · next hsession =>
        cases hstep
        have hcurrent := not_not.mp hsession
        exact .changed n x _ [.reset n] hx rfl (.drained hstage (by omega) hcurrent hcurrent)
          (.inl rfl) rfl rfl rfl rfl
  · next cols rows r hstage =>
    split at hstep
    · cases hstep
      exact moved_loop hx (.inl ⟨cols, rows, hstage⟩)
    · next e =>
      cases hstep
      exact moved_finish hx (by rw [hstage]; rfl) fun hsession t ht =>
          .failed (.inl ⟨cols, rows, hstage⟩) hsession ht
  · next cols rows r hstage =>
    split at hstep
    · cases hstep
      exact moved_loop hx (.inr (.inl ⟨cols, rows, hstage⟩))
    · next e =>
      cases hstep
      exact moved_finish hx (by rw [hstage]; rfl) fun hsession t ht =>
          .failed (.inr (.inl ⟨cols, rows, hstage⟩)) hsession ht
  · next r hstage =>
    split at hstep
    · next o =>
      split at hstep
      · next hsession =>
        cases hstep
        exact moved_handle hx hstage hsession
      · next hsession =>
        cases hstep
        exact moved_finish hx (by rw [hstage]; rfl) fun h => absurd h hsession
    · next e =>
      cases hstep
      exact moved_finish hx (by rw [hstage]; rfl) fun hsession t ht =>
          .failed (.inr (.inr (.inl hstage))) hsession ht
  · next write hstage =>
    split at hstep
    · cases hstep
    · cases hstep
      exact moved_loop hx (.inr (.inr (.inr ⟨write, hstage⟩)))
  · next hstage =>
    cases hstep
    exact moved_put hx (.returned hstage rfl)
  · cases hstep

theorem moved_loaded {r : Except String Unit} (hx : s.sessions[n]? = some x)
    (hstep : s.loaded n x r = some t) : Moved s e t := by
  unfold State.loaded at hstep
  split at hstep
  · next hstage =>
    split at hstep
    · next hsession =>
      cases hstep
      exact moved_put hx (.loaded hstage hsession hsession)
    · next hsession =>
      cases hstep
      exact moved_finish hx (by rw [hstage]; rfl) fun h => absurd h hsession
  · next error hstage =>
    cases hstep
    exact moved_finish hx (by rw [hstage]; rfl) fun hsession t ht =>
        @Change.failed s _ t n x error (.inr (.inr (.inr hstage))) hsession ht
  · cases hstep

theorem moved_send (s : State) (bytes : Bytes) : Moved s (.send bytes) (s.send bytes) := by
  have hstill : Moved s (.send bytes) s := .quiet rfl (.inl rfl) rfl rfl (.inl rfl) (.inl rfl)
  rw [State.send]
  split
  · exact hstill
  · next n hsession =>
    split
    · exact hstill
    · next x hx =>
      split
      · exact hstill
      · next hready =>
        split
        · next hfull => exact moved_failed fun _ => .overflow hsession hx hfull
        · next hroom =>
          rw [Bool.not_eq_true', Bool.not_eq_false] at hready
          exact moved_put hx (.typed hready hsession hsession (Nat.not_lt.mp hroom))

theorem moved_resize (s : State) (cols rows : Nat) : Moved s e (s.resize cols rows) := by
  cases hsession : s.session with
  | none =>
    simp only [State.resize, hsession]
    exact .quiet rfl (.inl hsession.symm) rfl rfl (.inl rfl) (.inl rfl)
  | some n =>
    simp only [State.resize, hsession]
    split
    · exact .quiet rfl (.inl hsession.symm) rfl rfl (.inl rfl) (.inl rfl)
    · exact .quiet rfl (.inl hsession.symm) rfl rfl (.inl rfl) (.inl rfl)

theorem moved_chain (hx : s.sessions[n]? = some x) (hstep : s.chain n x = some t) :
    Moved s e t := by
  rw [State.chain] at hstep
  split at hstep
  · cases hstep
  · next w writes hwrites =>
    split at hstep
    · next hcall =>
      split at hstep
      · next hend =>
        cases hstep
        exact moved_put hx (.sent hwrites hcall hend rfl)
      · next hmore =>
        cases hstep
        obtain ⟨hrest, hsession⟩ := not_or.mp hmore
        have hcurrent := not_not.mp hsession
        exact moved_put hx (.chunk hwrites hcall hrest hcurrent hcurrent)
    · cases hstep
    · next hcall =>
      cases hstep
      exact moved_put hx (.acknowledged hwrites hcall rfl)
    · next hcall =>
      cases hstep
      obtain ⟨hsession, hcases⟩ := failed_session s n
      obtain ⟨hsessions, hscreen, hstarted, hfinished, hdisposed⟩ := failed_rest s n
      refine .changed n x x.settle [] hx ?_ (.rejected hwrites hcall hsession) hcases ?_ hstarted
        hfinished hdisposed
      · show (s.failed n).sessions.set n x.settle = _
        rw [hsessions]
      · rw [List.append_nil]
        exact hscreen

theorem moved_serveOpen {server : Except String Unit} (hx : s.sessions[n]? = some x)
    (hstep : s.serveOpen n x server = some t) : Moved s e t := by
  rw [State.serveOpen] at hstep
  split at hstep
  · next cols rows hstage =>
    simp only at hstep
    split at hstep
    · cases hstep
      exact moved_put hx (.refused hstage rfl)
    · cases hstep
      exact moved_put hx (.refused hstage rfl)
    · split at hstep
      · cases hstep
        exact moved_put hx (.refused hstage rfl)
      · split at hstep
        · cases hstep
          exact moved_put hx (.refused hstage rfl)
        · cases hstep
          exact moved_put hx (.opened hstage rfl)
  · cases hstep

theorem moved_receive (hx : s.sessions[n]? = some x) (hstep : s.receive n x = some t) :
    Moved s e t := by
  rw [State.receive] at hstep
  split at hstep
  · next v hstage hnative =>
    split at hstep
    · next o output houtput =>
      cases hstep
      exact moved_put hx (.received hstage hnative houtput rfl)
    · next houtput =>
      split at hstep
      · cases hstep
      · next hrunning =>
        cases hstep
        exact moved_put hx (.stopped hstage hnative houtput (eq_false_of_ne_true hrunning) rfl)
  · cases hstep

/-! ## Every step -/

theorem moved_step {e : Event} (hstep : s.step e = some t) : Moved s e t := by
  cases e with
  | connect =>
    cases hstep
    rw [State.connect]
    split
    · exact .quiet rfl (.inl rfl) rfl rfl (.inl rfl) (.inl rfl)
    · next hfree =>
      have hnone : s.session = none := by
        rw [Bool.or_eq_true, not_or] at hfree
        simpa using hfree.2
      have hopen : s.disposed = false := by
        rw [Bool.or_eq_true, not_or] at hfree
        exact eq_false_of_ne_true hfree.1
      exact .connected hnone rfl rfl rfl rfl rfl hopen
  | disconnect =>
    cases hstep
    exact moved_disconnect s
  | dispose =>
    cases hstep
    exact moved_dispose s
  | send bytes =>
    cases hstep
    exact moved_send s bytes
  | resize cols rows =>
    cases hstep
    exact moved_resize s cols rows
  | resume n =>
    obtain ⟨x, hx, hstep⟩ := Option.bind_eq_some_iff.mp hstep
    exact moved_resume hx hstep
  | loaded n r =>
    obtain ⟨x, hx, hstep⟩ := Option.bind_eq_some_iff.mp hstep
    exact moved_loaded hx hstep
  | chain n =>
    obtain ⟨x, hx, hstep⟩ := Option.bind_eq_some_iff.mp hstep
    exact moved_chain hx hstep
  | parsed =>
    cases hstep
    exact .quiet rfl (.inl rfl) rfl rfl (.inr rfl) (.inl rfl)
  | resized i =>
    obtain ⟨call, hcall, hstep⟩ := Option.bind_eq_some_iff.mp hstep
    rw [State.resized] at hstep
    split at hstep
    · cases hstep
    · next r hfailed =>
      split at hstep
      · cases hstep
        exact .quiet rfl (.inl rfl) rfl rfl (.inl rfl) (.inl rfl)
      · cases hstep
        let s' := { s with resizes := s.resizes.eraseIdx i }
        obtain ⟨-, hsession⟩ := failed_session s' call.session
        obtain ⟨hsessions, hscreen, hstarted, hfinished, hdisposed⟩ := failed_rest s' call.session
        exact .quiet hsessions (hsession.imp_right fun h => ⟨h.1, .resized hcall hfailed h.2⟩)
          hscreen hstarted (.inl hfinished) (.inl hdisposed)
  | serveOpen n server =>
    obtain ⟨x, hx, hstep⟩ := Option.bind_eq_some_iff.mp hstep
    exact moved_serveOpen hx hstep
  | serveRead n =>
    obtain ⟨x, hx, hstep⟩ := Option.bind_eq_some_iff.mp hstep
    rw [State.serveRead] at hstep
    split at hstep
    · next hstage =>
      split at hstep
      · next hlisted =>
        cases hstep
        exact moved_put hx (.asked hstage hlisted rfl)
      · next hlisted =>
        cases hstep
        exact moved_put hx (.absent hstage (eq_false_of_ne_true hlisted) rfl)
    · cases hstep
  | receive n =>
    obtain ⟨x, hx, hstep⟩ := Option.bind_eq_some_iff.mp hstep
    exact moved_receive hx hstep
  | idle n =>
    obtain ⟨x, hx, hstep⟩ := Option.bind_eq_some_iff.mp hstep
    rw [State.idle] at hstep
    split at hstep
    · next v hstage hnative =>
      split at hstep
      · cases hstep
        exact moved_put hx (.idled hstage rfl)
      · cases hstep
    · cases hstep
  | serveResize n =>
    obtain ⟨x, hx, hstep⟩ := Option.bind_eq_some_iff.mp hstep
    rw [State.serveResize] at hstep
    split at hstep
    · next cols rows hstage =>
      cases hstep
      exact moved_put hx (.resized rfl hstage rfl)
    · cases hstep
  | serveWrite n =>
    obtain ⟨x, hx, hstep⟩ := Option.bind_eq_some_iff.mp hstep
    rw [State.serveWrite] at hstep
    split at hstep
    · next w writes hwrites =>
      split at hstep
      · next bytes hcall =>
        cases hstep
        exact moved_put hx (.wrote rfl hwrites hcall rfl)
      · cases hstep
    · cases hstep
  | serveClose n =>
    obtain ⟨x, hx, hstep⟩ := Option.bind_eq_some_iff.mp hstep
    rw [State.serveClose] at hstep
    split at hstep
    · next hstage =>
      cases hstep
      exact moved_put hx (.closed rfl hstage rfl)
    · cases hstep
  | serveDisconnect i =>
    obtain ⟨n, hcall, hstep⟩ := Option.bind_eq_some_iff.mp hstep
    obtain ⟨x, hx, rfl⟩ := Option.map_eq_some_iff.mp hstep
    exact .changed n x _ [] hx rfl (.removed (.inl ⟨i, rfl, hcall⟩) rfl) (.inl rfl)
      (List.append_nil _).symm rfl rfl rfl
  | serveResized i =>
    obtain ⟨call, hcall, hstep⟩ := Option.bind_eq_some_iff.mp hstep
    obtain ⟨x, hx, hstep⟩ := Option.bind_eq_some_iff.mp hstep
    rw [State.serveResized] at hstep
    split at hstep
    · cases hstep
      exact .changed call.session x _ [] hx rfl (.fitted rfl hcall rfl rfl) (.inl rfl)
        (List.append_nil _).symm rfl rfl rfl
    · cases hstep
  | closeServer n =>
    obtain ⟨x, hx, rfl⟩ := Option.map_eq_some_iff.mp hstep
    exact moved_put hx (.removed (.inr rfl) rfl)
  | task n e =>
    obtain ⟨x, hx, hstep⟩ := Option.bind_eq_some_iff.mp hstep
    obtain ⟨v, hnative, hstep⟩ := Option.bind_eq_some_iff.mp hstep
    obtain ⟨v', hv', rfl⟩ := Option.map_eq_some_iff.mp hstep
    exact moved_put hx (.task rfl hnative hv' rfl)
  | others count =>
    cases hstep
    exact .quiet rfl (.inl rfl) rfl rfl (.inl rfl) (.inl rfl)

end Porthop.Terminal
