import Porthop.Sharing.Settled

/- The steps of the desktop, and what every run gives: answers for their requests, clipboard
   requests in their order, and when a session ends for good. -/
namespace Porthop.Sharing
open Clipboard

section
variable {Z : Zlib} {s t : Sys}

/-! ## Steps of the desktop -/

/-- A session that is over has nothing left to keep. -/
theorem inv_finish {outcome : Outcome} (hanswers : ∀ x ∈ s.answers, x.1 = x.2)
    (hoff : s.clipboard = false → s.store.entries = [] ∧ s.store.offer.formats = [] ∧
      s.toDesktop.filterMap ToDesktop.asked = [] ∧ s.deferred = [] ∧
      ∀ f ∈ s.toAgent, f.needsClipboard = false)
    (hpages : s.broker.enabled = false → NoPages s) (hrefused : s.refused = false) :
    Inv (s.finish outcome) := by
  refine ⟨?_, ?_, hanswers, ?_, ?_, hrefused⟩
  · intro ho
    cases ho
  · intro ho
    cases ho
  · intro hclipboard
    obtain ⟨hentries, hformats, hdesktop, hdeferred, hagent⟩ := hoff hclipboard
    exact ⟨hentries, hformats, hdesktop, hdeferred, rfl, rfl, forall_append_singleton hagent rfl⟩
  · intro hb
    exact ⟨(hpages hb).toDesktop, forall_append_singleton (hpages hb).toAgent rfl⟩

/-- What the rest of the channel has when its first frame is taken. -/
theorem Inv.rest (h : Inv s) {f : ToDesktop} {rest : List ToDesktop} (hf : s.toDesktop = f :: rest) :
    (s.clipboard = false → rest.filterMap ToDesktop.asked = [] ∧ f.asked = none) ∧
      (s.broker.enabled = false → f.needsBrowser = false ∧ ∀ g ∈ rest, g.needsBrowser = false) := by
  refine ⟨?_, ?_⟩
  · intro hclipboard
    have hnil := (h.off hclipboard).toDesktop
    rw [hf, List.filterMap_cons] at hnil
    cases hasked : f.asked with
    | none =>
      rw [hasked] at hnil
      exact ⟨hnil, rfl⟩
    | some q =>
      rw [hasked] at hnil
      cases hnil
  · intro hb
    have hall := (h.noPages hb).toDesktop
    rw [hf] at hall
    exact ⟨hall f List.mem_cons_self, fun g hg => hall g (List.mem_cons_of_mem f hg)⟩

theorem inv_finish_rest (h : Inv s) {f : ToDesktop} {rest : List ToDesktop}
    (hf : s.toDesktop = f :: rest) (outcome : Outcome) :
    Inv ({ s with toDesktop := rest }.finish outcome) := by
  refine inv_finish h.answers ?_ ?_ h.refused
  · intro hclipboard
    have hoff := h.off hclipboard
    exact ⟨hoff.entries, hoff.formats, ((h.rest hf).1 hclipboard).1, hoff.deferred, hoff.toAgent⟩
  · intro hb
    exact ⟨((h.rest hf).2 hb).2, (h.noPages hb).toAgent⟩

/-- A page is asked for. -/
theorem inv_open (h : Inv s) {id : Nat} {url : String} {rest : List ToDesktop}
    (hf : s.toDesktop = .browse id url :: rest) (opened : Bool) :
    Inv ({ s with toDesktop := rest }.openPage id opened) := by
  refine ⟨?_, ?_, h.answers, ?_, ?_, h.refused⟩
  · intro ho
    have htoken := h.token ho
    rw [hf] at htoken
    simpa [Sys.openPage, List.filterMap_cons] using htoken
  · intro ho
    have horder := h.order ho
    rw [hf] at horder
    simpa [Sys.openPage, List.filterMap_cons] using horder
  · intro hclipboard
    have hoff := h.off hclipboard
    exact ⟨hoff.entries, hoff.formats, ((h.rest hf).1 hclipboard).1, hoff.deferred, hoff.reading,
      hoff.jobs, forall_append_singleton hoff.toAgent rfl⟩
  · intro hb
    cases ((h.rest hf).2 hb).1

/-- A clipboard request is handled in the loop. -/
theorem inv_take {q : Request} (hclipboard : s.clipboard = true)
    (htoken : s.outcome = none → s.toAgent.filterMap ToAgent.request ++
      s.toDesktop.filterMap ToDesktop.answered = s.waiting.toList)
    (horder : s.outcome = none → s.polled = s.handled ++ [q] ++ s.deferred ++
      s.toDesktop.filterMap ToDesktop.asked)
    (hanswers : ∀ x ∈ s.answers, x.1 = x.2) (hpages : s.broker.enabled = false → NoPages s)
    (hrefused : s.refused = false) : Inv (s.take q) := by
  have hon : ∀ {P : Prop}, s.clipboard = false → P := by
    intro P hfalse
    rw [hclipboard] at hfalse
    cases hfalse
  rw [Sys.take, if_pos hclipboard]
  split
  · refine ⟨?_, horder, hanswers, hon, ?_, hrefused⟩
    · intro ho
      simpa [List.filterMap_cons] using htoken ho
    · intro hb
      exact ⟨(hpages hb).toDesktop, forall_append_singleton (hpages hb).toAgent rfl⟩
  · exact ⟨htoken, horder, hanswers, hon,
      fun hb => ⟨(hpages hb).toDesktop, (hpages hb).toAgent⟩, hrefused⟩

theorem Inv.clipboard_of_deferred (h : Inv s) {q : Request} {rest : List Request}
    (hdeferred : s.deferred = q :: rest) : s.clipboard = true := by
  cases hclipboard : s.clipboard with
  | true => rfl
  | false =>
    have hnil := (h.off hclipboard).deferred
    rw [hdeferred] at hnil
    cases hnil

/-- The oldest deferred request is handled. -/
theorem inv_take_deferred (h : Inv s) {q : Request} {rest : List Request}
    (hdeferred : s.deferred = q :: rest) : Inv ({ s with deferred := rest }.take q) := by
  have hclipboard := h.clipboard_of_deferred hdeferred
  refine inv_take hclipboard h.token ?_ h.answers (fun hb => ⟨(h.noPages hb).toDesktop, (h.noPages hb).toAgent⟩)
    h.refused
  intro ho
  have horder := h.order ho
  rw [hdeferred] at horder
  simpa using horder

/-- A frame that comes while a request waits. -/
theorem inv_requestEvent (h : Inv s) (ho : s.outcome = none) {n : Nat} (hn : s.waiting = some n)
    {f : ToDesktop} {rest : List ToDesktop} (hf : s.toDesktop = f :: rest) (opened : Bool) :
    Inv ({ s with toDesktop := rest }.requestEvent n opened f) := by
  have htoken := h.token ho
  rw [hf, hn] at htoken
  have horder := h.order ho
  rw [hf] at horder
  cases f with
  | browse id url => exact inv_open h hf opened
  | error message => exact inv_finish_rest h hf _
  | answer m =>
    -- the answer is the only one on its way
    have hparts : s.toAgent.filterMap ToAgent.request = [] ∧ m = n ∧
        rest.filterMap ToDesktop.answered = [] := by
      match hagent : s.toAgent.filterMap ToAgent.request with
      | [] =>
        rw [hagent] at htoken
        exact ⟨rfl, (List.cons.inj htoken).1, (List.cons.inj htoken).2⟩
      | k :: ks =>
        rw [hagent] at htoken
        have hnil := (List.cons.inj htoken).2
        simp at hnil
    obtain ⟨hagent, rfl, hrest⟩ := hparts
    refine ⟨?_, ?_, ?_, ?_, ?_, h.refused⟩
    · intro _
      change s.toAgent.filterMap ToAgent.request ++ rest.filterMap ToDesktop.answered = []
      rw [hagent, hrest]
      rfl
    · intro _
      simpa [Sys.requestEvent, List.filterMap_cons] using horder
    · exact forall_append_singleton h.answers rfl
    · intro hclipboard
      have hoff := h.off hclipboard
      exact ⟨hoff.entries, hoff.formats, ((h.rest hf).1 hclipboard).1, hoff.deferred, hoff.reading,
        hoff.jobs, hoff.toAgent⟩
    · intro hb
      exact ⟨((h.rest hf).2 hb).2, (h.noPages hb).toAgent⟩
  | clip q =>
    rw [Sys.requestEvent]
    split
    · refine ⟨?_, ?_, h.answers, ?_, ?_, h.refused⟩
      · intro _
        change _ = s.waiting.toList
        rw [hn]
        simpa [List.filterMap_cons] using htoken
      · intro _
        simpa [List.filterMap_cons] using horder
      · intro hclipboard
        cases ((h.rest hf).1 hclipboard).2
      · intro hb
        exact ⟨((h.rest hf).2 hb).2, (h.noPages hb).toAgent⟩
    · exact inv_finish_rest h hf _

/-- A frame in the loop: no answer comes that nothing waits for. -/
theorem inv_loopEvent (h : Inv s) (ho : s.outcome = none) (hn : s.waiting = none)
    (hdeferred : s.deferred = []) {f : ToDesktop} {rest : List ToDesktop}
    (hf : s.toDesktop = f :: rest) (opened : Bool) :
    Inv ({ s with toDesktop := rest }.loopEvent opened f) ∧
      ({ s with toDesktop := rest }.loopEvent opened f).outcome ≠ some .unexpected := by
  have htoken := h.token ho
  rw [hf, hn] at htoken
  have horder := h.order ho
  rw [hf] at horder
  cases f with
  | browse id url =>
    refine ⟨inv_open h hf opened, ?_⟩
    change s.outcome ≠ _
    rw [ho]
    exact (Option.some_ne_none _).symm
  | error message =>
    refine ⟨inv_finish_rest h hf _, ?_⟩
    intro heq
    cases heq
  | answer m =>
    have hnil := (List.append_eq_nil_iff.mp htoken).2
    cases hnil
  | clip q =>
    have hclipboard : s.clipboard = true := by
      cases hclipboard : s.clipboard with
      | true => rfl
      | false => cases ((h.rest hf).1 hclipboard).2
    refine ⟨inv_take hclipboard ?_ ?_ h.answers
      (fun hb => ⟨((h.rest hf).2 hb).2, (h.noPages hb).toAgent⟩) h.refused, ?_⟩
    · intro _
      change _ = s.waiting.toList
      rw [hn]
      simpa [List.filterMap_cons] using htoken
    · intro _
      rw [hdeferred] at horder ⊢
      simpa [List.filterMap_cons] using horder
    · rw [Sys.loopEvent, Sys.take, if_pos hclipboard]
      split
      · change s.outcome ≠ _
        rw [ho]
        exact (Option.some_ne_none _).symm
      · change s.outcome ≠ _
        rw [ho]
        exact (Option.some_ne_none _).symm

/-- A request is made when none waits. -/
theorem inv_ask (h : Inv s) (ho : s.outcome = none) (hn : s.waiting = none) {f : ToAgent}
    (hrequest : f.request = some (s.requests + 1))
    (hneeds : s.clipboard = false → f.needsClipboard = false) (hpages : f.needsBrowser = false) :
    Inv (s.ask f) := by
  have htoken := h.token ho
  rw [hn] at htoken
  obtain ⟨hagent, hdesktop⟩ := List.append_eq_nil_iff.mp htoken
  refine ⟨?_, h.order, h.answers, ?_, ?_, h.refused⟩
  · intro _
    change (s.toAgent ++ [f]).filterMap ToAgent.request ++ s.toDesktop.filterMap ToDesktop.answered =
      [s.requests + 1]
    rw [List.filterMap_append, hagent, hdesktop, List.filterMap_cons, hrequest]
    rfl
  · intro hclipboard
    have hoff := h.off hclipboard
    exact ⟨hoff.entries, hoff.formats, hoff.toDesktop, hoff.deferred, hoff.reading, hoff.jobs,
      forall_append_singleton hoff.toAgent (hneeds hclipboard)⟩
  · intro hb
    exact ⟨(h.noPages hb).toDesktop, forall_append_singleton (h.noPages hb).toAgent hpages⟩

/-- The desktop's own work leaves the channels' requests and answers alone. -/
theorem inv_work (h : Inv s) (hclipboard : s.clipboard = true) (reading : List Request)
    (jobs : List Job) (frames : List ToAgent)
    (hframes : ∀ f ∈ frames, f.request = none ∧ f.needsBrowser = false) :
    Inv { s with reading := reading, jobs := jobs, toAgent := s.toAgent ++ frames } := by
  refine ⟨?_, h.order, h.answers, ?_, ?_, h.refused⟩
  · intro ho
    have hnil : frames.filterMap ToAgent.request = [] :=
      List.filterMap_eq_nil_iff.mpr fun f hf => (hframes f hf).1
    change (s.toAgent ++ frames).filterMap ToAgent.request ++ _ = _
    rw [List.filterMap_append, hnil, List.append_nil]
    exact h.token ho
  · intro hfalse
    rw [hclipboard] at hfalse
    cases hfalse
  · intro hb
    refine ⟨(h.noPages hb).toDesktop, ?_⟩
    intro f hf
    rcases List.mem_append.mp hf with hf | hf
    · exact (h.noPages hb).toAgent f hf
    · exact (hframes f hf).2

theorem Inv.clipboard_of (h : Inv s) (hne : s.reading ≠ [] ∨ s.jobs ≠ []) : s.clipboard = true := by
  cases hclipboard : s.clipboard with
  | true => rfl
  | false =>
    rcases hne with hne | hne
    · exact absurd (h.off hclipboard).reading hne
    · exact absurd (h.off hclipboard).jobs hne

/-- A step of the desktop keeps the invariant, and ends the session for good exactly when a
    request was one too many. -/
theorem inv_desktopStep (h : Inv s) (ho : s.outcome = none) {e : Event}
    (hstep : s.desktopStep Z e = some t) :
    Inv t ∧ (t.outcome = some .unexpected ↔ roomy s e = false) := by
  have hquiet : ∀ {o : Option Outcome}, o = none → ¬ o = some .unexpected := by
    intro o hnone hsome
    rw [hnone] at hsome
    cases hsome
  cases e with
  | event opened =>
    simp only [Sys.desktopStep] at hstep
    split at hstep
    · next n hn =>
      split at hstep
      · next f rest hf =>
        obtain rfl := Option.some.inj hstep
        refine ⟨inv_requestEvent h ho hn hf opened, ?_⟩
        unfold roomy
        rw [hn, hf, ho]
        cases f with
        | browse id url => simp [Sys.requestEvent, Sys.openPage]
        | answer m => simp [Sys.requestEvent]
        | error message => simp [Sys.requestEvent, Sys.finish]
        | clip q =>
          by_cases hroom : s.deferred.length < maxDeferred
          · simp [Sys.requestEvent, hroom]
          · simp [Sys.requestEvent, hroom, Sys.finish, Nat.not_lt.mp hroom]
      · cases hstep
    · next hn =>
      have hroomy : roomy s (.event opened) = true := by
        unfold roomy
        rw [hn]
        rfl
      rw [hroomy]
      split at hstep
      · next q rest hdeferred =>
        obtain rfl := Option.some.inj hstep
        refine ⟨inv_take_deferred h hdeferred, ?_⟩
        rw [Sys.take, if_pos (h.clipboard_of_deferred hdeferred)]
        split
        · simp [ho]
        · simp [ho]
      · next hdeferred =>
        split at hstep
        · next f rest hf =>
          obtain rfl := Option.some.inj hstep
          obtain ⟨hinv, hne⟩ := inv_loopEvent h ho hn hdeferred hf opened
          exact ⟨hinv, by simp [hne]⟩
        · cases hstep
  | offer offer =>
    simp only [Sys.desktopStep] at hstep
    split at hstep
    · next hcond =>
      obtain rfl := Option.some.inj hstep
      refine ⟨inv_ask h ho hcond.1 rfl (fun hfalse => ?_) rfl, ?_⟩
      · rw [hcond.2.1] at hfalse
        cases hfalse
      · exact ⟨fun hsome => absurd hsome (hquiet ho), fun hfalse => Bool.noConfusion hfalse⟩
    · cases hstep
  | heartbeat =>
    simp only [Sys.desktopStep] at hstep
    split at hstep
    · next hn =>
      obtain rfl := Option.some.inj hstep
      exact ⟨inv_ask h ho hn rfl (fun _ => rfl) rfl,
        fun hsome => absurd hsome (hquiet ho), fun hfalse => Bool.noConfusion hfalse⟩
    · cases hstep
  | read i platform content =>
    simp only [Sys.desktopStep] at hstep
    split at hstep
    · next q hn hq =>
      obtain rfl := Option.some.inj hstep
      have hne : s.reading ≠ [] := by
        intro hnil
        rw [hnil] at hq
        cases hq
      have hwork := inv_work h (h.clipboard_of (Or.inl hne)) (s.reading.eraseIdx i)
        (s.jobs ++ [readRequested Z platform content q]) [] (by simp)
      rw [List.append_nil] at hwork
      exact ⟨hwork, fun hsome => absurd hsome (hquiet ho), fun hfalse => Bool.noConfusion hfalse⟩
    · cases hstep
  | turn current =>
    simp only [Sys.desktopStep] at hstep
    split at hstep
    · next j jobs hn hjobs =>
      obtain rfl := Option.some.inj hstep
      have hne : s.jobs ≠ [] := by
        rw [hjobs]
        exact List.cons_ne_nil j jobs
      refine ⟨inv_work h (h.clipboard_of (Or.inr hne)) s.reading _ _ ?_,
        fun hsome => absurd hsome (hquiet ho), fun hfalse => Bool.noConfusion hfalse⟩
      intro f hf
      rw [List.mem_singleton.mp hf]
      exact ⟨rfl, rfl⟩
    · cases hstep
  | stop =>
    obtain rfl := Option.some.inj hstep
    refine ⟨inv_finish h.answers ?_ h.noPages h.refused, ?_⟩
    · intro hclipboard
      have hoff := h.off hclipboard
      exact ⟨hoff.entries, hoff.formats, hoff.toDesktop, hoff.deferred, hoff.toAgent⟩
    · exact ⟨fun hsome => (by cases hsome), fun hfalse => Bool.noConfusion hfalse⟩
  | _ => cases hstep

/-- The agent's steps and the programs' reads do not end the session of the desktop. -/
theorem agentStep_outcome {e : Event} (hstep : s.agentStep Z e = some t) : t.outcome = s.outcome := by
  cases e with
  | frame taken now =>
    simp only [Sys.agentStep] at hstep
    split at hstep
    · split at hstep
      · split at hstep
        · next f rest hf =>
          obtain rfl := Option.some.inj hstep
          cases f with
          | offer offer n => rw [Sys.handle]; split <;> rfl
          | heartbeat n => rfl
          | browser id success => rw [Sys.handle]; split <;> rfl
          | reply r => rw [Sys.handle]; split <;> rfl
          | quit => rfl
        · cases hstep
      · obtain rfl := Option.some.inj hstep
        rfl
    · cases hstep
  | poll now =>
    simp only [Sys.agentStep] at hstep
    split at hstep
    · obtain rfl := Option.some.inj hstep
      rfl
    · cases hstep
  | browse request now =>
    simp only [Sys.agentStep] at hstep
    split at hstep
    · obtain rfl := Option.some.inj hstep
      rfl
    · cases hstep
  | agentFails message =>
    obtain rfl := Option.some.inj hstep
    rfl
  | _ => cases hstep

/-- Every step keeps the invariant, and ends the session for good exactly when a request was
    one too many. -/
theorem inv_step (h : Inv s) {e : Event} (hstep : step Z s e = some t) :
    Inv t ∧ (t.outcome = some .unexpected ↔ s.outcome = some .unexpected ∨ roomy s e = false) := by
  have hagent : ∀ {e : Event}, e.ofAgent = true → s.agentStep Z e = some t → Inv t ∧
      (t.outcome = some .unexpected ↔ s.outcome = some .unexpected ∨ roomy s e = false) := by
    intro e he hagent
    have hroomy : roomy s e = true := by
      cases e <;> first | rfl | cases he
    refine ⟨inv_agentStep h hagent, ?_⟩
    rw [agentStep_outcome hagent, hroomy]
    simp
  have hdesktop : ∀ {e : Event}, s.outcome.isSome = false → s.desktopStep Z e = some t → Inv t ∧
      (t.outcome = some .unexpected ↔ s.outcome = some .unexpected ∨ roomy s e = false) := by
    intro e ho hdesktop
    have hnone : s.outcome = none := Option.isNone_iff_eq_none.mp (by simpa using ho)
    obtain ⟨hinv, hiff⟩ := inv_desktopStep h hnone hdesktop
    refine ⟨hinv, ?_⟩
    rw [hiff, hnone]
    simp
  cases e with
  | get revision format now expired =>
    obtain rfl := Option.some.inj hstep
    refine ⟨inv_get h revision format now expired, ?_⟩
    change s.outcome = _ ↔ s.outcome = _ ∨ true = false
    simp
  | frame taken now =>
    simp only [step, Event.ofAgent, if_true] at hstep
    split at hstep
    · cases hstep
    · exact hagent rfl hstep
  | poll now =>
    simp only [step, Event.ofAgent, if_true] at hstep
    split at hstep
    · cases hstep
    · exact hagent rfl hstep
  | browse request now =>
    simp only [step, Event.ofAgent, if_true] at hstep
    split at hstep
    · cases hstep
    · exact hagent rfl hstep
  | agentFails message =>
    simp only [step, Event.ofAgent, if_true] at hstep
    split at hstep
    · cases hstep
    · exact hagent rfl hstep
  | event opened | offer offer | heartbeat | read i platform content | turn current | stop =>
    simp only [step, Event.ofAgent, Bool.false_eq_true, if_false] at hstep
    split at hstep
    · cases hstep
    · next ho => exact hdesktop (by simpa using ho) hstep

/-- A run ends for good exactly when one of its steps met a request too many. -/
theorem unexpected_run {es : List Event} (h : Inv s) (ho : s.outcome ≠ some .unexpected)
    (hrun : Run.exec (step Z) es s = some t) :
    t.outcome ≠ some .unexpected ↔ Run.Along (step Z) (fun s e => roomy s e = true) es s := by
  have hstays : ∀ {es : List Event} {s : Sys}, Inv s → s.outcome = some .unexpected →
      Run.exec (step Z) es s = some t → t.outcome = some .unexpected := by
    intro es
    induction es with
    | nil =>
      intro s _ hs hrun
      obtain rfl := Option.some.inj hrun
      exact hs
    | cons e es ih =>
      intro s h hs hrun
      obtain ⟨u, hu, hrun⟩ := Run.exec_cons.mp hrun
      obtain ⟨hinv, hiff⟩ := inv_step h hu
      exact ih hinv (hiff.mpr (Or.inl hs)) hrun
  induction es generalizing s with
  | nil =>
    obtain rfl := Option.some.inj hrun
    exact ⟨fun _ => trivial, fun _ => ho⟩
  | cons e es ih =>
    obtain ⟨u, hu, hrun⟩ := Run.exec_cons.mp hrun
    obtain ⟨hinv, hiff⟩ := inv_step h hu
    constructor
    · intro ht
      have hroomy : roomy s e = true := by
        apply eq_true_of_ne_false
        intro hfalse
        exact ht (hstays hinv (hiff.mpr (Or.inr hfalse)) hrun)
      have hu' : u.outcome ≠ some .unexpected := by
        intro hsome
        exact ht (hstays hinv hsome hrun)
      refine ⟨hroomy, ?_⟩
      intro v hv
      obtain rfl := Option.some.inj (hu.symm.trans hv)
      exact (ih hinv hu' hrun).mp ht
    · intro halong
      have hu' : u.outcome ≠ some .unexpected := by
        intro hsome
        rcases hiff.mp hsome with hs | hfalse
        · exact ho hs
        · rw [halong.1] at hfalse
          cases hfalse
      exact (ih hinv hu' hrun).mpr (halong.2 u hu)

end

/-- **A session.** In every interleaving of a session: each answer is that of the request which
    waits for it; the clipboard requests of the agent are handled in the order they were sent,
    the deferred ones first, one at each event of the loop; no frame is refused by the agent; and
    the session ends with an unexpected event exactly when a clipboard request comes while a
    request waits and eight are deferred. -/
theorem session_ends (Z : Zlib) (clipboard browser : Bool) {es : List Event} {s : Sys}
    (hrun : Run.exec (step Z) es (.start clipboard browser) = some s) :
    (∀ x ∈ s.answers, x.1 = x.2) ∧
    (s.outcome = none → s.polled = s.handled ++ s.deferred ++ s.toDesktop.filterMap ToDesktop.asked) ∧
    (s.outcome = none → s.waiting = none → ∀ q rest, s.deferred = q :: rest → ∀ opened,
      ∃ t, step Z s (.event opened) = some t ∧ t.handled = s.handled ++ [q] ∧ t.deferred = rest) ∧
    s.refused = false ∧
    (s.outcome ≠ some .unexpected ↔
      Run.Along (step Z) (fun s e => roomy s e = true) es (.start clipboard browser)) := by
  have hinv : Inv s := Run.exec_invariant (fun _ _ _ h hstep => (inv_step h hstep).1)
    (inv_start clipboard browser) hrun
  refine ⟨hinv.answers, hinv.order, ?_, hinv.refused, ?_⟩
  · intro ho hn q rest hdeferred opened
    have hclipboard := hinv.clipboard_of_deferred hdeferred
    refine ⟨{ s with deferred := rest }.take q, ?_, ?_, ?_⟩
    · simp [step, Event.ofAgent, Sys.desktopStep, ho, hn, hdeferred]
    · rw [Sys.take, if_pos hclipboard]
      split <;> rfl
    · rw [Sys.take, if_pos hclipboard]
      split <;> rfl
  · exact unexpected_run (inv_start clipboard browser) (by simp [Sys.start]) hrun

/-! ## A slow answer -/

/-- A compressor that leaves everything as it is. -/
def noCompression : Zlib := ⟨id, fun bytes => some (bytes.length, bytes)⟩

def nineFormats : List String := ["f1", "f2", "f3", "f4", "f5", "f6", "f7", "f8", "f9"]

def agentTurn (taken : Bool) (now : Nat) : List Event :=
  [.frame taken now, .poll now, .browse none now]

/-- Nine formats are offered, and eight of them asked for while a heartbeat is on its way. -/
def eightDeferred : List Event :=
  [.offer ⟨1, nineFormats⟩] ++ agentTurn true 0 ++ [.event false] ++
    (nineFormats.take 8).map (fun format => .get 1 format 0 false) ++ [.heartbeat] ++
    agentTurn false 0 ++ List.replicate 8 (.event false)

/-- The heartbeat takes longer than the requests live, and the ninth format is asked for. -/
def slowHeartbeat : List Event :=
  eightDeferred ++ agentTurn false 15000 ++ [.get 1 "f9" 15000 false] ++ agentTurn false 15000 ++
    [.event false]

set_option maxRecDepth 10000 in
/-- Only eight requests were ever unanswered, and the session ends for good. -/
theorem slowHeartbeat_ends : ∃ s,
    Run.exec (step noCompression) slowHeartbeat (.start true true) = some s ∧
      s.outcome = some .unexpected := by
  have hsome : ((Run.exec (step noCompression) slowHeartbeat (.start true true)).any fun s =>
      s.outcome = some .unexpected) = true := by decide
  obtain ⟨s, hrun, hs⟩ := (Option.any_eq_true _ _).mp hsome
  exact ⟨s, hrun, of_decide_eq_true hs⟩

set_option maxRecDepth 10000 in
theorem eightDeferred_goes_on : ∃ s,
    Run.exec (step noCompression) eightDeferred (.start true true) = some s ∧
      s.outcome ≠ some .unexpected := by
  have hsome : (Run.exec (step noCompression) eightDeferred (.start true true)).isSome = true := by
    decide
  have hroomy : Run.along (step noCompression) roomy eightDeferred (.start true true) = true := by
    decide
  obtain ⟨s, hrun⟩ := Option.isSome_iff_exists.mp hsome
  exact ⟨s, hrun, (session_ends noCompression true true hrun).2.2.2.2.mpr (Run.along_of_decide hroomy)⟩

end Porthop.Sharing
