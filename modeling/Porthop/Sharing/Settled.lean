import Porthop.Sharing.Model

/- What holds of a session at any time: the one request that waits is in one of the channels,
   the clipboard requests keep their order, and a side that was not asked for is silent. -/
namespace Porthop.Sharing
open Clipboard

@[simp] def ToAgent.needsClipboard : ToAgent → Bool
  | .offer _ _ | .reply _ => true
  | _ => false

@[simp] def ToAgent.needsBrowser : ToAgent → Bool
  | .browser _ _ => true
  | _ => false

@[simp] def ToDesktop.needsBrowser : ToDesktop → Bool
  | .browse _ _ => true
  | _ => false

/-- Without the clipboard nothing of it is anywhere. -/
structure Off (s : Sys) : Prop where
  entries : s.store.entries = []
  formats : s.store.offer.formats = []
  toDesktop : s.toDesktop.filterMap ToDesktop.asked = []
  deferred : s.deferred = []
  reading : s.reading = []
  jobs : s.jobs = []
  toAgent : ∀ f ∈ s.toAgent, f.needsClipboard = false

/-- Without the browser no page is asked for. -/
structure NoPages (s : Sys) : Prop where
  toDesktop : ∀ f ∈ s.toDesktop, f.needsBrowser = false
  toAgent : ∀ f ∈ s.toAgent, f.needsBrowser = false

structure Inv (s : Sys) : Prop where
  /-- The request that waits, or its answer, is on its way, and no other one is. -/
  token : s.outcome = none → s.toAgent.filterMap ToAgent.request ++
    s.toDesktop.filterMap ToDesktop.answered = s.waiting.toList
  order : s.outcome = none →
    s.polled = s.handled ++ s.deferred ++ s.toDesktop.filterMap ToDesktop.asked
  answers : ∀ x ∈ s.answers, x.1 = x.2
  off : s.clipboard = false → Off s
  noPages : s.broker.enabled = false → NoPages s
  refused : s.refused = false

theorem inv_start (clipboard browser : Bool) : Inv (.start clipboard browser) := by
  refine ⟨fun _ => rfl, fun _ => rfl, ?_, ?_, ?_, rfl⟩
  · intro x hx
    cases hx
  · intro _
    refine ⟨rfl, rfl, rfl, rfl, rfl, rfl, ?_⟩
    intro f hf
    cases hf
  · intro _
    refine ⟨?_, ?_⟩
    · intro f hf
      cases hf
    · intro f hf
      cases hf

/-! ## Channels -/

/-- A list of at most one. -/
theorem rotate_token {n : Nat} {xs ys : List Nat} {o : Option Nat}
    (h : n :: (xs ++ ys) = o.toList) : xs ++ (ys ++ [n]) = o.toList := by
  have hnil : xs ++ ys = [] := by
    cases o with
    | none => cases h
    | some m => exact (List.cons.inj h).2
  obtain ⟨hxs, hys⟩ := List.append_eq_nil_iff.mp hnil
  rw [← h, hxs, hys]
  rfl

theorem forall_append_singleton {α : Type} {P : α → Prop} {xs : List α} {x : α}
    (hxs : ∀ y ∈ xs, P y) (hx : P x) : ∀ y ∈ xs ++ [x], P y := by
  intro y hy
  rcases List.mem_append.mp hy with hy | hy
  · exact hxs y hy
  · rw [List.mem_singleton.mp hy]
    exact hx

section
variable {Z : Zlib} {s t : Sys}

theorem asked_map_clip (qs : List Request) :
    (qs.map ToDesktop.clip).filterMap ToDesktop.asked = qs := by
  rw [List.filterMap_map]
  exact List.filterMap_some

theorem answered_map_clip (qs : List Request) :
    (qs.map ToDesktop.clip).filterMap ToDesktop.answered = [] := by
  rw [List.filterMap_map]
  exact List.filterMap_eq_nil_iff.mpr fun _ _ => rfl

/-! ## Steps of the agent -/

/-- A program that reads the clipboard changes the store alone. -/
theorem inv_get (h : Inv s) (revision : Int) (format : String) (now : Nat) (expired : Bool) :
    Inv { s with store := (s.store.get revision format now expired).1 } := by
  refine ⟨h.token, h.order, h.answers, ?_, fun hb => ⟨(h.noPages hb).toDesktop, (h.noPages hb).toAgent⟩,
    h.refused⟩
  intro hclipboard
  obtain ⟨hentries, hformats, hdesktop, hdeferred, hreading, hjobs, hagent⟩ := h.off hclipboard
  have hget : (s.store.get revision format now expired).1 = s.store := by
    rw [Store.get, if_pos (by simp [hformats])]
  refine ⟨?_, ?_, hdesktop, hdeferred, hreading, hjobs, hagent⟩
  · change (s.store.get revision format now expired).1.entries = []
    rw [hget]
    exact hentries
  · change (s.store.get revision format now expired).1.offer.formats = []
    rw [hget]
    exact hformats

/-- The agent reports an error. -/
theorem inv_agentError (h : Inv s) (message : String) : Inv (s.agentError message) := by
  refine ⟨?_, ?_, h.answers, ?_, ?_, h.refused⟩
  · intro ho
    simpa [Sys.agentError, List.filterMap_cons] using h.token ho
  · intro ho
    simpa [Sys.agentError, List.filterMap_cons] using h.order ho
  · intro hclipboard
    have hoff := h.off hclipboard
    exact { hoff with toDesktop := by simpa [Sys.agentError, List.filterMap_cons] using hoff.toDesktop }
  · intro hb
    exact ⟨forall_append_singleton (h.noPages hb).toDesktop rfl, (h.noPages hb).toAgent⟩

/-- What the agent takes from its channel. -/
theorem Inv.taken (h : Inv s) {f : ToAgent} {rest : List ToAgent} (hf : s.toAgent = f :: rest) :
    (s.outcome = none → f.request.toList ++ (rest.filterMap ToAgent.request ++
        s.toDesktop.filterMap ToDesktop.answered) = s.waiting.toList) ∧
      (s.clipboard = false → f.needsClipboard = false) ∧
      (s.broker.enabled = false → f.needsBrowser = false) := by
  refine ⟨?_, ?_, ?_⟩
  · intro ho
    rw [← h.token ho, hf, List.filterMap_cons]
    cases f.request <;> rfl
  · intro hclipboard
    exact (h.off hclipboard).toAgent f (by rw [hf]; exact List.mem_cons_self)
  · intro hb
    exact (h.noPages hb).toAgent f (by rw [hf]; exact List.mem_cons_self)

/-- A frame that asks for no answer is taken. -/
theorem inv_taken (h : Inv s) {f : ToAgent} {rest : List ToAgent} (hf : s.toAgent = f :: rest)
    (hrequest : f.request = none) : Inv { s with toAgent := rest } := by
  have htail : ∀ {P : ToAgent → Prop}, (∀ g ∈ s.toAgent, P g) → ∀ g ∈ rest, P g := by
    intro P hall g hg
    exact hall g (by rw [hf]; exact List.mem_cons_of_mem f hg)
  refine ⟨?_, h.order, h.answers, ?_, ?_, h.refused⟩
  · intro ho
    have htoken := (h.taken hf).1 ho
    rw [hrequest] at htoken
    exact htoken
  · intro hclipboard
    have hoff := h.off hclipboard
    exact { hoff with toAgent := htail hoff.toAgent }
  · intro hb
    exact ⟨(h.noPages hb).toDesktop, htail (h.noPages hb).toAgent⟩

/-- A frame that asks for an answer is taken and answered. -/
theorem inv_answered (h : Inv s) {f : ToAgent} {rest : List ToAgent} (hf : s.toAgent = f :: rest)
    {n : Nat} (hrequest : f.request = some n) :
    Inv { s with toAgent := rest, toDesktop := s.toDesktop ++ [.answer n] } := by
  have htail : ∀ {P : ToAgent → Prop}, (∀ g ∈ s.toAgent, P g) → ∀ g ∈ rest, P g := by
    intro P hall g hg
    exact hall g (by rw [hf]; exact List.mem_cons_of_mem f hg)
  refine ⟨?_, ?_, h.answers, ?_, ?_, h.refused⟩
  · intro ho
    have htoken := (h.taken hf).1 ho
    rw [hrequest] at htoken
    simpa [List.filterMap_cons] using rotate_token htoken
  · intro ho
    simpa [List.filterMap_cons] using h.order ho
  · intro hclipboard
    have hoff := h.off hclipboard
    exact { hoff with
      toAgent := htail hoff.toAgent
      toDesktop := by simpa [List.filterMap_cons] using hoff.toDesktop }
  · intro hb
    exact ⟨forall_append_singleton (h.noPages hb).toDesktop rfl, htail (h.noPages hb).toAgent⟩

/-- Changes of the store that keep an empty one empty, and of the broker. -/
theorem inv_local (h : Inv s) (store : Store) (broker : Broker) (turn : Turn) (ended : Bool)
    (hstore : s.clipboard = false → store.entries = [] ∧ store.offer.formats = [])
    (hbroker : broker.enabled = s.broker.enabled) :
    Inv { s with store := store, broker := broker, turn := turn, agentEnded := ended } := by
  refine ⟨h.token, h.order, h.answers, ?_, ?_, h.refused⟩
  · intro hclipboard
    obtain ⟨-, -, hdesktop, hdeferred, hreading, hjobs, hagent⟩ := h.off hclipboard
    exact ⟨(hstore hclipboard).1, (hstore hclipboard).2, hdesktop, hdeferred, hreading, hjobs, hagent⟩
  · intro hb
    have hnone := h.noPages (hbroker.symm.trans hb)
    exact ⟨hnone.toDesktop, hnone.toAgent⟩

theorem Inv.same_store (h : Inv s) (hclipboard : s.clipboard = false) :
    s.store.entries = [] ∧ s.store.offer.formats = [] :=
  ⟨(h.off hclipboard).entries, (h.off hclipboard).formats⟩

/-- The agent handles what it takes. -/
theorem inv_handle (h : Inv s) {f : ToAgent} {rest : List ToAgent} (hf : s.toAgent = f :: rest)
    (now : Nat) : Inv ({ s with toAgent := rest }.handle Z now f) := by
  obtain ⟨-, hneeds, hpages⟩ := h.taken hf
  cases f with
  | offer offer n =>
    have hanswered := inv_answered h hf rfl
    by_cases hclipboard : s.clipboard = true
    · rw [Sys.handle, if_pos hclipboard]
      exact inv_local hanswered _ s.broker s.turn s.agentEnded
        (fun hfalse => absurd (hclipboard.symm.trans hfalse) (by simp)) rfl
    · cases hneeds (eq_false_of_ne_true hclipboard)
  | heartbeat n => exact inv_answered h hf rfl
  | browser id success =>
    have htaken := inv_taken h hf rfl
    by_cases hb : s.broker.enabled = true
    · rw [Sys.handle, if_pos hb]
      exact inv_local htaken s.store _ s.turn s.agentEnded
        (fun hclipboard => h.same_store hclipboard) rfl
    · cases hpages (eq_false_of_ne_true hb)
  | reply r =>
    have htaken := inv_taken h hf rfl
    by_cases hclipboard : s.clipboard = true
    · rw [Sys.handle, if_pos hclipboard]
      exact inv_local htaken _ s.broker s.turn s.agentEnded
        (fun hfalse => absurd (hclipboard.symm.trans hfalse) (by simp)) rfl
    · cases hneeds (eq_false_of_ne_true hclipboard)
  | quit =>
    exact inv_local (inv_taken h hf rfl) _ s.broker s.turn _
      (fun hclipboard => h.same_store hclipboard) rfl

theorem inv_poll (h : Inv s) (now : Nat) :
    Inv { s with store := (s.store.poll now).1, turn := .browse, polled := s.polled ++ (s.store.poll now).2.1,
                 toDesktop := s.toDesktop ++ (s.store.poll now).2.1.map .clip } := by
  refine ⟨?_, ?_, h.answers, ?_, ?_, h.refused⟩
  · intro ho
    change _ ++ (s.toDesktop ++ _).filterMap ToDesktop.answered = _
    rw [List.filterMap_append, answered_map_clip, List.append_nil]
    exact h.token ho
  · intro ho
    change s.polled ++ _ = _ ++ (s.toDesktop ++ _).filterMap ToDesktop.asked
    rw [List.filterMap_append, asked_map_clip, h.order ho, List.append_assoc]
  · intro hclipboard
    obtain ⟨hentries, hformats, hdesktop, hdeferred, hreading, hjobs, hagent⟩ := h.off hclipboard
    have hpoll : (s.store.poll now).1.entries = [] ∧ (s.store.poll now).2.1 = [] := by
      rw [Store.poll, hentries]
      exact ⟨rfl, rfl⟩
    refine ⟨hpoll.1, hformats, ?_, hdeferred, hreading, hjobs, hagent⟩
    change (s.toDesktop ++ _).filterMap ToDesktop.asked = []
    rw [List.filterMap_append, asked_map_clip, hdesktop, hpoll.2]
    rfl
  · intro hb
    refine ⟨?_, (h.noPages hb).toAgent⟩
    intro f hf
    rcases List.mem_append.mp hf with hf | hf
    · exact (h.noPages hb).toDesktop f hf
    · obtain ⟨q, -, rfl⟩ := List.mem_map.mp hf
      rfl

theorem inv_browse (h : Inv s) (request : Option String) (now : Nat) :
    Inv { s with broker := (s.broker.poll request now).1, turn := .frame,
                 toDesktop := s.toDesktop ++
                   (s.broker.poll request now).2.toList.map fun p => .browse p.1 p.2 } := by
  have hframes : ∀ o : Option (Nat × String),
      (o.toList.map fun p => ToDesktop.browse p.1 p.2).filterMap ToDesktop.answered = [] ∧
      (o.toList.map fun p => ToDesktop.browse p.1 p.2).filterMap ToDesktop.asked = [] := by
    intro o
    cases o <;> exact ⟨rfl, rfl⟩
  have henabled : (s.broker.poll request now).1.enabled = s.broker.enabled ∧
      (s.broker.enabled = false → (s.broker.poll request now).2 = none) := by
    unfold Broker.poll
    split
    · split
      · next hopen => exact ⟨rfl, fun hb => absurd (hopen.1.symm.trans hb) (by simp)⟩
      · exact ⟨rfl, fun _ => rfl⟩
    · exact ⟨rfl, fun _ => rfl⟩
  refine ⟨?_, ?_, h.answers, ?_, ?_, h.refused⟩
  · intro ho
    change _ ++ (s.toDesktop ++ _).filterMap ToDesktop.answered = _
    rw [List.filterMap_append, (hframes _).1, List.append_nil]
    exact h.token ho
  · intro ho
    change _ = _ ++ (s.toDesktop ++ _).filterMap ToDesktop.asked
    rw [List.filterMap_append, (hframes _).2, List.append_nil]
    exact h.order ho
  · intro hclipboard
    have hoff := h.off hclipboard
    refine { hoff with toDesktop := ?_ }
    change (s.toDesktop ++ _).filterMap ToDesktop.asked = []
    rw [List.filterMap_append, (hframes _).2, hoff.toDesktop]
    rfl
  · intro hb
    have hb' := henabled.1.symm.trans hb
    refine ⟨?_, (h.noPages hb').toAgent⟩
    intro f hf
    rw [henabled.2 hb'] at hf
    rw [Option.toList_none, List.map_nil, List.append_nil] at hf
    exact (h.noPages hb').toDesktop f hf

/-- Every part of the agent's turn keeps the invariant. -/
theorem inv_agentStep (h : Inv s) {e : Event} (hstep : s.agentStep Z e = some t) : Inv t := by
  cases e with
  | frame taken now =>
    have hexpired : Inv { s with broker := s.broker.expire now, turn := .poll } :=
      inv_local h s.store _ _ s.agentEnded (fun hclipboard => h.same_store hclipboard) rfl
    simp only [Sys.agentStep] at hstep
    split at hstep
    · split at hstep
      · split at hstep
        · next f rest hf =>
          obtain rfl := Option.some.inj hstep
          exact inv_handle hexpired hf now
        · cases hstep
      · obtain rfl := Option.some.inj hstep
        exact hexpired
    · cases hstep
  | poll now =>
    simp only [Sys.agentStep] at hstep
    split at hstep
    · obtain rfl := Option.some.inj hstep
      exact inv_poll h now
    · cases hstep
  | browse request now =>
    simp only [Sys.agentStep] at hstep
    split at hstep
    · obtain rfl := Option.some.inj hstep
      exact inv_browse h request now
    · cases hstep
  | agentFails message =>
    obtain rfl := Option.some.inj hstep
    exact inv_agentError h message
  | _ => cases hstep

end

end Porthop.Sharing
