import Porthop.Git.Transfer

/- Both parties against anything at all on the channel.

   Whatever arrives, the agent keeps its window and answers a request with success only
   after it has been sent the acknowledgement of each chunk, in order and nothing else but
   pings; the client hands on a diff only if what it took was the stream, in order. Any
   other chunk or acknowledgement ends the transfer for good. -/
namespace Porthop.Git.Wire
open MessagePack (Primitives)

namespace Message

def isChunk : Message → Bool
  | chunk .. => true
  | _ => false

def isAck : Message → Bool
  | ack .. => true
  | _ => false

def isPing : Message → Bool
  | ping _ => true
  | _ => false

def isLog : Message → Bool
  | commandLog .. => true
  | _ => false

def isResponse : Message → Bool
  | response .. => true
  | _ => false

end Message

/-! ## The agent -/

/-- The acknowledgements a sender takes, among anything. -/
def acknowledgements (heard : List Message) : List Message := heard.filter fun m => !m.isPing

/-- A stream under way agrees with what was said and heard for it. -/
structure Paced (s : Sender) (said heard : List Message) : Prop where
  order : s.acknowledged ≤ s.sent
  window : s.sent ≤ s.acknowledged + streamWindow
  bound : s.sent ≤ chunks s.bytes
  chunks : said.filter Message.isChunk =
    span (fun i => streamChunk s.id s.streamId i (chunk s.bytes i)) 0 s.sent
  acks : acknowledgements heard = span (streamAck s.streamId) 0 s.acknowledged
  pending : ∀ m ∈ said, m.isResponse = false
  preface : ∀ m ∈ s.preface, m.isChunk = false ∧ m.isResponse = false

/-- A stream that was answered with success: every chunk was said, every chunk was
    acknowledged, each in its turn. -/
def Finished (m : Message) (said heard : List Message) : Prop :=
  ∃ id stream bytes,
    m = .success id (.obj [("bytes", ofNat bytes.length), ("lastSeq", ofNat (chunks bytes))]) ∧
    said.filter Message.isChunk =
      span (fun i => streamChunk id stream i (chunk bytes i)) 0 (chunks bytes) ∧
    acknowledgements heard = span (streamAck stream) 0 (chunks bytes)

structure Heeded (w : Channel) : Prop where
  paced : ∀ s, w.agent = .streaming s → Paced s w.said w.heard
  finished : ∀ m ∈ w.said, m.isResponse → Finished m w.said w.heard
  window : w.said.countP Message.isChunk ≤ w.heard.countP Message.isAck + streamWindow

namespace Sender
variable {s s' : Sender} {m : Message} {out : List Message}

/-- Everything the sender may do next. -/
theorem move_cases (s : Sender) :
    (∃ m rest, s.preface = m :: rest ∧ s.move = .write m { s with preface := rest }) ∨
    (s.sent - s.acknowledged < streamWindow ∧ s.sent < chunks s.bytes ∧
      s.move = .write (streamChunk s.id s.streamId s.sent (chunk s.bytes s.sent))
        { s with sent := s.sent + 1 }) ∨
    (s.acknowledged = s.sent ∧ chunks s.bytes ≤ s.sent ∧ s.move = .finish (.success s.id
      (.obj [("bytes", ofNat s.bytes.length), ("lastSeq", ofNat s.sent)]))) ∨
    (s.acknowledged ≠ s.sent ∧ s.move = .wait) := by
  cases hpreface : s.preface with
  | cons m rest => exact Or.inl ⟨m, rest, rfl, move_preface hpreface⟩
  | nil =>
    refine Or.inr ?_
    by_cases hroom : s.sent - s.acknowledged < streamWindow ∧ s.sent * chunkSize < s.bytes.length
    · have hnext : s.nextChunk = some (chunk s.bytes s.sent) := if_pos hroom
      have hmove := move_chunk hpreface hnext
      refine Or.inl ⟨hroom.1, lt_chunks.mp hroom.2, ?_⟩
      rw [hmove, hpreface]
      rfl
    · have hnext : s.nextChunk = none := if_neg hroom
      refine Or.inr ?_
      by_cases hall : s.acknowledged = s.sent
      · have hwindow : s.sent - s.acknowledged < streamWindow := by
          rw [hall, Nat.sub_self]
          decide
        have hend : ¬ s.sent < chunks s.bytes := fun h => hroom ⟨hwindow, lt_chunks.mpr h⟩
        exact Or.inl ⟨hall, Nat.not_lt.mp hend, move_finish hpreface hnext hall⟩
      · exact Or.inr ⟨hall, move_wait hpreface hnext hall⟩

/-- What a waiting sender accepts. -/
theorem receive_cases (h : s.receive m = some (s', out)) :
    (m = streamAck s.streamId s.acknowledged ∧ s' = { s with acknowledged := s.acknowledged + 1 } ∧
      out = []) ∨ (∃ nonce, m = .ping nonce ∧ s' = s ∧ out = [.pong nonce]) := by
  cases m with
  | ack stream seq =>
    rw [receive] at h
    split at h
    · next hnext =>
      obtain ⟨rfl, rfl⟩ := Prod.mk.inj (Option.some.inj h)
      refine Or.inl ⟨?_, by rw [hnext.2], rfl⟩
      rw [streamAck, hnext.1, ← hnext.2, UInt32.ofNat_toNat]
    · cases h
  | ping nonce =>
    rw [receive] at h
    split at h
    · obtain ⟨rfl, rfl⟩ := Prod.mk.inj (Option.some.inj h)
      exact Or.inr ⟨nonce, rfl, rfl, rfl⟩
    · cases h
  | _ => cases h

/-- An acknowledgement that is not the next of this stream. -/
theorem receive_deviant {stream : String} {seq : UInt32}
    (h : stream ≠ s.streamId ∨ seq.toNat ≠ s.acknowledged + 1) :
    s.receive (.ack stream seq) = none := by
  rw [receive, if_neg]
  intro hnext
  cases h with
  | inl h => exact h hnext.1
  | inr h => exact h hnext.2

end Sender

section
variable {P : Primitives} {svc : Service P} {w w' : Channel}

/-- A stream starts with nothing sent, and its preface has neither chunks nor a response. -/
theorem serve_streaming {fresh : Uuid} {m : Message} {s : Sender}
    (h : (Agent.serve svc fresh m).next = .streaming s) : Paced s [] [] := by
  unfold Agent.serve at h
  split at h
  · split at h <;> cases h
  · split at h
    · cases h
    · dsimp only at h
      split at h
      · cases h
      · cases h
      · obtain rfl := Agent.streaming.inj h
        refine ⟨Nat.le_refl _, Nat.zero_le _, Nat.zero_le _, rfl, rfl, nofun, ?_⟩
        intro m hm
        cases List.mem_append.mp hm with
        | inl hlog =>
          obtain ⟨entry, -, rfl⟩ := List.mem_map.mp hlog
          exact ⟨rfl, rfl⟩
        | inr hbegin =>
          obtain rfl := List.mem_singleton.mp hbegin
          exact ⟨rfl, rfl⟩
  · cases h

namespace Paced
variable {s : Sender} {said heard : List Message}

theorem write_preface {m : Message} {rest : List Message} (h : Paced s said heard)
    (hpreface : s.preface = m :: rest) :
    Paced { s with preface := rest } (said ++ [m]) heard := by
  obtain ⟨hchunk, hresponse⟩ := h.preface m (by rw [hpreface]; exact List.mem_cons_self)
  refine ⟨h.order, h.window, h.bound, ?_, h.acks, ?_, fun m' hm' => ?_⟩
  · have hnone : [m].filter Message.isChunk = [] := by
      rw [List.filter_singleton, hchunk]
      rfl
    rw [List.filter_append, hnone, List.append_nil]
    exact h.chunks
  · intro m' hm'
    cases List.mem_append.mp hm' with
    | inl hm' => exact h.pending m' hm'
    | inr hm' =>
      obtain rfl := List.mem_singleton.mp hm'
      exact hresponse
  · exact h.preface m' (by rw [hpreface]; exact List.mem_cons_of_mem _ hm')

theorem write_chunk (h : Paced s said heard) (hroom : s.sent - s.acknowledged < streamWindow)
    (hlt : s.sent < Wire.chunks s.bytes) :
    Paced { s with sent := s.sent + 1 }
      (said ++ [streamChunk s.id s.streamId s.sent (chunk s.bytes s.sent)]) heard := by
  have horder := h.order
  refine ⟨Nat.le_succ_of_le horder, ?_, hlt, ?_, h.acks, ?_, h.preface⟩
  · show s.sent + 1 ≤ s.acknowledged + streamWindow
    omega
  · rw [List.filter_append, h.chunks, span_concat (Nat.zero_le _)]
    rfl
  · intro m' hm'
    cases List.mem_append.mp hm' with
    | inl hm' => exact h.pending m' hm'
    | inr hm' =>
      obtain rfl := List.mem_singleton.mp hm'
      rfl

theorem take_ack (h : Paced s said heard) (hne : s.acknowledged ≠ s.sent) :
    Paced { s with acknowledged := s.acknowledged + 1 } said
      (heard ++ [streamAck s.streamId s.acknowledged]) := by
  have horder := h.order
  have hwindow := h.window
  refine ⟨?_, ?_, h.bound, h.chunks, ?_, h.pending, h.preface⟩
  · show s.acknowledged + 1 ≤ s.sent
    omega
  · show s.sent ≤ s.acknowledged + 1 + streamWindow
    omega
  · show acknowledgements _ = span (streamAck s.streamId) 0 (s.acknowledged + 1)
    rw [acknowledgements, List.filter_append, span_concat (Nat.zero_le _)]
    congr 1
    exact h.acks

theorem take_ping {nonce : String} (h : Paced s said heard) :
    Paced s (said ++ [.pong nonce]) (heard ++ [.ping nonce]) := by
  refine ⟨h.order, h.window, h.bound, ?_, ?_, ?_, h.preface⟩
  · rw [List.filter_append, h.chunks]
    exact List.append_nil _
  · rw [acknowledgements, List.filter_append]
    have hacks := h.acks
    rw [acknowledgements] at hacks
    rw [hacks]
    exact List.append_nil _
  · intro m' hm'
    cases List.mem_append.mp hm' with
    | inl hm' => exact h.pending m' hm'
    | inr hm' =>
      obtain rfl := List.mem_singleton.mp hm'
      rfl

/-- The window in what was said and heard. -/
theorem count_le (h : Paced s said heard) :
    said.countP Message.isChunk ≤ heard.countP Message.isAck + streamWindow := by
  have hsent : said.countP Message.isChunk = s.sent := by
    rw [List.countP_eq_length_filter, h.chunks, length_span, Nat.sub_zero]
  have hacked : s.acknowledged ≤ heard.countP Message.isAck := by
    have hlen : (acknowledgements heard).countP Message.isAck = s.acknowledged := by
      rw [h.acks, List.countP_eq_length.mpr, length_span, Nat.sub_zero]
      intro m hm
      obtain ⟨i, -, rfl⟩ := List.mem_map.mp hm
      rfl
    rw [← hlen]
    exact List.Sublist.countP_le List.filter_sublist
  have hwindow := h.window
  omega

theorem finish (h : Paced s said heard) (hall : s.acknowledged = s.sent)
    (hend : Wire.chunks s.bytes ≤ s.sent) {m : Message}
    (hm : m ∈ said ++ [.success s.id
      (.obj [("bytes", ofNat s.bytes.length), ("lastSeq", ofNat s.sent)])]) (hr : m.isResponse) :
    Finished m (said ++ [.success s.id
      (.obj [("bytes", ofNat s.bytes.length), ("lastSeq", ofNat s.sent)])]) heard := by
  have hsent : s.sent = Wire.chunks s.bytes := Nat.le_antisymm h.bound hend
  cases List.mem_append.mp hm with
  | inl hm =>
    rw [h.pending m hm] at hr
    cases hr
  | inr hm =>
    obtain rfl := List.mem_singleton.mp hm
    refine ⟨s.id, s.streamId, s.bytes, by rw [hsent], ?_, ?_⟩
    · rw [List.filter_append, h.chunks, ← hsent]
      exact List.append_nil _
    · rw [h.acks, hall, hsent]

end Paced

namespace Channel

/-- What a turn of the agent adds to the histories. -/
theorem step_agent_history {fresh : Uuid} (h : step svc w (.agent fresh) = some w') :
    ∃ a, w.agent.act svc fresh w.up = some a ∧ w'.agent = a.next ∧
      w'.heard = (if w.agent.isStreaming then w.heard ++ a.took
        else if a.next.isStreaming then [] else w.heard) ∧
      w'.said = (if w.agent.isStreaming then w.said ++ a.wrote
        else if a.next.isStreaming then [] else w.said) := by
  obtain ⟨a, ha, h'⟩ := Option.bind_eq_some_iff.mp h
  obtain rfl := Option.some.inj h'
  exact ⟨a, ha, rfl, rfl, rfl⟩

/-- Nobody but the agent touches its side. -/
theorem step_other {e : Event} (he : ∀ fresh, e ≠ .agent fresh) (h : step svc w e = some w') :
    w'.agent = w.agent ∧ w'.heard = w.heard ∧ w'.said = w.said := by
  cases e with
  | agent fresh => exact absurd rfl (he fresh)
  | client =>
    obtain ⟨a, -, h'⟩ := Option.bind_eq_some_iff.mp h
    obtain rfl := Option.some.inj h'
    exact ⟨rfl, rfl, rfl⟩
  | request id method params =>
    rw [step] at h
    split at h
    · obtain rfl := Option.some.inj h
      exact ⟨rfl, rfl, rfl⟩
    · cases h
  | keepAlive nonce =>
    rw [step] at h
    split at h
    · obtain rfl := Option.some.inj h
      exact ⟨rfl, rfl, rfl⟩
    · obtain rfl := Option.some.inj h
      exact ⟨rfl, rfl, rfl⟩
  | tamper up down =>
    obtain rfl := Option.some.inj h
    exact ⟨rfl, rfl, rfl⟩

/-- Between streams the histories stand still. -/
theorem heeded_still (h : Heeded w) (hagent : ∀ s, w'.agent ≠ .streaming s)
    (hheard : w'.heard = w.heard) (hsaid : w'.said = w.said) : Heeded w' := by
  refine ⟨fun s hs => absurd hs (hagent s), ?_, ?_⟩
  · rw [hheard, hsaid]
    exact h.finished
  · rw [hheard, hsaid]
    exact h.window

/-- A stream under way has what the invariant asks for. -/
theorem heeded_paced {s : Sender} (hagent : w.agent = .streaming s) (h : Paced s w.said w.heard) :
    Heeded w := by
  refine ⟨fun s' hs' => ?_, fun m hm hr => ?_, h.count_le⟩
  · obtain rfl := Agent.streaming.inj (hagent.symm.trans hs')
    exact h
  · rw [h.pending m hm] at hr
    cases hr

/-- An agent that is not streaming starts a stream or leaves the histories. -/
theorem heeded_serves {act : Act Agent} (h : Heeded w) (hagent' : w'.agent = act.next)
    (hheard : w'.heard = if act.next.isStreaming then [] else w.heard)
    (hsaid : w'.said = if act.next.isStreaming then [] else w.said)
    (hstart : ∀ s, act.next = .streaming s → Paced s [] []) : Heeded w' := by
  cases hnext : act.next with
  | streaming s =>
    rw [hnext] at hheard hsaid hagent'
    refine heeded_paced hagent' ?_
    rw [hheard, hsaid]
    exact hstart s hnext
  | _ =>
    rw [hnext] at hheard hsaid hagent'
    refine heeded_still h ?_ hheard hsaid
    rw [hagent']
    exact nofun

theorem heeded_agent {fresh : Uuid} (h : Heeded w) (hstep : step svc w (.agent fresh) = some w') :
    Heeded w' := by
  obtain ⟨act, hact, hagent', hheard, hsaid⟩ := step_agent_history hstep
  cases hagent : w.agent with
  | serving =>
    rw [hagent] at hact hheard hsaid
    cases hup : w.up with
    | nil =>
      rw [hup] at hact
      cases hact
    | cons m rest =>
      rw [hup] at hact
      obtain rfl := Option.some.inj hact
      exact heeded_serves h hagent' hheard hsaid fun s hs => serve_streaming hs
  | replying rest =>
    rw [hagent] at hact hheard hsaid
    cases rest with
    | nil =>
      obtain rfl := Option.some.inj hact
      exact heeded_serves h hagent' hheard hsaid nofun
    | cons m rest =>
      obtain rfl := Option.some.inj hact
      exact heeded_serves h hagent' hheard hsaid nofun
  | failed =>
    rw [hagent] at hact
    cases hact
  | streaming s =>
    have hpaced := h.paced s hagent
    have hstreaming : w.agent.isStreaming := by rw [hagent]; rfl
    rw [if_pos hstreaming] at hheard hsaid
    rw [hagent] at hact
    obtain ⟨m, rest, hpreface, hmove⟩ | ⟨hroom, hlt, hmove⟩ | ⟨hall, hend, hmove⟩ | ⟨hne, hmove⟩ :=
      s.move_cases
    · rw [Agent.act_write hmove] at hact
      obtain rfl := Option.some.inj hact
      refine heeded_paced hagent' ?_
      have := hpaced.write_preface hpreface
      rwa [hsaid, hheard, List.append_nil]
    · rw [Agent.act_write hmove] at hact
      obtain rfl := Option.some.inj hact
      refine heeded_paced hagent' ?_
      have := hpaced.write_chunk hroom hlt
      rwa [hsaid, hheard, List.append_nil]
    · -- the response: nothing more is heard or said for this stream
      rw [Agent.act_finish hmove] at hact
      obtain rfl := Option.some.inj hact
      have hheard' : w'.heard = w.heard := by
        rw [hheard]
        exact List.append_nil _
      refine ⟨?_, fun m hm hr => ?_, ?_⟩
      · rw [hagent']
        exact nofun
      · rw [hsaid] at hm ⊢
        rw [hheard']
        exact hpaced.finish hall hend hm hr
      · have hcount := hpaced.count_le
        rw [hsaid, hheard', List.countP_append]
        exact hcount
    · cases hup : w.up with
      | nil =>
        rw [hup, Agent.act_wait hmove] at hact
        cases hact
      | cons m rest =>
        rw [hup] at hact
        cases hm : s.receive m with
        | none =>
          rw [Agent.act_refuse hmove hm] at hact
          obtain rfl := Option.some.inj hact
          have hsaid' : w'.said = w.said := by
            rw [hsaid]
            exact List.append_nil _
          refine ⟨?_, fun m' hm' hr => ?_, ?_⟩
          · rw [hagent']
            exact nofun
          · rw [hsaid'] at hm'
            rw [hpaced.pending m' hm'] at hr
            cases hr
          · have hcount := hpaced.count_le
            rw [hsaid', hheard, List.countP_append]
            omega
        | some r =>
          obtain ⟨s', out⟩ := r
          rw [Agent.act_receive hmove hm] at hact
          obtain rfl := Option.some.inj hact
          refine heeded_paced hagent' ?_
          rw [hsaid, hheard]
          obtain ⟨rfl, rfl, rfl⟩ | ⟨nonce, rfl, rfl, rfl⟩ := Sender.receive_cases hm
          · rw [List.append_nil]
            exact hpaced.take_ack hne
          · exact hpaced.take_ping

theorem heeded_step {e : Event} (h : Heeded w) (hstep : step svc w e = some w') : Heeded w' := by
  by_cases he : ∃ fresh, e = .agent fresh
  · obtain ⟨fresh, rfl⟩ := he
    exact heeded_agent h hstep
  · obtain ⟨hagent, hheard, hsaid⟩ := step_other (fun fresh hf => he ⟨fresh, hf⟩) hstep
    refine ⟨fun s hs => ?_, ?_, ?_⟩
    · rw [hsaid, hheard]
      exact h.paced s (hagent.symm.trans hs)
    · rw [hsaid, hheard]
      exact h.finished
    · rw [hsaid, hheard]
      exact h.window

theorem heeded_start : Heeded start := ⟨nofun, nofun, Nat.zero_le _⟩

/-- **The agent, in every run.** -/
theorem heeded_run {es : List Event} (hrun : Run.exec (step svc) es start = some w) : Heeded w :=
  Run.exec_invariant (fun _ _ _ h hstep => heeded_step h hstep) heeded_start hrun

/-- What has failed stays so, and says nothing more. -/
theorem failed_run {es : List Event} (h : w.agent = .failed)
    (hrun : Run.exec (step svc) es w = some w') : w'.agent = .failed ∧ w'.said = w.said := by
  refine @Run.exec_invariant _ _ _ (fun m : Channel => m.agent = .failed ∧ m.said = w.said) ?_ _ _ _
    ⟨h, rfl⟩ hrun
  intro m e m' hm hstep
  by_cases he : ∃ fresh, e = .agent fresh
  · obtain ⟨fresh, rfl⟩ := he
    obtain ⟨a, ha, -⟩ := step_agent hstep
    rw [hm.1] at ha
    cases ha
  · obtain ⟨hagent, -, hsaid⟩ := step_other (fun fresh hf => he ⟨fresh, hf⟩) hstep
    exact ⟨hagent.trans hm.1, hsaid.trans hm.2⟩

/-- **A wrong acknowledgement** ends a transfer without a response. -/
theorem deviant_ack {es : List Event} {fresh : Uuid} {s : Sender} {stream : String} {seq : UInt32}
    {rest : List Message} (h : Heeded w) (hagent : w.agent = .streaming s) (hmove : s.move = .wait)
    (hup : w.up = .ack stream seq :: rest)
    (hdev : stream ≠ s.streamId ∨ seq.toNat ≠ s.acknowledged + 1)
    (hrun : Run.exec (step svc) (.agent fresh :: es) w = some w') :
    w'.agent = .failed ∧ ∀ m ∈ w'.said, m.isResponse = false := by
  obtain ⟨m, hm, hrun'⟩ := Run.exec_cons.mp hrun
  obtain ⟨act, hact, hagent', -, hsaid⟩ := step_agent_history hm
  have hstreaming : w.agent.isStreaming := by rw [hagent]; rfl
  rw [if_pos hstreaming] at hsaid
  rw [hagent, hup, Agent.act_refuse hmove (Sender.receive_deviant hdev)] at hact
  obtain rfl := Option.some.inj hact
  obtain ⟨hfailed, hsaid'⟩ := failed_run hagent' hrun'
  refine ⟨hfailed, fun m' hm' => ?_⟩
  have hmem : m' ∈ w.said := by
    rw [hsaid', hsaid] at hm'
    simpa using hm'
  exact (h.paced s hagent).pending m' hmem

end Channel

end

/-! ## The client -/

namespace Receiver
variable {P : Primitives} {r : Receiver} {m : Message}

/-- Everything a message may do to a client at its request. -/
theorem receive_cases (r : Receiver) (m : Message) :
    (∃ entry, m = .commandLog r.id entry ∧
      r.receive P m = (.reading { r with logCount := r.logCount + 1 }, [])) ∨
    (∃ stream snapshot, r.streamId = none ∧ r.expected = some snapshot ∧
      m = .begin r.id stream snapshot ∧
      r.receive P m = (.reading { r with streamId := some stream }, [])) ∨
    (∃ stream bytes, r.streamId = some stream ∧ bytes ≠ [] ∧ bytes.length ≤ chunkSize ∧
      m = streamChunk r.id stream r.lastSeq bytes ∧
      r.receive P m = (.reading { r with data := r.data ++ bytes, lastSeq := r.lastSeq + 1 },
        [streamAck stream r.lastSeq])) ∨
    (∃ v, m = .success r.id v ∧ r.receive P m = (r.respond P v, [])) ∨
    (∃ e, r.receive P m = (.idle (some (.error e)), [])) ∨
    (∃ e, r.receive P m = (.failed e, [])) := by
  cases m with
  | commandLog id entry =>
    rw [receive]
    split
    · next hid =>
      subst hid
      split
      · exact Or.inr (Or.inr (Or.inr (Or.inr (Or.inr ⟨_, rfl⟩))))
      · exact Or.inl ⟨entry, rfl, rfl⟩
    · exact Or.inr (Or.inr (Or.inr (Or.inr (Or.inr ⟨_, rfl⟩))))
  | begin id stream snapshot =>
    rw [receive]
    split
    · next hok =>
      obtain ⟨rfl, hnone, hsnapshot⟩ := hok
      exact Or.inr (Or.inl ⟨stream, snapshot, hnone, hsnapshot, rfl, rfl⟩)
    · exact Or.inr (Or.inr (Or.inr (Or.inr (Or.inr ⟨_, rfl⟩))))
  | chunk id stream seq bytesB64 =>
    rw [receive]
    split
    · next hok =>
      obtain ⟨rfl, hstream, hseq⟩ := hok
      cases hbytes : Base64.standard.decode bytesB64.toList with
      | none => exact Or.inr (Or.inr (Or.inr (Or.inr (Or.inr ⟨_, rfl⟩))))
      | some bytes =>
        dsimp only
        split
        · exact Or.inr (Or.inr (Or.inr (Or.inr (Or.inr ⟨_, rfl⟩))))
        · next hfits =>
          have hseq' : seq = UInt32.ofNat (r.lastSeq + 1) := by rw [← hseq, UInt32.ofNat_toNat]
          have htext : bytesB64 = base64 bytes := by
            rw [base64, Base64.Engine.encode_decode hbytes, String.ofList_toList]
          refine Or.inr (Or.inr (Or.inl ⟨stream, bytes, hstream, fun h => hfits (Or.inl h),
            Nat.not_lt.mp fun h => hfits (Or.inr (Or.inl h)), ?_, ?_⟩))
          · rw [streamChunk, hseq', htext]
          · rw [hseq, streamAck, hseq']
    · exact Or.inr (Or.inr (Or.inr (Or.inr (Or.inr ⟨_, rfl⟩))))
  | response id result error =>
    cases result with
    | some v =>
      cases error with
      | none =>
        rw [receive]
        split
        · next hid =>
          subst hid
          exact Or.inr (Or.inr (Or.inr (Or.inl ⟨v, rfl, rfl⟩)))
        · exact Or.inr (Or.inr (Or.inr (Or.inr (Or.inr ⟨_, rfl⟩))))
      | some e => exact Or.inr (Or.inr (Or.inr (Or.inr (Or.inr ⟨_, rfl⟩))))
    | none =>
      cases error with
      | none => exact Or.inr (Or.inr (Or.inr (Or.inr (Or.inr ⟨_, rfl⟩))))
      | some e =>
        rw [receive]
        split
        · exact Or.inr (Or.inr (Or.inr (Or.inr (Or.inl ⟨e, rfl⟩))))
        · exact Or.inr (Or.inr (Or.inr (Or.inr (Or.inr ⟨_, rfl⟩))))
  | _ => exact Or.inr (Or.inr (Or.inr (Or.inr (Or.inr ⟨_, rfl⟩))))

/-- The end of a request for a diff. -/
theorem respond_cases {snapshot : String} (hexpected : r.expected = some snapshot) (v : Value) :
    (∃ e, r.respond P v = .failed e) ∨
    ∃ stream diff, r.streamId = some stream ∧ decodeValue P r.data = some diff ∧
      asU64 (member "lastSeq" v) = some (UInt64.ofNat r.lastSeq) ∧
      asU64 (member "bytes" v) = some (UInt64.ofNat r.data.length) ∧
      r.respond P v = .idle (some (.ok (.obj [("diff", diff), ("snapshot", .str snapshot)]))) := by
  cases hstream : r.streamId with
  | none =>
    refine Or.inl ⟨invalidResponse, ?_⟩
    simp only [respond, hstream, hexpected, Option.isSome_none, Bool.false_eq_true, if_false,
      Option.isSome_some, if_true]
  | some stream =>
    by_cases htotals : asU64 (member "lastSeq" v) ≠ some (UInt64.ofNat r.lastSeq) ∨
        asU64 (member "bytes" v) ≠ some (UInt64.ofNat r.data.length)
    · refine Or.inl ⟨invalidResponse, ?_⟩
      simp only [respond, hstream, Option.isSome_some, if_true, if_pos htotals]
    · obtain ⟨hseq, hbytes⟩ := not_or.mp htotals
      cases hdiff : decodeValue P r.data with
      | none =>
        refine Or.inl ⟨invalidResponse, ?_⟩
        simp only [respond, hstream, Option.isSome_some, if_true, if_neg htotals, hdiff]
      | some diff =>
        refine Or.inr ⟨stream, diff, rfl, rfl, not_ne_iff.mp hseq, not_ne_iff.mp hbytes, ?_⟩
        simp only [respond, hstream, Option.isSome_some, if_true, if_neg htotals, hdiff, hexpected,
          Option.map_some, Option.getD_some]

/-- A chunk that is not the next of this stream. -/
theorem receive_deviant {id stream bytesB64 : String} {seq : UInt32}
    (h : id ≠ r.id ∨ r.streamId ≠ some stream ∨ seq.toNat ≠ r.lastSeq + 1) :
    r.receive P (.chunk id stream seq bytesB64) = (.failed invalidResponse, []) := by
  rw [receive, if_neg]
  rintro ⟨hid, hstream, hseq⟩
  rcases h with h | h | h
  · exact h hid
  · exact h hstream
  · exact h hseq

end Receiver

/-- What a client took for its request, but for the logs. -/
def substance (read : List Message) : List Message := read.filter fun m => !m.isLog

/-- Chunks in a row. -/
def streamed (id stream : String) (pieces : List (List UInt8)) : List Message :=
  pieces.mapIdx (streamChunk id stream)

/-- A diff was put together from one stream, taken in order and whole. -/
def Received (P : Primitives) (id snapshot : String) (read : List Message) (v : Value) : Prop :=
  ∃ stream pieces diff totals,
    substance read = .begin id stream snapshot :: streamed id stream pieces ++ [.success id totals] ∧
    (∀ piece ∈ pieces, piece ≠ [] ∧ piece.length ≤ chunkSize) ∧
    asU64 (member "lastSeq" totals) = some (UInt64.ofNat pieces.length) ∧
    asU64 (member "bytes" totals) = some (UInt64.ofNat pieces.flatten.length) ∧
    decodeValue P pieces.flatten = some diff ∧
    v = .obj [("diff", diff), ("snapshot", .str snapshot)]

/-- A client at a request for a diff has taken the stream as far as it goes. -/
structure Following (id snapshot : String) (r : Receiver) (read : List Message) : Prop where
  key : r.id = id
  expected : r.expected = some snapshot
  stream : (r.streamId = none ∧ r.data = [] ∧ r.lastSeq = 0 ∧ substance read = []) ∨
    ∃ stream pieces, r.streamId = some stream ∧ r.data = pieces.flatten ∧
      r.lastSeq = pieces.length ∧ (∀ piece ∈ pieces, piece ≠ [] ∧ piece.length ≤ chunkSize) ∧
      substance read = .begin id stream snapshot :: streamed id stream pieces

/-- A client with nothing but sound results for its request. -/
def Resulted (P : Primitives) (id snapshot : String) (read : List Message) :
    Option (Except Error Value) → Prop
  | some (.ok v) => Received P id snapshot read v
  | some (.error _) => True
  | none => False

/-- The client since its request for a diff. -/
def Sound (P : Primitives) (id snapshot : String) (w : Channel) : Prop :=
  match w.client with
  | .reading r => Following id snapshot r w.read
  | .idle result | .pinging result _ => Resulted P id snapshot w.read result
  | .failed _ => True

section
variable {P : Primitives} {svc : Service P} {w w' : Channel} {id snapshot : String}

theorem substance_concat {read : List Message} {m : Message} (h : m.isLog = false) :
    substance (read ++ [m]) = substance read ++ [m] := by
  rw [substance, List.filter_append, List.filter_singleton, h]
  rfl

namespace Following
variable {r : Receiver} {read : List Message} {m : Message}

/-- **A step of the client.** -/
theorem receive (h : Following id snapshot r read) (m : Message) :
    match (r.receive P m).1 with
    | .reading r' => Following id snapshot r' (read ++ [m])
    | .idle result | .pinging result _ => Resulted P id snapshot (read ++ [m]) result
    | .failed _ => True := by
  obtain ⟨entry, rfl, hr⟩ | ⟨stream, snapshot', hnone, hsnapshot, rfl, hr⟩ |
    ⟨stream, bytes, hstream, hnil, hsize, rfl, hr⟩ | ⟨v, rfl, hr⟩ | ⟨e, hr⟩ | ⟨e, hr⟩ :=
    r.receive_cases (P := P) m
  · rw [hr]
    have hsub : substance (read ++ [.commandLog r.id entry]) = substance read := by
      rw [substance, List.filter_append]
      exact List.append_nil _
    refine ⟨h.key, h.expected, ?_⟩
    rw [hsub]
    exact h.stream
  · rw [hr]
    obtain rfl : snapshot = snapshot' := Option.some.inj (h.expected.symm.trans hsnapshot)
    obtain ⟨-, hdata, hseq, hread⟩ | ⟨stream', pieces, hstream, -⟩ := h.stream
    · refine ⟨h.key, h.expected, Or.inr ⟨stream, [], rfl, hdata, hseq, nofun, ?_⟩⟩
      rw [substance_concat rfl, hread, h.key]
      rfl
    · rw [hstream] at hnone
      cases hnone
  · rw [hr]
    obtain ⟨hnone, -⟩ | ⟨stream', pieces, hstream', hdata, hseq, hpieces, hread⟩ := h.stream
    · rw [hnone] at hstream
      cases hstream
    · obtain rfl : stream = stream' := Option.some.inj (hstream.symm.trans hstream')
      refine ⟨h.key, h.expected, Or.inr ⟨stream, pieces ++ [bytes], hstream, ?_, ?_, ?_, ?_⟩⟩
      · show r.data ++ bytes = _
        rw [List.flatten_append, hdata, List.flatten_singleton]
      · show r.lastSeq + 1 = _
        rw [hseq, List.length_append, List.length_singleton]
      · intro piece hpiece
        cases List.mem_append.mp hpiece with
        | inl hmem => exact hpieces piece hmem
        | inr hmem =>
          obtain rfl := List.mem_singleton.mp hmem
          exact ⟨hnil, hsize⟩
      · rw [substance_concat rfl, hread, streamed, streamed, List.mapIdx_concat, h.key, hseq]
        rfl
  · rw [hr]
    obtain ⟨e, hend⟩ | ⟨stream, diff, hstream, hdiff, hseq, hbytes, hend⟩ :=
      Receiver.respond_cases (P := P) h.expected v
    · rw [hend]
      trivial
    · rw [hend]
      obtain ⟨hnone, -⟩ | ⟨stream', pieces, hstream', hdata, hlast, hpieces, hread⟩ := h.stream
      · rw [hnone] at hstream
        cases hstream
      · rw [hdata] at hdiff hbytes
        rw [hlast] at hseq
        refine ⟨stream', pieces, diff, v, ?_, hpieces, hseq, hbytes, hdiff, rfl⟩
        rw [substance_concat rfl, hread, h.key]
  · rw [hr]
    trivial
  · rw [hr]
    trivial

end Following

namespace Channel

theorem sound_client (h : Sound P id snapshot w) (hstep : step svc w .client = some w') :
    Sound P id snapshot w' := by
  obtain ⟨act, hact, hclient', -, -, -, hread'⟩ := step_client hstep
  unfold Sound at h ⊢
  rw [hclient', hread']
  cases hclient : w.client with
  | idle result =>
    rw [hclient] at hact
    cases hact
  | failed e =>
    rw [hclient] at hact
    cases hact
  | reading r =>
    rw [hclient] at hact h
    cases hdown : w.down with
    | nil =>
      rw [hdown] at hact
      cases hact
    | cons m rest =>
      rw [hdown] at hact
      obtain rfl := Option.some.inj hact
      exact h.receive m
  | pinging result nonce =>
    rw [hclient] at hact h
    have hout : act.next = .idle result ∨ act.next = .failed invalidResponse := by
      cases hdown : w.down with
      | nil =>
        rw [hdown] at hact
        cases hact
      | cons m rest =>
        rw [hdown, Client.act.eq_def] at hact
        dsimp only at hact
        split at hact
        · split at hact
          · obtain rfl := Option.some.inj hact
            exact Or.inl rfl
          · obtain rfl := Option.some.inj hact
            exact Or.inr rfl
        · obtain rfl := Option.some.inj hact
          exact Or.inr rfl
    cases hout with
    | inl hout =>
      rw [hout]
      exact h
    | inr hout =>
      rw [hout]
      trivial

/-- No event but a request makes a client forget what it took. -/
theorem sound_step {e : Event} (he : ∀ id method params, e ≠ .request id method params)
    (h : Sound P id snapshot w) (hstep : step svc w e = some w') : Sound P id snapshot w' := by
  cases e with
  | agent fresh =>
    obtain ⟨a, -, -, hclient, -, -, hread⟩ := step_agent hstep
    unfold Sound at h ⊢
    rwa [hclient, hread]
  | client => exact sound_client h hstep
  | request id method params => exact absurd rfl (he id method params)
  | keepAlive nonce =>
    rw [step] at hstep
    split at hstep
    · next result hclient =>
      obtain rfl := Option.some.inj hstep
      unfold Sound at h
      rw [hclient] at h
      exact h
    · obtain rfl := Option.some.inj hstep
      exact h
  | tamper up down =>
    obtain rfl := Option.some.inj hstep
    exact h

theorem sound_run {es : List Event} (hes : ∀ e ∈ es, ∀ id method params, e ≠ .request id method params)
    (h : Sound P id snapshot w) (hrun : Run.exec (step svc) es w = some w') :
    Sound P id snapshot w' := by
  induction es generalizing w with
  | nil =>
    obtain rfl := Option.some.inj hrun
    exact h
  | cons e es ih =>
    obtain ⟨m, hm, hrun'⟩ := Run.exec_cons.mp hrun
    have hsound := sound_step (hes e List.mem_cons_self) h hm
    exact ih (fun e' he' => hes e' (List.mem_cons_of_mem _ he')) hsound hrun'

/-- **The client, since a request for a diff.** -/
theorem sound_request {key : Uuid} {method : String} {params : Value} {es : List Event}
    (hexpected : expected method params = some snapshot)
    (hes : ∀ e ∈ es, ∀ id method params, e ≠ .request id method params)
    (hrun : Run.exec (step svc) (.request key method params :: es) w = some w') :
    Sound P (uuidText key) snapshot w' := by
  obtain ⟨m, hm, hrun'⟩ := Run.exec_cons.mp hrun
  refine sound_run hes ?_ hrun'
  rw [step] at hm
  split at hm
  · obtain rfl := Option.some.inj hm
    exact ⟨rfl, hexpected, Or.inl ⟨rfl, rfl, rfl, rfl⟩⟩
  · cases hm

/-- A client that has failed makes no more requests. -/
theorem failed_client {es : List Event} {e : Error} (h : w.client = .failed e)
    (hrun : Run.exec (step svc) es w = some w') : w'.client = .failed e := by
  refine @Run.exec_invariant _ _ _ (fun m : Channel => m.client = .failed e) ?_ _ _ _ h hrun
  intro m ev m' hm hstep
  cases ev with
  | agent fresh =>
    obtain ⟨a, -, -, hclient, -⟩ := step_agent hstep
    exact hclient.trans hm
  | client =>
    obtain ⟨a, ha, -⟩ := step_client hstep
    rw [hm] at ha
    cases ha
  | request id method params =>
    rw [step, hm] at hstep
    cases hstep
  | keepAlive nonce =>
    rw [step, hm] at hstep
    obtain rfl := Option.some.inj hstep
    exact hm
  | tamper up down =>
    obtain rfl := Option.some.inj hstep
    exact hm

/-- **A wrong chunk** ends a transfer with an error. -/
theorem deviant_chunk {es : List Event} {r : Receiver} {key stream bytesB64 : String} {seq : UInt32}
    {rest : List Message} (hclient : w.client = .reading r)
    (hdown : w.down = .chunk key stream seq bytesB64 :: rest)
    (hdev : key ≠ r.id ∨ r.streamId ≠ some stream ∨ seq.toNat ≠ r.lastSeq + 1)
    (hrun : Run.exec (step svc) (.client :: es) w = some w') :
    w'.client = .failed invalidResponse := by
  obtain ⟨m, hm, hrun'⟩ := Run.exec_cons.mp hrun
  obtain ⟨act, hact, hclient', -⟩ := step_client hm
  rw [client_reads hclient hdown, Receiver.receive_deviant hdev] at hact
  obtain rfl := Option.some.inj hact
  exact failed_client hclient' hrun'

end Channel

end

/-! ## Both -/

namespace Channel

/-- **A streamed diff.** Whatever is put on the channel: at most the window of chunks is
    unacknowledged; a success response was said only after every chunk was said and
    acknowledged, each once and in order; an acknowledgement or a chunk out of its turn ends
    the transfer, without a response and with an error; and the client hands on a diff only
    if it took one stream, in order and whole. With nothing put on it but what the two
    parties write, in any order of their turns and whenever the keep-alive comes round:
    neither fails, one of them can always move until the request is answered, there are only
    so many moves, and in the end the client has the payload. -/
theorem stream_agreement {P : Primitives} (svc : Service P) :
    (∀ es w, Run.exec (step svc) es start = some w →
      w.said.countP Message.isChunk ≤ w.heard.countP Message.isAck + streamWindow ∧
      (∀ m ∈ w.said, m.isResponse → Finished m w.said w.heard) ∧
      (∀ s stream seq rest fresh es' w', w.agent = .streaming s → s.move = .wait →
        w.up = .ack stream seq :: rest → (stream ≠ s.streamId ∨ seq.toNat ≠ s.acknowledged + 1) →
        Run.exec (step svc) (.agent fresh :: es') w = some w' →
        w'.agent = .failed ∧ ∀ m ∈ w'.said, m.isResponse = false) ∧
      ∀ r id stream seq bytesB64 rest es' w', w.client = .reading r →
        w.down = .chunk id stream seq bytesB64 :: rest →
        (id ≠ r.id ∨ r.streamId ≠ some stream ∨ seq.toNat ≠ r.lastSeq + 1) →
        Run.exec (step svc) (.client :: es') w = some w' → w'.client = .failed invalidResponse) ∧
    (∀ es id method params snapshot es' w, expected method params = some snapshot →
      (∀ e ∈ es', ∀ id method params, e ≠ .request id method params) →
      Run.exec (step svc) (es ++ .request id method params :: es') start = some w →
      Sound P (uuidText id) snapshot w) ∧
    ∀ (j : Job svc) result w₀ before after w, Quiet result w₀ → (∀ e ∈ before, e.plain) →
      (∀ e ∈ after, e.plain) →
      Run.exec (step svc) (before ++ .request j.id j.method j.params :: after) w₀ = some w →
      (w.agent ≠ .failed ∧ ∀ e, w.client ≠ .failed e) ∧
      (w.client.isReading →
        ∀ fresh, (step svc w (.agent fresh)).isSome ∨ (step svc w .client).isSome) ∧
      (∀ turns w', (∀ e ∈ turns, e.turn) → Run.exec (step svc) turns w = some w' →
        turns.length + work svc w' ≤ work svc w) ∧
      (w.client.isReading = false →
        Quiet (some (.ok j.result)) w ∧ assembled w.read = j.payload.bytes) := by
  refine ⟨fun es w hrun => ?_, ?_, ?_⟩
  · have hheeded := heeded_run hrun
    refine ⟨hheeded.window, hheeded.finished, ?_, ?_⟩
    · intro s stream seq rest fresh es' w' hagent hmove hup hdev hrun'
      exact deviant_ack hheeded hagent hmove hup hdev hrun'
    · intro r id stream seq bytesB64 rest es' w' hclient hdown hdev hrun'
      exact deviant_chunk hclient hdown hdev hrun'
  · intro es id method params snapshot es' w hexpected hes' hrun
    rw [Run.exec_append] at hrun
    obtain ⟨m, -, hrun'⟩ := Option.bind_eq_some_iff.mp hrun
    exact sound_request hexpected hes' hrun'
  · intro j result w₀ before after w hquiet hbefore hafter hrun
    have hphase := transfer_phase j hquiet hbefore hafter hrun
    obtain ⟨hagent, hclient, hdone⟩ := phase_sound hphase
    refine ⟨⟨hagent, hclient⟩, fun hreading => phase_moves hphase hreading, ?_, hdone⟩
    intro turns w' hturns hrun'
    exact turns_le hturns hphase hrun'

end Channel

theorem null_encoded : encodeValue MessagePack.compact .null = some [0xc0] := by decide +kernel

def nullPayload : Payload MessagePack.compact := ⟨.null, trivial, [0xc0], null_encoded⟩

/-- A service whose diffs are all `null`. -/
def nullService : Service MessagePack.compact where
  logs _ _ := []
  output method params :=
    match expected method params with
    | some snapshot => .diff snapshot nullPayload
    | none => .json .null
  logs_length _ _ := Nat.zero_le _
  logs_size _ _ := nofun
  echoes method params snapshot payload h := by
    split at h
    · next heq =>
      obtain ⟨rfl, -⟩ := Output.diff.inj h
      exact heq
    · cases h

/-- A request for a diff, turn by turn. -/
def nullTransfer : List Event :=
  [.request 1 "repo.diff" (.obj [("snapshot", .str "s")]), .agent 2, .agent 2, .client, .agent 2,
    .keepAlive 3, .client, .agent 2, .agent 2, .client]

theorem nullTransfer_arrives :
    ∃ w, Run.exec (Channel.step nullService) nullTransfer Channel.start = some w ∧
      assembled w.read = [0xc0] := by
  have hread : (Run.exec (Channel.step nullService) nullTransfer Channel.start).map
      (fun w => w.client.isReading) = some false := by decide +kernel
  obtain ⟨w, hrun, hidle⟩ := Option.map_eq_some_iff.mp hread
  let j : Job nullService := ⟨1, "repo.diff", .obj [("snapshot", .str "s")], "s",
    nullPayload, rfl⟩
  obtain ⟨-, -, hparties⟩ := Channel.stream_agreement nullService
  obtain ⟨-, -, -, hdone⟩ := hparties j none Channel.start [] nullTransfer.tail w
    (.rest rfl rfl rfl rfl) nofun (by decide) hrun
  exact ⟨w, hrun, (hdone hidle).2⟩

end Porthop.Git.Wire
