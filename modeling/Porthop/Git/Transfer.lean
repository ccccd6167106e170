import Porthop.Git.Window

/- The agent and the client together.

   `Phase` says where a request stands: how far each party is and what is on its way
   between them. Every turn of either party keeps it and uses up some of `work`, and as
   long as the client is at its request one of the two has a turn to take. So a request
   comes to its end in any order of turns, with the payload whole, and the session's
   keep-alive changes nothing on the way. -/
namespace Porthop.Git.Wire
open MessagePack (Primitives)

section
variable {P : Primitives} {svc : Service P} {w w' : Channel}

namespace Channel

/-- Neither party has anything left to do, but for the answer to a ping. -/
inductive Quiet (result : Option (Except Error Value)) (w : Channel) : Prop where
  | rest (hagent : w.agent = .serving) (hclient : w.client = .idle result) (hup : w.up = [])
      (hdown : w.down = [])
  | pinged (nonce : Uuid) (hagent : w.agent = .serving)
      (hclient : w.client = .pinging result (uuidText nonce))
      (hup : w.up = [.ping (uuidText nonce)]) (hdown : w.down = [])
  | ponged (nonce : Uuid) (hagent : w.agent = .serving)
      (hclient : w.client = .pinging result (uuidText nonce)) (hup : w.up = [])
      (hdown : w.down = [.pong (uuidText nonce)])

/-- How far a request is. -/
inductive Phase (j : Job svc) (w : Channel) : Prop where
  | asked (hagent : w.agent = .serving) (hclient : w.client = .reading (j.receiver "" 0))
      (hup : w.up = [.request j.key j.method j.params]) (hdown : w.down = []) (hread : w.read = [])
  | streaming (stream : String) (p q a : Nat)
      (hagent : w.agent = .streaming (j.sender stream p a))
      (hclient : w.client = .reading (j.receiver stream q))
      (hup : w.up = span (streamAck stream) a (q - j.head))
      (hdown : w.down = span (j.message stream) q p)
      (hread : w.read = span (j.message stream) 0 q)
      (ha : a ≤ q - j.head) (hq : q ≤ p) (hp : p ≤ j.total)
      (hwindow : p - j.head ≤ a + streamWindow)
  | answered (stream : String) (hagent : w.agent = .serving)
      (hclient : w.client = .reading (j.receiver stream j.total)) (hup : w.up = [])
      (hdown : w.down = [j.response]) (hread : w.read = span (j.message stream) 0 j.total)
  | done (hquiet : Quiet (some (.ok j.result)) w) (hread : assembled w.read = j.payload.bytes)

/-! ## The steps -/

/-- What a turn of the agent does. -/
theorem step_agent {fresh : Uuid} (h : step svc w (.agent fresh) = some w') :
    ∃ a, w.agent.act svc fresh w.up = some a ∧ w'.agent = a.next ∧ w'.client = w.client ∧
      w'.up = w.up.drop a.took.length ∧ w'.down = w.down ++ a.wrote ∧ w'.read = w.read := by
  obtain ⟨a, ha, h'⟩ := Option.bind_eq_some_iff.mp h
  obtain rfl := Option.some.inj h'
  exact ⟨a, ha, rfl, rfl, rfl, rfl, rfl⟩

/-- What a turn of the client does. -/
theorem step_client (h : step svc w .client = some w') :
    ∃ a, w.client.act P w.down = some a ∧ w'.client = a.next ∧ w'.agent = w.agent ∧
      w'.down = w.down.drop a.took.length ∧ w'.up = w.up ++ a.wrote ∧
      w'.read = if w.client.isReading then w.read ++ a.took else w.read := by
  obtain ⟨a, ha, h'⟩ := Option.bind_eq_some_iff.mp h
  obtain rfl := Option.some.inj h'
  exact ⟨a, ha, rfl, rfl, rfl, rfl, rfl⟩

theorem agent_moves {fresh : Uuid} (h : (w.agent.act svc fresh w.up).isSome) :
    (step svc w (.agent fresh)).isSome := by
  obtain ⟨a, ha⟩ := Option.isSome_iff_exists.mp h
  rw [step, ha]
  rfl

theorem client_moves (h : (w.client.act P w.down).isSome) : (step svc w .client).isSome := by
  obtain ⟨a, ha⟩ := Option.isSome_iff_exists.mp h
  rw [step, ha]
  rfl

/-! ## What is left to do -/

/-- The messages an agent has yet to write. -/
def left : Agent → Nat
  | .streaming s => s.preface.length + (chunks s.bytes - s.sent) + 1
  | _ => 0

/-- What a message on its way to the agent will make the two do. -/
def weight (svc : Service P) : Message → Nat
  | .ping _ => 3
  | .request _ method params =>
    match svc.output method params with
    | .diff _ payload => 3 * ((svc.logs method params).length + 1 + chunks payload.bytes + 1) + 1
    | _ => 1
  | _ => 1

def work (svc : Service P) (w : Channel) : Nat :=
  3 * left w.agent + 2 * w.down.length + (w.up.map (weight svc)).sum

theorem left_sender (j : Job svc) {stream : String} {p a : Nat} (hp : p ≤ j.total) :
    left (.streaming (j.sender stream p a)) = j.total - p + 1 := by
  show ((j.preface stream).drop p).length + (chunks j.payload.bytes - (p - j.head)) + 1 = _
  rw [List.length_drop, j.length_preface]
  unfold Job.total at hp ⊢
  omega

theorem weight_acks (stream : String) (a l : Nat) :
    ((span (streamAck stream) a l).map (weight svc)).sum = l - a := by
  have hone : ∀ m ∈ (span (streamAck stream) a l).map (weight svc), m = 1 := by
    intro m hm
    obtain ⟨x, hx, rfl⟩ := List.mem_map.mp hm
    obtain ⟨i, -, rfl⟩ := List.mem_map.mp hx
    rfl
  rw [List.eq_replicate_of_mem hone, List.sum_replicate_nat, List.length_map, length_span,
    Nat.mul_one]

theorem weight_request (j : Job svc) :
    weight svc (.request j.key j.method j.params) = 3 * (j.total + 1) + 1 := by
  rw [weight, j.answers]
  rfl

/-! ## Each turn -/

theorem serve_request (j : Job svc) (fresh : Uuid) :
    Agent.serve svc fresh (.request j.key j.method j.params) =
      ⟨.streaming (j.sender (uuidText fresh) 0 0), [.request j.key j.method j.params], []⟩ := by
  have hid : ¬ (Uuid.parse j.key).isNone := by
    rw [Job.key, uuidText, Uuid.parse_text]
    exact Bool.false_ne_true
  have hsent : 0 - j.head = 0 := Nat.zero_sub _
  rw [Agent.serve, if_neg hid, j.answers, Job.sender, hsent, List.drop_zero]
  rfl

theorem short_nonce (nonce : Uuid) : (uuidText nonce).utf8ByteSize ≤ 128 := by
  rw [uuidText, String.utf8ByteSize_ofList, Uuid.utf8Len_text]
  decide

theorem serve_ping (nonce fresh : Uuid) :
    Agent.serve svc fresh (.ping (uuidText nonce)) =
      ⟨.serving, [.ping (uuidText nonce)], [.pong (uuidText nonce)]⟩ := by
  rw [Agent.serve, if_pos (short_nonce nonce)]

/-- The agent, answering a ping or taking up a request. -/
theorem agent_serves {fresh : Uuid} {m : Message} {rest : List Message} (hagent : w.agent = .serving)
    (hup : w.up = m :: rest) :
    w.agent.act svc fresh w.up = some (Agent.serve svc fresh m) := by
  rw [hagent, hup]
  rfl

theorem agent_idle {fresh : Uuid} (hagent : w.agent = .serving) (hup : w.up = []) :
    w.agent.act svc fresh w.up = none := by
  rw [hagent, hup]
  rfl

section
variable {j : Job svc} {stream : String} {p q a : Nat} {inbox : List Message}

/-- The turns of a sender: it writes the next message, answers the request, takes an
    acknowledgement, or has nothing to do. -/
theorem sender_turns (fresh : Uuid) (ha : a ≤ q - j.head) (hq : q ≤ p) (hp : p ≤ j.total)
    (hup : inbox = span (streamAck stream) a (q - j.head)) :
    (p < j.total ∧ p + 1 - j.head ≤ a + streamWindow ∧
      (Agent.streaming (j.sender stream p a)).act svc fresh inbox =
        some ⟨.streaming (j.sender stream (p + 1) a), [], [j.message stream p]⟩) ∨
    (p = j.total ∧ q = j.total ∧ a = q - j.head ∧
      (Agent.streaming (j.sender stream p a)).act svc fresh inbox =
        some ⟨.serving, [], [j.response]⟩) ∨
    (a < q - j.head ∧
      (Agent.streaming (j.sender stream p a)).act svc fresh inbox =
        some ⟨.streaming (j.sender stream p (a + 1)), [streamAck stream a], []⟩) ∨
    (q < p ∧ a = q - j.head ∧ (Agent.streaming (j.sender stream p a)).act svc fresh inbox = none) := by
  have hroom : 1 ≤ streamWindow := by decide
  have hpos := j.chunks_pos
  have htotal : j.total = j.head + chunks j.payload.bytes := rfl
  by_cases hwrite : p < j.total ∧ (p < j.head ∨ p - j.head < a + streamWindow)
  · exact Or.inl ⟨hwrite.1, by omega, Agent.act_write (j.move_write hwrite.1 hwrite.2 (by omega))⟩
  refine Or.inr ?_
  by_cases hall : a = p - j.head
  · obtain rfl : p = j.total := by omega
    obtain rfl : q = j.total := by omega
    obtain rfl : a = chunks j.payload.bytes := by omega
    exact Or.inl ⟨rfl, rfl, by omega, Agent.act_finish (j.move_finish stream)⟩
  have hwait : (j.sender stream p a).move = .wait := j.move_wait (by omega) (by omega) (by omega)
  refine Or.inr ?_
  by_cases hack : a < q - j.head
  · rw [hup, span_cons hack]
    exact Or.inl ⟨hack, Agent.act_receive hwait (j.receive_ack (by omega))⟩
  · obtain rfl : a = q - j.head := by omega
    rw [hup, span_self]
    exact Or.inr ⟨by omega, rfl, Agent.act_wait hwait⟩

end

/-- Answering a ping. -/
theorem quiet_agent {result : Option (Except Error Value)} {fresh : Uuid} (h : Quiet result w)
    (hstep : step svc w (.agent fresh) = some w') :
    Quiet result w' ∧ w'.read = w.read ∧ work svc w' < work svc w := by
  obtain ⟨act, hact, hagent', hclient', hup', hdown', hread'⟩ := step_agent hstep
  cases h with
  | rest hagent hclient hup hdown =>
    rw [agent_idle hagent hup] at hact
    cases hact
  | pinged nonce hagent hclient hup hdown =>
    rw [agent_serves hagent hup, serve_ping] at hact
    obtain rfl := Option.some.inj hact
    rw [hup] at hup'
    rw [hdown] at hdown'
    refine ⟨.ponged nonce hagent' (hclient'.trans hclient) hup' hdown', hread', ?_⟩
    unfold work
    rw [hagent', hup', hdown', hup, hagent, hdown]
    show 3 * 0 + 2 * 1 + 0 < 3 * 0 + 2 * 0 + (3 + 0)
    omega
  | ponged nonce hagent hclient hup hdown =>
    rw [agent_idle hagent hup] at hact
    cases hact

/-- **A turn of the agent** keeps the phase and uses up work. -/
theorem phase_agent {j : Job svc} {fresh : Uuid} (h : Phase j w)
    (hstep : step svc w (.agent fresh) = some w') : Phase j w' ∧ work svc w' < work svc w := by
  obtain ⟨act, hact, hagent', hclient', hup', hdown', hread'⟩ := step_agent hstep
  cases h with
  | asked hagent hclient hup hdown hread =>
    rw [agent_serves hagent hup, serve_request] at hact
    obtain rfl := Option.some.inj hact
    rw [hup] at hup'
    rw [hdown] at hdown'
    constructor
    · refine .streaming (uuidText fresh) 0 0 0 hagent' ?_ ?_ ?_ ?_ (Nat.zero_le _) (Nat.le_refl _)
        (Nat.zero_le _) ?_
      · rw [hclient', hclient, j.receiver_zero]
      · rw [hup', Nat.zero_sub, span_self]
        rfl
      · rw [hdown', span_self]
        rfl
      · rw [hread', hread, span_self]
      · rw [Nat.zero_sub]
        exact Nat.zero_le _
    · unfold work
      rw [hagent', hup', hdown', hup, hagent, hdown, left_sender j (Nat.zero_le _), List.map_singleton,
        weight_request]
      simp only [left, List.drop_succ_cons, List.drop_zero, List.map_nil, List.sum_nil, List.append_nil,
        List.length_nil, List.sum_singleton, List.length_singleton]
      omega
  | streaming stream p q a hagent hclient hup hdown hread ha hq hp hwindow =>
    rw [hagent] at hact
    have hwork : work svc w = 3 * (j.total - p + 1) + 2 * (p - q) + (q - j.head - a) := by
      unfold work
      rw [hagent, hdown, hup, left_sender j hp, length_span, weight_acks]
    obtain ⟨hlt, hnew, hturn⟩ | ⟨rfl, rfl, rfl, hturn⟩ | ⟨hack, hturn⟩ | ⟨-, -, hturn⟩ :=
      sender_turns fresh ha hq hp hup
    · -- a message is written
      obtain rfl := Option.some.inj (hturn.symm.trans hact)
      have hdown'' : w'.down = span (j.message stream) q (p + 1) := by
        rw [hdown', hdown, span_concat hq]
      refine ⟨.streaming stream (p + 1) q a hagent' (hclient'.trans hclient) (hup'.trans hup) hdown''
        (hread'.trans hread) ha (by omega) hlt hnew, ?_⟩
      have hwork' : work svc w' =
          3 * (j.total - (p + 1) + 1) + 2 * (p + 1 - q) + (q - j.head - a) := by
        unfold work
        rw [hagent', hdown'', hup', hup, left_sender j hlt, length_span]
        simp only [List.length_nil, List.drop_zero, weight_acks]
      omega
    · -- the request is answered
      obtain rfl := Option.some.inj (hturn.symm.trans hact)
      rw [hup, span_self] at hup'
      rw [hdown, span_self] at hdown'
      refine ⟨.answered stream hagent' (hclient'.trans hclient) hup' hdown' (hread'.trans hread), ?_⟩
      rw [hwork, work, hagent', hup', hdown']
      simp only [left, List.nil_append, List.length_nil, List.length_singleton, List.drop_nil, List.map_nil,
        List.sum_nil]
      omega
    · -- an acknowledgement is taken
      obtain rfl := Option.some.inj (hturn.symm.trans hact)
      have hup'' : w'.up = span (streamAck stream) (a + 1) (q - j.head) := by
        rw [hup', hup, span_cons hack]
        rfl
      have hdown'' : w'.down = span (j.message stream) q p := by
        rw [hdown', hdown]
        exact List.append_nil _
      refine ⟨.streaming stream p q (a + 1) hagent' (hclient'.trans hclient) hup'' hdown''
        (hread'.trans hread) hack hq hp (by omega), ?_⟩
      have hwork' : work svc w' =
          3 * (j.total - p + 1) + 2 * (p - q) + (q - j.head - (a + 1)) := by
        unfold work
        rw [hagent', hdown'', hup'', left_sender j hp, length_span, weight_acks]
      omega
    · rw [hturn] at hact
      cases hact
  | answered stream hagent hclient hup hdown hread =>
    rw [agent_idle hagent hup] at hact
    cases hact
  | done hquiet hread =>
    obtain ⟨hquiet', hread', hwork⟩ := quiet_agent hquiet hstep
    exact ⟨.done hquiet' (by rw [hread', hread]), hwork⟩

/-- A client at its request, with a message to read. -/
theorem client_reads {r : Receiver} {m : Message} {rest : List Message}
    (hclient : w.client = .reading r) (hdown : w.down = m :: rest) :
    w.client.act P w.down = some ⟨(r.receive P m).1, [m], (r.receive P m).2⟩ := by
  rw [hclient, hdown]
  rfl

theorem client_waits {r : Receiver} (hclient : w.client = .reading r) (hdown : w.down = []) :
    w.client.act P w.down = none := by
  rw [hclient, hdown]
  rfl

theorem client_pong {result : Option (Except Error Value)} {nonce : String} {rest : List Message}
    (hclient : w.client = .pinging result nonce) (hdown : w.down = .pong nonce :: rest) :
    w.client.act P w.down = some ⟨.idle result, [.pong nonce], []⟩ := by
  rw [hclient, hdown, Client.act.eq_def]
  simp only [if_true]

/-- Reading the answer to a ping. -/
theorem quiet_client {result : Option (Except Error Value)} (h : Quiet result w)
    (hstep : step svc w .client = some w') :
    Quiet result w' ∧ w'.read = w.read ∧ work svc w' < work svc w := by
  obtain ⟨act, hact, hclient', hagent', hdown', hup', hread'⟩ := step_client hstep
  cases h with
  | rest hagent hclient hup hdown =>
    rw [hclient] at hact
    cases hact
  | pinged nonce hagent hclient hup hdown =>
    rw [hclient, hdown] at hact
    cases hact
  | ponged nonce hagent hclient hup hdown =>
    rw [client_pong hclient hdown] at hact
    obtain rfl := Option.some.inj hact
    rw [hup] at hup'
    rw [hdown] at hdown'
    rw [hclient] at hread'
    refine ⟨.rest (hagent'.trans hagent) hclient' hup' hdown', hread', ?_⟩
    unfold work
    rw [hagent', hup', hdown', hup, hagent, hdown]
    show 3 * 0 + 2 * 0 + 0 < 3 * 0 + 2 * 1 + 0
    omega

/-- **A turn of the client** does the same. -/
theorem phase_client {j : Job svc} (h : Phase j w) (hstep : step svc w .client = some w') :
    Phase j w' ∧ work svc w' < work svc w := by
  obtain ⟨act, hact, hclient', hagent', hdown', hup', hread'⟩ := step_client hstep
  cases h with
  | asked hagent hclient hup hdown hread =>
    rw [client_waits hclient hdown] at hact
    cases hact
  | streaming stream p q a hagent hclient hup hdown hread ha hq hp hwindow =>
    cases Nat.eq_or_lt_of_le hq with
    | inl heq =>
      rw [heq, span_self] at hdown
      rw [client_waits hclient hdown] at hact
      cases hact
    | inr hlt =>
      rw [span_cons hlt] at hdown
      rw [client_reads hclient hdown, j.receive_message (by omega)] at hact
      obtain rfl := Option.some.inj hact
      rw [hclient] at hread'
      have hread'' : w'.read = span (j.message stream) 0 (q + 1) := by
        rw [hread', span_concat (Nat.zero_le q), ← hread]
        rfl
      have hdown'' : w'.down = span (j.message stream) (q + 1) p := by
        rw [hdown', hdown]
        rfl
      have hup'' : w'.up = span (streamAck stream) a (q + 1 - j.head) := by
        rw [hup', hup]
        unfold Job.answer
        split
        · next hhead =>
          have hsent : q + 1 - j.head = q - j.head + 1 := by omega
          rw [hsent, span_concat ha]
        · next hhead =>
          have hsent : q + 1 - j.head = q - j.head := by omega
          rw [hsent, List.append_nil]
      refine ⟨.streaming stream p (q + 1) a (hagent'.trans hagent) hclient' hup'' hdown'' hread''
        (by omega) hlt hp hwindow, ?_⟩
      unfold work
      rw [hagent', hdown'', hup'', hdown, hup, weight_acks, weight_acks, length_span,
        List.length_cons, length_span]
      omega
  | answered stream hagent hclient hup hdown hread =>
    rw [client_reads hclient hdown, j.receive_response] at hact
    obtain rfl := Option.some.inj hact
    rw [hclient] at hread'
    rw [hup] at hup'
    rw [hdown] at hdown'
    constructor
    · refine .done (.rest (hagent'.trans hagent) hclient' hup' hdown') ?_
      have hwhole : j.payload.bytes.take ((j.total - j.head) * chunkSize) = j.payload.bytes := by
        have hsent : j.total - j.head = chunks j.payload.bytes := Nat.add_sub_cancel_left _ _
        rw [hsent]
        exact List.take_of_length_le (length_le_chunks _)
      have hread'' : w'.read = span (j.message stream) 0 j.total ++ [j.response] := by
        rw [hread', ← hread]
        rfl
      rw [hread'', assembled_append, j.assembled_span stream (Nat.le_refl _), hwhole]
      exact List.append_nil _
    · unfold work
      rw [hagent', hup', hdown', hup, hdown, hagent]
      show 3 * 0 + 2 * 0 + 0 < 3 * 0 + 2 * 1 + 0
      omega
  | done hquiet hread =>
    obtain ⟨hquiet', hread', hwork⟩ := quiet_client hquiet hstep
    exact ⟨.done hquiet' (by rw [hread', hread]), hwork⟩

/-! ## Runs -/

/-- A client at its request is not kept waiting: it has a message to read, or the agent has
    one to write or to take. -/
theorem phase_moves {j : Job svc} (h : Phase j w) (hreading : w.client.isReading) (fresh : Uuid) :
    (step svc w (.agent fresh)).isSome ∨ (step svc w .client).isSome := by
  cases h with
  | asked hagent hclient hup hdown hread =>
    refine Or.inl (agent_moves ?_)
    rw [agent_serves hagent hup]
    rfl
  | streaming stream p q a hagent hclient hup hdown hread ha hq hp hwindow =>
    cases Nat.eq_or_lt_of_le hq with
    | inl heq =>
      refine Or.inl (agent_moves ?_)
      rw [hagent]
      obtain ⟨-, -, hturn⟩ | ⟨-, -, -, hturn⟩ | ⟨-, hturn⟩ | ⟨hlt, -, -⟩ :=
        sender_turns fresh ha hq hp hup
      · rw [hturn]; rfl
      · rw [hturn]; rfl
      · rw [hturn]; rfl
      · omega
    | inr hlt =>
      rw [span_cons hlt] at hdown
      refine Or.inr (client_moves ?_)
      rw [client_reads hclient hdown]
      rfl
  | answered stream hagent hclient hup hdown hread =>
    refine Or.inr (client_moves ?_)
    rw [client_reads hclient hdown]
    rfl
  | done hquiet hread =>
    have hidle : w.client.isReading = false := by
      cases hquiet with
      | rest hagent hclient hup hdown => rw [hclient]; rfl
      | pinged nonce hagent hclient hup hdown => rw [hclient]; rfl
      | ponged nonce hagent hclient hup hdown => rw [hclient]; rfl
    rw [hidle] at hreading
    cases hreading

/-- The keep-alive passes a lane that is taken. -/
theorem keepAlive_skips {nonce : Uuid} {r : Receiver} (hclient : w.client = .reading r) :
    step svc w (.keepAlive nonce) = some w := by
  rw [step, hclient]

theorem quiet_keepAlive {result : Option (Except Error Value)} {nonce : Uuid} (h : Quiet result w)
    (hstep : step svc w (.keepAlive nonce) = some w') :
    Quiet result w' ∧ w'.read = w.read := by
  cases h with
  | rest hagent hclient hup hdown =>
    rw [step, hclient] at hstep
    obtain rfl := Option.some.inj hstep
    refine ⟨.pinged nonce hagent rfl ?_ hdown, rfl⟩
    show w.up ++ [_] = _
    rw [hup]
    rfl
  | pinged nonce' hagent hclient hup hdown =>
    rw [step, hclient] at hstep
    obtain rfl := Option.some.inj hstep
    exact ⟨.pinged nonce' hagent hclient hup hdown, rfl⟩
  | ponged nonce' hagent hclient hup hdown =>
    rw [step, hclient] at hstep
    obtain rfl := Option.some.inj hstep
    exact ⟨.ponged nonce' hagent hclient hup hdown, rfl⟩

theorem phase_keepAlive {j : Job svc} {nonce : Uuid} (h : Phase j w)
    (hstep : step svc w (.keepAlive nonce) = some w') : Phase j w' := by
  cases h with
  | asked hagent hclient hup hdown hread =>
    obtain rfl := Option.some.inj ((keepAlive_skips hclient).symm.trans hstep)
    exact .asked hagent hclient hup hdown hread
  | streaming stream p q a hagent hclient hup hdown hread ha hq hp hwindow =>
    obtain rfl := Option.some.inj ((keepAlive_skips hclient).symm.trans hstep)
    exact .streaming stream p q a hagent hclient hup hdown hread ha hq hp hwindow
  | answered stream hagent hclient hup hdown hread =>
    obtain rfl := Option.some.inj ((keepAlive_skips hclient).symm.trans hstep)
    exact .answered stream hagent hclient hup hdown hread
  | done hquiet hread =>
    obtain ⟨hquiet', hread'⟩ := quiet_keepAlive hquiet hstep
    exact .done hquiet' (by rw [hread', hread])

end Channel

/-- A turn of one of the two parties. -/
def Event.turn : Event → Bool
  | .agent _ | .client => true
  | _ => false

/-- A turn, or the keep-alive coming round. -/
def Event.plain : Event → Bool
  | .agent _ | .client | .keepAlive _ => true
  | _ => false

namespace Channel

theorem quiet_plain {result : Option (Except Error Value)} {e : Event} (he : e.plain)
    (h : Quiet result w) (hstep : step svc w e = some w') : Quiet result w' := by
  cases e with
  | agent fresh => exact (quiet_agent h hstep).1
  | client => exact (quiet_client h hstep).1
  | keepAlive nonce => exact (quiet_keepAlive h hstep).1
  | request id method params => cases he
  | tamper up down => cases he

theorem phase_plain {j : Job svc} {e : Event} (he : e.plain) (h : Phase j w)
    (hstep : step svc w e = some w') : Phase j w' := by
  cases e with
  | agent fresh => exact (phase_agent h hstep).1
  | client => exact (phase_client h hstep).1
  | keepAlive nonce => exact phase_keepAlive h hstep
  | request id method params => cases he
  | tamper up down => cases he

theorem quiet_run {result : Option (Except Error Value)} {es : List Event} (hes : ∀ e ∈ es, e.plain)
    (h : Quiet result w) (hrun : Run.exec (step svc) es w = some w') : Quiet result w' := by
  induction es generalizing w with
  | nil =>
    obtain rfl := Option.some.inj hrun
    exact h
  | cons e es ih =>
    obtain ⟨m, hm, hrun'⟩ := Run.exec_cons.mp hrun
    have hquiet := quiet_plain (hes e List.mem_cons_self) h hm
    exact ih (fun e' he' => hes e' (List.mem_cons_of_mem _ he')) hquiet hrun'

theorem phase_run {j : Job svc} {es : List Event} (hes : ∀ e ∈ es, e.plain) (h : Phase j w)
    (hrun : Run.exec (step svc) es w = some w') : Phase j w' := by
  induction es generalizing w with
  | nil =>
    obtain rfl := Option.some.inj hrun
    exact h
  | cons e es ih =>
    obtain ⟨m, hm, hrun'⟩ := Run.exec_cons.mp hrun
    have hphase := phase_plain (hes e List.mem_cons_self) h hm
    exact ih (fun e' he' => hes e' (List.mem_cons_of_mem _ he')) hphase hrun'

/-- There are only so many turns. -/
theorem turns_le {j : Job svc} {es : List Event} (hes : ∀ e ∈ es, e.turn) (h : Phase j w)
    (hrun : Run.exec (step svc) es w = some w') : es.length + work svc w' ≤ work svc w := by
  induction es generalizing w with
  | nil =>
    obtain rfl := Option.some.inj hrun
    exact Nat.le_of_eq (Nat.zero_add _)
  | cons e es ih =>
    obtain ⟨m, hm, hrun'⟩ := Run.exec_cons.mp hrun
    have hturn : Phase j m ∧ work svc m < work svc w := by
      cases e with
      | agent fresh => exact phase_agent h hm
      | client => exact phase_client h hm
      | _ => cases hes _ List.mem_cons_self
    have hle := ih (fun e' he' => hes e' (List.mem_cons_of_mem _ he')) hturn.1 hrun'
    rw [List.length_cons]
    omega

/-- A request goes out from a client at rest. -/
theorem phase_request {result : Option (Except Error Value)} (j : Job svc) (h : Quiet result w)
    (hstep : step svc w (.request j.id j.method j.params) = some w') : Phase j w' := by
  cases h with
  | rest hagent hclient hup hdown =>
    rw [step, hclient] at hstep
    obtain rfl := Option.some.inj hstep
    have hexpected := svc.echoes _ _ _ _ j.answers
    refine .asked hagent ?_ ?_ hdown rfl
    · refine congrArg Client.reading (j.receiver_eq rfl hexpected ?_ ?_ ?_ ?_)
      · exact (if_pos (Nat.succ_pos _)).symm
      · rw [Nat.zero_sub, Nat.zero_mul, List.take_zero]
      · exact (Nat.zero_sub _).symm
      · exact (Nat.zero_min _).symm
    · show w.up ++ [_] = _
      rw [hup]
      rfl
  | pinged nonce hagent hclient hup hdown =>
    rw [step, hclient] at hstep
    cases hstep
  | ponged nonce hagent hclient hup hdown =>
    rw [step, hclient] at hstep
    cases hstep

/-- **A request in any order of turns.** -/
theorem transfer_phase {result : Option (Except Error Value)} (j : Job svc) (h : Quiet result w)
    {before after : List Event} (hbefore : ∀ e ∈ before, e.plain) (hafter : ∀ e ∈ after, e.plain)
    (hrun : Run.exec (step svc) (before ++ .request j.id j.method j.params :: after) w = some w') :
    Phase j w' := by
  rw [Run.exec_append] at hrun
  obtain ⟨m, hm, hrun'⟩ := Option.bind_eq_some_iff.mp hrun
  obtain ⟨n, hn, hrun''⟩ := Run.exec_cons.mp hrun'
  have hquiet := quiet_run hbefore h hm
  exact phase_run hafter (phase_request j hquiet hn) hrun''

/-- Neither party fails, and a request that is over was answered. -/
theorem phase_sound {j : Job svc} (h : Phase j w) :
    w.agent ≠ .failed ∧ (∀ e, w.client ≠ .failed e) ∧
      (w.client.isReading = false →
        Quiet (some (.ok j.result)) w ∧ assembled w.read = j.payload.bytes) := by
  cases h with
  | asked hagent hclient hup hdown hread =>
    rw [hagent, hclient]
    exact ⟨nofun, nofun, nofun⟩
  | streaming stream p q a hagent hclient hup hdown hread ha hq hp hwindow =>
    rw [hagent, hclient]
    exact ⟨nofun, nofun, nofun⟩
  | answered stream hagent hclient hup hdown hread =>
    rw [hagent, hclient]
    exact ⟨nofun, nofun, nofun⟩
  | done hquiet hread =>
    refine ⟨?_, ?_, fun _ => ⟨hquiet, hread⟩⟩
    · cases hquiet with
      | rest hagent hclient hup hdown => rw [hagent]; exact nofun
      | pinged nonce hagent hclient hup hdown => rw [hagent]; exact nofun
      | ponged nonce hagent hclient hup hdown => rw [hagent]; exact nofun
    · cases hquiet with
      | rest hagent hclient hup hdown => rw [hclient]; exact nofun
      | pinged nonce hagent hclient hup hdown => rw [hclient]; exact nofun
      | ponged nonce hagent hclient hup hdown => rw [hclient]; exact nofun

end Channel

end

end Porthop.Git.Wire
