import Porthop.Lib.Lists
import Porthop.Lib.Run
import Porthop.X11.Answers

/- Requests are answered within their bytes, and answers are framed.

   The limits of the atoms and of the clients hold in every state a server reaches, by one
   step lemma and the run rule; what a request leaves behind follows from them. -/
namespace Porthop.X11.Requests

open Crash

/-- The limits of the atoms and of every client that is connected. -/
structure Limits (s : Server) : Prop where
  atoms : s.atoms.Bounded
  clients : ∀ (i : Nat) (c : Connection), s.connections[i]? = some (some c) → c.client.Bounded

/-- What a request leaves behind: nothing has panicked, its packets are framed, and where one
    of them is an error the client and the atoms are what they were. -/
structure Sound (atoms : Atoms) (c : Connection) (t : World) : Prop where
  fine : t.panicked = false
  framed : ∀ b ∈ t.sent, Framed c.client.little b
  unchanged : (∃ b ∈ t.sent, isError b = true) → t.client = c.client ∧ t.atoms = atoms

section
variable {s t : Server} {atoms : Atoms} {c : Connection} {r : Bytes}

theorem limits_start : Limits Server.start where
  atoms := initialAtoms_bounded
  clients := fun i c h => by simp [Server.start] at h

theorem ready (hatoms : atoms.Bounded) (hclient : c.client.Bounded) :
    Ready ⟨atoms, c.client, (c.seq + 1) % 2 ^ 16, [], false⟩ where
  calm := ⟨rfl, hatoms, by simp, rfl⟩
  client := hclient
  sent := rfl

theorem handle_answered (hatoms : atoms.Bounded) (hclient : c.client.Bounded)
    (hlength : 4 ≤ r.length) (offer : Offer) (faults : List (Option Fault)) :
    Answered ⟨atoms, c.client, (c.seq + 1) % 2 ^ 16, [], false⟩
        (handle atoms c r offer faults).2 ∧
      ((handle atoms c r offer faults).1.isReturned = true →
        (handle atoms c r offer faults).2.client.Bounded) := by
  have hdone := request_done (ready hatoms hclient) hlength offer
  unfold handle
  match hrequest : request r offer ⟨atoms, c.client, (c.seq + 1) % 2 ^ 16, [], false⟩ faults with
  | (.returned u, t, rest) =>
    have ht := hdone.returned hrequest
    exact ⟨ht.1, fun _ => ht.2⟩
  | (.failed e, t, rest) => exact ⟨hdone.stopped hrequest rfl, fun h => by cases h⟩
  | (.ended, t, rest) => exact ⟨hdone.stopped hrequest rfl, fun h => by cases h⟩

theorem Answered.sound {w t : World} (h : Answered w t) :
    t.panicked = false ∧ (∀ b ∈ t.sent, Framed w.client.little b) ∧
      ((∃ b ∈ t.sent, isError b = true) → t.client = w.client ∧ t.atoms = w.atoms) := by
  rcases h with hcalm | hrefused
  · refine ⟨hcalm.fine, fun b hb => (hcalm.sent b hb).1, ?_⟩
    intro ⟨b, hb, herror⟩
    rw [(hcalm.sent b hb).2] at herror
    cases herror
  · exact ⟨hrefused.fine, hrefused.sent, fun _ => ⟨hrefused.client, hrefused.atoms⟩⟩

theorem Answered.bounded {w t : World} (h : Answered w t) (hatoms : w.atoms.Bounded) :
    t.atoms.Bounded := by
  rcases h with hcalm | hrefused
  · exact hcalm.atoms
  · exact hrefused.atoms ▸ hatoms

theorem limits_step (h : Limits s) (e : Event) (hstep : step s e = some t) : Limits t := by
  cases e with
  | connect little id =>
    obtain rfl := Option.some.inj hstep
    refine ⟨h.atoms, ?_⟩
    intro i c hc
    rcases Lists.getElem?_concat hc with hold | ⟨-, hnew⟩
    · exact h.clients i c hold
    · cases hnew
      exact Client.Bounded.new little (id * 2 ^ 20)
  | close i =>
    obtain rfl := Option.some.inj hstep
    refine ⟨h.atoms, ?_⟩
    intro j c hc
    rcases Lists.getElem?_set_cases hc with ⟨-, hclosed⟩ | ⟨-, hold⟩
    · cases hclosed
    · exact h.clients j c hold
  | request i r offer faults =>
    simp only [step] at hstep
    split at hstep
    case h_2 => cases hstep
    case h_1 c hc =>
      split at hstep
      case isTrue => cases hstep
      case isFalse hlength =>
        obtain rfl := Option.some.inj hstep
        have hanswered := handle_answered (r := r) h.atoms (h.clients i c hc) (by omega) offer faults
        refine ⟨hanswered.1.bounded h.atoms, ?_⟩
        intro j d hd
        rcases Lists.getElem?_set_cases hd with ⟨-, hgoes⟩ | ⟨-, hold⟩
        · split at hgoes
          case isTrue hreturned =>
            cases hgoes
            exact hanswered.2 hreturned
          case isFalse => cases hgoes
        · exact h.clients j d hold

/-- In every state a server reaches the limits hold, and whatever the bytes of a request, the
    answer to it is sound. -/
theorem requests_framed {events : List Event}
    (hrun : Run.exec step events Server.start = some s) :
    s.atoms.length ≤ 4096 ∧ ∀ (i : Nat) (c : Connection), s.connections[i]? = some (some c) →
      c.client.windows.card ≤ 64 ∧ c.client.graphicsContexts.card ≤ 64 ∧
      c.client.properties.entries.length ≤ 128 ∧
      ∀ (r : Bytes) (offer : Offer) (faults : List (Option Fault)), 4 ≤ r.length →
        r.length % 4 = 0 → Sound s.atoms c (handle s.atoms c r offer faults).2 := by
  have hlimits : Limits s :=
    Run.exec_invariant (fun _ e _ h hstep => limits_step h e hstep) limits_start hrun
  refine ⟨hlimits.atoms.count, ?_⟩
  intro i c hc
  have hclient := hlimits.clients i c hc
  refine ⟨hclient.windows, hclient.graphicsContexts, hclient.properties, ?_⟩
  intro r offer faults hlength _
  have hsound := (handle_answered (r := r) hlimits.atoms hclient hlength offer faults).1.sound
  exact ⟨hsound.1, hsound.2.1, hsound.2.2⟩

end

/-! ## A client that reads what it wrote -/

def emptyOffer : Offer := ⟨⟨[], fun _ => none⟩, by decide, by simp, by simp⟩

/-- A little-endian client creates a window that is told of its properties, and puts five
    bytes into one. -/
def writesProperty : List Event :=
  [.connect true 1,
    .request 0 [1, 0, 9, 0, 1, 0, 16, 0, 1, 0, 0, 0, 0, 0, 0, 0, 1, 0, 1, 0, 0, 0, 0, 0, 0, 0, 0, 0,
      0, 8, 0, 0, 0, 0, 64, 0] emptyOffer [],
    .request 0 [18, 0, 8, 0, 1, 0, 16, 0, 31, 0, 0, 0, 31, 0, 0, 0, 8, 0, 0, 0, 5, 0, 0, 0,
      104, 101, 108, 108, 111, 0, 0, 0] emptyOffer []]

def readsProperty : Bytes :=
  [20, 1, 6, 0, 1, 0, 16, 0, 31, 0, 0, 0, 0, 0, 0, 0, 0, 0, 0, 0, 2, 0, 0, 0]

theorem writtenProperty_framed :
    ∃ s c, Run.exec step writesProperty Server.start = some s ∧
      s.connections[0]? = some (some c) ∧
      (handle s.atoms c readsProperty emptyOffer []).2.sent.map List.length = [40, 32] ∧
      Sound s.atoms c (handle s.atoms c readsProperty emptyOffer []).2 := by
  have hsome : ((Run.exec step writesProperty Server.start).any fun s =>
      (s.connections[0]?).join.any fun c => decide
        ((handle s.atoms c readsProperty emptyOffer []).2.sent.map List.length = [40, 32])) =
      true := by decide
  obtain ⟨s, hs, hany⟩ := (Option.any_eq_true _ _).mp hsome
  obtain ⟨c, hjoin, hsizes⟩ := (Option.any_eq_true _ _).mp hany
  have hc : s.connections[0]? = some (some c) := Option.join_eq_some_iff.mp hjoin
  have hsound := ((requests_framed hs).2 0 c hc).2.2.2 readsProperty emptyOffer []
  exact ⟨s, c, hs, hc, of_decide_eq_true hsizes, hsound (by decide) (by decide)⟩

end Porthop.X11.Requests
