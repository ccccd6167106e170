import Porthop.Lib.Lists
import Porthop.Lib.Run

/- The Wayland server for clipboard readers (`wl_protocol.rs`).

   A device is told of the formats of a revision in an offer, and asks for them by it. What a
   revision offers is a parameter; with each request comes the revision that is current, or none
   when the clipboard can not be read. A device whose client is gone keeps its number. -/
namespace Porthop.Wayland

open Porthop.Run

structure Device where
  there : Bool
  /-- How many of its offers are outstanding. -/
  active : Nat

variable {ρ : Type}

structure Offered (ρ : Type) where
  revision : Option ρ
  device : Nat
  mimes : List String

structure State (ρ : Type) where
  revision : Option ρ
  formats : List String
  devices : List Device
  offers : List (Offered ρ)
  transfers : Nat

inductive Event (ρ : Type) where
  | refresh (current : Option ρ)
  | getDataDevice (current : Option ρ)
  | gone (i : Nat)
  | dropped (k : Nat)
  | receive (k : Nat) (mime : String) (current : Option ρ)
  | finished

/-- The answer to a request: nothing is sent, or the value of a format is written. -/
inductive Answer where
  | stale
  | rejected
  | transfer (format : String)
  deriving DecidableEq

namespace State

def new : State ρ := ⟨none, [], [], [], 0⟩

/-- What an offer announces. -/
def mimes (formats : List String) : List String :=
  formats ++ if "text/plain" ∈ formats then ["text/plain;charset=utf-8"] else []

def publish (s : State ρ) (i : Nat) : State ρ :=
  match s.devices[i]? with
  | none => s
  | some device =>
    if !device.there || s.formats.isEmpty || device.active ≥ 32 then s
    else { s with
      devices := s.devices.set i { device with active := device.active + 1 }
      offers := s.offers ++ [⟨s.revision, i, mimes s.formats⟩] }

section
variable [DecidableEq ρ] (formatsOf : ρ → List String)

def refresh (s : State ρ) (current : Option ρ) : State ρ :=
  if s.revision = current then s
  else (List.range s.devices.length).foldl publish
    { s with revision := current, formats := (current.map formatsOf).getD [] }

def getDataDevice (s : State ρ) (current : Option ρ) : State ρ :=
  let s := s.refresh formatsOf current
  if (s.devices.filter Device.there).length ≥ 32 then s
  else { s with devices := s.devices ++ [Device.mk true 0] }.publish s.devices.length

/-- Old offers cannot resurrect expired or replaced clipboard contents. -/
def receive (s : State ρ) (offer : Offered ρ) (mime : String) (current : Option ρ) : Answer :=
  if offer.revision = none ∨ current ≠ offer.revision ∨ s.revision ≠ offer.revision then .stale
  else
    let mime := if mime = "text/plain;charset=utf-8" then "text/plain" else mime
    if mime ∉ s.formats ∨ s.transfers ≥ 8 then .rejected else .transfer mime

def step (s : State ρ) : Event ρ → Option (State ρ)
  | .refresh current => some (s.refresh formatsOf current)
  | .getDataDevice current => some (s.getDataDevice formatsOf current)
  | .gone i => some { s with devices := s.devices.modify i fun d => { d with there := false } }
  | .dropped k => (s.offers[k]?).map fun offer => { s with
      offers := s.offers.eraseIdx k
      devices := s.devices.modify offer.device fun d => { d with active := d.active - 1 } }
  | .receive k mime current => (s.offers[k]?).map fun offer =>
    match s.receive offer mime current with
    | .transfer _ => { s with transfers := s.transfers + 1 }
    | .stale | .rejected => s
  | .finished => some { s with transfers := s.transfers - 1 }

end

end State

/-! ## What is announced -/

section
variable (formatsOf : ρ → List String)

/-- The formats are those of the revision, and an offer announces those of its own. -/
structure Announces (s : State ρ) : Prop where
  formats : s.formats = (s.revision.map formatsOf).getD []
  offers : ∀ offer ∈ s.offers, ∃ r, offer.revision = some r ∧
    offer.mimes = State.mimes (formatsOf r)

variable {formatsOf : ρ → List String} {s t : State ρ}

theorem Announces.publish (h : Announces formatsOf s) (i : Nat) :
    Announces formatsOf (s.publish i) := by
  rw [State.publish]
  split
  · exact h
  · next device hdevice =>
    split
    · exact h
    · next hready =>
      refine ⟨h.formats, fun offer hoffer => ?_⟩
      rcases List.mem_append.mp hoffer with hold | hnew
      · exact h.offers offer hold
      · rw [List.mem_singleton.mp hnew]
        -- something is offered, so the clipboard could be read
        cases hrevision : s.revision with
        | none =>
          have hnil := h.formats
          rw [hrevision] at hnil
          simp [hnil] at hready
        | some r =>
          have hformats := h.formats
          rw [hrevision] at hformats
          exact ⟨r, rfl, congrArg State.mimes hformats⟩

variable [DecidableEq ρ]

theorem Announces.refresh (h : Announces formatsOf s) (current : Option ρ) :
    Announces formatsOf (s.refresh formatsOf current) := by
  rw [State.refresh]
  split
  · exact h
  · have hfold : ∀ (is : List Nat) (s : State ρ), Announces formatsOf s →
        Announces formatsOf (is.foldl State.publish s) := by
      intro is
      induction is with
      | nil => exact fun s hs => hs
      | cons i is ih => exact fun s hs => ih (s.publish i) (hs.publish i)
    exact hfold _ _ ⟨rfl, h.offers⟩

theorem Announces.step {e : Event ρ} (h : Announces formatsOf s)
    (hstep : s.step formatsOf e = some t) : Announces formatsOf t := by
  cases e with
  | refresh current =>
    cases hstep
    exact h.refresh current
  | getDataDevice current =>
    cases hstep
    have hrefresh := h.refresh current
    rw [State.getDataDevice]
    split
    · exact hrefresh
    · have hadded : Announces formatsOf { s.refresh formatsOf current with
          devices := (s.refresh formatsOf current).devices ++ [Device.mk true 0] } :=
        ⟨hrefresh.formats, hrefresh.offers⟩
      exact hadded.publish _
  | gone i =>
    cases hstep
    exact ⟨h.formats, h.offers⟩
  | dropped k =>
    obtain ⟨offer, -, rfl⟩ := Option.map_eq_some_iff.mp hstep
    exact ⟨h.formats, fun offer hoffer => h.offers offer (List.mem_of_mem_eraseIdx hoffer)⟩
  | receive k mime current =>
    obtain ⟨offer, -, rfl⟩ := Option.map_eq_some_iff.mp hstep
    split
    · exact ⟨h.formats, h.offers⟩
    · exact h
    · exact h
  | finished =>
    cases hstep
    exact ⟨h.formats, h.offers⟩

theorem announces_run {es : List (Event ρ)}
    (hrun : exec (State.step formatsOf) es State.new = some s) : Announces formatsOf s :=
  exec_invariant (fun _ _ _ hs he => hs.step he) ⟨rfl, fun _ ho => absurd ho List.not_mem_nil⟩ hrun

/-! ## What is accepted -/

/-- The announced types of the revision that is current are accepted, but for the alias of a format
    that is not offered. -/
theorem receive_iff {es : List (Event ρ)}
    (hrun : exec (State.step formatsOf) es State.new = some s) {offer : Offered ρ} {mime : String}
    (hoffer : offer ∈ s.offers) (hmime : mime ∈ offer.mimes) (hsame : s.revision = offer.revision)
    (hfree : s.transfers < 8) :
    (∃ format ∈ s.formats, s.receive offer mime offer.revision = .transfer format) ↔
      (mime = "text/plain;charset=utf-8" → "text/plain" ∈ s.formats) := by
  have h := announces_run hrun
  obtain ⟨r, hrevision, hmimes⟩ := h.offers offer hoffer
  have hformats : s.formats = formatsOf r := by
    rw [h.formats, hsame, hrevision]
    rfl
  rw [hmimes, ← hformats] at hmime
  have hcurrent : ¬ (offer.revision = none ∨ offer.revision ≠ offer.revision ∨
      s.revision ≠ offer.revision) := by
    simp [hrevision, hsame]
  simp only [State.receive, if_neg hcurrent]
  by_cases halias : mime = "text/plain;charset=utf-8"
  · by_cases htext : "text/plain" ∈ s.formats
    · simp [halias, htext, Nat.not_le.mpr hfree]
    · simp [halias, htext]
  · have hoffered : mime ∈ s.formats := by
      rcases List.mem_append.mp hmime with hin | hin
      · exact hin
      · split at hin
        · exact absurd (List.mem_singleton.mp hin) halias
        · cases hin
    simp [halias, hoffered, Nat.not_le.mpr hfree]

end

end Porthop.Wayland
