import Porthop.Git.Journal
import Porthop.Lib.Log
import Porthop.Lib.Run
import Porthop.Lib.Table

/- The reads of Git that can be cancelled (`reads.rs`).

   A read is registered before its request is sent, so that a cancel has something to name. The
   request claims it and holds it until it is dropped; a cancel takes it out of the registry
   and signals whoever holds it. Registration, claim, cancel and drop take the lock one at a
   time, in any order and for any ids; the ids themselves come from a generator.

   Beside the registry a log is kept of what succeeded. -/
namespace Porthop.Git.Reads

open Porthop.Log

/-- A server and the id of a read. -/
abbrev Key := Uuid × Uuid

structure Entry where
  key : Key
  /-- The channel of its signal, by number. -/
  signal : Nat
  claimed : Bool
  created : Nat

/-- A claimed read, with the channel it listens to. -/
structure Read where
  key : Key
  signal : Nat
  deriving DecidableEq

structure Registry where
  entries : Table Entry.key
  /-- What each channel shows, in the order they were made. -/
  channels : List Bool

def cancelledError : Error := .new "READ_CANCELLED" "Git read was cancelled."

/-- After so many nanoseconds an entry that nobody claimed is given up. -/
def abandoned : Nat := 60 * 10 ^ 9

def maxReads : Nat := 256

namespace Registry

def empty : Registry := ⟨.empty, []⟩

/-- A new entry under the id that was generated. -/
def register (r : Registry) (now : Nat) (server id : Uuid) : Except Error Uuid × Registry :=
  let entries := r.entries.delete fun e => !(e.claimed || now - e.created < abandoned)
  if entries.rows.length ≥ maxReads then
    (.error (.new "TOO_MANY_REQUESTS" "Too many pending Git reads."), { r with entries := entries })
  else
    (.ok id, ⟨entries.replace ⟨(server, id), r.channels.length, false, now⟩, r.channels ++ [false]⟩)

def claim (r : Registry) (server id : Uuid) : Except Error Read × Registry :=
  match r.entries.get (server, id) with
  | none => (.error cancelledError, r)
  | some entry =>
    if entry.claimed then (.error (.invalid "Git read ID was already used."), r)
    else
      (.ok ⟨(server, id), entry.signal⟩,
        { r with entries := r.entries.replace { entry with claimed := true } })

def remove (r : Registry) (key : Key) : Table Entry.key := r.entries.delete fun e => e.key = key

def cancel (r : Registry) (server id : Uuid) : Registry :=
  match r.entries.get (server, id) with
  | none => r
  | some entry => ⟨r.remove (server, id), r.channels.set entry.signal true⟩

def drop (r : Registry) (read : Read) : Registry := { r with entries := r.remove read.key }

/-- The wait for a cancel is over: the signal was given, or nobody is left who could. -/
def cancelled (r : Registry) (read : Read) : Bool :=
  r.channels[read.signal]? = some true || !r.entries.rows.any fun e => e.signal = read.signal

end Registry

/-! ## The calls -/

inductive Call where
  | register (server id : Uuid)
  | claim (server id : Uuid)
  | cancel (server id : Uuid)
  | drop (read : Read)
  | tick (d : Nat)

/-- What succeeded. -/
inductive Done where
  | registered (key : Key)
  | claimed (read : Read)
  | cancelled (key : Key)
  | dropped (key : Key)
  deriving DecidableEq

structure System where
  reads : Registry
  held : List Read
  now : Nat
  log : List Done

namespace System

def start : System := ⟨.empty, [], 0, []⟩

def step (s : System) : Call → Option System
  | .register server id =>
    match s.reads.register s.now server id with
    | (.error _, r) => some { s with reads := r }
    | (.ok _, r) => some { s with reads := r, log := s.log ++ [.registered (server, id)] }
  | .claim server id =>
    match s.reads.claim server id with
    | (.error _, r) => some { s with reads := r }
    | (.ok read, r) =>
      some { s with reads := r, held := read :: s.held, log := s.log ++ [.claimed read] }
  | .cancel server id =>
    some { s with reads := s.reads.cancel server id, log := s.log ++ [.cancelled (server, id)] }
  | .drop read =>
    if read ∈ s.held then
      some { s with
        reads := s.reads.drop read
        held := s.held.erase read
        log := s.log ++ [.dropped read.key] }
    else none
  | .tick d => some { s with now := s.now + d }

/-- The generator makes no id of a server a second time. -/
def generated (s : System) : Call → Bool
  | .register server id => .registered (server, id) ∉ s.log
  | _ => true

end System

/-! ## What the log says of the registry -/

/-- A read is claimed after its registration, if it was not cancelled since, and only once. -/
def Claimable (before : List Done) (x : Done) : Prop :=
  ∀ read, x = .claimed read → .registered read.key ∈ before ∧
    ¬ After (.registered read.key) (.cancelled read.key) before ∧
    ∀ other, .claimed other ∈ before → other.key ≠ read.key

structure EntryOk (s : System) (e : Entry) : Prop where
  registered : .registered e.key ∈ s.log
  uncancelled : ¬ After (.registered e.key) (.cancelled e.key) s.log
  undropped : .dropped e.key ∉ s.log
  quiet : s.reads.channels[e.signal]? = some false
  unclaimed : e.claimed = false → ∀ read, .claimed read ∈ s.log → read.key ≠ e.key
  claimed : e.claimed = true → ⟨e.key, e.signal⟩ ∈ s.held

/-- A read is signalled once a cancel comes after its claim, and has its entry until then. -/
structure ReadOk (s : System) (r : Read) : Prop where
  claimed : .claimed r ∈ s.log
  signalled : After (.claimed r) (.cancelled r.key) s.log → s.reads.channels[r.signal]? = some true
  waiting : ¬ After (.claimed r) (.cancelled r.key) s.log →
    ∃ e ∈ s.reads.entries.rows, e.key = r.key ∧ e.signal = r.signal ∧ e.claimed = true

structure Inv (s : System) : Prop where
  bound : s.reads.entries.rows.length ≤ maxReads
  entry : ∀ e ∈ s.reads.entries.rows, EntryOk s e
  signals : ∀ e ∈ s.reads.entries.rows, ∀ e' ∈ s.reads.entries.rows, e.signal = e'.signal → e = e'
  read : ∀ r ∈ s.held, ReadOk s r
  once : (s.held.map Read.key).Nodup
  claims : Each Claimable s.log
  dropped : ∀ k, .dropped k ∈ s.log → .registered k ∈ s.log

variable {s t : System}

theorem inv_start : Inv .start where
  bound := Nat.zero_le _
  entry := fun _ he => absurd he List.not_mem_nil
  signals := fun _ he => absurd he List.not_mem_nil
  read := fun _ hr => absurd hr List.not_mem_nil
  once := List.nodup_nil
  claims := each_nil
  dropped := fun _ hk => absurd hk List.not_mem_nil

/-- What was claimed was registered. -/
theorem Inv.registered (h : Inv s) {r : Read} (hr : .claimed r ∈ s.log) :
    .registered r.key ∈ s.log := by
  obtain ⟨pre, post, heq⟩ := List.append_of_mem hr
  have hbefore := (h.claims pre _ post heq r rfl).1
  rw [heq]
  exact List.mem_append_left _ hbefore

/-- Two reads with one key are one read. -/
theorem Inv.alone (h : Inv s) {r r' : Read} (hr : r ∈ s.held) (hr' : r' ∈ s.held)
    (hkey : r.key = r'.key) : r = r' := List.inj_on_of_nodup_map h.once hr hr' hkey

/-- A claimed entry is that of the read with its key. -/
theorem Inv.entry_of_read (h : Inv s) {r : Read} (hr : r ∈ s.held) {e : Entry}
    (he : e ∈ s.reads.entries.rows) (hkey : e.key = r.key) : e.signal = r.signal := by
  cases hclaimed : e.claimed with
  | true =>
    have hheld := (h.entry e he).claimed hclaimed
    rw [← h.alone hheld hr hkey]
  | false => exact absurd hkey.symm ((h.entry e he).unclaimed hclaimed r (h.read r hr).claimed)

/-! ## Registration -/

/-- Entries that nobody claimed may go. -/
theorem Inv.expire (h : Inv s) {p : Entry → Bool}
    (hp : ∀ e ∈ s.reads.entries.rows, p e = true → e.claimed = false) :
    Inv { s with reads := { s.reads with entries := s.reads.entries.delete p } } where
  bound := Nat.le_trans (Table.length_delete_le _ _) h.bound
  entry e he := by
    obtain ⟨he, -⟩ := Table.mem_delete.mp he
    exact ⟨(h.entry e he).registered, (h.entry e he).uncancelled, (h.entry e he).undropped,
      (h.entry e he).quiet, (h.entry e he).unclaimed, (h.entry e he).claimed⟩
  signals e he e' he' := h.signals e (Table.mem_delete.mp he).1 e' (Table.mem_delete.mp he').1
  read r hr := by
    refine ⟨(h.read r hr).claimed, (h.read r hr).signalled, fun hafter => ?_⟩
    obtain ⟨e, he, hkey, hsignal, hclaimed⟩ := (h.read r hr).waiting hafter
    refine ⟨e, Table.mem_delete.mpr ⟨he, ?_⟩, hkey, hsignal, hclaimed⟩
    by_contra hgone
    simp [hp e he (by simpa using hgone)] at hclaimed
  once := h.once
  claims := h.claims
  dropped := h.dropped

theorem not_after_of_not_mem {x y : Done} {log : List Done} (hx : x ∉ log) : ¬ After x y log :=
  fun hafter => hx hafter.mem.1

/-- A new entry, under a key that was never registered. -/
theorem Inv.insert (h : Inv s) {k : Key} (hfresh : .registered k ∉ s.log)
    (hroom : s.reads.entries.rows.length < maxReads) :
    Inv { s with
      reads := ⟨s.reads.entries.replace ⟨k, s.reads.channels.length, false, s.now⟩,
        s.reads.channels ++ [false]⟩
      log := s.log ++ [.registered k] } where
  bound := Nat.le_trans (Table.length_replace_le _ _) hroom
  entry e he := by
    rcases Table.mem_replace.mp he with ⟨he, hne⟩ | rfl
    · have hok := h.entry e he
      have hlt : e.signal < s.reads.channels.length := (List.getElem?_eq_some_iff.mp hok.quiet).1
      constructor
      case registered => exact List.mem_append_left _ hok.registered
      case uncancelled => simpa [after_concat] using hok.uncancelled
      case undropped => simpa using hok.undropped
      case quiet => simpa [List.getElem?_append_left hlt] using hok.quiet
      case unclaimed =>
        intro hclaimed read hread
        exact hok.unclaimed hclaimed read (by simpa using hread)
      case claimed => exact hok.claimed
    · constructor
      case registered => simp
      case uncancelled => simpa [after_concat] using not_after_of_not_mem hfresh
      case undropped => simpa using fun hdropped => hfresh (h.dropped k hdropped)
      case quiet => simp
      case unclaimed =>
        rintro - read hread rfl
        exact hfresh (h.registered (by simpa using hread))
      case claimed => simp
  signals e he e' he' hsignal := by
    -- the new channel is none of those that were there
    have hlt : ∀ e ∈ s.reads.entries.rows, e.signal < s.reads.channels.length := fun e he =>
      (List.getElem?_eq_some_iff.mp (h.entry e he).quiet).1
    rcases Table.mem_replace.mp he with ⟨he, -⟩ | rfl <;>
      rcases Table.mem_replace.mp he' with ⟨he', -⟩ | rfl
    · exact h.signals e he e' he' hsignal
    · exact absurd hsignal (Nat.ne_of_lt (hlt e he))
    · exact absurd hsignal.symm (Nat.ne_of_lt (hlt e' he'))
    · rfl
  read r hr := by
    have hok := h.read r hr
    refine ⟨List.mem_append_left _ hok.claimed, fun hafter => ?_, fun hafter => ?_⟩
    · have hsignalled := hok.signalled (by simpa [after_concat] using hafter)
      have hlt := (List.getElem?_eq_some_iff.mp hsignalled).1
      simpa [List.getElem?_append_left hlt] using hsignalled
    · obtain ⟨e, he, hkey, hrest⟩ := hok.waiting (by simpa [after_concat] using hafter)
      have hne : e.key ≠ k := by
        rintro rfl
        exact hfresh (h.entry e he).registered
      exact ⟨e, Table.mem_replace.mpr (Or.inl ⟨he, hne⟩), hkey, hrest⟩
  once := h.once
  claims := each_concat h.claims fun read hread => by cases hread
  dropped k' hk := by
    have := h.dropped k' (by simpa using hk)
    simp [this]

theorem inv_register (h : Inv s) {server id : Uuid} (hfresh : .registered (server, id) ∉ s.log)
    (hstep : s.step (.register server id) = some t) : Inv t := by
  have hexpired := h.expire (p := fun e => !(e.claimed || s.now - e.created < abandoned))
    fun e _ hp => by
      cases hclaimed : e.claimed with
      | true => simp [hclaimed] at hp
      | false => rfl
  unfold System.step Registry.register at hstep
  by_cases hfull : (s.reads.entries.delete fun e =>
      !(e.claimed || s.now - e.created < abandoned)).rows.length ≥ maxReads
  · simp only [hfull, if_true] at hstep
    rw [← Option.some.inj hstep]
    exact hexpired
  · simp only [hfull, if_false] at hstep
    rw [← Option.some.inj hstep]
    exact hexpired.insert hfresh (Nat.not_le.mp hfull)

/-! ## Claims -/

theorem inv_claim (h : Inv s) {server id : Uuid} (hstep : s.step (.claim server id) = some t) :
    Inv t := by
  unfold System.step Registry.claim at hstep
  match hget : s.reads.entries.get (server, id) with
  | none =>
    simp only [hget] at hstep
    rw [← Option.some.inj hstep]
    exact h
  | some entry =>
    obtain ⟨hentry, hkey⟩ := Table.get_eq_some.mp hget
    have hok := h.entry entry hentry
    cases hclaimed : entry.claimed with
    | true =>
      simp only [hget, hclaimed, if_true] at hstep
      rw [← Option.some.inj hstep]
      exact h
    | false =>
      simp only [hget, hclaimed, Bool.false_eq_true, if_false] at hstep
      rw [← Option.some.inj hstep, ← hkey]
      have hother : ∀ r ∈ s.held, r.key ≠ entry.key := fun r hr =>
        hok.unclaimed hclaimed r (h.read r hr).claimed
      refine ⟨?_, ?_, ?_, ?_, ?_, ?_, ?_⟩
      · exact Nat.le_trans (Nat.le_of_eq (Table.length_replace hentry rfl)) h.bound
      · intro e he
        rcases Table.mem_replace.mp he with ⟨he, hne⟩ | rfl
        · have hok := h.entry e he
          constructor
          case registered => exact List.mem_append_left _ hok.registered
          case uncancelled => simpa [after_concat] using hok.uncancelled
          case undropped => simpa using hok.undropped
          case quiet => exact hok.quiet
          case unclaimed =>
            intro hunclaimed read hread
            rcases List.mem_append.mp hread with hread | hread
            · exact hok.unclaimed hunclaimed read hread
            · obtain rfl : read = ⟨entry.key, entry.signal⟩ := by simpa using hread
              exact fun heq => hne heq.symm
          case claimed => exact fun he => List.mem_cons_of_mem _ (hok.claimed he)
        · constructor
          case registered => exact List.mem_append_left _ hok.registered
          case uncancelled => simpa [after_concat] using hok.uncancelled
          case undropped => simpa using hok.undropped
          case quiet => exact hok.quiet
          case unclaimed => simp
          case claimed => simp
      · intro e he e' he' hsignal
        rcases Table.mem_replace.mp he with ⟨he, hne⟩ | rfl <;>
          rcases Table.mem_replace.mp he' with ⟨he', hne'⟩ | rfl
        · exact h.signals e he e' he' hsignal
        · exact absurd (congrArg Entry.key (h.signals e he entry hentry hsignal)) hne
        · exact absurd (congrArg Entry.key (h.signals e' he' entry hentry hsignal.symm)) hne'
        · rfl
      · intro r hr
        rcases List.mem_cons.mp hr with rfl | hr
        · refine ⟨by simp, fun hafter => ?_, fun _ => ?_⟩
          · have hnever : ¬ After (.claimed ⟨entry.key, entry.signal⟩) (.cancelled entry.key) s.log :=
              fun hafter => hok.unclaimed hclaimed _ hafter.mem.1 rfl
            simp [after_concat, hnever] at hafter
          · exact ⟨_, Table.mem_replace.mpr (Or.inr rfl), rfl, rfl, rfl⟩
        · have hread := h.read r hr
          refine ⟨List.mem_append_left _ hread.claimed, fun hafter => ?_, fun hafter => ?_⟩
          · exact hread.signalled (by simpa [after_concat] using hafter)
          · obtain ⟨e, he, hekey, hrest⟩ := hread.waiting (by simpa [after_concat] using hafter)
            have hne : e.key ≠ entry.key := hekey ▸ hother r hr
            exact ⟨e, Table.mem_replace.mpr (Or.inl ⟨he, hne⟩), hekey, hrest⟩
      · exact List.nodup_cons.mpr ⟨fun hmem => by
          obtain ⟨r, hr, hrkey⟩ := List.mem_map.mp hmem
          exact hother r hr hrkey, h.once⟩
      · refine each_concat h.claims fun read hread => ?_
        obtain rfl : read = ⟨entry.key, entry.signal⟩ := by simpa using hread.symm
        exact ⟨hok.registered, hok.uncancelled, hok.unclaimed hclaimed⟩
      · intro k hk
        have := h.dropped k (by simpa using hk)
        simp [this]

/-! ## Cancels and drops -/

/-- The entry of a key goes, and the log says why. -/
theorem Inv.remove (h : Inv s) {k : Key} {x : Done} {channels : List Bool} {held : List Read}
    (hx : x = .cancelled k ∨ x = .dropped k) (hknown : x = .dropped k → .registered k ∈ s.log)
    (hquiet : ∀ e ∈ s.reads.entries.rows, e.key ≠ k → channels[e.signal]? = some false)
    (hloud : ∀ n : Nat, s.reads.channels[n]? = some true → channels[n]? = some true)
    (hcancelled : ∀ r ∈ held, x = .cancelled r.key → channels[r.signal]? = some true)
    (hheld : held.Sublist s.held)
    (hkept : ∀ r ∈ s.held, r.key ≠ k → r ∈ held)
    (hdropped : x = .dropped k → ∀ r ∈ held, r.key ≠ k) :
    Inv { s with reads := ⟨s.reads.remove k, channels⟩, held := held, log := s.log ++ [x] } := by
  have hrow : ∀ {e : Entry}, e ∈ (s.reads.remove k).rows ↔ e ∈ s.reads.entries.rows ∧ e.key ≠ k := by
    intro e
    rw [Registry.remove, Table.mem_delete]
    simp
  have hclaimed : ∀ read : Read, .claimed read ∈ s.log ++ [x] → .claimed read ∈ s.log := by
    intro read hread
    rcases hx with rfl | rfl <;> simpa using hread
  constructor
  case bound => exact Nat.le_trans (Table.length_delete_le _ _) h.bound
  case entry =>
    intro e he
    obtain ⟨he, hne⟩ := hrow.mp he
    have hok := h.entry e he
    constructor
    case registered => exact List.mem_append_left _ hok.registered
    case uncancelled =>
      rw [after_concat]
      rintro (hafter | ⟨-, heq⟩)
      · exact hok.uncancelled hafter
      · rcases hx with rfl | rfl
        · exact hne (by simpa using heq)
        · cases heq
    case undropped =>
      intro hmem
      rcases List.mem_append.mp hmem with hmem | hmem
      · exact hok.undropped hmem
      · rcases hx with rfl | rfl
        · simp at hmem
        · exact hne (by simpa using hmem)
    case quiet => exact hquiet e he hne
    case unclaimed => exact fun hunclaimed read hread => hok.unclaimed hunclaimed read (hclaimed read hread)
    case claimed => exact fun he => hkept _ (hok.claimed he) hne
  case signals => exact fun e he e' he' => h.signals e (hrow.mp he).1 e' (hrow.mp he').1
  case read =>
    intro r hr
    have hread := h.read r (hheld.subset hr)
    refine ⟨List.mem_append_left _ hread.claimed, fun hafter => ?_, fun hafter => ?_⟩
    · rcases after_concat.mp hafter with hafter | ⟨-, heq⟩
      · exact hloud _ (hread.signalled hafter)
      · exact hcancelled r hr heq.symm
    · rw [after_concat, not_or] at hafter
      obtain ⟨e, he, hkey, hrest⟩ := hread.waiting hafter.1
      refine ⟨e, hrow.mpr ⟨he, fun heq => ?_⟩, hkey, hrest⟩
      rcases hx with rfl | rfl
      · exact hafter.2 ⟨hread.claimed, by rw [← hkey, heq]⟩
      · exact hdropped rfl r hr (hkey.symm.trans heq)
  case once => exact (hheld.map Read.key).nodup h.once
  case claims =>
    refine each_concat h.claims fun read hread => ?_
    rcases hx with rfl | rfl <;> cases hread
  case dropped =>
    intro k' hk
    rcases List.mem_append.mp hk with hk | hk
    · exact List.mem_append_left _ (h.dropped k' hk)
    · rcases hx with rfl | rfl
      · simp at hk
      · obtain rfl : k' = k := by simpa using hk
        exact List.mem_append_left _ (hknown rfl)

theorem inv_cancel (h : Inv s) {server id : Uuid} (hstep : s.step (.cancel server id) = some t) :
    Inv t := by
  unfold System.step Registry.cancel at hstep
  match hget : s.reads.entries.get (server, id) with
  | none =>
    simp only [hget] at hstep
    rw [← Option.some.inj hstep]
    have hnone := Table.get_eq_none.mp hget
    have hsame : s.reads.remove (server, id) = s.reads.entries :=
      Table.delete_eq_self fun e he => by simpa using hnone e he
    have hremoved := h.remove (k := (server, id)) (x := .cancelled (server, id)) (Or.inl rfl)
      (fun heq => by cases heq) (fun e he _ => (h.entry e he).quiet) (fun _ hn => hn) ?_
      (List.Sublist.refl s.held) (fun r hr _ => hr) fun heq => by cases heq
    · rwa [hsame] at hremoved
    · intro r hr heq
      -- whoever holds the read has lost its entry to an earlier cancel
      apply (h.read r hr).signalled
      by_contra hafter
      obtain ⟨e, he, hkey, -⟩ := (h.read r hr).waiting hafter
      exact hnone e he (hkey.trans (Done.cancelled.inj heq).symm)
  | some entry =>
    simp only [hget] at hstep
    rw [← Option.some.inj hstep]
    obtain ⟨hentry, hkey⟩ := Table.get_eq_some.mp hget
    have hlt := (List.getElem?_eq_some_iff.mp (h.entry entry hentry).quiet).1
    apply h.remove (Or.inl rfl) (fun heq => by cases heq) ?_ ?_ ?_ (List.Sublist.refl s.held)
      (fun r hr _ => hr) fun heq => by cases heq
    · intro e he hne
      have hother : entry.signal ≠ e.signal := fun heq =>
        hne ((congrArg Entry.key (h.signals entry hentry e he heq)).symm.trans hkey)
      rw [List.getElem?_set_ne hother]
      exact (h.entry e he).quiet
    · intro n hn
      rw [List.getElem?_set]
      split
      · simp
      · exact hn
    · intro r hr heq
      have hrkey : entry.key = r.key := hkey.trans (Done.cancelled.inj heq)
      rw [← h.entry_of_read hr hentry hrkey, List.getElem?_set_self hlt]

theorem inv_drop (h : Inv s) {read : Read} (hstep : s.step (.drop read) = some t) : Inv t := by
  unfold System.step Registry.drop at hstep
  by_cases hheld : read ∈ s.held
  · simp only [hheld, if_true] at hstep
    rw [← Option.some.inj hstep]
    have hnodup : s.held.Nodup := List.Nodup.of_map Read.key h.once
    apply h.remove (Or.inr rfl) (fun _ => h.registered (h.read read hheld).claimed)
      (fun e he _ => (h.entry e he).quiet) (fun _ hn => hn) (fun _ _ heq => by cases heq)
      List.erase_sublist
    · exact fun r hr hne => (List.mem_erase_of_ne fun heq => hne (congrArg Read.key heq)).mpr hr
    · rintro - r hr hkey
      obtain ⟨hne, hr⟩ := hnodup.mem_erase_iff.mp hr
      exact hne (h.alone hr hheld hkey)
  · simp [hheld] at hstep

theorem inv_step {c : Call} (h : Inv s) (hgen : s.generated c = true) (hstep : s.step c = some t) :
    Inv t := by
  cases c with
  | register server id => exact inv_register h (of_decide_eq_true hgen) hstep
  | claim server id => exact inv_claim h hstep
  | cancel server id => exact inv_cancel h hstep
  | drop read => exact inv_drop h hstep
  | tick d =>
    rw [← Option.some.inj hstep]
    exact ⟨h.bound, fun e he => ⟨(h.entry e he).registered, (h.entry e he).uncancelled,
      (h.entry e he).undropped, (h.entry e he).quiet, (h.entry e he).unclaimed,
      (h.entry e he).claimed⟩, h.signals, fun r hr => ⟨(h.read r hr).claimed,
      (h.read r hr).signalled, (h.read r hr).waiting⟩, h.once, h.claims, h.dropped⟩

/-! ## Results -/

/-- A read that is held is told of a cancel exactly if one came after its claim. -/
theorem cancelled_iff (h : Inv s) {r : Read} (hr : r ∈ s.held) :
    s.reads.cancelled r = true ↔ After (.claimed r) (.cancelled r.key) s.log := by
  have hread := h.read r hr
  unfold Registry.cancelled
  constructor
  · intro hcancelled
    by_contra hafter
    obtain ⟨e, he, hkey, hsignal, -⟩ := hread.waiting hafter
    have hquiet := (h.entry e he).quiet
    rw [hsignal] at hquiet
    have hany : (s.reads.entries.rows.any fun e => e.signal = r.signal) = true :=
      List.any_eq_true.mpr ⟨e, he, by simpa using hsignal⟩
    simp [hquiet, hany] at hcancelled
  · intro hafter
    simp [hread.signalled hafter]

/-- What a cancel or a drop leaves alone: the entries of other reads, and what those who hold
    them are told. -/
def Untouched (s t : System) (key : Key) : Prop :=
  (∀ k, k ≠ key → t.reads.entries.get k = s.reads.entries.get k) ∧
    ∀ r ∈ s.held, r.key ≠ key → r ∈ t.held ∧ t.reads.cancelled r = s.reads.cancelled r

/-- The read that a call ends, if it ends one. -/
def Call.ends : Call → Option Key
  | .cancel server id => some (server, id)
  | .drop read => some read.key
  | _ => none

theorem get_remove (r : Registry) {k key : Key} (hne : k ≠ key) :
    (r.remove key).get k = r.entries.get k := by
  unfold Table.get Registry.remove Table.delete
  rw [List.find?_filter]
  congr 1
  funext e
  by_cases hk : e.key = k
  · simp [hk, hne]
  · simp [hk]

theorem told (h : Inv s) (hi : Inv t) {x : Done} {r : Read} (hlog : t.log = s.log ++ [x])
    (hne : x ≠ .cancelled r.key) (hr : r ∈ s.held) (hrt : r ∈ t.held) :
    t.reads.cancelled r = s.reads.cancelled r := by
  rw [Bool.eq_iff_iff, cancelled_iff h hr, cancelled_iff hi hrt, hlog, after_concat]
  constructor
  · rintro (hafter | ⟨-, heq⟩)
    · exact hafter
    · exact absurd heq.symm hne
  · exact Or.inl

theorem untouched (h : Inv s) {c : Call} (hstep : s.step c = some t) {key : Key}
    (hends : c.ends = some key) : Untouched s t key := by
  cases c with
  | cancel server id =>
    obtain rfl : (server, id) = key := Option.some.inj hends
    have hi := inv_cancel h hstep
    rw [← Option.some.inj hstep] at hi ⊢
    refine ⟨fun k hne => ?_, fun r hr hne => ⟨hr, ?_⟩⟩
    · unfold Registry.cancel
      split
      · rfl
      · exact get_remove s.reads hne
    · exact told h hi rfl (fun heq => hne (Done.cancelled.inj heq).symm) hr hr
  | drop read =>
    obtain rfl : read.key = key := Option.some.inj hends
    have hi := inv_drop h hstep
    unfold System.step at hstep
    by_cases hheld : read ∈ s.held
    · simp only [hheld, if_true] at hstep
      rw [← Option.some.inj hstep] at hi ⊢
      refine ⟨fun k hne => get_remove s.reads hne, fun r hr hne => ?_⟩
      have hkept : r ∈ s.held.erase read :=
        (List.mem_erase_of_ne fun heq => hne (congrArg Read.key heq)).mpr hr
      exact ⟨hkept, told h hi rfl (fun heq => by cases heq) hr hkept⟩
    · simp [hheld] at hstep
  | register server id => cases hends
  | claim server id => cases hends
  | tick d => cases hends

/-- Every read that was registered was cancelled since, or claimed and dropped. -/
def Finished (log : List Done) : Prop :=
  ∀ k, .registered k ∈ log → After (.registered k) (.cancelled k) log ∨ .dropped k ∈ log

open Porthop.Run in
/-- **No cancel is lost.** In every run a claim succeeds only for a read that was registered, not
    cancelled since and never claimed before; whoever holds a read is told of a cancel exactly
    if one came after the claim; a cancel and a drop touch the one read they name; and the
    registry keeps its bound and empties. -/
theorem cancellation_kept {calls : List Call} (hgen : Along System.step (fun s c => s.generated c = true) calls .start)
    (hrun : exec System.step calls .start = some s) :
    Each Claimable s.log ∧
    (∀ r ∈ s.held, s.reads.cancelled r = true ↔ After (.claimed r) (.cancelled r.key) s.log) ∧
    (∀ r ∈ s.held, ∀ r' ∈ s.held, r.key = r'.key → r = r') ∧
    (∀ c t key, s.step c = some t → c.ends = some key → Untouched s t key) ∧
    s.reads.entries.rows.length ≤ maxReads ∧
    (Finished s.log → s.reads.entries.rows = []) := by
  have h : Inv s := along_invariant (fun _ _ _ hs hok hstep => inv_step hs hok hstep) inv_start hgen hrun
  refine ⟨h.claims, fun r hr => cancelled_iff h hr, fun r hr r' hr' => h.alone hr hr',
    fun c t key hstep hends => untouched h hstep hends, h.bound, fun hfinished => ?_⟩
  rw [List.eq_nil_iff_forall_not_mem]
  intro e he
  rcases hfinished e.key (h.entry e he).registered with hcancelled | hdropped
  · exact (h.entry e he).uncancelled hcancelled
  · exact (h.entry e he).undropped hdropped

/-- Two reads of one server: the first is cancelled while it is held, the second before it is
    claimed. -/
def cancelledTwice : List Call :=
  [.register 1 7, .register 1 8, .claim 1 7, .cancel 1 7, .cancel 1 8, .claim 1 8, .drop ⟨(1, 7), 0⟩]

open Porthop.Run in
theorem cancelledTwice_kept : ∃ s, exec System.step cancelledTwice .start = some s ∧
    s.reads.entries.rows.isEmpty = true ∧ Each Claimable s.log := by
  have hgen : along System.step System.generated cancelledTwice .start = true := by decide
  have hempty : ((exec System.step cancelledTwice .start).any fun s =>
      s.reads.entries.rows.isEmpty) = true := by decide
  obtain ⟨s, hs, hrows⟩ := (Option.any_eq_true _ _).mp hempty
  exact ⟨s, hs, hrows, (cancellation_kept (along_of_decide hgen) hs).1⟩

end Porthop.Git.Reads
