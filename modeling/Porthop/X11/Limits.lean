import Porthop.X11.Requests

/- The limits of a client and of the atoms, and what keeps them.

   The property of a transfer is there as long as the transfer runs, so its next chunk takes
   the place of one that was just deleted and the number of properties stays. -/
namespace Porthop.X11

/-! ## Atoms -/

/-- At most 4096 atoms, each with a name of at most 256 bytes. -/
structure Atoms.Bounded (atoms : Atoms) : Prop where
  count : atoms.length ≤ 4096
  names : ∀ name ∈ atoms, name.utf8ByteSize ≤ 256

section
variable {atoms : Atoms} {names : List String}

theorem Atoms.Bounded.intern {name : String} (h : atoms.Bounded) (hname : name.utf8ByteSize ≤ 256) (only : Bool) :
    (atoms.intern name only).1.Bounded := by
  unfold Atoms.intern
  split
  · exact h
  · split
    case isTrue => exact h
    case isFalse hroom =>
      have hcount : atoms.length < 4096 := by
        simp only [not_or, ge_iff_le, not_le] at hroom
        exact hroom.2
      constructor
      · rw [List.length_append, List.length_singleton]
        omega
      · intro other hother
        rcases List.mem_append.mp hother with hold | hnew
        · exact h.names other hold
        · rw [List.mem_singleton.mp hnew]
          exact hname

theorem Atoms.length_internAll (atoms : Atoms) (names : List String) :
    (atoms.internAll names).2.length = names.length := by
  induction names generalizing atoms with
  | nil => rfl
  | cons name names ih =>
    rw [Atoms.internAll, List.length_cons, List.length_cons, ih]

theorem Atoms.Bounded.internAll (h : atoms.Bounded)
    (hnames : ∀ name ∈ names, name.utf8ByteSize ≤ 256) : (atoms.internAll names).1.Bounded := by
  induction names generalizing atoms with
  | nil => exact h
  | cons name names ih =>
    apply ih (h.intern (hnames name List.mem_cons_self) false)
    intro other hother
    exact hnames other (List.mem_cons_of_mem name hother)

theorem Atoms.Bounded.found {id : Nat} {name : String} (h : atoms.Bounded)
    (hname : atoms.name id = some name) : name.utf8ByteSize ≤ 256 := by
  unfold Atoms.name at hname
  split at hname
  · simp at hname
  · exact h.names name (List.mem_of_getElem? hname)

theorem initialAtoms_bounded : Requests.initialAtoms.Bounded := by
  constructor
  · decide
  · decide

end

/-! ## Clients -/

structure Property.Bounded (p : Property) : Prop where
  format : p.format = 8 ∨ p.format = 16 ∨ p.format = 32
  size : p.bytes.length ≤ chunk

structure Client.Bounded (c : Client) : Prop where
  windows : c.windows.card ≤ 64
  graphicsContexts : c.graphicsContexts.card ≤ 64
  properties : c.properties.entries.length ≤ 128
  held : ∀ key p, c.properties.lookup key = some p → p.Bounded
  /-- The property of a transfer is there, and its value is one that a vector holds. -/
  transfer : ∀ t, c.transfer = some t →
    t.offset ≤ t.bytes.length ∧ t.bytes.length < 2 ^ 63 ∧ t.key ∈ c.properties

section
variable {κ : Type} {β : κ → Type}

theorem length_keys (l : AList β) : l.keys.length = l.entries.length := List.length_map _

variable [DecidableEq κ] {l : AList β} {k : κ}

theorem length_erase_le (l : AList β) (k : κ) : (l.erase k).entries.length ≤ l.entries.length := by
  rw [← length_keys, ← length_keys, AList.keys_erase]
  exact List.length_erase_le

theorem length_insert_le (l : AList β) (k : κ) (b : β k) :
    (l.insert k b).entries.length ≤ l.entries.length + 1 := by
  rw [AList.entries_insert, List.length_cons]
  exact Nat.succ_le_succ (length_erase_le l k)

/-- What is put into the place of an entry that was there. -/
theorem length_insert_erase (h : k ∈ l) (b : β k) :
    ((l.erase k).insert k b).entries.length = l.entries.length := by
  have hkeys : k ∈ l.keys := AList.mem_keys.mp h
  have hpos : 0 < l.keys.length := List.length_pos_of_mem hkeys
  rw [← length_keys, AList.keys_insert, AList.keys_erase, List.length_cons,
    List.erase_of_not_mem (List.Nodup.not_mem_erase l.keys_nodup),
    List.length_erase_of_mem hkeys, Nat.sub_add_cancel hpos, length_keys]

theorem length_toAList_le (entries : List (Sigma β)) :
    entries.toAList.entries.length ≤ entries.length := by
  induction entries with
  | nil => exact Nat.le_refl 0
  | cons e entries ih =>
    obtain ⟨k, b⟩ := e
    rw [AList.toAList_cons, List.length_cons]
    exact Nat.le_trans (length_insert_le entries.toAList k b) (Nat.succ_le_succ ih)

end

namespace Client.Bounded

variable {c : Client} {key : Key} {p : Property} {t : Transfer} {id : Nat}

theorem new (little : Bool) (base : Nat) : (Client.new little base).Bounded where
  windows := Nat.zero_le 64
  graphicsContexts := Nat.zero_le 64
  properties := Nat.zero_le 128
  held := fun _ _ h => by simp [Client.new] at h
  transfer := fun _ h => by simp [Client.new] at h

/-- A client whose windows, properties and transfer are the same. -/
theorem congr {d : Client} (h : c.Bounded) (hwindows : d.windows.card ≤ 64)
    (hcontexts : d.graphicsContexts.card ≤ 64) (hproperties : d.properties = c.properties)
    (htransfer : d.transfer = c.transfer) : d.Bounded where
  windows := hwindows
  graphicsContexts := hcontexts
  properties := hproperties ▸ h.properties
  held := hproperties ▸ h.held
  transfer := by
    rw [hproperties, htransfer]
    exact h.transfer

theorem held_insert (h : c.Bounded) (hp : p.Bounded) {other : Key} {q : Property}
    (hq : (c.properties.insert key p).lookup other = some q) : q.Bounded := by
  by_cases hkey : other = key
  · subst hkey
    rw [AList.lookup_insert] at hq
    cases hq
    exact hp
  · rw [AList.lookup_insert_ne hkey] at hq
    exact h.held other q hq

theorem held_erase (h : c.Bounded) {other : Key} {q : Property}
    (hq : (c.properties.erase key).lookup other = some q) : q.Bounded := by
  by_cases hkey : other = key
  · subst hkey
    simp at hq
  · rw [AList.lookup_erase_ne hkey] at hq
    exact h.held other q hq

/-- A property is put where there is room. -/
theorem place (h : c.Bounded) (key : Key) (hroom : c.properties.entries.length < 128) (hp : p.Bounded) :
    (c.place key p).Bounded where
  windows := h.windows
  graphicsContexts := h.graphicsContexts
  properties := Nat.le_trans (length_insert_le c.properties key p) hroom
  held := fun _ _ hq => h.held_insert hp hq
  transfer := by
    intro t ht
    obtain ⟨hoffset, hsize, hmem⟩ := h.transfer t ht
    exact ⟨hoffset, hsize, (AList.mem_insert _).mpr (Or.inr hmem)⟩

/-- A property is deleted that is not the one of a transfer. -/
theorem erase (h : c.Bounded) (hother : ∀ t, c.transfer = some t → t.key ≠ key) :
    Bounded { c with properties := c.properties.erase key } where
  windows := h.windows
  graphicsContexts := h.graphicsContexts
  properties := Nat.le_trans (length_erase_le c.properties key) h.properties
  held := fun _ _ hq => h.held_erase hq
  transfer := by
    intro t ht
    obtain ⟨hoffset, hsize, hmem⟩ := h.transfer t ht
    exact ⟨hoffset, hsize, AList.mem_erase.mpr ⟨hother t ht, hmem⟩⟩

/-- The next chunk of a transfer takes the place of what was deleted. -/
theorem serve (h : c.Bounded) (ht : c.transfer = some t) (hp : p.Bounded) {next : Option Transfer}
    (hnext : ∀ u, next = some u → u.key = t.key ∧ u.bytes = t.bytes ∧ u.offset ≤ u.bytes.length) :
    Bounded { c with
      properties := (c.properties.erase t.key).insert t.key p, transfer := next } where
  windows := h.windows
  graphicsContexts := h.graphicsContexts
  properties := by
    rw [length_insert_erase (h.transfer t ht).2.2]
    exact h.properties
  held := by
    intro other q hq
    by_cases hkey : other = t.key
    · subst hkey
      rw [AList.lookup_insert] at hq
      cases hq
      exact hp
    · rw [AList.lookup_insert_ne hkey] at hq
      exact h.held_erase hq
  transfer := by
    intro u hu
    obtain ⟨hkey, hbytes, hoffset⟩ := hnext u hu
    refine ⟨hoffset, ?_, ?_⟩
    · rw [hbytes]
      exact (h.transfer t ht).2.1
    · rw [hkey]
      exact (AList.mem_insert _).mpr (Or.inl rfl)

/-- A value is delivered to a client that is not busy. -/
theorem deliver (h : c.Bounded) (hbusy : c.busy = false) (atoms : Atoms) (key : Key)
    (hformat : p.format = 8 ∨ p.format = 16 ∨ p.format = 32) (hsize : p.bytes.length < 2 ^ 63) :
    (c.deliver atoms key p).2.Bounded := by
  have hfree : c.transfer = none ∧ c.properties.entries.length < 128 := by
    simpa [Client.busy] using hbusy
  unfold Client.deliver
  split
  case isTrue =>
    have hplaced := h.place key hfree.2
      (p := ⟨(atoms.intern "INCR" false).2, 32, c.words [p.bytes.length]⟩)
      ⟨Or.inr (Or.inr rfl), by simp [Client.words, Client.order, MessagePack.be, chunk]; split <;> simp⟩
    exact {
      windows := h.windows
      graphicsContexts := h.graphicsContexts
      properties := hplaced.properties
      held := hplaced.held
      transfer := by
        intro t ht
        cases ht
        exact ⟨Nat.zero_le _, hsize, (AList.mem_insert _).mpr (Or.inl rfl)⟩ }
  case isFalse hsmall => exact h.place key hfree.2 ⟨hformat, by omega⟩

theorem lookup_keep (keep : Key → Bool) {q : Property}
    (hq : ((c.properties.entries.filter fun e => keep e.1).toAList).lookup key = some q) :
    c.properties.lookup key = some q ∧ keep key = true := by
  rw [AList.lookup_to_alist] at hq
  obtain ⟨hmem, hkeep⟩ := List.mem_filter.mp (List.of_mem_dlookup hq)
  exact ⟨AList.mem_lookup_iff.mpr hmem, hkeep⟩

/-- A window goes with its properties. -/
theorem forget (h : c.Bounded) (id : Nat) : (c.forget id).Bounded where
  windows := Nat.le_trans Finset.card_erase_le h.windows
  graphicsContexts := h.graphicsContexts
  properties := calc
    _ ≤ (c.properties.entries.filter fun e => decide (e.1.1 ≠ id)).length := length_toAList_le _
    _ ≤ c.properties.entries.length := List.length_filter_le _ _
    _ ≤ 128 := h.properties
  held := fun key p hp => h.held key p (lookup_keep (fun k => decide (k.1 ≠ id)) hp).1
  transfer := by
    intro t ht
    obtain ⟨ht, hkeep⟩ := Option.filter_eq_some_iff.mp ht
    obtain ⟨hoffset, hsize, hmem⟩ := h.transfer t ht
    refine ⟨hoffset, hsize, ?_⟩
    obtain ⟨p, hp⟩ := Option.isSome_iff_exists.mp (AList.lookup_isSome.mpr hmem)
    apply AList.lookup_isSome.mp
    unfold Client.forget
    rw [AList.lookup_to_alist, List.dlookup_isSome]
    apply List.mem_keys.mpr
    exact ⟨p, List.mem_filter.mpr ⟨AList.mem_lookup_iff.mp hp, hkeep⟩⟩

end Client.Bounded

end Porthop.X11
