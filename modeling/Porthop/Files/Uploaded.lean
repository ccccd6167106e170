import Porthop.Files.Registered
import Porthop.Files.Upload

/- An upload makes its destination appear whole or not at all, and accounts for its staging file.

   The invariant says what the last request of the upload is at each point and what the staging
   file holds, as long as it is there: it may be removed by its guard while a late request is
   still to be carried out. -/
namespace Porthop.Files.World

open Porthop.Run
open Files.System (Registered Owned)

variable {u : Upload} {w w' : World}

/-- What the staging file holds, as long as it is there. -/
def Held (w : World) (bytes : List UInt8) : Prop :=
  ∀ file, w.created = some file → w.remote.names w.staging = some file →
    w.remote.contents file = bytes

/-- A request that may still be carried out, whoever waits for it. -/
def Late (w : World) : Request → Prop
  | .create path => path = w.staging ∧ w.created = none
  | .write handle _ _ => w.created = some handle
  | .close _ => True
  | .rename old new => old = w.staging ∧ new = w.destination ∧ w.created.isSome = true ∧
      w.Held w.taken ∧ w.taken.length = w.total
  | .remove _ => False

/-- What is so where the upload waits. -/
def Waits (w : World) : Point → Prop
  | .unregistered | .start | .canonical | .lstat | .file | .metadata =>
    w.current = none ∧ w.created = none ∧ w.taken = [] ∧ w.cleanup = none
  | .creating => ∃ fate, w.current = some ⟨.create w.staging, fate⟩ ∧
      (∀ file, w.created = some file ↔ fate = .done file) ∧ w.taken = [] ∧ w.cleanup = none ∧ w.Held []
  | .reading => (∀ r, w.current ≠ some ⟨r, .sent⟩) ∧ w.created = some w.handle ∧
      w.cleanup = some w.staging ∧ w.Held w.taken ∧ w.offset = w.taken.length
  | .writing count => ∃ before data fate, w.current = some ⟨.write w.handle w.offset data, fate⟩ ∧
      w.created = some w.handle ∧ w.cleanup = some w.staging ∧ w.taken = before ++ data ∧
      w.offset = before.length ∧ count = data.length ∧
      (∀ answer, fate = .done answer → w.Held w.taken) ∧
      ((∀ answer, fate ≠ .done answer) → w.Held before)
  | .closing => ∃ fate, w.current = some ⟨.close w.handle, fate⟩ ∧ w.created = some w.handle ∧
      w.cleanup = some w.staging ∧ w.Held w.taken ∧ w.offset = w.taken.length
  | .moving => ∃ fate, w.current = some ⟨.rename w.staging w.destination, fate⟩ ∧
      w.created = some w.handle ∧ w.cleanup = some w.staging ∧ w.Held w.taken ∧
      w.taken.length = w.total ∧
      (∀ answer, fate = .done answer → ∀ file, w.created = some file →
        w.remote.names w.staging ≠ some file)
  | .returned _ | .gone => ∀ r, w.current = some ⟨r, .sent⟩ → w.Late r

structure FileInv (w : World) : Prop where
  own : ∀ file, w.created = some file → w.remote.names w.staging = some file ∨
    w.remote.names w.staging = none
  made : ∀ file, w.created = some file → file < w.remote.count
  guard : ∀ path, w.cleanup = some path → path = w.staging ∧ w.created.isSome = true
  removal : ∀ c, w.removal = some c → w.point = .gone ∧ c.request = .remove w.staging ∧
    w.created.isSome = true
  waits : w.Waits w.point

/-- Wherever the upload waits, its last request is one that may come late. -/
theorem Waits.late {p : Point} (h : w.Waits p) {r : Request} (hsent : w.current = some ⟨r, .sent⟩) :
    w.Late r := by
  cases p with
  | unregistered | start | canonical | lstat | file | metadata =>
    rw [h.1] at hsent
    cases hsent
  | creating =>
    obtain ⟨fate, hcurrent, hcreated, -⟩ := h
    rw [hcurrent] at hsent
    cases hsent
    refine ⟨rfl, Option.eq_none_iff_forall_ne_some.mpr fun file hfile => ?_⟩
    cases (hcreated file).mp hfile
  | reading => exact absurd hsent (h.1 r)
  | writing count =>
    obtain ⟨before, data, fate, hcurrent, hcreated, -⟩ := h
    rw [hcurrent] at hsent
    cases hsent
    exact hcreated
  | closing =>
    obtain ⟨fate, hcurrent, -⟩ := h
    rw [hcurrent] at hsent
    cases hsent
    trivial
  | moving =>
    obtain ⟨fate, hcurrent, hcreated, -, hheld, htotal, -⟩ := h
    rw [hcurrent] at hsent
    cases hsent
    exact ⟨rfl, rfl, by rw [hcreated]; rfl, hheld, htotal⟩
  | returned | gone => exact h r hsent

/-! ## The server -/

/-- Another state of the server in which the staging file is as it was, or gone. -/
structure Shrinks (w : World) (r : Remote) : Prop where
  staging : ∀ file, r.names w.staging = some file →
    w.remote.names w.staging = some file ∧ r.contents file = w.remote.contents file
  count : w.remote.count ≤ r.count

theorem Shrinks.held {r : Remote} (h : Shrinks w r) {bytes : List UInt8} (hheld : w.Held bytes) :
    ({ w with remote := r } : World).Held bytes := by
  intro file hcreated hnames
  obtain ⟨hold, hcontents⟩ := h.staging file hnames
  exact hcontents.trans (hheld file hcreated hold)

theorem Shrinks.waits {r : Remote} (h : Shrinks w r) {p : Point} (hwaits : w.Waits p) :
    ({ w with remote := r } : World).Waits p := by
  cases p with
  | unregistered | start | canonical | lstat | file | metadata => exact hwaits
  | creating =>
    obtain ⟨fate, hcurrent, hcreated, htaken, hcleanup, hheld⟩ := hwaits
    exact ⟨fate, hcurrent, hcreated, htaken, hcleanup, h.held hheld⟩
  | reading =>
    obtain ⟨hcurrent, hcreated, hcleanup, hheld, hoffset⟩ := hwaits
    exact ⟨hcurrent, hcreated, hcleanup, h.held hheld, hoffset⟩
  | writing count =>
    obtain ⟨before, data, fate, hcurrent, hcreated, hcleanup, htaken, hoffset, hcount, hdone, hopen⟩ :=
      hwaits
    exact ⟨before, data, fate, hcurrent, hcreated, hcleanup, htaken, hoffset, hcount,
      fun answer hfate => h.held (hdone answer hfate), fun hfate => h.held (hopen hfate)⟩
  | closing =>
    obtain ⟨fate, hcurrent, hcreated, hcleanup, hheld, hoffset⟩ := hwaits
    exact ⟨fate, hcurrent, hcreated, hcleanup, h.held hheld, hoffset⟩
  | moving =>
    obtain ⟨fate, hcurrent, hcreated, hcleanup, hheld, htotal, hmoved⟩ := hwaits
    exact ⟨fate, hcurrent, hcreated, hcleanup, h.held hheld, htotal, fun answer hfate file hfile hnames =>
      hmoved answer hfate file hfile (h.staging file hnames).1⟩
  | returned | gone =>
    intro r' hsent
    have hlate := hwaits r' hsent
    cases r' with
    | create | write | close | remove => exact hlate
    | rename old new =>
      obtain ⟨hold, hnew, hcreated, hheld, htotal⟩ := hlate
      exact ⟨hold, hnew, hcreated, h.held hheld, htotal⟩

theorem FileInv.shrinks {r : Remote} (h : FileInv w) (hshrinks : Shrinks w r) :
    FileInv { w with remote := r } where
  own file hfile := by
    obtain hsame | hnone := h.own file hfile
    · cases hnames : r.names w.staging with
      | none => exact Or.inr rfl
      | some other => exact Or.inl ((hshrinks.staging other hnames).1.symm.trans hsame)
    · refine Or.inr (Option.eq_none_iff_forall_ne_some.mpr fun other hnames => ?_)
      rw [(hshrinks.staging other hnames).1] at hnone
      cases hnone
  made file hfile := Nat.lt_of_lt_of_le (h.made file hfile) hshrinks.count
  guard := h.guard
  removal := h.removal
  waits := hshrinks.waits h.waits

/-! ### What a request does -/

section
variable {r r' : Remote} {a : Nat}

theorem execute_create {path : String} (h : r.execute (.create path) = some (r', a)) :
    r.names path = none ∧ a = r.count ∧ r'.names = Function.update r.names path (some r.count) ∧
      r'.contents = Function.update r.contents r.count [] ∧ r'.count = r.count + 1 := by
  simp only [Remote.execute] at h
  split at h
  · cases h
  next hnone =>
    cases h
    exact ⟨by simpa using hnone, rfl, rfl, rfl, rfl⟩

theorem execute_write {handle offset : Nat} {data : List UInt8}
    (h : r.execute (.write handle offset data) = some (r', a)) : r'.names = r.names ∧
      r'.contents = Function.update r.contents handle (patch (r.contents handle) offset data) ∧
      r'.count = r.count := by
  cases h
  exact ⟨rfl, rfl, rfl⟩

theorem execute_close {handle : Nat} (h : r.execute (.close handle) = some (r', a)) : r' = r := by
  cases h
  rfl

theorem execute_rename {old new : String} (h : r.execute (.rename old new) = some (r', a)) :
    r'.contents = r.contents ∧ r'.count = r.count ∧ ∃ file, r.names old = some file ∧
      r.names new = none ∧
      r'.names = Function.update (Function.update r.names old none) new (some file) := by
  simp only [Remote.execute] at h
  split at h
  · cases h
  next file hold =>
    split at h
    · cases h
    next hnew =>
      cases h
      exact ⟨rfl, rfl, file, hold, by simpa using hnew, rfl⟩

theorem execute_remove {path : String} (h : r.execute (.remove path) = some (r', a)) :
    r'.names = Function.update r.names path none ∧ r'.contents = r.contents ∧ r'.count = r.count := by
  simp only [Remote.execute] at h
  split at h
  · cases h
    exact ⟨rfl, rfl, rfl⟩
  · cases h

theorem execute_count {q : Request} (h : r.execute q = some (r', a)) : r.count ≤ r'.count := by
  cases q with
  | create path => exact (execute_create h).2.2.2.2 ▸ Nat.le_succ _
  | write => exact Nat.le_of_eq (execute_write h).2.2.symm
  | close => exact Nat.le_of_eq (congrArg Remote.count (execute_close h).symm)
  | rename => exact Nat.le_of_eq (execute_rename h).2.1.symm
  | remove => exact Nat.le_of_eq (execute_remove h).2.2.symm

end

/-- Others leave the staging file as it is. -/
theorem shrinks_foreign {q : Request} (hforeign : w.foreign q = true)
    {r : Remote} {a : Nat} (hexec : w.remote.execute q = some (r, a)) : Shrinks w r := by
  have hcount := execute_count hexec
  refine ⟨fun file hfile => ?_, hcount⟩
  cases q with
  | create path =>
    obtain ⟨-, -, hnames, hcontents, -⟩ := execute_create hexec
    rw [hnames, Function.update_of_ne fun heq => of_decide_eq_true hforeign heq.symm] at hfile
    rw [hcontents]
    exact ⟨hfile, Function.update_of_ne (Nat.ne_of_lt (w.remote.named _ _ hfile)) _ _⟩
  | write handle offset data =>
    obtain ⟨hnames, hcontents, -⟩ := execute_write hexec
    rw [hnames] at hfile
    rw [hcontents]
    refine ⟨hfile, Function.update_of_ne ?_ _ _⟩
    rintro rfl
    exact of_decide_eq_true hforeign hfile
  | close handle =>
    rw [execute_close hexec] at hfile ⊢
    exact ⟨hfile, rfl⟩
  | rename old new =>
    obtain ⟨hcontents, -, moved, -, -, hnames⟩ := execute_rename hexec
    obtain ⟨hold, hnew⟩ := (Bool.and_eq_true _ _).mp hforeign
    rw [hnames, Function.update_of_ne fun heq => of_decide_eq_true hnew heq.symm,
      Function.update_of_ne fun heq => of_decide_eq_true hold heq.symm] at hfile
    exact ⟨hfile, by rw [hcontents]⟩
  | remove path =>
    obtain ⟨hnames, hcontents, -⟩ := execute_remove hexec
    rw [hnames, Function.update_of_ne fun heq => of_decide_eq_true hforeign heq.symm] at hfile
    exact ⟨hfile, by rw [hcontents]⟩

theorem shrinks_remove {r : Remote} {a : Nat}
    (hexec : w.remote.execute (.remove w.staging) = some (r, a)) : Shrinks w r := by
  have hcount := execute_count hexec
  refine ⟨fun file hfile => ?_, hcount⟩
  rw [(execute_remove hexec).1, Function.update_self] at hfile
  cases hfile

theorem patch_end (bytes data : List UInt8) : patch bytes bytes.length data = bytes ++ data := by
  rw [patch, List.takeD_eq_take _ (Nat.le_refl _), List.take_length, List.drop_of_length_le (by omega),
    List.append_nil]

/-- The request that is carried out, and what was sent before it. -/
theorem carry_some {accept : Bool} (h : w.carry accept = some w') :
    ∃ r, w.current = some ⟨r, .sent⟩ ∧
      ((accept = false ∧ w' = { w with current := some ⟨r, .refused⟩ }) ∨
        ∃ remote a, accept = true ∧ w.remote.execute r = some (remote, a) ∧ w' = { w with
          remote := remote
          current := some ⟨r, .done a⟩
          created := match r with
            | .create _ => some a
            | _ => w.created }) := by
  unfold carry at h
  split at h
  next r hcurrent =>
    refine ⟨r, hcurrent, ?_⟩
    split at h
    next haccept =>
      obtain ⟨⟨remote, a⟩, hexec, rfl⟩ := Option.map_eq_some_iff.mp h
      exact Or.inr ⟨remote, a, haccept, hexec, rfl⟩
    next haccept =>
      cases h
      exact Or.inl ⟨Bool.eq_false_of_not_eq_true haccept, rfl⟩
  · cases h

theorem FileInv.refused (h : FileInv w) {r : Request} (hsent : w.current = some ⟨r, .sent⟩) :
    FileInv { w with current := some ⟨r, .refused⟩ } where
  own := h.own
  made := h.made
  guard := h.guard
  removal := h.removal
  waits := by
    have hwaits := h.waits
    change Waits _ w.point
    cases hpoint : w.point with
    | unregistered | start | canonical | lstat | file | metadata =>
      rw [hpoint] at hwaits
      exact absurd (hwaits.1.symm.trans hsent) nofun
    | creating =>
      rw [hpoint] at hwaits
      obtain ⟨fate, hcurrent, hcreated, htaken, hcleanup, hheld⟩ := hwaits
      obtain ⟨rfl, rfl⟩ : Request.create w.staging = r ∧ fate = .sent := by
        rw [hcurrent] at hsent
        cases hsent
        exact ⟨rfl, rfl⟩
      exact ⟨.refused, rfl, fun file => ⟨fun hfile => absurd ((hcreated file).mp hfile) nofun, nofun⟩,
        htaken, hcleanup, hheld⟩
    | reading =>
      rw [hpoint] at hwaits
      exact absurd hsent (hwaits.1 r)
    | writing count =>
      rw [hpoint] at hwaits
      obtain ⟨before, data, fate, hcurrent, hcreated, hcleanup, htaken, hoffset, hcount, hdone, hopen⟩ :=
        hwaits
      obtain ⟨rfl, rfl⟩ : Request.write w.handle w.offset data = r ∧ fate = .sent := by
        rw [hcurrent] at hsent
        cases hsent
        exact ⟨rfl, rfl⟩
      exact ⟨before, data, .refused, rfl, hcreated, hcleanup, htaken, hoffset, hcount,
        nofun, fun _ => hopen nofun⟩
    | closing =>
      rw [hpoint] at hwaits
      obtain ⟨fate, hcurrent, hrest⟩ := hwaits
      obtain rfl : Request.close w.handle = r := by
        rw [hcurrent] at hsent
        cases hsent
        rfl
      exact ⟨.refused, rfl, hrest⟩
    | moving =>
      rw [hpoint] at hwaits
      obtain ⟨fate, hcurrent, hcreated, hcleanup, hheld, htotal, -⟩ := hwaits
      obtain rfl : Request.rename w.staging w.destination = r := by
        rw [hcurrent] at hsent
        cases hsent
        rfl
      exact ⟨.refused, rfl, hcreated, hcleanup, hheld, htotal, nofun⟩
    | returned | gone => exact nofun

/-- Where the request of the upload is carried out while nobody waits any more. -/
theorem waits_done {p : Point} (hover : p = .gone ∨ ∃ result, p = .returned result) {r : Request}
    {a : Nat} (hcurrent : w.current = some ⟨r, .done a⟩) : w.Waits p := by
  obtain rfl | ⟨result, rfl⟩ := hover
  · exact fun r' hsent => absurd (hcurrent.symm.trans hsent) nofun
  · exact fun r' hsent => absurd (hcurrent.symm.trans hsent) nofun

/-- Where a request waits to be carried out. -/
theorem sent_cases (h : FileInv w) {r : Request} (hsent : w.current = some ⟨r, .sent⟩) :
    (w.point = .gone ∨ ∃ result, w.point = .returned result) ∨
    (w.point = .creating ∧ r = .create w.staging) ∨
    (∃ count data, w.point = .writing count ∧ r = .write w.handle w.offset data) ∨
    (w.point = .closing ∧ r = .close w.handle) ∨
    (w.point = .moving ∧ r = .rename w.staging w.destination) := by
  have hwaits := h.waits
  cases hpoint : w.point with
  | unregistered | start | canonical | lstat | file | metadata =>
    rw [hpoint] at hwaits
    exact absurd (hwaits.1.symm.trans hsent) nofun
  | creating =>
    rw [hpoint] at hwaits
    obtain ⟨fate, hcurrent, -⟩ := hwaits
    rw [hcurrent] at hsent
    cases hsent
    exact Or.inr (Or.inl ⟨rfl, rfl⟩)
  | reading =>
    rw [hpoint] at hwaits
    exact absurd hsent (hwaits.1 r)
  | writing count =>
    rw [hpoint] at hwaits
    obtain ⟨before, data, fate, hcurrent, -⟩ := hwaits
    rw [hcurrent] at hsent
    cases hsent
    exact Or.inr (Or.inr (Or.inl ⟨count, data, rfl, rfl⟩))
  | closing =>
    rw [hpoint] at hwaits
    obtain ⟨fate, hcurrent, -⟩ := hwaits
    rw [hcurrent] at hsent
    cases hsent
    exact Or.inr (Or.inr (Or.inr (Or.inl ⟨rfl, rfl⟩)))
  | moving =>
    rw [hpoint] at hwaits
    obtain ⟨fate, hcurrent, -⟩ := hwaits
    rw [hcurrent] at hsent
    cases hsent
    exact Or.inr (Or.inr (Or.inr (Or.inr ⟨rfl, rfl⟩)))
  | returned result => exact Or.inl (Or.inr ⟨result, rfl⟩)
  | gone => exact Or.inl (Or.inl rfl)

theorem executed_create (h : FileInv w) (hsent : w.current = some ⟨.create w.staging, .sent⟩)
    {remote : Remote} {a : Nat}
    (hexec : w.remote.execute (.create w.staging) = some (remote, a)) :
    FileInv { w with
      remote := remote, current := some ⟨.create w.staging, .done a⟩, created := some a } := by
  obtain ⟨-, rfl, hnames, hcontents, hnext⟩ := execute_create hexec
  refine ⟨fun file hfile => ?_, fun file hfile => ?_, fun path hpath => ?_, fun c hc => ?_, ?_⟩
  · obtain rfl := Option.some.inj hfile
    exact Or.inl (by rw [hnames]; exact Function.update_self ..)
  · obtain rfl := Option.some.inj hfile
    change _ < remote.count
    omega
  · exact ⟨(h.guard path hpath).1, rfl⟩
  · obtain ⟨hgone, hremove, -⟩ := h.removal c hc
    exact ⟨hgone, hremove, rfl⟩
  · obtain hover | ⟨hpoint, -⟩ | ⟨_, _, -, hreq⟩ | ⟨-, hreq⟩ | ⟨-, hreq⟩ := sent_cases h hsent
    · exact waits_done hover rfl
    · have hwaits := h.waits
      rw [hpoint] at hwaits
      obtain ⟨fate, -, -, htaken, hcleanup, -⟩ := hwaits
      change Waits _ w.point
      rw [hpoint]
      refine ⟨_, rfl, fun file => by simp, htaken, hcleanup, fun file hfile _ => ?_⟩
      obtain rfl := Option.some.inj hfile
      change remote.contents _ = []
      rw [hcontents, Function.update_self]
    · cases hreq
    · cases hreq
    · cases hreq

theorem executed_write (h : FileInv w) {handle offset : Nat} {data : List UInt8}
    (hsent : w.current = some ⟨.write handle offset data, .sent⟩) (hcreated : w.created = some handle)
    {remote : Remote} {a : Nat}
    (hexec : w.remote.execute (.write handle offset data) = some (remote, a)) :
    FileInv { w with remote := remote, current := some ⟨.write handle offset data, .done a⟩ } := by
  have hcount := execute_count hexec
  obtain ⟨hnames, hcontents, -⟩ := execute_write hexec
  refine ⟨fun file hfile => ?_, fun file hfile => Nat.lt_of_lt_of_le (h.made file hfile) hcount,
    h.guard, h.removal, ?_⟩
  · rw [hnames]
    exact h.own file hfile
  · obtain hover | ⟨-, hreq⟩ | ⟨count, data', hpoint, hreq⟩ | ⟨-, hreq⟩ | ⟨-, hreq⟩ := sent_cases h hsent
    · exact waits_done hover rfl
    · cases hreq
    · have hwaits := h.waits
      rw [hpoint] at hwaits
      obtain ⟨before, data'', fate, hcurrent, -, hcleanup, htaken, hoffset, hlength, -, hopen⟩ := hwaits
      obtain ⟨⟨rfl, rfl, rfl⟩, rfl⟩ : (handle = w.handle ∧ offset = w.offset ∧ data'' = data) ∧
          fate = .sent := by
        rw [hcurrent] at hsent
        cases hsent
        exact ⟨⟨rfl, rfl, rfl⟩, rfl⟩
      change Waits _ w.point
      rw [hpoint]
      refine ⟨before, data'', _, rfl, hcreated, hcleanup, htaken, hoffset, hlength,
        fun _ _ file hfile hfound => ?_, fun hnot => absurd rfl (hnot a)⟩
      -- the file held what was written before, up to where the data goes
      obtain rfl := Option.some.inj (hcreated.symm.trans hfile)
      rw [hnames] at hfound
      have hheld := hopen nofun _ hcreated hfound
      change remote.contents w.handle = w.taken
      rw [hcontents, Function.update_self, hheld, hoffset, patch_end, htaken]
    · cases hreq
    · cases hreq

/-- Closing changes nothing, and where the file is renamed the staging name is free. -/
theorem shrinks_other {r : Request} (hlate : w.Late r)
    (hkind : (∃ handle, r = .close handle) ∨ ∃ old new, r = .rename old new)
    {remote : Remote} {a : Nat} (hexec : w.remote.execute r = some (remote, a)) : Shrinks w remote := by
  have hcount := execute_count hexec
  obtain ⟨handle, rfl⟩ | ⟨old, new, rfl⟩ := hkind
  · obtain rfl := execute_close hexec
    exact ⟨fun file hfile => ⟨hfile, rfl⟩, hcount⟩
  · refine ⟨fun file hfile => ?_, hcount⟩
    obtain ⟨rfl, -⟩ := hlate
    obtain ⟨-, -, moved, hold, hnew, hnames⟩ := execute_rename hexec
    rw [hnames] at hfile
    obtain ⟨rfl, -⟩ | ⟨-, hfile⟩ := Remote.update_some hfile
    · rw [hold] at hnew
      cases hnew
    · rw [Function.update_self] at hfile
      cases hfile

theorem executed_other (h : FileInv w) {r : Request} (hsent : w.current = some ⟨r, .sent⟩)
    (hkind : (∃ handle, r = .close handle) ∨ ∃ old new, r = .rename old new)
    {remote : Remote} {a : Nat} (hexec : w.remote.execute r = some (remote, a)) :
    FileInv { w with remote := remote, current := some ⟨r, .done a⟩ } := by
  have hlate := h.waits.late hsent
  have hshrinks := shrinks_other hlate hkind hexec
  have hafter := h.shrinks hshrinks
  refine ⟨hafter.own, hafter.made, hafter.guard, hafter.removal, ?_⟩
  have hwaits := hafter.waits
  change Waits _ w.point at hwaits
  change Waits _ w.point
  obtain hover | ⟨-, rfl⟩ | ⟨_, _, -, rfl⟩ | ⟨hpoint, rfl⟩ | ⟨hpoint, rfl⟩ := sent_cases h hsent
  · exact waits_done hover rfl
  · obtain ⟨_, hreq⟩ | ⟨_, _, hreq⟩ := hkind
    · cases hreq
    · cases hreq
  · obtain ⟨_, hreq⟩ | ⟨_, _, hreq⟩ := hkind
    · cases hreq
    · cases hreq
  · rw [hpoint] at hwaits ⊢
    obtain ⟨fate, -, hrest⟩ := hwaits
    exact ⟨_, rfl, hrest⟩
  · rw [hpoint] at hwaits ⊢
    obtain ⟨fate, -, hcreated, hcleanup, hheld, htotal, -⟩ := hwaits
    refine ⟨_, rfl, hcreated, hcleanup, hheld, htotal, fun _ _ file hfile hfound => ?_⟩
    obtain ⟨-, -, moved, hold, hnew, hnames⟩ := execute_rename hexec
    have hfound' : remote.names w.staging = some file := hfound
    rw [hnames] at hfound'
    obtain ⟨heq, -⟩ | ⟨-, hfree⟩ := Remote.update_some hfound'
    · rw [← heq, hold] at hnew
      cases hnew
    · rw [Function.update_self] at hfree
      cases hfree

theorem FileInv.carry (h : FileInv w) {accept : Bool} (hstep : w.carry accept = some w') :
    FileInv w' := by
  obtain ⟨r, hsent, ⟨-, rfl⟩ | ⟨remote, a, -, hexec, rfl⟩⟩ := carry_some hstep
  · exact h.refused hsent
  · have hlate := h.waits.late hsent
    cases r with
    | create path =>
      obtain ⟨rfl, -⟩ := hlate
      exact executed_create h hsent hexec
    | write handle offset data => exact executed_write h hsent hlate hexec
    | close handle => exact executed_other h hsent (Or.inl ⟨_, rfl⟩) hexec
    | rename old new => exact executed_other h hsent (Or.inr ⟨_, _, rfl⟩) hexec
    | remove path => exact hlate.elim

theorem carryRemoval_some {accept : Bool} (h : w.carryRemoval accept = some w') :
    ∃ r fate, w.removal = some ⟨r, .sent⟩ ∧ (w' = { w with removal := some ⟨r, fate⟩ } ∨
      ∃ remote a, w.remote.execute r = some (remote, a) ∧
        w' = { w with remote := remote, removal := some ⟨r, fate⟩ }) := by
  unfold World.carryRemoval at h
  split at h
  next r hremoval =>
    split at h
    · obtain ⟨⟨remote, a⟩, hexec, rfl⟩ := Option.map_eq_some_iff.mp h
      exact ⟨r, _, hremoval, Or.inr ⟨remote, a, hexec, rfl⟩⟩
    · cases h
      exact ⟨r, _, hremoval, Or.inl rfl⟩
  · cases h

theorem FileInv.removed (h : FileInv w) {r : Request} {fate : Fate} (hremoval : w.removal = some ⟨r, .sent⟩) :
    FileInv { w with removal := some ⟨r, fate⟩ } := by
  obtain ⟨hgone, hremove, hcreated⟩ := h.removal _ hremoval
  refine ⟨h.own, h.made, h.guard, fun c hc => ?_, h.waits⟩
  obtain rfl := Option.some.inj hc
  exact ⟨hgone, hremove, hcreated⟩

theorem FileInv.carryRemoval (h : FileInv w) {accept : Bool}
    (hstep : w.carryRemoval accept = some w') : FileInv w' := by
  obtain ⟨r, fate, hremoval, rfl | ⟨remote, a, hexec, rfl⟩⟩ := carryRemoval_some hstep
  · exact h.removed hremoval
  · obtain ⟨-, rfl, -⟩ : w.point = .gone ∧ r = .remove w.staging ∧ w.created.isSome = true :=
      h.removal _ hremoval
    exact (h.shrinks (shrinks_remove hexec)).removed hremoval

/-! ## The upload -/

structure Inv (config : Profile.Config) (u : Upload) (w : World) : Prop where
  registry : System.Inv config w.ops
  registered : w.point.over = false → Registered u.operation u.serial w.cleanup.isSome w.ops
  files : FileInv w

section
variable {config : Profile.Config}

theorem finish_some {result : Except String String} (h : w.finish u result = some w') :
    ∃ ops, w.ops.step (.ready u.operation) = some ops ∧
      w' = { w with ops := ops, point := .returned result } := by
  obtain ⟨moved, hmove, rfl⟩ := Option.map_eq_some_iff.mp h
  obtain ⟨ops, hops, rfl⟩ := Option.map_eq_some_iff.mp hmove
  exact ⟨ops, hops, rfl⟩

/-- What a step of the upload itself leaves alone: the server, and the guard unless it is set up
or the file is published. -/
structure Effect (w w' : World) : Prop where
  remote : w'.remote = w.remote
  created : w'.created = w.created
  staging : w'.staging = w.staging ∨ w.created = none
  live : w'.point.over = false
  owned : ∀ n, Owned n w.ops → Owned n w'.ops
  guard : w'.cleanup = w.cleanup ∨ w'.cleanup.isSome = true ∨
    ∀ file, w.created = some file → w.remote.names w.staging ≠ some file

/-- The upload returns; its last request may still be carried out. -/
theorem Inv.finish (h : Inv config u w) (hlive : w.point.over = false)
    {result : Except String String} (hstep : w.finish u result = some w') :
    Inv config u w' ∧ Effect w w' := by
  obtain ⟨ops, hops, rfl⟩ := finish_some hstep
  refine ⟨⟨System.inv_step h.registry hops, fun _ => (h.registered hlive).step h.registry rfl hops, ?_⟩,
    rfl, rfl, Or.inl rfl, rfl, fun n howned => howned.step hops, Or.inl rfl⟩
  refine ⟨h.files.own, h.files.made, h.files.guard, fun c hc => ?_,
    fun r hsent => h.files.waits.late hsent⟩
  rw [(h.files.removal c hc).1] at hlive
  cases hlive

/-- The upload goes on to another point. -/
theorem Inv.advance (h : Inv config u w) (hlive : w.point.over = false) (hops : w'.ops = w.ops)
    (hremote : w'.remote = w.remote) (hcreated : w'.created = w.created)
    (hcleanup : w'.cleanup = w.cleanup) (hremoval : w'.removal = w.removal)
    (hstaging : w'.staging = w.staging ∨ (w.created = none ∧ w.cleanup = none))
    (hnext : w'.point.over = false) (hwaits : w'.Waits w'.point) :
    Inv config u w' ∧ Effect w w' := by
  refine ⟨⟨by rw [hops]; exact h.registry, fun _ => ?_, ?_⟩,
    hremote, hcreated, hstaging.imp_right And.left, hnext, fun n howned => by rw [hops]; exact howned,
    Or.inl hcleanup⟩
  · rw [hops, hcleanup]
    exact h.registered hlive
  · have hfiles := h.files
    refine ⟨fun file hfile => ?_, fun file hfile => ?_, fun path hpath => ?_, fun c hc => ?_, hwaits⟩
    · rw [hcreated] at hfile
      obtain hsame | ⟨hnone, -⟩ := hstaging
      · rw [hremote, hsame]
        exact hfiles.own file hfile
      · rw [hnone] at hfile
        cases hfile
    · rw [hremote]
      exact hfiles.made file (hcreated ▸ hfile)
    · rw [hcleanup] at hpath
      obtain hsame | ⟨-, hnone⟩ := hstaging
      · rw [hsame, hcreated]
        exact hfiles.guard path hpath
      · rw [hnone] at hpath
        cases hpath
    · rw [(hfiles.removal c (hremoval ▸ hc)).1] at hlive
      cases hlive

theorem Inv.begin (h : Inv config u w) (hpoint : w.point = .start) (hstep : w.begin u = some w') :
    Inv config u w' ∧ Effect w w' := by
  have hlive : w.point.over = false := by rw [hpoint]; rfl
  have hwaits := h.files.waits
  rw [hpoint] at hwaits
  unfold World.begin at hstep
  split at hstep
  · exact h.finish hlive hstep
  · split at hstep
    · exact h.finish hlive hstep
    · cases hstep
      exact h.advance hlive rfl rfl rfl rfl rfl (Or.inl rfl) rfl hwaits

theorem Inv.canonical (h : Inv config u w) (hpoint : w.point = .canonical)
    {answer : Except String (Option String)} (hstep : w.canonical u answer = some w') :
    Inv config u w' ∧ Effect w w' := by
  have hlive : w.point.over = false := by rw [hpoint]; rfl
  have hwaits := h.files.waits
  rw [hpoint] at hwaits
  unfold World.canonical at hstep
  split at hstep
  · exact h.finish hlive hstep
  · exact h.finish hlive hstep
  · split at hstep
    · exact h.finish hlive hstep
    · cases hstep
      exact h.advance hlive rfl rfl rfl rfl rfl (Or.inl rfl) rfl hwaits

theorem Inv.lstat (h : Inv config u w) (hpoint : w.point = .lstat) {answer : Except String Bool}
    (hstep : w.lstat u answer = some w') :
    Inv config u w' ∧ Effect w w' := by
  have hlive : w.point.over = false := by rw [hpoint]; rfl
  have hwaits := h.files.waits
  rw [hpoint] at hwaits
  unfold World.lstat at hstep
  split at hstep
  · exact h.finish hlive hstep
  · exact h.finish hlive hstep
  · cases hstep
    exact h.advance hlive rfl rfl rfl rfl rfl (Or.inl rfl) rfl hwaits

theorem Inv.file (h : Inv config u w) (hpoint : w.point = .file) {answer : Except String Unit}
    (hstep : w.file u answer = some w') :
    Inv config u w' ∧ Effect w w' := by
  have hlive : w.point.over = false := by rw [hpoint]; rfl
  have hwaits := h.files.waits
  rw [hpoint] at hwaits
  unfold World.file at hstep
  split at hstep
  · exact h.finish hlive hstep
  · cases hstep
    exact h.advance hlive rfl rfl rfl rfl rfl (Or.inl rfl) rfl hwaits

theorem Inv.metadata (h : Inv config u w) (hpoint : w.point = .metadata)
    {answer : Except String (Bool × Nat)} (hstep : w.metadata u answer = some w') :
    Inv config u w' ∧ Effect w w' := by
  have hlive : w.point.over = false := by rw [hpoint]; rfl
  have hwaits := h.files.waits
  rw [hpoint] at hwaits
  unfold World.metadata at hstep
  split at hstep
  · exact h.finish hlive hstep
  · exact h.finish hlive hstep
  · split at hstep
    · exact h.finish hlive hstep
    · obtain ⟨-, hcreated, htaken, hcleanup⟩ := hwaits
      cases hstep
      refine h.advance hlive rfl rfl rfl rfl rfl (Or.inr ⟨hcreated, hcleanup⟩) rfl ?_
      refine ⟨.sent, rfl, fun file => ⟨fun hfile => ?_, nofun⟩, htaken, hcleanup, fun file hfile => ?_⟩
      · exact absurd (hcreated.symm.trans hfile) nofun
      · exact absurd (hcreated.symm.trans hfile) nofun

theorem answered_some {a : Nat} (h : w.answered = some a) : ∃ r, w.current = some ⟨r, .done a⟩ := by
  unfold answered at h
  split at h
  next r answer hcurrent =>
    cases h
    exact ⟨r, hcurrent⟩
  · cases h

/-- From the answer on the guard is there. -/
theorem Inv.opened (h : Inv config u w) (hpoint : w.point = .creating) {answer : Except String Unit}
    (hstep : w.opened u answer = some w') :
    Inv config u w' ∧ Effect w w' ∧ ((∃ error, answer = .error error) ∨ w'.cleanup.isSome = true) := by
  have hlive : w.point.over = false := by rw [hpoint]; rfl
  have hwaits := h.files.waits
  rw [hpoint] at hwaits
  unfold World.opened at hstep
  split at hstep
  · obtain ⟨hinv, heffect⟩ := h.finish hlive hstep
    exact ⟨hinv, heffect, Or.inl ⟨_, rfl⟩⟩
  · split at hstep
    · cases hstep
    next handle hanswered =>
      obtain ⟨moved, hmove, rfl⟩ := Option.map_eq_some_iff.mp hstep
      obtain ⟨ops, hops, rfl⟩ := Option.map_eq_some_iff.mp hmove
      obtain ⟨fate, hcurrent, hcreated, htaken, -, hheld⟩ := hwaits
      obtain ⟨r, hdone⟩ := answered_some hanswered
      obtain rfl : fate = .done handle := by
        rw [hcurrent] at hdone
        cases hdone
        rfl
      have hfile : w.created = some handle := (hcreated handle).mpr rfl
      refine ⟨⟨System.inv_step h.registry hops, fun _ => (h.registered hlive).staged hops, ?_⟩,
        ⟨rfl, rfl, Or.inl rfl, rfl, fun n howned => howned.step hops, Or.inr (Or.inl rfl)⟩, Or.inr rfl⟩
      refine ⟨h.files.own, h.files.made, fun path hpath => ?_, fun c hc => ?_, ?_⟩
      · obtain rfl := Option.some.inj hpath
        exact ⟨rfl, by rw [hfile]; rfl⟩
      · rw [(h.files.removal c hc).1] at hlive
        cases hlive
      · refine ⟨fun r' hsent => absurd (hcurrent.symm.trans hsent) nofun, hfile, rfl, ?_, ?_⟩
        · change w.Held w.taken
          rw [htaken]
          exact hheld
        · change 0 = w.taken.length
          rw [htaken]
          rfl

theorem Inv.read (h : Inv config u w) (hpoint : w.point = .reading)
    {answer : Except String (List UInt8)} (hstep : w.read u answer = some w') :
    Inv config u w' ∧ Effect w w' := by
  have hlive : w.point.over = false := by rw [hpoint]; rfl
  have hwaits := h.files.waits
  rw [hpoint] at hwaits
  unfold World.read at hstep
  split at hstep
  · exact h.finish hlive hstep
  · obtain ⟨-, hcreated, hcleanup, hheld, hoffset⟩ := hwaits
    split at hstep
    · cases hstep
      exact h.advance hlive rfl rfl rfl rfl rfl (Or.inl rfl) rfl
        ⟨.sent, rfl, hcreated, hcleanup, hheld, hoffset⟩
    · split at hstep
      · cases hstep
        exact h.advance hlive rfl rfl rfl rfl rfl (Or.inl rfl) rfl
          ⟨w.taken, _, .sent, rfl, hcreated, hcleanup, rfl, hoffset, rfl, nofun, fun _ => hheld⟩
      · cases hstep

theorem Inv.written (h : Inv config u w) {count : Nat} (hpoint : w.point = .writing count)
    {answer : Except String Unit} (hstep : w.written u count answer = some w') :
    Inv config u w' ∧ Effect w w' := by
  have hlive : w.point.over = false := by rw [hpoint]; rfl
  have hwaits := h.files.waits
  rw [hpoint] at hwaits
  unfold World.written at hstep
  split at hstep
  · exact h.finish hlive hstep
  · split at hstep
    next hanswered =>
      obtain ⟨a, ha⟩ := Option.isSome_iff_exists.mp hanswered
      obtain ⟨r, hdone⟩ := answered_some ha
      obtain ⟨before, data, fate, hcurrent, hcreated, hcleanup, htaken, hoffset, rfl, hheld, -⟩ := hwaits
      obtain rfl : fate = .done a := by
        rw [hcurrent] at hdone
        cases hdone
        rfl
      cases hstep
      refine h.advance hlive rfl rfl rfl rfl rfl (Or.inl rfl) rfl
        ⟨fun r' hsent => absurd (hcurrent.symm.trans hsent) nofun, hcreated, hcleanup, hheld a rfl, ?_⟩
      change w.offset + data.length = w.taken.length
      rw [htaken, List.length_append, hoffset]
    · cases hstep

theorem Inv.closed (h : Inv config u w) (hpoint : w.point = .closing) {answer : Except String Unit}
    (hstep : w.closed u answer = some w') :
    Inv config u w' ∧ Effect w w' := by
  have hlive : w.point.over = false := by rw [hpoint]; rfl
  have hwaits := h.files.waits
  rw [hpoint] at hwaits
  unfold World.closed at hstep
  split at hstep
  · exact h.finish hlive hstep
  · split at hstep
    · cases hstep
    · split at hstep
      · exact h.finish hlive hstep
      next htotal =>
        obtain ⟨fate, -, hcreated, hcleanup, hheld, hoffset⟩ := hwaits
        cases hstep
        exact h.advance hlive rfl rfl rfl rfl rfl (Or.inl rfl) rfl
          ⟨.sent, rfl, hcreated, hcleanup, hheld, hoffset.symm.trans (not_not.mp htotal), nofun⟩

theorem Inv.renamed (h : Inv config u w) (hpoint : w.point = .moving) {answer : Except String Unit}
    (hstep : w.renamed u answer = some w') :
    Inv config u w' ∧ Effect w w' := by
  have hlive : w.point.over = false := by rw [hpoint]; rfl
  unfold World.renamed at hstep
  split at hstep
  · exact h.finish hlive hstep
  · split at hstep
    · cases hstep
    next hanswered =>
      obtain ⟨moved, hmove, hfinish⟩ := Option.bind_eq_some_iff.mp hstep
      obtain ⟨ops, hops, rfl⟩ := Option.map_eq_some_iff.mp hmove
      obtain ⟨ops', hops', rfl⟩ := finish_some hfinish
      have hstaged : Registered u.operation u.serial false ops := (h.registered hlive).staged hops
      refine ⟨⟨System.inv_step (System.inv_step h.registry hops) hops', fun _ =>
        hstaged.step (System.inv_step h.registry hops) rfl hops', ?_⟩,
        rfl, rfl, Or.inl rfl, rfl, fun n howned => (howned.step hops).step hops', Or.inr (Or.inr ?_)⟩
      · refine ⟨h.files.own, h.files.made, nofun, fun c hc => ?_,
          fun r hsent => h.files.waits.late hsent⟩
        rw [(h.files.removal c hc).1] at hlive
        cases hlive
      · -- the good answer says that the file has its name now
        have hwaits := h.files.waits
        rw [hpoint] at hwaits
        obtain ⟨fate, hcurrent, -, -, -, -, hmoved⟩ := hwaits
        obtain ⟨a, ha⟩ : ∃ a, w.answered = some a := by
          cases ha : w.answered with
          | none => exact absurd (by rw [ha]; rfl) hanswered
          | some a => exact ⟨a, rfl⟩
        obtain ⟨r, hdone⟩ := answered_some ha
        obtain rfl : fate = .done a := by
          rw [hcurrent] at hdone
          cases hdone
          rfl
        exact hmoved a rfl

theorem Inv.work (h : Inv config u w) {move : Move} (hstep : w.work u move = some w') :
    Inv config u w' ∧ Effect w w' ∧
      (w.point = .creating → (∃ error, move = .opened (.error error)) ∨ w'.cleanup.isSome = true) := by
  unfold World.work at hstep
  split at hstep
  · split at hstep
    next hpoint =>
      obtain ⟨hinv, heffect⟩ := h.begin hpoint hstep
      exact ⟨hinv, heffect, by rw [hpoint]; nofun⟩
    · cases hstep
  · split at hstep
    next hpoint =>
      obtain ⟨hinv, heffect⟩ := h.canonical hpoint hstep
      exact ⟨hinv, heffect, by rw [hpoint]; nofun⟩
    · cases hstep
  · split at hstep
    next hpoint =>
      obtain ⟨hinv, heffect⟩ := h.lstat hpoint hstep
      exact ⟨hinv, heffect, by rw [hpoint]; nofun⟩
    · cases hstep
  · split at hstep
    next hpoint =>
      obtain ⟨hinv, heffect⟩ := h.file hpoint hstep
      exact ⟨hinv, heffect, by rw [hpoint]; nofun⟩
    · cases hstep
  · split at hstep
    next hpoint =>
      obtain ⟨hinv, heffect⟩ := h.metadata hpoint hstep
      exact ⟨hinv, heffect, by rw [hpoint]; nofun⟩
    · cases hstep
  · split at hstep
    next hpoint =>
      obtain ⟨hinv, heffect, hanswer⟩ := h.opened hpoint hstep
      exact ⟨hinv, heffect, fun _ => hanswer.imp_left fun ⟨error, herror⟩ => ⟨error, by rw [herror]⟩⟩
    · cases hstep
  · split at hstep
    next hpoint =>
      obtain ⟨hinv, heffect⟩ := h.read hpoint hstep
      exact ⟨hinv, heffect, by rw [hpoint]; nofun⟩
    · cases hstep
  · split at hstep
    next hpoint =>
      obtain ⟨hinv, heffect⟩ := h.written hpoint hstep
      exact ⟨hinv, heffect, by rw [hpoint]; nofun⟩
    · cases hstep
  · split at hstep
    next hpoint =>
      obtain ⟨hinv, heffect⟩ := h.closed hpoint hstep
      exact ⟨hinv, heffect, by rw [hpoint]; nofun⟩
    · cases hstep
  · split at hstep
    next hpoint =>
      obtain ⟨hinv, heffect⟩ := h.renamed hpoint hstep
      exact ⟨hinv, heffect, by rw [hpoint]; nofun⟩
    · cases hstep
  · cases hstep

/-! ## The registry -/

theorem nextPoint_cases (u : Upload) (w : World) (event : Event) (ops : System) :
    (w.nextPoint u event ops = w.point ∧ (event = .dropWork u.operation → w.point.over = true)) ∨
    (w.point = .unregistered ∧ w.nextPoint u event ops = .start ∧
      ∃ server, event = .register server u.operation ∧ w.ops.serials = u.serial ∧
        ops.serials ≠ u.serial) ∨
    (w.point.over = false ∧ w.nextPoint u event ops = .gone ∧ event = .dropWork u.operation) := by
  cases event with
  | register server id =>
    unfold nextPoint
    dsimp only
    split
    next hpoint =>
      split
      next hours =>
        obtain ⟨rfl, hserial, hserials⟩ := hours
        exact Or.inr (Or.inl ⟨hpoint, rfl, server, rfl, hserial, hserials⟩)
      · exact Or.inl ⟨hpoint.symm, nofun⟩
    · exact Or.inl ⟨rfl, nofun⟩
  | dropWork id =>
    unfold nextPoint
    dsimp only
    split
    next hours =>
      obtain ⟨hid, hover⟩ := (Bool.and_eq_true _ _).mp hours
      rw [of_decide_eq_true hid]
      exact Or.inr (Or.inr ⟨by simpa using hover, rfl, rfl⟩)
    next hours =>
      refine Or.inl ⟨rfl, fun heq => ?_⟩
      cases heq
      simpa using hours
  | _ => exact Or.inl ⟨rfl, nofun⟩

/-- A step of the registry that is not one of the work. -/
theorem not_settles {event : Event} (hwork : ofWork u.operation event = false)
    (hdrop : event ≠ .dropWork u.operation) : System.Event.settles u.operation event = false := by
  cases event with
  | stage id | publish id => exact hwork
  | dropWork id => exact decide_eq_false fun heq => hdrop (by rw [heq])
  | _ => rfl

theorem Inv.step_registry (h : Inv config u w) {event : Event}
    (hstep : w.registry u event = some w') : Inv config u w' := by
  unfold World.registry at hstep
  split at hstep
  · cases hstep
  next hours =>
    obtain ⟨ops, hops, rfl⟩ := Option.map_eq_some_iff.mp hstep
    have hregistry := System.inv_step h.registry hops
    have hfiles := h.files
    obtain ⟨hpoint, hdrop⟩ | ⟨hpoint, hstart, server, rfl, hserial, hserials⟩ | ⟨hlive, hgone, rfl⟩ :=
      nextPoint_cases u w event ops
    · refine ⟨hregistry, fun hlive => ?_, ?_⟩
      · rw [show World.point _ = w.point from hpoint] at hlive
        have hwork : ofWork u.operation event = false := by simpa [hlive] using hours
        refine (h.registered hlive).step h.registry (not_settles hwork fun heq => ?_) hops
        exact Bool.false_ne_true (hlive.symm.trans (hdrop heq))
      · refine ⟨hfiles.own, hfiles.made, hfiles.guard, fun c hc => ?_, ?_⟩
        · obtain ⟨hgone, hrest⟩ := hfiles.removal c hc
          exact ⟨hpoint.trans hgone, hrest⟩
        · change Waits _ (w.nextPoint u event ops)
          rw [hpoint]
          exact hfiles.waits
    · have hwaits := hfiles.waits
      rw [hpoint] at hwaits
      refine ⟨hregistry, fun _ => ?_, ?_⟩
      · -- the new entry is this upload's
        simp only [System.step] at hops
        split at hops
        · cases hops
          obtain ⟨⟨-, hsame⟩ | ⟨e, hadd, hid, hnumber, hstaged, hphase⟩, -⟩ :=
            System.register_grows w.ops server u.operation
          · exact absurd (hsame.trans hserial) hserials
          · refine ⟨e, ?_, hid, hnumber.trans hserial, ?_, fun o heq => by cases hphase.symm.trans heq⟩
            · change e ∈ (w.ops.register server u.operation).2.entries
              rw [hadd]
              exact List.mem_append_right _ List.mem_cons_self
            · change e.staged = w.cleanup.isSome
              rw [hstaged, hwaits.2.2.2]
              rfl
        · cases hops
      · refine ⟨hfiles.own, hfiles.made, hfiles.guard, fun c hc => ?_, ?_⟩
        · cases (hfiles.removal c hc).1.symm.trans hpoint
        · change Waits _ (w.nextPoint u (.register server u.operation) ops)
          rw [hstart]
          exact hwaits
    · refine ⟨hregistry, fun hover => ?_, ?_⟩
      · rw [show World.point _ = Point.gone from hgone] at hover
        cases hover
      · refine ⟨hfiles.own, hfiles.made, hfiles.guard, fun c hc => ?_, ?_⟩
        · rw [(hfiles.removal c hc).1] at hlive
          cases hlive
        · change Waits _ (w.nextPoint u (.dropWork u.operation) ops)
          rw [hgone]
          exact fun r hsent => hfiles.waits.late hsent

/-! ## Runs -/

theorem others_some {q : Request} (h : w.others q = some w') : w.foreign q = true ∧
    ∃ remote a, w.remote.execute q = some (remote, a) ∧ w' = { w with remote := remote } := by
  unfold others at h
  split at h
  next hforeign =>
    obtain ⟨⟨remote, a⟩, hexec, rfl⟩ := Option.map_eq_some_iff.mp h
    exact ⟨hforeign, remote, a, hexec, rfl⟩
  · cases h

theorem clean_some {n : Nat} (h : w.clean u n = some w') : ∃ path, w.point = .gone ∧
    w.cleanup = some path ∧ w' = { w with removal := some ⟨.remove path, .sent⟩ } := by
  unfold clean at h
  split at h
  next path hpoint hcleanup hremoval =>
    split at h
    · cases h
      exact ⟨path, hpoint, hcleanup, rfl⟩
    · cases h
  · cases h

/-- A step that changes the files only. -/
theorem Inv.files_step (h : Inv config u w) (hops : w'.ops = w.ops) (hpoint : w'.point = w.point)
    (hcleanup : w'.cleanup = w.cleanup) (hfiles : FileInv w') : Inv config u w' :=
  ⟨by rw [hops]; exact h.registry, by rw [hops, hpoint, hcleanup]; exact h.registered, hfiles⟩

theorem inv_step (h : Inv config u w) {move : Move} (hstep : w.step u move = some w') :
    Inv config u w' := by
  unfold World.step at hstep
  split at hstep
  · exact h.step_registry hstep
  · obtain ⟨hforeign, remote, a, hexec, rfl⟩ := others_some hstep
    exact h.files_step rfl rfl rfl (h.files.shrinks (shrinks_foreign hforeign hexec))
  · have hfiles := h.files.carry hstep
    obtain ⟨r, -, ⟨-, rfl⟩ | ⟨remote, a, -, -, rfl⟩⟩ := carry_some hstep
    · exact h.files_step rfl rfl rfl hfiles
    · exact h.files_step rfl rfl rfl hfiles
  · have hfiles := h.files.carryRemoval hstep
    obtain ⟨r, fate, -, rfl | ⟨remote, a, -, rfl⟩⟩ := carryRemoval_some hstep
    · exact h.files_step rfl rfl rfl hfiles
    · exact h.files_step rfl rfl rfl hfiles
  · obtain ⟨path, hgone, hcleanup, rfl⟩ := clean_some hstep
    obtain ⟨rfl, hcreated⟩ := h.files.guard path hcleanup
    refine h.files_step rfl rfl rfl ⟨h.files.own, h.files.made, h.files.guard,
      fun c hc => ?_, h.files.waits⟩
    obtain rfl := Option.some.inj hc
    exact ⟨hgone, rfl, hcreated⟩
  · split at hstep
    · exact (h.work hstep).1
    · cases hstep

theorem inv_initial (config : Profile.Config) (u : Upload) (remote : Remote) :
    Inv config u (initial config remote) :=
  ⟨System.inv_initial config, nofun, ⟨nofun, nofun, nofun, nofun, rfl, rfl, rfl, rfl⟩⟩

end

end Porthop.Files.World
