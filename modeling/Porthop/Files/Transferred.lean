import Porthop.Files.Uploaded
import Porthop.Files.Download

/- What an upload leaves on the server, in every run. -/
namespace Porthop.Files.World

open Porthop.Run
open Files.System (Registered Owned)

variable {u : Upload} {w w' : World} {config : Profile.Config}

/-! ## The destination -/

/-- A step leaves every item but the staging file as it was, or makes the destination appear where
nothing was, with all that was read of the local file and as long as it was at the start. -/
structure Whole (w w' : World) : Prop where
  names : ∀ path, path ≠ w.staging → w'.remote.names path = w.remote.names path ∨
    (path = w.destination ∧ w.remote.names path = none ∧ ∃ file,
      w'.remote.names path = some file ∧ w'.remote.contents file = w.taken ∧
      w.taken.length = w.total)
  contents : ∀ file, file < w.remote.count → w.created ≠ some file →
    w'.remote.contents file = w.remote.contents file

theorem whole_same (h : w'.remote = w.remote) : Whole w w' :=
  ⟨fun _ _ => Or.inl (by rw [h]), fun _ _ _ => by rw [h]⟩

/-- What a request of the upload does when it is carried out, at whatever time. -/
theorem whole_executed (h : FileInv w) {r : Request} (hlate : w.Late r) {remote : Remote} {a : Nat}
    (hexec : w.remote.execute r = some (remote, a)) (hremote : w'.remote = remote) : Whole w w' := by
  cases r with
  | create path =>
    obtain ⟨rfl, -⟩ := hlate
    obtain ⟨-, -, hnames, hcontents, -⟩ := execute_create hexec
    constructor
    · intro path hpath
      rw [hremote, hnames, Function.update_of_ne hpath]
      exact Or.inl rfl
    · intro file hfile _
      rw [hremote, hcontents, Function.update_of_ne (Nat.ne_of_lt hfile)]
  | write handle offset data =>
    obtain ⟨hnames, hcontents, -⟩ := execute_write hexec
    constructor
    · exact fun path _ => Or.inl (by rw [hremote, hnames])
    · intro file _ hother
      rw [hremote, hcontents, Function.update_of_ne fun heq => hother (by rw [heq]; exact hlate)]
  | close handle => exact whole_same (hremote.trans (execute_close hexec))
  | rename old new =>
    obtain ⟨rfl, rfl, hmade, hheld, htotal⟩ := hlate
    obtain ⟨hcontents, -, file, hold, hnew, hnames⟩ := execute_rename hexec
    refine ⟨fun path hpath => ?_, fun _ _ _ => by rw [hremote, hcontents]⟩
    rw [hremote, hnames]
    by_cases heq : path = w.destination
    · subst heq
      obtain ⟨made, hmade⟩ := Option.isSome_iff_exists.mp hmade
      have hown : made = file := by
        obtain hsame | hnone := h.own made hmade
        · exact Option.some.inj (hsame.symm.trans hold)
        · exact absurd (hold.symm.trans hnone) nofun
      subst hown
      refine Or.inr ⟨rfl, hnew, made, Function.update_self .., ?_, htotal⟩
      rw [hcontents]
      exact hheld made hmade hold
    · rw [Function.update_of_ne heq, Function.update_of_ne hpath]
      exact Or.inl rfl
  | remove path => exact hlate.elim

theorem whole_removed {remote : Remote} {a : Nat}
    (hexec : w.remote.execute (.remove w.staging) = some (remote, a)) (hremote : w'.remote = remote) :
    Whole w w' := by
  obtain ⟨hnames, hcontents, -⟩ := execute_remove hexec
  constructor
  · intro path hpath
    rw [hremote, hnames, Function.update_of_ne hpath]
    exact Or.inl rfl
  · intro file _ _
    rw [hremote, hcontents]

theorem whole_step (h : Inv config u w) {move : Move} (hmove : ∀ q, move ≠ .others q)
    (hstep : w.step u move = some w') : Whole w w' := by
  unfold World.step at hstep
  split at hstep
  · unfold World.registry at hstep
    split at hstep
    · cases hstep
    · obtain ⟨ops, -, rfl⟩ := Option.map_eq_some_iff.mp hstep
      exact whole_same rfl
  next q => exact absurd rfl (hmove q)
  · obtain ⟨r, hsent, ⟨-, rfl⟩ | ⟨remote, a, -, hexec, rfl⟩⟩ := carry_some hstep
    · exact whole_same rfl
    · exact whole_executed h.files (h.files.waits.late hsent) hexec rfl
  · obtain ⟨r, fate, hremoval, rfl | ⟨remote, a, hexec, rfl⟩⟩ := carryRemoval_some hstep
    · exact whole_same rfl
    · obtain ⟨-, rfl, -⟩ : w.point = .gone ∧ r = .remove w.staging ∧ w.created.isSome = true :=
        h.files.removal _ hremoval
      exact whole_removed hexec rfl
  · obtain ⟨path, -, -, rfl⟩ := clean_some hstep
    exact whole_same rfl
  · split at hstep
    · exact whole_same (h.work hstep).2.1.remote
    · cases hstep

/-! ## The staging file -/

/-- The staging file that came to exist is gone or published, or the operation is still registered,
or a task is to remove it. -/
def Accounted (u : Upload) (w : World) : Prop :=
  ∀ file, w.created = some file → w.remote.names w.staging = some file →
    (∃ e ∈ w.ops.entries, e.serial = u.serial) ∨ Owned u.serial w.ops

/-- The request for the staging file does not get lost: while the upload waits for its answer it
neither fails nor is dropped after the file was made, and the file is not made afterwards. -/
def Kept (u : Upload) (w : World) : Move → Prop
  | .opened (.error _) => w.created = none
  | .registry (.dropWork id) => id = u.operation → w.point = .creating → w.created = none
  | .carry true => (∃ path, w.current = some ⟨.create path, .sent⟩) → w.point = .creating
  | _ => True

/-- Why the staging file is accounted for. -/
def Guarded (u : Upload) (w : World) : Prop :=
  ∀ file, w.created = some file → w.remote.names w.staging = some file →
    w.point = .creating ∨ (w.point ≠ .gone ∧ w.cleanup.isSome = true) ∨ Owned u.serial w.ops

theorem Guarded.shrinks {remote : Remote} (h : Guarded u w) (hshrinks : Shrinks w remote)
    (hremote : w'.remote = remote) (hcreated : w'.created = w.created)
    (hstaging : w'.staging = w.staging) (hpoint : w'.point = w.point)
    (hcleanup : w'.cleanup = w.cleanup) (hops : w'.ops = w.ops) : Guarded u w' := by
  intro file hfile hnames
  rw [hcreated] at hfile
  rw [hremote, hstaging] at hnames
  rw [hpoint, hcleanup, hops]
  exact h file hfile (hshrinks.staging file hnames).1

theorem shrinks_self (w : World) : Shrinks w w.remote := ⟨fun _ h => ⟨h, rfl⟩, Nat.le_refl _⟩

theorem Guarded.registry (h : Guarded u w) (hinv : Inv config u w) {event : Event}
    (hkept : Kept u w (.registry event)) (hstep : w.registry u event = some w') : Guarded u w' := by
  unfold World.registry at hstep
  split at hstep
  · cases hstep
  · obtain ⟨ops, hops, rfl⟩ := Option.map_eq_some_iff.mp hstep
    intro file hfile hnames
    obtain hcreating | ⟨hlive, hguard⟩ | howned := h file hfile hnames
    · obtain ⟨hpoint, -⟩ | ⟨hpoint, -⟩ | ⟨-, -, rfl⟩ := nextPoint_cases u w event ops
      · exact Or.inl (hpoint.trans hcreating)
      · exact absurd (hcreating.symm.trans hpoint) nofun
      · rw [hkept rfl hcreating] at hfile
        cases hfile
    · obtain ⟨hpoint, -⟩ | ⟨hpoint, -⟩ | ⟨hover, -, rfl⟩ := nextPoint_cases u w event ops
      · exact Or.inr (Or.inl ⟨fun hgone => hlive (hpoint.symm.trans hgone), hguard⟩)
      · have hwaits := hinv.files.waits
        rw [hpoint] at hwaits
        rw [hwaits.2.2.2] at hguard
        cases hguard
      · exact Or.inr (Or.inr ((hinv.registered hover).dropped hinv.registry hops hguard))
    · exact Or.inr (Or.inr (howned.step hops))

theorem guarded_step (h : Guarded u w) (hinv : Inv config u w) {move : Move}
    (hkept : Kept u w move) (hstep : w.step u move = some w') : Guarded u w' := by
  unfold World.step at hstep
  split at hstep
  · exact h.registry hinv hkept hstep
  · obtain ⟨hforeign, remote, a, hexec, rfl⟩ := others_some hstep
    exact h.shrinks (shrinks_foreign hforeign hexec) rfl rfl rfl rfl rfl rfl
  · obtain ⟨r, hsent, ⟨-, rfl⟩ | ⟨remote, a, rfl, hexec, rfl⟩⟩ := carry_some hstep
    · exact h.shrinks (shrinks_self w) rfl rfl rfl rfl rfl rfl
    · have hlate := hinv.files.waits.late hsent
      cases r with
      | create path => exact fun _ _ _ => Or.inl (hkept ⟨path, hsent⟩)
      | write handle offset data =>
        intro file hfile hnames
        rw [show World.remote _ = remote from rfl, (execute_write hexec).1] at hnames
        exact h file hfile hnames
      | close handle => exact h.shrinks (shrinks_other hlate (Or.inl ⟨_, rfl⟩) hexec) rfl rfl rfl rfl rfl rfl
      | rename old new =>
        exact h.shrinks (shrinks_other hlate (Or.inr ⟨_, _, rfl⟩) hexec) rfl rfl rfl rfl rfl rfl
      | remove path => exact hlate.elim
  · obtain ⟨r, fate, hremoval, rfl | ⟨remote, a, hexec, rfl⟩⟩ := carryRemoval_some hstep
    · exact h.shrinks (shrinks_self w) rfl rfl rfl rfl rfl rfl
    · obtain ⟨-, rfl, -⟩ : w.point = .gone ∧ r = .remove w.staging ∧ w.created.isSome = true :=
        hinv.files.removal _ hremoval
      exact h.shrinks (shrinks_remove hexec) rfl rfl rfl rfl rfl rfl
  · obtain ⟨path, -, -, rfl⟩ := clean_some hstep
    exact h.shrinks (shrinks_self w) rfl rfl rfl rfl rfl rfl
  · split at hstep
    · obtain ⟨-, heffect, hopening⟩ := hinv.work hstep
      intro file hfile hnames
      rw [heffect.created] at hfile
      have hstaging : w'.staging = w.staging :=
        heffect.staging.resolve_right fun hnone => absurd (hfile.symm.trans hnone) nofun
      rw [heffect.remote, hstaging] at hnames
      have hlive : w'.point ≠ .gone := fun hgone => by
        have hover := heffect.live
        rw [hgone] at hover
        cases hover
      obtain hcreating | ⟨-, hguard⟩ | howned := h file hfile hnames
      · obtain ⟨error, rfl⟩ | hguard := hopening hcreating
        · exact absurd (hfile.symm.trans hkept) nofun
        · exact Or.inr (Or.inl ⟨hlive, hguard⟩)
      · obtain hsame | hset | hfree := heffect.guard
        · exact Or.inr (Or.inl ⟨hlive, by rw [hsame]; exact hguard⟩)
        · exact Or.inr (Or.inl ⟨hlive, hset⟩)
        · exact absurd hnames (hfree file hfile)
      · exact Or.inr (Or.inr (heffect.owned _ howned))
    · cases hstep

theorem Guarded.accounted (h : Guarded u w) (hinv : Inv config u w) : Accounted u w := by
  intro file hfile hnames
  have hregistered : w.point.over = false → ∃ e ∈ w.ops.entries, e.serial = u.serial := by
    intro hlive
    obtain ⟨e, he, -, hserial, -⟩ := hinv.registered hlive
    exact ⟨e, he, hserial⟩
  obtain hcreating | ⟨hlive, hguard⟩ | howned := h file hfile hnames
  · exact Or.inl (hregistered (by rw [hcreating]; rfl))
  · cases hover : w.point.over with
    | false => exact Or.inl (hregistered hover)
    | true =>
      -- nothing is made before the operation is registered
      have hwaits := hinv.files.waits
      cases hpoint : w.point with
      | unregistered =>
        rw [hpoint] at hwaits
        rw [hwaits.2.1] at hfile
        cases hfile
      | gone => exact absurd hpoint hlive
      | _ => rw [hpoint] at hover; cases hover
  · exact Or.inr howned

/-! ## Names -/

theorem child_ok {parent name path : String} (h : child parent name = .ok path) :
    path = String.ofList (parent.toList.rdropWhile (· = '/')) ++ "/" ++ name := by
  unfold child at h
  split at h
  · cases h
  · exact (Except.ok.inj h).symm

/-- Items of one folder have different names. -/
theorem child_injective {parent name other path : String} (h : child parent name = .ok path)
    (hother : child parent other = .ok path) : name = other := by
  generalize hfolder : String.ofList (parent.toList.rdropWhile (· = '/')) ++ "/" = folder
  have hname := child_ok h
  have hother' := child_ok hother
  rw [hfolder] at hname hother'
  have hlist : folder.toList ++ name.toList = folder.toList ++ other.toList := by
    rw [← String.toList_append, ← String.toList_append, ← hname, ← hother']
  exact String.toList_inj.mp (List.append_cancel_left hlist)

/-- The staging name is not chosen yet. -/
def Point.early : Point → Bool
  | .unregistered | .start | .canonical | .lstat | .file | .metadata => true
  | _ => false

/-- The destination is found. -/
def Point.found : Point → Bool
  | .lstat | .file | .metadata => true
  | _ => false

structure Named (u : Upload) (w : World) : Prop where
  early : Point.early w.point = true → w.staging = ""
  found : Point.found w.point = true → child w.folder (u.name.getD "") = .ok w.destination
  both : w.staging ≠ "" → child w.folder (u.name.getD "") = .ok w.destination ∧
    child w.folder (".newport-upload-" ++ u.number) = .ok w.staging

theorem Named.same (h : Named u w) (hfolder : w'.folder = w.folder)
    (hdestination : w'.destination = w.destination) (hstaging : w'.staging = w.staging)
    (hearly : Point.early w'.point = true → Point.early w.point = true)
    (hfound : Point.found w'.point = true → Point.found w.point = true) : Named u w' := by
  constructor
  · rw [hstaging]
    exact fun hpoint => h.early (hearly hpoint)
  · rw [hfolder, hdestination]
    exact fun hpoint => h.found (hfound hpoint)
  · rw [hfolder, hdestination, hstaging]
    exact h.both

theorem Named.finish (h : Named u w) {result : Except String String}
    (hstep : w.finish u result = some w') : Named u w' := by
  obtain ⟨ops, -, rfl⟩ := finish_some hstep
  exact h.same rfl rfl rfl nofun nofun

theorem Named.canonical (h : Named u w) (hpoint : w.point = .canonical)
    {answer : Except String (Option String)} (hstep : w.canonical u answer = some w') :
    Named u w' := by
  have hempty : w.staging = "" := h.early (by rw [hpoint]; rfl)
  unfold World.canonical at hstep
  split at hstep
  · exact h.finish hstep
  · exact h.finish hstep
  · split at hstep
    · exact h.finish hstep
    next destination hchild =>
      cases hstep
      exact ⟨fun _ => hempty, fun _ => hchild, fun hne => absurd hempty hne⟩

theorem Named.metadata (h : Named u w) (hpoint : w.point = .metadata)
    {answer : Except String (Bool × Nat)} (hstep : w.metadata u answer = some w') : Named u w' := by
  unfold World.metadata at hstep
  split at hstep
  · exact h.finish hstep
  · exact h.finish hstep
  · split at hstep
    · exact h.finish hstep
    next staging hchild =>
      cases hstep
      exact ⟨nofun, nofun, fun _ => ⟨h.found (by rw [hpoint]; rfl), hchild⟩⟩

theorem Named.work (h : Named u w) {move : Move} (hstep : w.work u move = some w') : Named u w' := by
  unfold World.work at hstep
  split at hstep
  · split at hstep
    next hpoint =>
      unfold World.begin at hstep
      split at hstep
      · exact h.finish hstep
      · split at hstep
        · exact h.finish hstep
        · cases hstep
          exact h.same rfl rfl rfl (fun _ => by rw [hpoint]; rfl) nofun
    · cases hstep
  · split at hstep
    next hpoint => exact h.canonical hpoint hstep
    · cases hstep
  · split at hstep
    next hpoint =>
      unfold World.lstat at hstep
      split at hstep
      · exact h.finish hstep
      · exact h.finish hstep
      · cases hstep
        exact h.same rfl rfl rfl (fun _ => by rw [hpoint]; rfl) fun _ => by rw [hpoint]; rfl
    · cases hstep
  · split at hstep
    next hpoint =>
      unfold World.file at hstep
      split at hstep
      · exact h.finish hstep
      · cases hstep
        exact h.same rfl rfl rfl (fun _ => by rw [hpoint]; rfl) fun _ => by rw [hpoint]; rfl
    · cases hstep
  · split at hstep
    next hpoint => exact h.metadata hpoint hstep
    · cases hstep
  · split at hstep
    · unfold World.opened at hstep
      split at hstep
      · exact h.finish hstep
      · split at hstep
        · cases hstep
        · obtain ⟨moved, hmove, rfl⟩ := Option.map_eq_some_iff.mp hstep
          obtain ⟨ops, -, rfl⟩ := Option.map_eq_some_iff.mp hmove
          exact h.same rfl rfl rfl nofun nofun
    · cases hstep
  · split at hstep
    · unfold World.read at hstep
      split at hstep
      · exact h.finish hstep
      · split at hstep
        · cases hstep
          exact h.same rfl rfl rfl nofun nofun
        · split at hstep
          · cases hstep
            exact h.same rfl rfl rfl nofun nofun
          · cases hstep
    · cases hstep
  · split at hstep
    · unfold World.written at hstep
      split at hstep
      · exact h.finish hstep
      · split at hstep
        · cases hstep
          exact h.same rfl rfl rfl nofun nofun
        · cases hstep
    · cases hstep
  · split at hstep
    · unfold World.closed at hstep
      split at hstep
      · exact h.finish hstep
      · split at hstep
        · cases hstep
        · split at hstep
          · exact h.finish hstep
          · cases hstep
            exact h.same rfl rfl rfl nofun nofun
    · cases hstep
  · split at hstep
    · unfold World.renamed at hstep
      split at hstep
      · exact h.finish hstep
      · split at hstep
        · cases hstep
        · obtain ⟨moved, hmove, hfinish⟩ := Option.bind_eq_some_iff.mp hstep
          obtain ⟨ops, -, rfl⟩ := Option.map_eq_some_iff.mp hmove
          obtain ⟨ops', -, rfl⟩ := finish_some hfinish
          exact h.same rfl rfl rfl nofun nofun
    · cases hstep
  · cases hstep

theorem named_step (h : Named u w) {move : Move} (hstep : w.step u move = some w') : Named u w' := by
  unfold World.step at hstep
  split at hstep
  next event =>
    unfold World.registry at hstep
    split at hstep
    · cases hstep
    · obtain ⟨ops, -, rfl⟩ := Option.map_eq_some_iff.mp hstep
      obtain ⟨hpoint, -⟩ | ⟨hpoint, hstart, -⟩ | ⟨-, hgone, -⟩ := nextPoint_cases u w event ops
      · refine h.same rfl rfl rfl (fun hearly => ?_) fun hfound => ?_
        · rw [← hpoint]; exact hearly
        · rw [← hpoint]; exact hfound
      · refine h.same rfl rfl rfl (fun _ => by rw [hpoint]; rfl) fun hfound => ?_
        rw [show World.point _ = Point.start from hstart] at hfound
        cases hfound
      · refine h.same rfl rfl rfl (fun hearly => ?_) fun hfound => ?_
        · rw [show World.point _ = Point.gone from hgone] at hearly; cases hearly
        · rw [show World.point _ = Point.gone from hgone] at hfound; cases hfound
  · obtain ⟨-, remote, a, -, rfl⟩ := others_some hstep
    exact h.same rfl rfl rfl id id
  · obtain ⟨r, -, ⟨-, rfl⟩ | ⟨remote, a, -, -, rfl⟩⟩ := carry_some hstep
    · exact h.same rfl rfl rfl id id
    · exact h.same rfl rfl rfl id id
  · obtain ⟨r, fate, -, rfl | ⟨remote, a, -, rfl⟩⟩ := carryRemoval_some hstep
    · exact h.same rfl rfl rfl id id
    · exact h.same rfl rfl rfl id id
  · obtain ⟨path, -, -, rfl⟩ := clean_some hstep
    exact h.same rfl rfl rfl id id
  · split at hstep
    · exact h.work hstep
    · cases hstep

theorem named_initial (config : Profile.Config) (u : Upload) (remote : Remote) :
    Named u (initial config remote) := ⟨fun _ => rfl, nofun, fun hne => absurd rfl hne⟩

/-- Once there is a staging name it is not the one of the destination, as its number is new. -/
theorem Named.apart (h : Named u w) (hnew : u.name ≠ some (".newport-upload-" ++ u.number))
    (hname : u.name.isSome = true) (hstaging : w.staging ≠ "") : w.destination ≠ w.staging := by
  obtain ⟨hdestination, hchild⟩ := h.both hstaging
  intro heq
  rw [heq] at hdestination
  obtain ⟨name, hsome⟩ := Option.isSome_iff_exists.mp hname
  apply hnew
  rw [hsome] at hdestination ⊢
  exact congrArg some (child_injective hdestination hchild)

end Porthop.Files.World

/- Transfers are all or nothing, whatever fails and wherever they are cancelled, as long as the
   request for a staging file does not get lost and a write that fails is told. -/
namespace Porthop.Files

open Porthop.Run

variable (config : Profile.Config) (u : Upload) (remote : Remote) (d : Download)
  (destination : Option (List UInt8))

/-- **Transfers are all or nothing.** An upload leaves every item of the server as it was, or makes
its destination appear whole; its staging file is accounted for where the request for it is kept.
A download replaces its destination by all that was read where its writes are told. -/
theorem transfers_whole :
    (∀ moves w, exec (World.step u) moves (World.initial config remote) = some w →
      (∀ move w', (∀ q, move ≠ .others q) → w.step u move = some w' → World.Whole w w') ∧
      (u.name ≠ some (".newport-upload-" ++ u.number) → u.name.isSome = true → w.staging ≠ "" →
        w.destination ≠ w.staging) ∧
      (Along (World.step u) (World.Kept u) moves (World.initial config remote) →
        World.Accounted u w)) ∧
    ∀ moves s, exec (Download.step d) moves (Download.initial destination) = some s →
      ∀ move s', (∀ content, move ≠ .others content) → Download.Told s move →
        Download.step d s move = some s' → Download.Replaces s s' := by
  constructor
  · intro moves w hrun
    have hinv : World.Inv config u w :=
      exec_invariant (fun _ _ _ h hstep => World.inv_step h hstep)
        (World.inv_initial config u remote) hrun
    have hnamed : World.Named u w :=
      exec_invariant (fun _ _ _ h hstep => World.named_step h hstep)
        (World.named_initial config u remote) hrun
    refine ⟨fun move w' hmove hstep => World.whole_step hinv hmove hstep, hnamed.apart, fun hkept => ?_⟩
    have hstart : World.Guarded u (World.initial config remote) := nofun
    have hsteps : ∀ w move w', World.Inv config u w ∧ World.Guarded u w → World.Kept u w move →
        w.step u move = some w' → World.Inv config u w' ∧ World.Guarded u w' :=
      fun _ _ _ h hok hstep => ⟨World.inv_step h.1 hstep, World.guarded_step h.2 h.1 hok hstep⟩
    have hguarded : World.Inv config u w ∧ World.Guarded u w :=
      along_invariant hsteps ⟨World.inv_initial config u remote, hstart⟩ hkept hrun
    exact hguarded.2.accounted hinv
  · intro moves s hrun move s' hmove htold hstep
    have hinv : Download.Inv s :=
      exec_invariant (fun _ _ _ h hstep => Download.inv_step h hstep)
        (Download.inv_initial destination) hrun
    exact Download.replaces_step hinv hmove htold hstep

/-! ## A staging file that is left behind -/

def sampleUpload : Upload := ⟨7, 0, some "notes", "/", "1"⟩

def emptyRemote : Remote := ⟨fun _ => none, fun _ => [], 0, nofun⟩

/-- The operation is cancelled when the server has made the staging file and its answer is on
the way. -/
def lostAnswer : List Move :=
  [.registry (.register 1 7), .registry (.poll 7), .begin, .canonical (.ok (some "/home")),
    .lstat (.ok false), .file (.ok ()), .metadata (.ok (true, 5)), .carry true, .registry (.pending 7),
    .registry (.cancel 7), .registry (.poll 7), .registry (.dropWork 7), .registry (.dropGuard 7)]

theorem lostAnswer_left : ∃ w,
    exec (World.step sampleUpload) lostAnswer (World.initial System.sampleConfig emptyRemote) = some w ∧
    ¬World.Accounted sampleUpload w := by
  have hsome : (exec (World.step sampleUpload) lostAnswer
      (World.initial System.sampleConfig emptyRemote)).any (fun w => w.created = some 0 ∧
        w.remote.names w.staging = some 0 ∧ w.ops.entries.isEmpty ∧ w.ops.tasks.isEmpty) = true := by
    decide +kernel
  obtain ⟨w, hw, h⟩ := (Option.any_eq_true _ _).mp hsome
  obtain ⟨hcreated, hnames, hentries, htasks⟩ := of_decide_eq_true h
  refine ⟨w, hw, fun haccounted => ?_⟩
  obtain ⟨e, he, -⟩ | ⟨task, htask, -⟩ := haccounted 0 hcreated hnames
  · rw [List.isEmpty_iff.mp hentries] at he
    cases he
  · rw [List.isEmpty_iff.mp htasks] at htask
    cases htask

end Porthop.Files
