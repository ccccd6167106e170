import Porthop.Files.Operations
import Porthop.Lib.Lists
import Porthop.Profile.Changes

/- What holds of the file operations in every run.

   The invariant has three parts: one on the registry and what became of the operations, one on
   the profiles they were given and what was saved, and one on the shutdown and the clean-up
   tasks. Each is stated on the fields it depends on, so a step that leaves them alone leaves
   it alone. -/
namespace Porthop.Files

open Porthop.Run
open Profile (Uuid Server Config)

namespace System

/-- What was saved last of a server; before the first write it is what was there at the start. -/
def savedBy (config : Config) (writes : List Write) (id : Uuid) : Option Server :=
  match (writes.filter fun w => w.server = id).getLast? with
  | some w => w.profile
  | none => find config id

/-- The tasks the shutdown is waiting for. -/
def held : Shutdown → List Nat
  | .awaiting tasks => tasks
  | _ => []

/-! ## The invariant -/

structure RegistryInv (entries : List Operation) (serials : Nat) (results : List (Nat × Outcome)) :
    Prop where
  few : entries.length ≤ maxOperations
  ids : (entries.map Operation.id).Nodup
  distinct : (entries.map Operation.serial).Nodup
  older : ∀ e ∈ entries, e.serial < serials
  ended : ∀ r ∈ results, r.1 < serials ∧ ∀ e ∈ entries, e.serial ≠ r.1
  once : (results.map Prod.fst).Nodup

/-- The write of an edit under way is the last one. -/
def EditOk (writes : List Write) (through : Nat) : Option Edit → Prop
  | none => through = writes.length
  | some d =>
    if d.stage = .writing then through = writes.length
    else ∃ before w, writes = before ++ [w] ∧ before.length = through ∧ w.server = d.server ∧
      w.connection = d.connection

structure ProfileInv (start : Config) (entries : List Operation) (config : Config)
    (writes : List Write) (edit : Option Edit) (through : Nat) : Prop where
  saved : ∀ id, find config id = savedBy start writes id
  profile : ∀ e ∈ entries, e.seen ≤ writes.length ∧
    savedBy start (writes.take e.seen) e.server = some e.profile
  under : EditOk writes through edit
  own : ∀ d, edit = some d → ∀ server, d.profile = some server → server.id = d.server
  /-- The only edit of its connection that an operation may not have been told of is under way. -/
  fresh : ∀ e ∈ entries, e.cancel = false → ∀ i w, e.seen ≤ i → writes[i]? = some w →
    w.server = e.server → w.connection = true →
    through ≤ i ∧ edit.any (fun d => d.stage = .written) = true

structure ShutdownInv (entries : List Operation) (closing : Bool) (shutdown : Shutdown)
    (cleanup : List Nat) (tasks : List Task) : Prop where
  told : shutdown ≠ .idle → closing = true ∧ ∀ e ∈ entries, e.cancel = true
  empty : shutdown ≠ .idle → shutdown ≠ .draining → shutdown ≠ .timedOut → entries = []
  watched : ∀ n t, tasks[n]? = some t → t.finished = false →
    n ∈ cleanup ∨ n ∈ held shutdown ∨ shutdown = .timedOut
  taken : shutdown = .finished → cleanup = []
  awaiting : ∀ ns, shutdown = .awaiting ns → cleanup = []

structure Inv (start : Config) (s : System) : Prop where
  registry : RegistryInv s.entries s.serials s.results
  profiles : ProfileInv start s.entries s.config s.writes s.edit s.through
  ending : ShutdownInv s.entries s.closing s.shutdown s.cleanup s.tasks

/-! ## Changes of operations -/

/-- A change of an operation that leaves it the same one and does not take a cancel back. -/
structure Keeps (f : Operation → Operation) : Prop where
  id : ∀ e, (f e).id = e.id
  server : ∀ e, (f e).server = e.server
  profile : ∀ e, (f e).profile = e.profile
  serial : ∀ e, (f e).serial = e.serial
  seen : ∀ e, (f e).seen = e.seen
  cancel : ∀ e, e.cancel = true → (f e).cancel = true

theorem keeps_send : Keeps send :=
  ⟨fun _ => rfl, fun _ => rfl, fun _ => rfl, fun _ => rfl, fun _ => rfl, fun _ _ => rfl⟩

theorem keeps_phase {g : Operation → Phase} : Keeps fun e => { e with phase := g e } :=
  ⟨fun _ => rfl, fun _ => rfl, fun _ => rfl, fun _ => rfl, fun _ => rfl, fun _ h => h⟩

theorem keeps_staged {b : Bool} : Keeps fun e => { e with staged := b } :=
  ⟨fun _ => rfl, fun _ => rfl, fun _ => rfl, fun _ => rfl, fun _ => rfl, fun _ h => h⟩

theorem keeps_dropped {outcome : Outcome} :
    Keeps fun e => { e with phase := .dropped outcome, staged := false } :=
  ⟨fun _ => rfl, fun _ => rfl, fun _ => rfl, fun _ => rfl, fun _ => rfl, fun _ h => h⟩

/-- The same change on some of the operations only. -/
theorem Keeps.on {f : Operation → Operation} (h : Keeps f) (p : Operation → Bool) :
    Keeps fun e => if p e then f e else e := by
  constructor
  · intro e; split; exacts [h.id e, rfl]
  · intro e; split; exacts [h.server e, rfl]
  · intro e; split; exacts [h.profile e, rfl]
  · intro e; split; exacts [h.serial e, rfl]
  · intro e; split; exacts [h.seen e, rfl]
  · intro e he; split; exacts [h.cancel e he, he]

section
variable {start : Config} {entries : List Operation} {serials : Nat}
  {results : List (Nat × Outcome)} {f : Operation → Operation}

theorem RegistryInv.map (h : RegistryInv entries serials results) (hf : Keeps f) :
    RegistryInv (entries.map f) serials results where
  few := by rw [List.length_map]; exact h.few
  ids := by
    have hids : (entries.map f).map Operation.id = entries.map Operation.id := by
      rw [List.map_map]
      exact List.map_congr_left fun e _ => hf.id e
    rw [hids]
    exact h.ids
  distinct := by
    have hserials : (entries.map f).map Operation.serial = entries.map Operation.serial := by
      rw [List.map_map]
      exact List.map_congr_left fun e _ => hf.serial e
    rw [hserials]
    exact h.distinct
  older e he := by
    obtain ⟨e₀, he₀, rfl⟩ := List.mem_map.mp he
    rw [hf.serial]
    exact h.older e₀ he₀
  ended r hr := by
    refine ⟨(h.ended r hr).1, fun e he => ?_⟩
    obtain ⟨e₀, he₀, rfl⟩ := List.mem_map.mp he
    rw [hf.serial]
    exact (h.ended r hr).2 e₀ he₀
  once := h.once

variable {config : Config} {writes : List Write} {edit : Option Edit} {through : Nat}

theorem ProfileInv.map (h : ProfileInv start entries config writes edit through) (hf : Keeps f) :
    ProfileInv start (entries.map f) config writes edit through where
  saved := h.saved
  profile e he := by
    obtain ⟨e₀, he₀, rfl⟩ := List.mem_map.mp he
    rw [hf.seen, hf.server, hf.profile]
    exact h.profile e₀ he₀
  under := h.under
  own := h.own
  fresh e he hcancel := by
    obtain ⟨e₀, he₀, rfl⟩ := List.mem_map.mp he
    have hcancel₀ : e₀.cancel = false := by
      cases hc : e₀.cancel with
      | false => rfl
      | true => rw [hf.cancel e₀ hc] at hcancel; exact hcancel
    rw [hf.seen, hf.server]
    exact h.fresh e₀ he₀ hcancel₀

variable {closing : Bool} {shutdown : Shutdown} {cleanup : List Nat} {tasks : List Task}

theorem ShutdownInv.map (h : ShutdownInv entries closing shutdown cleanup tasks) (hf : Keeps f) :
    ShutdownInv (entries.map f) closing shutdown cleanup tasks where
  told hidle := by
    refine ⟨(h.told hidle).1, fun e he => ?_⟩
    obtain ⟨e₀, he₀, rfl⟩ := List.mem_map.mp he
    exact hf.cancel e₀ ((h.told hidle).2 e₀ he₀)
  empty h₁ h₂ h₃ := by rw [h.empty h₁ h₂ h₃, List.map_nil]
  watched := h.watched
  taken := h.taken
  awaiting := h.awaiting

variable {s : System}

theorem Inv.update (h : Inv start s) (hf : Keeps f) (p : Operation → Bool) :
    Inv start (s.update p f) where
  registry := h.registry.map (hf.on p)
  profiles := h.profiles.map (hf.on p)
  ending := h.ending.map (hf.on p)

theorem Inv.move {t : System} {id : Uuid} {p : Operation → Bool} (h : Inv start s) (hf : Keeps f)
    (hstep : s.move id p f = some t) : Inv start t := by
  unfold System.move at hstep
  split at hstep
  · cases hstep
    exact h.update hf _
  · cases hstep

/-! ## Registration and cancels -/

theorem RegistryInv.add (h : RegistryInv entries serials results) {e : Operation}
    (hfew : entries.length < maxOperations) (hid : ∀ e' ∈ entries, e'.id ≠ e.id)
    (hserial : e.serial = serials) : RegistryInv (entries ++ [e]) (serials + 1) results where
  few := by
    rw [List.length_append, List.length_singleton]
    exact hfew
  ids := by
    rw [List.map_append, List.map_singleton, List.nodup_append]
    refine ⟨h.ids, List.nodup_singleton _, fun a ha b hb => ?_⟩
    obtain ⟨e', he', rfl⟩ := List.mem_map.mp ha
    obtain rfl := List.mem_singleton.mp hb
    exact hid e' he'
  distinct := by
    rw [List.map_append, List.map_singleton, List.nodup_append]
    refine ⟨h.distinct, List.nodup_singleton _, fun a ha b hb => ?_⟩
    obtain ⟨e', he', rfl⟩ := List.mem_map.mp ha
    obtain rfl := List.mem_singleton.mp hb
    rw [hserial]
    exact Nat.ne_of_lt (h.older e' he')
  older e' he' := by
    obtain he' | he' := List.mem_append.mp he'
    · exact Nat.lt_succ_of_lt (h.older e' he')
    · obtain rfl := List.mem_singleton.mp he'
      rw [hserial]
      exact Nat.lt_succ_self _
  ended r hr := by
    refine ⟨Nat.lt_succ_of_lt (h.ended r hr).1, fun e' he' => ?_⟩
    obtain he' | he' := List.mem_append.mp he'
    · exact (h.ended r hr).2 e' he'
    · obtain rfl := List.mem_singleton.mp he'
      rw [hserial]
      exact Ne.symm (Nat.ne_of_lt (h.ended r hr).1)
  once := h.once

/-- An operation registers with the profile that is saved, while no edit is under way. -/
theorem ProfileInv.add (h : ProfileInv start entries config writes none through) {e : Operation}
    (hseen : e.seen = writes.length) (hprofile : find config e.server = some e.profile) :
    ProfileInv start (entries ++ [e]) config writes none through where
  saved := h.saved
  profile e' he' := by
    obtain he' | he' := List.mem_append.mp he'
    · exact h.profile e' he'
    · obtain rfl := List.mem_singleton.mp he'
      rw [hseen, List.take_length, ← h.saved]
      exact ⟨Nat.le_refl _, hprofile⟩
  under := h.under
  own := h.own
  fresh e' he' hcancel i w hi hw := by
    obtain he' | he' := List.mem_append.mp he'
    · exact h.fresh e' he' hcancel i w hi hw
    · obtain rfl := List.mem_singleton.mp he'
      have hlt := (List.getElem?_eq_some_iff.mp hw).1
      rw [hseen] at hi
      omega

theorem Inv.register (h : Inv start s) (hedit : s.edit = none) (server id : Uuid) :
    Inv start (s.register server id).2 := by
  unfold System.register
  split
  · exact h
  next profile hprofile =>
    split
    · exact h
    next hopen =>
      split
      · exact ⟨h.registry, h.profiles, h.ending⟩
      · split
        · exact h
        next hfew =>
          split
          · exact h
          next hnew =>
            have hnew : ∀ e' ∈ s.entries, e'.id ≠ id := by
              intro e' he' heq
              exact hnew (List.any_eq_true.mpr ⟨e', he', decide_eq_true heq⟩)
            have hidle : s.shutdown = .idle := by
              by_contra hidle
              exact hopen (h.ending.told hidle).1
            have hprofiles := h.profiles
            rw [hedit] at hprofiles
            refine ⟨h.registry.add (Nat.not_le.mp hfew) hnew rfl, ?_, ?_⟩
            · simp only [hedit]
              exact hprofiles.add rfl hprofile
            · exact {
                told := fun hne => absurd hidle hne
                empty := fun hne => absurd hidle hne
                watched := h.ending.watched
                taken := h.ending.taken
                awaiting := h.ending.awaiting }

theorem Inv.filesCancel (h : Inv start s) (id : Uuid) : Inv start (s.filesCancel id) := by
  unfold System.filesCancel
  split
  · exact h.update keeps_send _
  · exact ⟨h.registry, h.profiles, h.ending⟩

/-! ## The end of an operation -/

/-- A new clean-up task is one nobody waits for yet. -/
theorem Inv.addCleanup (h : Inv start s) (hopen : s.entries ≠ []) (owner : Nat) :
    Inv start (s.addCleanup owner) where
  registry := h.registry
  profiles := h.profiles
  ending := by
    have hbusy : s.shutdown = .idle ∨ s.shutdown = .draining ∨ s.shutdown = .timedOut := by
      by_contra hno
      simp only [not_or] at hno
      exact hopen (h.ending.empty hno.1 hno.2.1 hno.2.2)
    refine ⟨h.ending.told, h.ending.empty, fun n t hn ht => ?_, fun heq => ?_, fun ns heq => ?_⟩
    · obtain hn | ⟨rfl, -⟩ := Lists.getElem?_concat hn
      · obtain hmem | hheld := h.ending.watched n t hn ht
        · have hkept : n ∈ s.cleanup.filter fun n => !(s.tasks[n]?.any Task.finished) := by
            rw [List.mem_filter, hn]
            exact ⟨hmem, by simp [ht]⟩
          exact Or.inl (List.mem_append_left _ hkept)
        · exact Or.inr hheld
      · exact Or.inl (List.mem_append_right _ List.mem_cons_self)
    · have hdone : s.shutdown = .finished := heq
      rw [hdone] at hbusy
      simp at hbusy
    · have hdone : s.shutdown = .awaiting ns := heq
      rw [hdone] at hbusy
      simp at hbusy

theorem operation_some {id : Uuid} {e : Operation} (h : s.operation id = some e) :
    e ∈ s.entries ∧ e.id = id :=
  ⟨List.mem_of_find?_eq_some h, by simpa using List.find?_some h⟩

theorem Inv.dropWork {t : System} {id : Uuid} (h : Inv start s) (hstep : s.dropWork id = some t) :
    Inv start t := by
  unfold System.dropWork at hstep
  split at hstep
  · cases hstep
  next e he =>
    split at hstep
    next outcome hphase =>
      cases hstep
      have hopen : s.entries ≠ [] := List.ne_nil_of_mem (operation_some he).1
      split
      · exact (h.addCleanup hopen e.serial).update keeps_dropped _
      · exact h.update keeps_dropped _
    · cases hstep

theorem Inv.dropGuard {t : System} {id : Uuid} (h : Inv start s) (hstep : s.dropGuard id = some t) :
    Inv start t := by
  unfold System.dropGuard at hstep
  split at hstep
  · cases hstep
  next e he =>
    split at hstep
    next outcome hphase =>
      cases hstep
      obtain ⟨hmem, hid⟩ := operation_some he
      have hsub : (s.entries.filter fun e => e.id ≠ id).Sublist s.entries := List.filter_sublist
      refine ⟨?_, ?_, ?_⟩
      · refine ⟨Nat.le_trans hsub.length_le h.registry.few, (hsub.map _).nodup h.registry.ids,
          (hsub.map _).nodup h.registry.distinct, fun e' he' => h.registry.older e' (hsub.subset he'),
          fun r hr => ?_, ?_⟩
        · obtain hr | hr := List.mem_append.mp hr
          · exact ⟨(h.registry.ended r hr).1,
              fun e' he' => (h.registry.ended r hr).2 e' (hsub.subset he')⟩
          · obtain rfl := List.mem_singleton.mp hr
            refine ⟨h.registry.older e hmem, fun e' he' heq => ?_⟩
            have hsame : e' = e :=
              List.inj_on_of_nodup_map h.registry.distinct (hsub.subset he') hmem heq
            have hne := (List.mem_filter.mp he').2
            rw [hsame, hid] at hne
            simp at hne
        · rw [List.map_append, List.nodup_append]
          refine ⟨h.registry.once, List.nodup_singleton _, fun a ha b hb => ?_⟩
          obtain ⟨r, hr, rfl⟩ := List.mem_map.mp ha
          obtain rfl := List.mem_singleton.mp hb
          exact Ne.symm ((h.registry.ended r hr).2 e hmem)
      · exact ⟨h.profiles.saved, fun e' he' => h.profiles.profile e' (hsub.subset he'),
          h.profiles.under, h.profiles.own, fun e' he' => h.profiles.fresh e' (hsub.subset he')⟩
      · refine ⟨fun hidle => ⟨(h.ending.told hidle).1,
          fun e' he' => (h.ending.told hidle).2 e' (hsub.subset he')⟩, fun h₁ h₂ h₃ => ?_,
          h.ending.watched, h.ending.taken, h.ending.awaiting⟩
        have hnil := h.ending.empty h₁ h₂ h₃
        rw [hnil] at hmem
        cases hmem
    · cases hstep

/-! ## The commands -/

/-- A command begins while none is under way. -/
theorem Inv.begin (h : Inv start s) (hedit : s.edit = none) (d : Edit) (hd : d.stage = .writing)
    (hown : ∀ server, d.profile = some server → server.id = d.server) :
    Inv start { s with edit := some d } where
  registry := h.registry
  profiles := by
    have hunder := h.profiles.under
    rw [hedit] at hunder
    refine ⟨h.profiles.saved, h.profiles.profile, ?_, ?_, fun e he hcancel i w hi hw hs hc => ?_⟩
    · simp only [EditOk, hd, if_true]
      exact hunder
    · intro d' hd'
      cases hd'
      exact hown
    · have hold := (h.profiles.fresh e he hcancel i w hi hw hs hc).2
      rw [hedit] at hold
      cases hold
  ending := h.ending

theorem savedBy_concat (start : Config) (writes : List Write) (w : Write) (id : Uuid) :
    savedBy start (writes ++ [w]) id = if w.server = id then w.profile else savedBy start writes id := by
  unfold savedBy
  rw [List.filter_append, List.filter_singleton]
  by_cases hid : w.server = id
  · simp only [hid, decide_true, cond_true, if_true, List.getLast?_concat]
  · simp only [hid, decide_false, cond_false, if_false, List.append_nil]

theorem find_edited_other {config : Config} {d : Edit} {id : Uuid}
    (hserver : ∀ server, d.profile = some server → server.id = d.server) (hid : d.server ≠ id) :
    find (edited config d) id = find config id := by
  unfold edited
  split
  next server hprofile =>
    have hne : server.id ≠ id := by
      rw [hserver server hprofile]
      exact hid
    exact Profile.Connections.find_upsert_other hne config.servers
  next =>
    simp only [find]
    rw [List.find?_filter]
    congr 1
    funext x
    by_cases hx : x.id = id
    · simp [hx, Ne.symm hid]
    · simp [hx]

theorem Inv.write {t : System} {stored : Bool} (h : Inv start s)
    (hstep : s.write stored = some t) : Inv start t := by
  unfold System.write at hstep
  split at hstep
  · cases hstep
  next d hedit =>
    split at hstep
    · cases hstep
    next hstage =>
      have hwriting : d.stage = .writing := not_not.mp hstage
      have hunder := h.profiles.under
      simp only [hedit, EditOk, hwriting, if_true] at hunder
      -- No connection is being edited yet that an operation could have missed.
      have hnone : ∀ e ∈ s.entries, e.cancel = false → ∀ i w, e.seen ≤ i → s.writes[i]? = some w →
          w.server = e.server → w.connection = true → False := by
        intro e he hcancel i w hi hw hs hc
        have hold := (h.profiles.fresh e he hcancel i w hi hw hs hc).2
        rw [hedit] at hold
        simp [hwriting] at hold
      split at hstep
      · cases hstep
        refine ⟨h.registry, ⟨fun id => ?_, fun e he => ?_, ?_, ?_,
          fun e he hcancel i w hi hw hs hc => ?_⟩, h.ending⟩
        · rw [savedBy_concat]
          split
          next heq => exact congrArg (find (edited s.config d)) (Eq.symm heq)
          next hne =>
            rw [← h.profiles.saved]
            exact find_edited_other (h.profiles.own d hedit) hne
        · obtain ⟨hseen, hprofile⟩ := h.profiles.profile e he
          rw [List.length_append, List.take_append_of_le_length hseen]
          exact ⟨Nat.le_trans hseen (Nat.le_add_right _ _), hprofile⟩
        · simp only [EditOk, reduceCtorEq, if_false]
          exact ⟨s.writes, _, rfl, hunder.symm, rfl, rfl⟩
        · intro d' hd'
          cases hd'
          exact h.profiles.own d hedit
        · obtain hw | ⟨rfl, rfl⟩ := Lists.getElem?_concat hw
          · exact absurd (hnone e he hcancel i w hi hw hs hc) id
          · exact ⟨Nat.le_of_eq hunder, rfl⟩
      · cases hstep
        refine ⟨h.registry, ⟨h.profiles.saved, h.profiles.profile, hunder, by simp, ?_⟩, h.ending⟩
        intro e he hcancel i w hi hw hs hc
        exact absurd (hnone e he hcancel i w hi hw hs hc) id

/-- The operations of the server are told of the edit. -/
theorem Inv.tell {t : System} (h : Inv start s) (hstep : s.tell = some t) : Inv start t := by
  unfold System.tell at hstep
  split at hstep
  · cases hstep
  next d hedit =>
    split at hstep
    next hstage =>
      cases hstep
      have hs : Inv start (s.cancelServer d.server) := h.update keeps_send _
      have hunder := h.profiles.under
      simp only [hedit, EditOk, hstage.1, reduceCtorEq, if_false] at hunder
      obtain ⟨before, w₀, hwrites, hlen, hserver, hconnection⟩ := hunder
      refine ⟨hs.registry, ⟨hs.profiles.saved, hs.profiles.profile, ?_, ?_, ?_⟩, hs.ending⟩
      · simp only [EditOk, reduceCtorEq, if_false]
        exact ⟨before, w₀, hwrites, hlen, hserver, hconnection⟩
      · intro d' hd'
        cases hd'
        exact h.profiles.own d hedit
      · intro e he hcancel i w hi hw hse hc
        exfalso
        -- The write of this edit is the only one it could be, and its operations are told.
        have hthrough := (hs.profiles.fresh e he hcancel i w hi hw hse hc).1
        have hw' : s.writes[i]? = some w := hw
        have hlt := (List.getElem?_eq_some_iff.mp hw').1
        rw [hwrites, List.length_append, List.length_singleton] at hlt
        have hthrough' : s.through ≤ i := hthrough
        have hi' : i = before.length := by omega
        rw [hwrites, hi', List.getElem?_concat_length] at hw'
        obtain ⟨e₀, he₀, rfl⟩ := List.mem_map.mp he
        have hsame : e₀.server = d.server := by
          have h₁ := (keeps_send.on fun e => decide (e.server = d.server)).server e₀
          rw [h₁, ← Option.some.inj hw', hserver] at hse
          exact hse.symm
        simp only [hsame, decide_true, if_true] at hcancel
        cases hcancel
    · cases hstep

theorem Inv.release {t : System} (h : Inv start s) (hstep : s.release = some t) : Inv start t := by
  unfold System.release at hstep
  split at hstep
  · cases hstep
  next d hedit =>
    split at hstep
    next hstage =>
      cases hstep
      refine ⟨h.registry, ⟨h.profiles.saved, h.profiles.profile, rfl, by simp, ?_⟩, h.ending⟩
      intro e he hcancel i w hi hw hs hc
      exfalso
      obtain ⟨hthrough, hwritten⟩ := h.profiles.fresh e he hcancel i w hi hw hs hc
      have hunder := h.profiles.under
      rw [hedit] at hwritten hunder
      have hwr : d.stage = .written := by simpa using hwritten
      simp only [EditOk, hwr, reduceCtorEq, if_false] at hunder
      obtain ⟨before, w₀, hwrites, hlen, -, hconnection⟩ := hunder
      have hlt := (List.getElem?_eq_some_iff.mp hw).1
      rw [hwrites, List.length_append, List.length_singleton] at hlt
      have hi' : i = before.length := by omega
      rw [hwrites, hi', List.getElem?_concat_length] at hw
      obtain htold | hplain := hstage
      · rw [hwr] at htold
        cases htold
      · rw [← Option.some.inj hw, hconnection, hplain.2] at hc
        cases hc
    · cases hstep

/-! ## The shutdown -/

theorem ShutdownInv.cleaned {n : Nat} (h : ShutdownInv entries closing shutdown cleanup tasks) :
    ShutdownInv entries closing shutdown cleanup
      (tasks.modify n fun t => { t with finished := true }) where
  told := h.told
  empty := h.empty
  watched m t hm ht := by
    rw [List.getElem?_modify] at hm
    split at hm
    · obtain ⟨t₀, ht₀, rfl⟩ := Option.map_eq_some_iff.mp hm
      cases ht
    · obtain ⟨t₀, ht₀, rfl⟩ := Option.map_eq_some_iff.mp hm
      exact h.watched m _ ht₀ ht
  taken := h.taken
  awaiting := h.awaiting

/-- The shutdown begins: nothing registers from now on, and all operations are told. -/
theorem Inv.shutDown (h : Inv start s) (hidle : s.shutdown = .idle) :
    Inv start { s.update (fun _ => true) send with closing := true, shutdown := .draining } where
  registry := (h.update keeps_send fun _ => true).registry
  profiles := (h.update keeps_send fun _ => true).profiles
  ending := by
    refine ⟨fun _ => ⟨rfl, fun e he => ?_⟩, fun _ hne => absurd rfl hne, fun n t hn ht => ?_,
      fun heq => by simp at heq, fun ns heq => by simp at heq⟩
    · obtain ⟨e₀, -, rfl⟩ := List.mem_map.mp he
      rfl
    · obtain hmem | hheld | hout := h.ending.watched n t hn ht
      · exact Or.inl hmem
      · rw [hidle] at hheld
        cases hheld
      · rw [hidle] at hout
        cases hout

/-- Nothing is registered any more. -/
theorem Inv.drained (h : Inv start s) (hdraining : s.shutdown = .draining)
    (hempty : s.entries.isEmpty = true) : Inv start { s with shutdown := .drained } where
  registry := h.registry
  profiles := h.profiles
  ending := by
    refine ⟨fun _ => h.ending.told (by simp [hdraining]), fun _ _ _ => List.isEmpty_iff.mp hempty,
      fun n t hn ht => ?_, fun heq => by simp at heq, fun ns heq => by simp at heq⟩
    have hwatched := h.ending.watched n t hn ht
    rw [hdraining] at hwatched
    obtain hmem | hheld | hout := hwatched
    · exact Or.inl hmem
    · cases hheld
    · cases hout

theorem Inv.take (h : Inv start s) (hdrained : s.shutdown = .drained) :
    Inv start { s with shutdown := .awaiting s.cleanup, cleanup := [] } where
  registry := h.registry
  profiles := h.profiles
  ending := by
    have hempty : s.entries = [] :=
      h.ending.empty (by simp [hdrained]) (by simp [hdrained]) (by simp [hdrained])
    refine ⟨fun _ => h.ending.told (by simp [hdrained]), fun _ _ _ => hempty, fun n t hn ht => ?_,
      fun _ => rfl, fun ns _ => rfl⟩
    have hwatched := h.ending.watched n t hn ht
    rw [hdrained] at hwatched
    obtain hmem | hheld | hout := hwatched
    · exact Or.inr (Or.inl hmem)
    · cases hheld
    · cases hout

/-- A task that has finished is not waited for any longer. -/
theorem Inv.awaited (h : Inv start s) {n : Nat} {ns : List Nat}
    (hawaiting : s.shutdown = .awaiting (n :: ns)) (hdone : s.tasks[n]?.any Task.finished = true) :
    Inv start { s with shutdown := .awaiting ns } where
  registry := h.registry
  profiles := h.profiles
  ending := by
    have hempty : s.entries = [] :=
      h.ending.empty (by simp [hawaiting]) (by simp [hawaiting]) (by simp [hawaiting])
    refine ⟨fun _ => h.ending.told (by simp [hawaiting]), fun _ _ _ => hempty, fun m t hm ht => ?_,
      fun heq => by simp at heq, fun _ _ => h.ending.awaiting _ hawaiting⟩
    have hwatched := h.ending.watched m t hm ht
    rw [hawaiting] at hwatched
    obtain hmem | hheld | hout := hwatched
    · exact Or.inl hmem
    · obtain rfl | hheld := List.mem_cons.mp hheld
      · rw [hm, Option.any_some, ht] at hdone
        cases hdone
      · exact Or.inr (Or.inl hheld)
    · cases hout

theorem Inv.finished (h : Inv start s) (hawaiting : s.shutdown = .awaiting []) :
    Inv start { s with shutdown := .finished } where
  registry := h.registry
  profiles := h.profiles
  ending := by
    have hempty : s.entries = [] :=
      h.ending.empty (by simp [hawaiting]) (by simp [hawaiting]) (by simp [hawaiting])
    refine ⟨fun _ => h.ending.told (by simp [hawaiting]), fun _ _ _ => hempty, fun m t hm ht => ?_,
      fun _ => h.ending.awaiting _ hawaiting, fun ns heq => by simp at heq⟩
    have hwatched := h.ending.watched m t hm ht
    rw [hawaiting] at hwatched
    obtain hmem | hheld | hout := hwatched
    · exact Or.inl hmem
    · cases hheld
    · cases hout

theorem Inv.giveUp (h : Inv start s) (hbusy : s.shutdown ≠ .idle) :
    Inv start { s with shutdown := .timedOut } where
  registry := h.registry
  profiles := h.profiles
  ending := ⟨fun _ => h.ending.told hbusy, fun _ _ hout => absurd rfl hout,
    fun _ _ _ _ => Or.inr (Or.inr rfl), fun heq => by simp at heq, fun ns heq => by simp at heq⟩

/-! ## Runs -/

theorem inv_initial (config : Config) : Inv config (initial config) where
  registry := by
    refine ⟨Nat.zero_le _, List.nodup_nil, List.nodup_nil, fun e he => ?_, fun r hr => ?_,
      List.nodup_nil⟩
    · cases he
    · cases hr
  profiles := by
    refine ⟨fun id => rfl, fun e he => ?_, rfl, fun d hd => ?_, fun e he => ?_⟩
    · cases he
    · cases hd
    · cases he
  ending := by
    refine ⟨fun hne => absurd rfl hne, fun hne => absurd rfl hne, fun n t hn => ?_, fun heq => ?_,
      fun ns heq => ?_⟩
    · simp [initial] at hn
    · cases heq
    · cases heq

/-- What one step keeps. -/
theorem inv_step {t : System} {event : Event} (h : Inv start s) (hstep : s.step event = some t) :
    Inv start t := by
  cases event with
  | register server id =>
    simp only [step] at hstep
    split at hstep
    next hedit =>
      cases hstep
      exact h.register (Option.isNone_iff_eq_none.mp hedit) server id
    · cases hstep
  | cancel id =>
    cases hstep
    exact h.filesCancel id
  | poll id => exact h.move keeps_phase hstep
  | pending id => exact h.move keeps_phase hstep
  | ready id => exact h.move keeps_phase hstep
  | stage id => exact h.move keeps_staged hstep
  | publish id => exact h.move keeps_staged hstep
  | dropWork id => exact h.dropWork hstep
  | dropGuard id => exact h.dropGuard hstep
  | save server password =>
    simp only [step] at hstep
    split at hstep
    next hedit =>
      cases hstep
      apply h.begin (Option.isNone_iff_eq_none.mp hedit) _ rfl
      intro server' heq
      cases heq
      rfl
    · cases hstep
  | delete id =>
    simp only [step] at hstep
    split at hstep
    next hedit =>
      cases hstep
      rw [Bool.and_eq_true] at hedit
      apply h.begin (Option.isNone_iff_eq_none.mp hedit.1) _ rfl
      intro server' heq
      cases heq
    · cases hstep
  | write stored => exact h.write hstep
  | tell => exact h.tell hstep
  | release => exact h.release hstep
  | cleaned n =>
    simp only [step] at hstep
    split at hstep
    · cases hstep
      exact ⟨h.registry, h.profiles, h.ending.cleaned⟩
    · cases hstep
  | shutdown =>
    simp only [step] at hstep
    split at hstep
    next hidle =>
      cases hstep
      exact h.shutDown hidle
    · cases hstep
  | drained =>
    simp only [step] at hstep
    split at hstep
    next hcond =>
      cases hstep
      exact h.drained hcond.1 hcond.2
    · cases hstep
  | take =>
    simp only [step] at hstep
    split at hstep
    next hdrained =>
      cases hstep
      exact h.take hdrained
    · cases hstep
  | awaited =>
    simp only [step] at hstep
    split at hstep
    next hawaiting =>
      cases hstep
      exact h.finished hawaiting
    next n ns hawaiting =>
      split at hstep
      next hdone =>
        cases hstep
        exact h.awaited hawaiting hdone
      · cases hstep
    · cases hstep
  | giveUp =>
    simp only [step] at hstep
    split at hstep
    next hdraining =>
      cases hstep
      exact h.giveUp (by simp [hdraining])
    next ns hawaiting =>
      cases hstep
      exact h.giveUp (by simp [hawaiting])
    · cases hstep

theorem inv_run {config : Config} {events : List Event}
    (hrun : exec step events (initial config) = some s) : Inv config s :=
  exec_invariant (fun _ _ _ h hstep => inv_step h hstep) (inv_initial config) hrun

end

end System

end Porthop.Files
