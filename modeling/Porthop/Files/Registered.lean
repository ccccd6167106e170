import Porthop.Files.Cancelled

/- What the registry does to one operation and to the clean-up tasks.

   An operation stays registered, with what it has staged, through every step that is not one of
   its own; a task that was added stays. -/
namespace Porthop.Files.System

variable {s t : System} {id : Profile.Uuid} {serial : Nat} {event : Event}

/-- The operation is registered and its work is not dropped. -/
def Registered (id : Profile.Uuid) (serial : Nat) (staged : Bool) (s : System) : Prop :=
  ∃ e ∈ s.entries, e.id = id ∧ e.serial = serial ∧ e.staged = staged ∧ ∀ o, e.phase ≠ .dropped o

/-- There is a clean-up task of the operation. -/
def Owned (serial : Nat) (s : System) : Prop := ∃ task ∈ s.tasks, task.owner = serial

theorem Registered.update {staged : Bool} (h : Registered id serial staged s) (p : Operation → Bool)
    {f : Operation → Operation} (hf : Keeps f) (hstaged : ∀ e, (f e).staged = e.staged)
    (hphase : ∀ e o, e.id = id → p e = true → (∀ o, e.phase ≠ .dropped o) → (f e).phase ≠ .dropped o) :
    Registered id serial staged (s.update p f) := by
  obtain ⟨e, he, hid, hserial, hstage, hlive⟩ := h
  refine ⟨if p e then f e else e, List.mem_map_of_mem he, ?_, ?_, ?_, ?_⟩
  · rw [(hf.on p).id e, hid]
  · rw [(hf.on p).serial e, hserial]
  · split
    · rw [hstaged, hstage]
    · exact hstage
  · intro o
    split
    next hp => exact hphase e o hid hp hlive
    · exact hlive o

theorem Registered.grow {staged : Bool} (h : Registered id serial staged s)
    (hentries : ∀ e ∈ s.entries, e ∈ t.entries) : Registered id serial staged t := by
  obtain ⟨e, he, hrest⟩ := h
  exact ⟨e, hentries e he, hrest⟩

/-- What a registration does. -/
theorem register_grows (s : System) (server id : Profile.Uuid) :
    ((s.register server id).2.entries = s.entries ∧ (s.register server id).2.serials = s.serials ∨
      ∃ e, (s.register server id).2.entries = s.entries ++ [e] ∧ e.id = id ∧
        e.serial = s.serials ∧ e.staged = false ∧ e.phase = .waiting) ∧
    (s.register server id).2.tasks = s.tasks := by
  unfold register
  split
  · exact ⟨Or.inl ⟨rfl, rfl⟩, rfl⟩
  · split
    · exact ⟨Or.inl ⟨rfl, rfl⟩, rfl⟩
    · split
      · exact ⟨Or.inl ⟨rfl, rfl⟩, rfl⟩
      · split
        · exact ⟨Or.inl ⟨rfl, rfl⟩, rfl⟩
        · split
          · exact ⟨Or.inl ⟨rfl, rfl⟩, rfl⟩
          · exact ⟨Or.inr ⟨_, rfl, rfl, rfl, rfl, rfl⟩, rfl⟩

/-- The work of this operation stages, publishes or is dropped. -/
def Event.settles (id : Profile.Uuid) : Event → Bool
  | .stage other | .publish other | .dropWork other => other = id
  | _ => false

/-- An operation stays registered through the steps of others. -/
theorem Registered.step {start : Profile.Config} {staged : Bool} (h : Registered id serial staged s)
    (hinv : Inv start s) (hown : Event.settles id event = false) (hstep : s.step event = some t) :
    Registered id serial staged t := by
  by_cases hquiet : event.quiet = true
  · exact h.grow fun e he => by rw [(quiet_step hquiet hstep).entries]; exact he
  · cases event with
    | register server other =>
      simp only [System.step] at hstep
      split at hstep
      · cases hstep
        obtain ⟨⟨hsame, -⟩ | ⟨e, hadd, -⟩, -⟩ := register_grows s server other
        · exact h.grow fun e he => by rw [hsame]; exact he
        · exact h.grow fun e he => by rw [hadd]; exact List.mem_append_left _ he
      · cases hstep
    | cancel other =>
      cases hstep
      unfold filesCancel
      split
      · exact h.update _ keeps_send (fun _ => rfl) fun _ _ _ _ hlive => hlive _
      · exact h.grow fun e he => he
    | poll other =>
      rw [(move_some hstep).1]
      refine h.update _ keeps_phase (fun _ => rfl) fun e o _ _ _ => ?_
      simp only [poll]
      split
      · intro heq
        cases heq
      · intro heq
        cases heq
    | pending other =>
      rw [(move_some hstep).1]
      exact h.update _ keeps_phase (fun _ => rfl) fun _ _ _ _ _ heq => by cases heq
    | ready other =>
      rw [(move_some hstep).1]
      exact h.update _ keeps_phase (fun _ => rfl) fun _ _ _ _ _ heq => by cases heq
    | stage other | publish other =>
      rw [(move_some hstep).1]
      obtain ⟨e, he, hid, hserial, hstage, hlive⟩ := h
      have hne : e.id ≠ other := by
        rw [hid]
        exact fun heq => of_decide_eq_false hown heq.symm
      exact ⟨e, List.mem_map.mpr ⟨e, he, by rw [if_neg (by simpa using hne)]⟩, hid, hserial, hstage, hlive⟩
    | dropWork other =>
      obtain ⟨e₀, outcome, -, -, rfl⟩ := dropWork_some hstep
      obtain ⟨e, he, hid, hserial, hstage, hlive⟩ := h
      have hne : e.id ≠ other := by
        rw [hid]
        exact fun heq => of_decide_eq_false hown heq.symm
      refine ⟨e, List.mem_map.mpr ⟨e, ?_, by rw [if_neg (by simpa using hne)]⟩, hid, hserial, hstage, hlive⟩
      split
      · exact he
      · exact he
    | dropGuard other =>
      obtain ⟨e₀, outcome, hop, hphase, rfl⟩ := dropGuard_some hstep
      obtain ⟨e, he, hid, hserial, hstage, hlive⟩ := h
      refine ⟨e, List.mem_filter.mpr ⟨he, ?_⟩, hid, hserial, hstage, hlive⟩
      obtain ⟨he₀, hid₀⟩ := operation_some hop
      refine decide_eq_true fun heq => ?_
      have hsame : e = e₀ := List.inj_on_of_nodup_map hinv.registry.ids he he₀ (heq.trans hid₀.symm)
      exact hlive outcome (hsame ▸ hphase)
    | tell =>
      obtain ⟨d, rfl⟩ := tell_some hstep
      exact h.update _ keeps_send (fun _ => rfl) fun _ _ _ _ hlive => hlive _
    | shutdown =>
      simp only [System.step] at hstep
      split at hstep
      · cases hstep
        exact h.update _ keeps_send (fun _ => rfl) fun _ _ _ _ hlive => hlive _
      · cases hstep
    | save | delete | write | release | cleaned | drained | take | awaited | giveUp =>
      exact absurd rfl hquiet

/-- The step of an operation that stages or publishes. -/
theorem Registered.staged {staged b : Bool} (h : Registered id serial staged s)
    (hstep : s.move id (fun e => e.phase = .polling) (fun e => { e with staged := b }) = some t) :
    Registered id serial b t := by
  obtain ⟨rfl, e, he, hid, hphase⟩ := move_some hstep
  obtain ⟨e', he', hid', hserial, -, hlive⟩ := h
  exact ⟨{ e' with staged := b }, List.mem_map.mpr ⟨e', he', by rw [if_pos (by simpa using hid')]⟩,
    hid', hserial, rfl, hlive⟩

/-- Work that is dropped with a staged file leaves a task. -/
theorem Registered.dropped {start : Profile.Config} {staged : Bool} (h : Registered id serial staged s)
    (hinv : Inv start s) (hstep : s.dropWork id = some t) :
    staged = true → Owned serial t := by
  obtain ⟨e₀, outcome, hop, -, rfl⟩ := dropWork_some hstep
  obtain ⟨e, he, hid, hserial, hstage, -⟩ := h
  obtain ⟨he₀, hid₀⟩ := operation_some hop
  have hsame : e = e₀ := List.inj_on_of_nodup_map hinv.registry.ids he he₀ (hid.trans hid₀.symm)
  subst hsame
  rintro rfl
  rw [if_pos hstage]
  exact ⟨⟨e.serial, false⟩, List.mem_append_right _ List.mem_cons_self, hserial⟩

/-! ## Tasks -/

/-- A task that was added stays. -/
theorem Owned.same (h : Owned serial s) (htasks : ∀ task ∈ s.tasks, task ∈ t.tasks) :
    Owned serial t := by
  obtain ⟨task, hmem, howner⟩ := h
  exact ⟨task, htasks task hmem, howner⟩

theorem Owned.step (h : Owned serial s) (hstep : s.step event = some t) : Owned serial t := by
  cases event with
  | register server other =>
    simp only [System.step] at hstep
    split at hstep
    · cases hstep
      exact h.same fun task hmem => by rw [(register_grows s server other).2]; exact hmem
    · cases hstep
  | cancel other =>
    cases hstep
    unfold filesCancel
    split
    · exact h
    · exact h
  | poll | pending | ready | stage | publish =>
    rw [(move_some hstep).1]
    exact h
  | dropWork other =>
    obtain ⟨e, outcome, -, -, rfl⟩ := dropWork_some hstep
    split
    · exact h.same fun task hmem => List.mem_append_left _ hmem
    · exact h
  | dropGuard other =>
    obtain ⟨e, outcome, -, -, rfl⟩ := dropGuard_some hstep
    exact h
  | tell =>
    obtain ⟨d, rfl⟩ := tell_some hstep
    exact h
  | cleaned n =>
    simp only [System.step] at hstep
    split at hstep
    · cases hstep
      obtain ⟨task, hmem, howner⟩ := h
      obtain ⟨i, hi⟩ := List.mem_iff_getElem?.mp hmem
      refine ⟨if n = i then { task with finished := true } else task,
        List.mem_iff_getElem?.mpr ⟨i, ?_⟩, by split <;> exact howner⟩
      rw [List.getElem?_modify, hi]
      rfl
    · cases hstep
  | save | delete | shutdown | drained | take =>
    simp only [System.step] at hstep
    split at hstep
    · cases hstep
      exact h
    · cases hstep
  | write stored =>
    simp only [System.step, System.write] at hstep
    split at hstep
    · cases hstep
    · split at hstep
      · cases hstep
      · split at hstep
        · cases hstep
          exact h
        · cases hstep
          exact h
  | release =>
    simp only [System.step, System.release] at hstep
    split at hstep
    · cases hstep
    · split at hstep
      · cases hstep
        exact h
      · cases hstep
  | awaited =>
    simp only [System.step] at hstep
    split at hstep
    · cases hstep
      exact h
    · split at hstep
      · cases hstep
        exact h
      · cases hstep
    · cases hstep
  | giveUp =>
    simp only [System.step] at hstep
    split at hstep
    · cases hstep
      exact h
    · cases hstep
      exact h
    · cases hstep

end Porthop.Files.System
