import Porthop.Git.Life

/- What becomes of the outcome of an action that ran to its end.

   Its completion record is saved under the repository lock and the catalog lock, and
   the catalog lock is only tried: `begin`, a save, a lookup that marks and a review of
   any repository and any client hold it for a moment, and a save that comes in that
   moment gives up. The record then stays `running`, the next lookup closes it as
   `outcome_unknown` and later writes are refused until someone reviews it. In the
   runs where every completion finds the catalog lock free the outcome is kept. -/
namespace Porthop.Git
open Run

/-- A step with no crash and no I/O error, at which no completion record goes past the
    journal's limits. -/
def calm (uuid : String → Option Uuid) (s : Sys) : Label → Bool
  | .crash _ | .io _ | .sync _ => false
  | .step p =>
    match s.procs p with
    | some ⟨c, .persist (.complete _) _ r⟩ =>
      match persist uuid s.journal c r none with
      | .ok _ => true
      | .error _ => false
    | _ => true
  | _ => true

/-- The step is a completion that finds the catalog lock held. -/
def contended (s : Sys) : Label → Bool
  | .step p =>
    match s.procs p with
    | some ⟨_, .save (.complete _) _ _⟩ => s.catalog.isSome
    | _ => false
  | _ => false

/-- A completion record on its way to the journal. -/
def Saving (s : Sys) (k : Key) (r : Record) : Prop :=
  ∃ p c w i, k = ⟨c, r.operationId⟩ ∧
    (s.procs p = some ⟨c, .save (.complete w) i r⟩ ∨
      s.procs p = some ⟨c, .persist (.complete w) i r⟩)

/-- A record in the journal. -/
def Durable (s : Sys) (k : Key) (r : Record) : Prop :=
  ∃ f, s.journal.lookup k = some f ∧ f.record = r

/-- Every conclusive completion record is on its way to the journal or in it. -/
def KeepsOutcomes (s : Sys) : Prop :=
  ∀ k r, (k, r) ∈ s.ended → r.state.unresolved = false → Saving s k r ∨ Durable s k r

/-- No finished operation keeps the repository of a write about to begin closed. -/
def NeverBlocks (s : Sys) : Prop :=
  ∀ p c w, s.procs p = some ⟨c, .claim w⟩ → ∀ k r, (k, r) ∈ s.ended →
    r.state.unresolved = false → ∀ f, s.journal.lookup k = some f →
      f.record.repository = w.identity → f.record.state.unresolved = false

/-- Two steps of a process that is to save a completion put its record in the journal, where
    the catalog lock is free and the record within the limits. -/
def Lands (uuid : String → Option Uuid) (s : Sys) : Prop :=
  ∀ p c w i r, s.procs p = some ⟨c, .save (.complete w) i r⟩ → s.catalog = none →
    (∃ j, persist uuid s.journal c r none = .ok j) →
    ∃ s', exec (step uuid) [.step p, .step p] s = some s' ∧ Durable s' ⟨c, r.operationId⟩ r

section
variable {uuid : String → Option Uuid} {s s' : Sys} {l : Label} {p : Pid} {c : String}

theorem lands (s : Sys) : Lands uuid s := by
  intro p c w i r hp hfree ⟨j, hj⟩
  let saved := s.journal.insert ⟨c, r.operationId⟩ ⟨r, r.size⟩
  obtain rfl : j = saved := persist_ok hj
  let mid := { s with catalog := some p }.goto p c (.persist (.complete w) i r)
  have h1 : step uuid s (.step p) = some mid := by
    simp only [step, hp, Option.bind_some, advance, hfree, mid]
  have h2 : step uuid mid (.step p) =
      some ({ mid with journal := saved }.goto p c (.persisted (.complete w) i (.ok r))) := by
    simp only [step, mid, Sys.goto, Function.update_self, Option.bind_some, advance, hj]
  exact ⟨_, exec_cons.mpr ⟨mid, h1, exec_cons.mpr ⟨_, h2, rfl⟩⟩, ⟨r, r.size⟩,
    AList.lookup_insert s.journal, rfl⟩

/-- No completion is given up where the step is calm and the catalog lock free. -/
theorem not_lost {ph : Phase} {w : Write} {i : Digest} {r : Record}
    (hp : s.procs p = some ⟨c, ph⟩) (hcalm : calm uuid s l = true)
    (hcat : contended s l = false)
    (hph : ph = .save (.complete w) i r ∨ ph = .persist (.complete w) i r) :
    ¬Lost uuid s l p c ph := by
  rintro (rfl | ⟨rfl, ⟨sv, i', r', rfl, hheld⟩ | ⟨sv, i', r', e, rfl, he⟩⟩)
  · cases hcalm
  · rcases hph with hph | hph <;> cases hph
    simp only [contended, hp, Option.isSome_eq_false_iff, Option.isNone_iff_eq_none] at hcat
    exact hheld hcat
  · rcases hph with hph | hph <;> cases hph
    simp [calm, hp, he] at hcalm

/-- Only its owner moves a completion on, and only into the journal. -/
theorem saving_turn {locks : Digest → Option Pid} {ph ph' : Phase} {j : Journal}
    {catalog : Option Pid} {started : List Key} {ended : List (Key × Record)} {k : Key}
    {r : Record} (hp : s.procs p = some ⟨c, ph⟩)
    (hcalm : calm uuid s l = true) (hcat : contended s l = false)
    (ht : Turn uuid s l p c ph ph' j started ended) (h : Saving s k r) :
    Saving ⟨j, locks, catalog, Function.update s.procs p (some ⟨c, ph'⟩), started, ended⟩ k r ∨
    Durable ⟨j, locks, catalog, Function.update s.procs p (some ⟨c, ph'⟩), started, ended⟩
      k r := by
  obtain ⟨q, d, w, i, rfl, hq⟩ := h
  by_cases hqp : q = p
  · subst hqp
    have hph : d = c ∧ (ph = .save (.complete w) i r ∨ ph = .persist (.complete w) i r) := by
      rcases hq with hq | hq <;> cases hp.symm.trans hq <;> simp
    obtain ⟨rfl, hph⟩ := hph
    have hlost := not_lost hp hcalm hcat hph
    rcases hph with rfl | rfl
    · cases ht with
      | pass h => cases h
      | lose h => exact absurd h hlost
      | see h => cases h
      | persist => exact .inl ⟨q, d, w, i, rfl, .inr (by simp)⟩
    · cases ht with
      | pass h => cases h
      | lose h => exact absurd h hlost
      | see h => cases h
      | write reply => exact .inr ⟨_, AList.lookup_insert _, rfl⟩
  · refine .inl ⟨q, d, w, i, rfl, ?_⟩
    simpa [hqp] using hq

theorem keepsOutcomes_step (hsafe : Safe s) (hk : KeepsOutcomes s)
    (hcalm : calm uuid s l = true) (hcat : contended s l = false)
    (hno : recreates uuid s l = false) (hs : step uuid s l = some s') : KeepsOutcomes s' := by
  intro k r hmem hu
  cases hsafe.moved hno hs with
  | @born p c h =>
    rcases hk k r hmem hu with ⟨q, d, w, i, hkey, hq⟩ | hd
    · have hqp : q ≠ p := by
        rintro rfl
        rw [h] at hq
        rcases hq with hq | hq <;> cases hq
      exact .inl ⟨q, d, w, i, hkey, by simpa [Sys.goto, hqp] using hq⟩
    · exact .inr hd
  | died h => subst h; cases hcalm
  | @turn p c ph ph' j locks catalog started ended hp hl ht hpid =>
    have hold : (k, r) ∈ s.ended →
        Saving ⟨j, locks, catalog, Function.update s.procs p (some ⟨c, ph'⟩), started, ended⟩
          k r ∨
        Durable ⟨j, locks, catalog, Function.update s.procs p (some ⟨c, ph'⟩), started, ended⟩
          k r := by
      intro hmem
      rcases hk k r hmem hu with hsav | ⟨f, hf, rfl⟩
      · exact saving_turn hp hcalm hcat ht hsav
      · obtain ⟨g, hg, hmove⟩ := movesOn hsafe hno _ hs k f hf
        rcases hmove with rfl | hmove
        · exact .inr ⟨_, hg, rfl⟩
        · rw [hmove.unresolved] at hu
          cases hu
    cases ht with
    | finish outcome =>
      rcases List.mem_cons.mp hmem with heq | hmem
      · obtain ⟨rfl, rfl⟩ := Prod.mk.inj heq
        obtain ⟨rfl, -⟩ := hsafe.1.facts _ _ hp
        refine .inl ⟨p, c, _, _, ?_, .inl (Function.update_self ..)⟩
        cases outcome <;> rfl
      · exact hold hmem
    | _ => exact hold hmem

/-- A finished operation is no reason for `begin` to refuse: while its record is being saved,
    its process holds the repository lock. -/
theorem neverBlocks (hi : Inv s) (hk : KeepsOutcomes s) : NeverBlocks s := by
  intro p c w hp k r hmem hu f hf hrepo
  rcases hk k r hmem hu with ⟨q, d, w', i, rfl, hq⟩ | ⟨g, hg, rfl⟩
  · have hlock : ∃ pr, s.procs q = some pr ∧ w.identity ∈ pr.phase.holds ∧
        ¬pr.phase = .claim w := by
      rcases hq with hq | hq
      all_goals
        obtain ⟨g, hg, -, hrepo'⟩ := hi.facts q _ hq
        obtain rfl := Option.some.inj (hf.symm.trans hg)
        refine ⟨_, hq, ?_, fun h => by cases h⟩
        rw [← hrepo, hrepo']
        exact rfl
    obtain ⟨pr, hq, hheld, hne⟩ := hlock
    have hqp := hi.exclusive hq hp hheld rfl
    subst hqp
    rw [hp] at hq
    cases hq
    exact absurd rfl hne
  · obtain rfl := Option.some.inj (hf.symm.trans hg)
    exact hu

end

/-- **Outcomes are kept.** In every run with no crash, no I/O error and no completion past the
    limits, in which every completion finds the catalog lock free and no creation's `begin`
    finds a record of its own operation: the conclusive record of every action that ran to
    its end is in the journal or two steps away from it, and never keeps the repository
    closed to later writes. -/
theorem outcomes_kept (uuid : String → Option Uuid) (ls : List Label) (s : Sys)
    (hok : Along (step uuid) (fun s l => calm uuid s l = true ∧ contended s l = false ∧
      recreates uuid s l = false) ls Sys.init)
    (hrun : exec (step uuid) ls Sys.init = some s) :
    KeepsOutcomes s ∧ Lands uuid s ∧ NeverBlocks s := by
  have hstep : ∀ s l s', Safe s ∧ KeepsOutcomes s →
      calm uuid s l = true ∧ contended s l = false ∧ recreates uuid s l = false →
      step uuid s l = some s' → Safe s' ∧ KeepsOutcomes s' := by
    intro s l s' ⟨hsafe, hk⟩ ⟨hcalm, hcat, hno⟩ hs
    exact ⟨safe_step hsafe hno hs, keepsOutcomes_step hsafe hk hcalm hcat hno hs⟩
  have hinit : Safe Sys.init ∧ KeepsOutcomes Sys.init :=
    ⟨safe_init, fun k r hmem => absurd hmem List.not_mem_nil⟩
  obtain ⟨hsafe, hk⟩ := along_invariant hstep hinit hok hrun
  exact ⟨hk, lands s, neverBlocks hsafe.1 hk⟩

/-! A write that succeeds while another repository's `begin` holds the catalog lock. -/

def laterOperation : String := "af9619ff-8b86-d011-b42d-00cf4fc964ff"

def laterUuids (s : String) : Option Uuid :=
  if s = laterOperation then some 0xaf9619ff8b86d011b42d00cf4fc964ff else sampleUuids s

/-- A write to an unrelated repository `/q`. -/
def unrelatedRequest : Write :=
  .start otherOperation [47, 113] 1 9 [47, 113] "snapshot" "stage"

def staged : Value := .obj [("refreshRequired", .bool true)]

/-- The action on `/r` ends in the moment `begin` for `/q` holds the catalog lock, and its
    save gives up. The lookup of the operation then closes it as unknown, and the next write
    to `/r` reaches a `begin` that will refuse it. -/
def contendedRun : List Label :=
  [.spawn 1 clientId, .arrive 1 (.write (stageRequest operationId))] ++
    (List.replicate 8 1).map .step ++
    [.spawn 2 otherClient, .arrive 2 (.write unrelatedRequest)] ++
    (List.replicate 5 2).map .step ++
    [.finish 1 (.ok staged), .step 1, .step 1, .reply 1, .step 2, .step 2,
      .arrive 1 (.get operationId)] ++
    (List.replicate 7 1).map .step ++
    [.reply 1, .arrive 1 (.write (stageRequest laterOperation))] ++
    (List.replicate 5 1).map .step

/-- The identity of the repository of a process at `begin`. -/
def claiming (s : Sys) (p : Pid) : Option Digest :=
  match s.procs p with
  | some ⟨_, .claim w⟩ => some w.identity
  | _ => none

theorem contended_completion_is_lost :
    ¬ ∀ (uuid : String → Option Uuid) (ls : List Label) (s : Sys),
      Along (step uuid) (fun s l => calm uuid s l = true) ls Sys.init →
      exec (step uuid) ls Sys.init = some s →
        KeepsOutcomes s ∧ Lands uuid s ∧ NeverBlocks s := by
  intro h
  have hcalm : along (step laterUuids) (calm laterUuids) contendedRun Sys.init = true := by
    decide +kernel
  have hrun : (exec (step laterUuids) contendedRun Sys.init).map (fun s =>
      (s.ended.map fun e => (e.1, e.2.state),
        (s.journal.lookup ⟨clientId, operationId⟩).map fun f =>
          (f.record.state, decide (some f.record.repository = claiming s 1)))) =
      some ([(⟨clientId, operationId⟩, .succeeded)], some (.outcomeUnknown, true)) := by
    decide +kernel
  obtain ⟨s, hs, hfacts⟩ := Option.map_eq_some_iff.mp hrun
  obtain ⟨hended, hlookup⟩ := Prod.mk.inj hfacts
  obtain ⟨f, hf, hstate⟩ := Option.map_eq_some_iff.mp hlookup
  simp only [Prod.mk.injEq, decide_eq_true_eq] at hstate
  obtain ⟨hunknown, hrepo⟩ := hstate
  have hclaim : ∃ c w, s.procs 1 = some ⟨c, .claim w⟩ ∧ f.record.repository = w.identity := by
    unfold claiming at hrepo
    split at hrepo
    · next c w hp => exact ⟨c, w, hp, Option.some.inj hrepo⟩
    · cases hrepo
  obtain ⟨c, w, hp, hrepo⟩ := hclaim
  have hmem : (⟨clientId, operationId⟩, State.succeeded) ∈
      s.ended.map fun e => (e.1, e.2.state) := by
    rw [hended]
    exact List.mem_singleton_self _
  obtain ⟨⟨k, r⟩, hmem, hkr⟩ := List.mem_map.mp hmem
  obtain ⟨rfl, hr⟩ := Prod.mk.inj hkr
  have hcalm := along_of_decide hcalm
  have hblocks := (h laterUuids contendedRun s hcalm hs).2.2 1 c w hp _ r hmem
    (by rw [hr]; rfl) f hf hrepo
  rw [hunknown] at hblocks
  cases hblocks

/-- The same write with the catalog lock free: its record is kept, and the next write to the
    repository begins. -/
def quietRun : List Label :=
  [.spawn 1 clientId, .arrive 1 (.write (stageRequest operationId))] ++
    (List.replicate 8 1).map .step ++ [.finish 1 (.ok staged)] ++
    (List.replicate 4 1).map .step ++
    [.reply 1, .arrive 1 (.write (stageRequest laterOperation))] ++
    (List.replicate 8 1).map .step

theorem uncontended_completion_is_kept :
    ∃ s, exec (step laterUuids) quietRun Sys.init = some s ∧
      s.started = [⟨clientId, laterOperation⟩, ⟨clientId, operationId⟩] ∧
      KeepsOutcomes s ∧ Lands laterUuids s ∧ NeverBlocks s := by
  have hrun : (exec (step laterUuids) quietRun Sys.init).map Sys.started =
      some [⟨clientId, laterOperation⟩, ⟨clientId, operationId⟩] := by decide +kernel
  obtain ⟨s, hs, hstarted⟩ := Option.map_eq_some_iff.mp hrun
  have hok : along (step laterUuids) (fun s l => calm laterUuids s l && !contended s l &&
      !recreates laterUuids s l) quietRun Sys.init = true := by decide +kernel
  have hok := along_weaken (fun s l h => by simpa [and_assoc] using h) (along_of_decide hok)
  exact ⟨s, hs, hstarted, outcomes_kept laterUuids quietRun s hok hs⟩

end Porthop.Git
