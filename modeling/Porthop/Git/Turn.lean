import Porthop.Git.Agent

/- What one step can do. `Turn` lists the moves of a process from phase to phase,
   with what each does to the journal and to the history, and `Moved` adds the
   birth and the death of a process. `step_cases` proves the list complete for every
   step at which `begin` does not find a record; the invariants of the journal are
   proved from it and no proof below unfolds `step` again. -/
namespace Porthop.Git

/-- The step is `begin` finding a record of its own client and operation. -/
def reuses (uuid : String → Option Uuid) (s : Sys) : Label → Bool
  | .step p =>
    match s.procs p with
    | some ⟨c, .claim w⟩ =>
      match existing uuid s.journal c w.op w.payload with
      | .ok (some _) => true
      | _ => false
    | _ => false
  | _ => false

def Phase.saving : Phase → Bool
  | save .. | persist .. => true
  | _ => false

/-- The phases of a process that has neither seen a record nor may act on one. -/
def Phase.plain : Phase → Bool
  | claimed _ (.ok _) | ready .. | acting .. | save .. | persist .. | probe .. | mark ..
  | reviewLock .. | confirm .. => false
  | _ => true

/-- A write past its second look at the journal. -/
def Phase.checked : Phase → Option Write
  | preflight w | begin w | claim w => some w
  | _ => none

/-- What a turn does to the repository locks. -/
inductive LockMove (s : Sys) (p : Pid) (ph ph' : Phase) : (Digest → Option Pid) → Prop where
  | keep (h : ∀ i ∈ ph'.holds, i ∈ ph.holds) : LockMove s p ph ph' s.locks
  | take {i : Digest} (free : s.locks i = none) (h : ph'.holds = some i) :
    LockMove s p ph ph' (Function.update s.locks i (some p))
  | free {i : Digest} (h : ph.holds = some i) (h' : ph'.holds = none) :
    LockMove s p ph ph' (Function.update s.locks i none)

/-- Why a record that was to be saved is not: an I/O error, the catalog lock held by
    another, or a write the journal refuses. -/
def Lost (uuid : String → Option Uuid) (s : Sys) (l : Label) (p : Pid) (c : String)
    (ph : Phase) : Prop :=
  l = .io p ∨ (l = .step p ∧
    ((∃ sv i r, ph = .save sv i r ∧ s.catalog ≠ none) ∨
      ∃ sv i r e, ph = .persist sv i r ∧ persist uuid s.journal c r none = .error e))

/-- A move of process `p` of client `c`: its phases, the journal and the history after. -/
inductive Turn (uuid : String → Option Uuid) (s : Sys) (l : Label) (p : Pid) (c : String) :
    Phase → Phase → Journal → List Key → List (Key × Record) → Prop where
  | pass {ph ph' : Phase} (h : ph.saving = false) (h' : ph'.plain = true)
    (hc : ∀ w ∈ ph'.checked, w ∈ ph.checked ∨ s.journal.lookup ⟨c, w.op⟩ = none) :
    Turn uuid s l p c ph ph' s.journal s.started s.ended
  | lose {ph ph' : Phase} (h : Lost uuid s l p c ph) (h' : ph'.plain = true)
    (hc : ph'.checked = none) :
    Turn uuid s l p c ph ph' s.journal s.started s.ended
  | accept {w : Write} {ph' : Phase} (absent : s.journal.lookup ⟨c, w.op⟩ = none)
    (clear : ∀ k f, s.journal.lookup k = some f → f.record.repository = w.identity →
      f.record.state.unresolved = false)
    (h' : ph' = .claimed w (.ok (.fresh w.op w.payload w.identity)) ∨
      ph' = .claimed w (.error failure)) :
    Turn uuid s l p c (.claim w) ph'
      (s.journal.insert ⟨c, w.op⟩ ⟨.fresh w.op w.payload w.identity,
        (Record.fresh w.op w.payload w.identity).size⟩) s.started s.ended
  | grant {w : Write} {r : Record} :
    Turn uuid s l p c (.claimed w (.ok r)) (.ready w r) s.journal s.started s.ended
  | start {w : Write} {r : Record} :
    Turn uuid s l p c (.ready w r) (.acting w r) s.journal (⟨c, w.op⟩ :: s.started) s.ended
  | finish {w : Write} {r : Record} (outcome : Except Error Value) :
    Turn uuid s l p c (.acting w r)
      (.save (.complete w) w.identity (r.complete w.isStart outcome)) s.journal s.started
      ((⟨c, w.op⟩, r.complete w.isStart outcome) :: s.ended)
  | see {ph : Phase} {op : String} {r : Record} {ph' : Phase} {f : Stored}
    (h : ph.saving = false) (hf : s.journal.lookup ⟨c, op⟩ = some f) (hr : f.record = r)
    (h' : ph' = .probe op r ∨ ph' = .reviewLock op r) :
    Turn uuid s l p c ph ph' s.journal s.started s.ended
  | mark {op : String} {r : Record} :
    Turn uuid s l p c (.probe op r) (.mark op r) s.journal s.started s.ended
  | confirm {op : String} {r : Record} :
    Turn uuid s l p c (.reviewLock op r) (.confirm op r) s.journal s.started s.ended
  | interrupt {op : String} {r : Record} {f : Stored}
    (hf : s.journal.lookup ⟨c, op⟩ = some f) (hs : f.record.state = .running) :
    Turn uuid s l p c (.mark op r) (.save .mark r.repository f.record.interrupt) s.journal
      s.started s.ended
  | review {op : String} {r : Record} {f : Stored}
    (hf : s.journal.lookup ⟨c, op⟩ = some f) (hs : f.record.state = .outcomeUnknown) :
    Turn uuid s l p c (.confirm op r) (.save .review r.repository f.record.review) s.journal
      s.started s.ended
  | persist {sv : Saver} {i : Digest} {r : Record} :
    Turn uuid s l p c (.save sv i r) (.persist sv i r) s.journal s.started s.ended
  | write {sv : Saver} {i : Digest} {r : Record} (reply : Reply) :
    Turn uuid s l p c (.persist sv i r) (.persisted sv i reply)
      (s.journal.insert ⟨c, r.operationId⟩ ⟨r, r.size⟩) s.started s.ended

/-- What a step can do. -/
inductive Moved (uuid : String → Option Uuid) (s : Sys) (l : Label) : Sys → Prop where
  | born {p : Pid} (c : String) (h : s.procs p = none) : Moved uuid s l (s.goto p c .idle)
  | died {p : Pid} (h : l = .crash p) : Moved uuid s l (s.drop p)
  | turn {p : Pid} {c : String} {ph ph' : Phase} {j : Journal} {locks : Digest → Option Pid}
    {catalog : Option Pid} {started : List Key} {ended : List (Key × Record)}
    (hp : s.procs p = some ⟨c, ph⟩) (hl : LockMove s p ph ph' locks)
    (ht : Turn uuid s l p c ph ph' j started ended) (hpid : l.pid = p := by rfl) :
    Moved uuid s l ⟨j, locks, catalog, Function.update s.procs p (some ⟨c, ph'⟩), started,
      ended⟩

section
variable {uuid : String → Option Uuid} {s s' : Sys} {l : Label} {p : Pid} {c : String}

/-- A turn that only passes on to a plain phase and takes no lock. -/
theorem Moved.pass {ph ph' : Phase} (hp : s.procs p = some ⟨c, ph⟩)
    (h : ph.saving = false) (h' : ph'.plain = true) (hl : ∀ i ∈ ph'.holds, i ∈ ph.holds)
    (hc : ph'.checked = none) (hpid : l.pid = p := by rfl) : Moved uuid s l (s.goto p c ph') :=
  .turn hp (.keep hl) (.pass h h' (by simp [hc])) hpid

theorem loaded {op : String} {o : Option Record}
    (h : (recordPath uuid c op >>= load s.journal) = .ok o) :
    load s.journal ⟨c, op⟩ = .ok o := by
  obtain ⟨k, hk, h⟩ := bind_ok h
  obtain rfl := recordPath_ok hk
  exact h

theorem advance_cases {ph : Phase} (hp : s.procs p = some ⟨c, ph⟩)
    (hno : reuses uuid s (.step p) = false) (h : advance uuid s p c ph = some s') :
    Moved uuid s (.step p) s' := by
  cases ph with
  | idle => cases h
  | acting w r => cases h
  | done reply => cases h
  | lookup w =>
    simp only [advance] at h
    split at h <;> cases h <;> exact .pass hp rfl rfl (by simp [Phase.holds]) rfl
  | lock w =>
    simp only [advance] at h
    split at h <;> cases h
    · exact .pass hp rfl rfl (by simp [Phase.holds]) rfl
    · next hfree => exact .turn hp (.take hfree rfl) (.pass rfl rfl (by simp [Phase.checked]))
  | recheck w =>
    simp only [advance] at h
    split at h <;> cases h
    · exact .pass hp rfl rfl (fun _ hi => hi) rfl
    · exact .pass hp rfl rfl (fun _ hi => hi) rfl
    · next hnone =>
      refine .turn hp (.keep fun _ hi => hi) (.pass rfl rfl fun w' hw' => .inr ?_)
      obtain rfl := Option.some.inj hw'
      exact existing_ok_none hnone
  | preflight w =>
    cases h
    exact .turn hp (.keep fun _ hi => hi) (.pass rfl rfl fun _ hw => .inl hw)
  | begin w =>
    simp only [advance] at h
    split at h <;> cases h
    · exact .pass hp rfl rfl (fun _ hi => hi) rfl
    · exact .turn hp (.keep fun _ hi => hi) (.pass rfl rfl fun _ hw => .inl hw)
  | claim w =>
    simp only [advance] at h
    split at h <;> cases h
    · exact .pass hp rfl rfl (fun _ hi => hi) rfl
    · next hb =>
      rcases begin_ok hb with ⟨hhit, -⟩ | ⟨hnone, rfl, rfl, hclear⟩
      · simp [reuses, hp, hhit] at hno
      · exact .turn hp (.keep fun _ hi => hi)
          (.accept (existing_ok_none hnone) hclear (.inl rfl))
  | claimed w reply =>
    cases reply with
    | error e =>
      cases h
      exact .turn hp (.keep fun _ hi => hi) (.pass rfl rfl (by simp [Phase.checked]))
    | ok r =>
      cases h
      exact .turn hp (.keep fun _ hi => hi) .grant
  | ready w r =>
    cases h
    exact .turn hp (.keep fun _ hi => hi) .start
  | save sv i r =>
    simp only [advance] at h
    split at h <;> cases h
    · next hbusy =>
      exact .turn hp (.keep fun _ hi => hi)
        (.lose (.inr ⟨rfl, .inl ⟨sv, i, r, rfl, by simp [hbusy]⟩⟩) rfl rfl)
    · exact .turn hp (.keep fun _ hi => hi) .persist
  | persist sv i r =>
    simp only [advance] at h
    split at h <;> cases h
    · next e he =>
      exact .turn hp (.keep fun _ hi => hi)
        (.lose (.inr ⟨rfl, .inr ⟨sv, i, r, e, rfl, he⟩⟩) rfl rfl)
    · next j hj =>
      obtain rfl := persist_ok hj
      exact .turn hp (.keep fun _ hi => hi) (.write _)
  | persisted sv i reply =>
    cases h
    exact .turn hp (.keep fun _ hi => hi) (.pass rfl rfl (by simp [Phase.checked]))
  | load op =>
    simp only [advance] at h
    split at h
    · cases h; exact .pass hp rfl rfl (by simp [Phase.holds]) rfl
    · cases h; exact .pass hp rfl rfl (by simp [Phase.holds]) rfl
    · next r hr =>
      obtain ⟨f, hf, hfr⟩ := load_ok_some (loaded hr)
      split at h <;> cases h
      · exact .turn hp (.keep (by simp [Phase.holds])) (.see rfl hf hfr (.inl rfl))
      · exact .pass hp rfl rfl (by simp [Phase.holds]) rfl
  | probe op r =>
    simp only [advance] at h
    split at h <;> cases h
    · exact .pass hp rfl rfl (by simp [Phase.holds]) rfl
    · next hfree => exact .turn hp (.take hfree rfl) .mark
  | mark op r =>
    simp only [advance] at h
    split at h
    · cases h; exact .pass hp rfl rfl (fun _ hi => hi) rfl
    · cases h; exact .pass hp rfl rfl (fun _ hi => hi) rfl
    · next r' hr =>
      obtain ⟨f, hf, rfl⟩ := load_ok_some (loaded hr)
      split at h <;> cases h
      · next hs => exact .turn hp (.keep fun _ hi => hi) (.interrupt hf hs)
      · exact .pass hp rfl rfl (fun _ hi => hi) rfl
  | reviewLoad op =>
    simp only [advance] at h
    split at h <;> cases h
    · exact .pass hp rfl rfl (by simp [Phase.holds]) rfl
    · exact .pass hp rfl rfl (by simp [Phase.holds]) rfl
    · next r hr =>
      obtain ⟨f, hf, hfr⟩ := load_ok_some (loaded hr)
      exact .turn hp (.keep (by simp [Phase.holds])) (.see rfl hf hfr (.inr rfl))
  | reviewLock op r =>
    simp only [advance] at h
    split at h <;> cases h
    · exact .pass hp rfl rfl (by simp [Phase.holds]) rfl
    · next hfree => exact .turn hp (.take hfree rfl) .confirm
  | confirm op r =>
    simp only [advance] at h
    split at h
    · cases h; exact .pass hp rfl rfl (fun _ hi => hi) rfl
    · cases h; exact .pass hp rfl rfl (fun _ hi => hi) rfl
    · next r' hr =>
      obtain ⟨f, hf, rfl⟩ := load_ok_some (loaded hr)
      split at h
      · cases h; exact .pass hp rfl rfl (fun _ hi => hi) rfl
      split at h
      · cases h; exact .pass hp rfl rfl (fun _ hi => hi) rfl
      · next hs =>
        split at h <;> cases h
        · exact .turn hp (.keep fun _ hi => hi) (.review hf hs)
        · exact .pass hp rfl rfl (fun _ hi => hi) rfl
      · cases h; exact .pass hp rfl rfl (fun _ hi => hi) rfl
  | unwind i reply =>
    cases h
    exact .turn hp (.free rfl rfl) (.pass rfl rfl (by simp [Phase.checked]))

theorem abort_plain {ph ph' : Phase} (h : ph.abort = some ph') :
    ph'.plain = true ∧ (∀ i ∈ ph'.holds, i ∈ ph.holds) ∧ ph'.checked = none := by
  cases ph <;> cases h <;> exact ⟨rfl, by simp [Phase.holds], rfl⟩

theorem refuse_plain {ph ph' : Phase} {e : Error} (h : ph.refuse e = some ph') :
    ph.saving = false ∧ ph'.plain = true ∧ (∀ i ∈ ph'.holds, i ∈ ph.holds) ∧
      ph'.checked = none := by
  cases ph <;> cases h <;> exact ⟨rfl, rfl, by simp [Phase.holds], rfl⟩

/-- **Inversion.** What a step does, at which `begin` does not find a record. -/
theorem step_cases (hno : reuses uuid s l = false) (h : step uuid s l = some s') :
    Moved uuid s l s' := by
  cases l with
  | spawn p c =>
    simp only [step] at h
    split at h
    · cases h
    · next hp =>
      split at h <;> cases h
      exact .born c hp
  | arrive p req =>
    simp only [step] at h
    split at h <;> cases h
    next hp => cases req <;> exact .pass hp rfl rfl (by simp [Request.phase, Phase.holds]) rfl
  | step p =>
    obtain ⟨⟨c, ph⟩, hp, h⟩ := Option.bind_eq_some_iff.mp h
    exact advance_cases hp hno h
  | fail p e =>
    obtain ⟨⟨c, ph⟩, hp, h⟩ := Option.bind_eq_some_iff.mp h
    obtain ⟨ph', href, rfl⟩ := Option.map_eq_some_iff.mp h
    obtain ⟨hs, hplain, hholds, hc⟩ := refuse_plain href
    exact .pass hp hs hplain hholds hc
  | finish p outcome =>
    simp only [step] at h
    split at h <;> cases h
    next hp => exact .turn hp (.keep fun _ hi => hi) (.finish outcome)
  | io p =>
    obtain ⟨⟨c, ph⟩, hp, h⟩ := Option.bind_eq_some_iff.mp h
    obtain ⟨ph', hab, rfl⟩ := Option.map_eq_some_iff.mp h
    obtain ⟨hplain, hholds, hc⟩ := abort_plain hab
    by_cases hs : ph.saving = true
    · exact .turn hp (.keep hholds) (.lose (.inl rfl) hplain hc)
    · exact .pass hp (by simpa using hs) hplain hholds hc
  | sync p =>
    obtain ⟨⟨c, ph⟩, hp, h⟩ := Option.bind_eq_some_iff.mp h
    cases ph with
    | claim w =>
      simp only [syncFailed] at h
      split at h <;> cases h
      next hnone hb =>
      rcases begin_ok hb with ⟨hhit, -⟩ | ⟨-, rfl, rfl, hclear⟩
      · rw [hnone] at hhit; cases hhit
      · exact .turn hp (.keep fun _ hi => hi)
          (.accept (existing_ok_none hnone) hclear (.inr rfl))
    | persist sv i r =>
      simp only [syncFailed] at h
      split at h <;> cases h
      next j hj =>
      obtain rfl := persist_ok hj
      exact .turn hp (.keep fun _ hi => hi) (.write _)
    | _ => cases h
  | reply p =>
    simp only [step] at h
    split at h <;> cases h
    next hp => exact .pass hp rfl rfl (by simp [Phase.holds]) rfl
  | crash p =>
    obtain ⟨pr, -, rfl⟩ := Option.map_eq_some_iff.mp h
    exact .died rfl

end

end Porthop.Git
