import Porthop.Git.Invariant

/- At most one application of an operation, and one unresolved record of a repository.

   A write holds its repository's identity in its payload: two requests with one
   client, operation and payload take the same lock, and the second look at the
   journal, under the lock, keeps `begin` from finding a record. A creation's payload
   holds only the path, so the same request meets another identity, and another lock,
   once the directory behind the path is replaced; `begin` may then find the record
   of the first request and return it as if it were fresh. `recreates` is that step,
   and the only way a `begin` can find its record: `Safe.reuses`. -/
namespace Porthop.Git
open Run

/-- The step is the `begin` of a creation that finds a record of its client and operation. -/
def recreates (uuid : String → Option Uuid) (s : Sys) : Label → Bool
  | .step p =>
    match s.procs p with
    | some ⟨c, .claim w⟩ =>
      !w.isStart && match existing uuid s.journal c w.op w.payload with
        | .ok (some _) => true
        | _ => false
    | _ => false
  | _ => false

/-- No record answers to a write past its second look. -/
def Unanswered (s : Sys) : Prop :=
  ∀ p pr w, s.procs p = some pr → w ∈ pr.phase.checked → w.isStart = true →
    ∀ f, s.journal.lookup ⟨pr.client, w.op⟩ = some f → f.record.payloadHash ≠ w.payload

theorem Write.identity_eq {w w' : Write} (hw : w.isStart = true) (h : w.payload = w'.payload) :
    w.identity = w'.identity := by
  cases w with
  | create => cases hw
  | start =>
    cases w' with
    | create => cases h
    | start => cases h; rfl

theorem Phase.holds_checked {ph : Phase} {w : Write} (h : w ∈ ph.checked) :
    w.identity ∈ ph.holds := by
  cases ph <;> cases h <;> exact rfl

section
variable {uuid : String → Option Uuid} {s s' : Sys} {l : Label} {p : Pid} {c : String}

theorem existing_payload {j : Journal} {op : String} {payload : Digest} {r : Record}
    (h : existing uuid j c op payload = .ok (some r)) : r.payloadHash = payload := by
  obtain ⟨k, -, h⟩ := bind_ok h
  obtain ⟨o, -, h⟩ := bind_ok h
  split at h
  · cases h
  · split at h
    · cases h
    · next hne =>
      obtain rfl : _ = r := by simpa using h
      simpa using hne

theorem reuses_of_recreates (hun : Unanswered s) (h : recreates uuid s l = false) :
    reuses uuid s l = false := by
  unfold reuses
  unfold recreates at h
  split
  · next p =>
    dsimp only at h
    split
    · next c w hp =>
      rw [hp] at h
      split
      · next r hr =>
        obtain ⟨f, hf, rfl⟩ := existing_ok_some hr
        have hw : w.isStart = true := by simpa [hr] using h
        exact absurd (existing_payload hr) (hun p _ w hp rfl hw f hf)
      · rfl
    · rfl
  · rfl

theorem unanswered_init : Unanswered Sys.init := by
  intro p pr w hp
  cases hp

theorem unanswered_moved (hi : Inv s) (hun : Unanswered s) (hm : Moved uuid s l s') :
    Unanswered s' := by
  cases hm with
  | @born p c h =>
    intro q pr w hq hw
    by_cases hqp : q = p
    · subst hqp
      obtain rfl : ⟨c, .idle⟩ = pr := by simpa [Sys.goto] using hq
      cases hw
    · exact hun q pr w (by simpa [Sys.goto, hqp] using hq) hw
  | @died p h =>
    intro q pr w hq hw
    by_cases hqp : q = p
    · subst hqp; simp [Sys.drop] at hq
    · exact hun q pr w (by simpa [Sys.drop, hqp] using hq) hw
  | @turn p c ph ph' j locks catalog started ended hp hl ht hpid =>
    intro q pr w hq hw hstart f hf
    by_cases hqp : q = p
    · subst hqp
      obtain rfl : ⟨c, ph'⟩ = pr := by simpa using hq
      cases ht with
      | pass h h' hc =>
        rcases hc w hw with hw | hnone
        · exact hun q _ w hp hw hstart f hf
        · exact absurd (hnone.symm.trans hf) (by simp)
      | lose h h' hc => rw [hc] at hw; cases hw
      | accept absent clear h' => rcases h' with rfl | rfl <;> cases hw
      | see h hg hr h' => rcases h' with rfl | rfl <;> cases hw
      | _ => cases hw
    · replace hq : s.procs q = some pr := by simpa [hqp] using hq
      have hold := hun q pr w hq hw hstart
      cases ht with
      | @accept w' _ absent clear h' =>
        by_cases hk : (⟨pr.client, w.op⟩ : Key) = ⟨c, w'.op⟩
        · intro heq
          rw [hk, AList.lookup_insert] at hf
          obtain rfl := Option.some.inj hf
          -- one payload, one identity, one lock
          have hid := Write.identity_eq hstart heq.symm
          have hheld := Phase.holds_checked hw
          rw [hid] at hheld
          exact hqp (hi.exclusive hq hp hheld rfl)
        · exact hold f (by rwa [AList.lookup_insert_ne hk] at hf)
      | @write sv i r reply =>
        obtain ⟨g, hg, hfol, -⟩ := hi.facts _ _ hp
        by_cases hk : (⟨pr.client, w.op⟩ : Key) = ⟨c, r.operationId⟩
        · rw [hk, AList.lookup_insert] at hf
          obtain rfl := Option.some.inj hf
          rw [hfol.payload]
          exact hold g (by rw [hk]; exact hg)
        · exact hold f (by rwa [AList.lookup_insert_ne hk] at hf)
      | _ => exact hold f hf

/-- What every state of such a run has: the invariant, and no write whose record is there. -/
def Safe (s : Sys) : Prop := Inv s ∧ Unanswered s

theorem safe_init : Safe Sys.init := ⟨inv_init, unanswered_init⟩

/-- **Only a creation can find its record.** -/
theorem Safe.reuses (h : Safe s) (hno : recreates uuid s l = false) :
    reuses uuid s l = false :=
  reuses_of_recreates h.2 hno

theorem Safe.moved (h : Safe s) (hno : recreates uuid s l = false)
    (hs : step uuid s l = some s') : Moved uuid s l s' :=
  step_cases (h.reuses hno) hs

/-- **Step lemma.** -/
theorem safe_step (h : Safe s) (hno : recreates uuid s l = false)
    (hs : step uuid s l = some s') : Safe s' :=
  ⟨inv_moved h.1 (h.moved hno hs), unanswered_moved h.1 h.2 (h.moved hno hs)⟩

/-- **Run lemma.** -/
theorem safe_run {ls : List Label}
    (h : Along (step uuid) (fun s l => recreates uuid s l = false) ls Sys.init)
    (hrun : exec (step uuid) ls Sys.init = some s) : Safe s :=
  along_invariant (fun _ _ _ h hno hs => safe_step h hno hs) safe_init h hrun

end

/-! ## At most one application -/

/-- No action has been started twice. -/
def AtMostOnce (s : Sys) : Prop := s.started.Nodup

/-- A repository has at most one unresolved record. -/
def OneUnresolved (s : Sys) : Prop :=
  ∀ k k' f f', s.journal.lookup k = some f → s.journal.lookup k' = some f' →
    f.record.repository = f'.record.repository → f.record.state.unresolved = true →
    f'.record.state.unresolved = true → k = k'

/-- An action about to start has the only unresolved record of its repository. -/
def StartsAlone (s : Sys) : Prop :=
  ∀ p c w r, s.procs p = some ⟨c, .ready w r⟩ → ∀ k f, s.journal.lookup k = some f →
    f.record.repository = w.identity → f.record.state.unresolved = true → k = ⟨c, w.op⟩

theorem Inv.startsAlone {s : Sys} (hi : Inv s) : StartsAlone s := by
  intro p c w r hp k f hf hrepo hu
  obtain ⟨rfl, -, g, hg, hr⟩ := hi.facts p _ hp
  refine hi.single k _ f g hf hg ?_ hu ?_
  · rw [hrepo, hr]; rfl
  · rw [hr]; rfl

/-- **At most one application.** In every run in which no `begin` of a creation finds a
    record of its own client and operation, each action is started at most once, a repository
    has at most one unresolved record, and no action starts beside another's. -/
theorem applied_at_most_once (uuid : String → Option Uuid) (ls : List Label) (s : Sys)
    (hok : Along (step uuid) (fun s l => recreates uuid s l = false) ls Sys.init)
    (hrun : exec (step uuid) ls Sys.init = some s) :
    AtMostOnce s ∧ OneUnresolved s ∧ StartsAlone s := by
  have hi := (safe_run hok hrun).1
  exact ⟨hi.once, hi.single, hi.startsAlone⟩

/-! A directory replaced between two requests of one creation. -/

def clientId : String := "6f9619ff-8b86-d011-b42d-00cf4fc964ff"
def operationId : String := "7f9619ff-8b86-d011-b42d-00cf4fc964ff"

/-- The ids of the run below, read as UUIDs. -/
def sampleUuid (s : String) : Option Uuid :=
  if s = clientId then some 0x6f9619ff8b86d011b42d00cf4fc964ff
  else if s = operationId then some 0x7f9619ff8b86d011b42d00cf4fc964ff
  else none

/-- `repo.init` of `/a`, whose directory has the given inode. -/
def initRequest (ino : UInt64) : Write :=
  .create operationId ⟨"L2E=", "/a"⟩ (some "main") none [47, 97] 1 ino [46, 103, 105, 116]

/-- The same request reaches two processes. Both look at the journal before either has a
    record, under two locks, since the directory was replaced in between. -/
def replacedRun : List Label :=
  [.spawn 1 clientId, .spawn 2 clientId, .arrive 1 (.write (initRequest 7)),
    .arrive 2 (.write (initRequest 8))] ++
    [1, 1, 1, 1, 2, 2, 2, 2, 1, 1, 1, 1, 2, 2, 2, 2].map .step

theorem replaced_directory_starts_twice :
    ¬ ∀ (uuid : String → Option Uuid) (ls : List Label) (s : Sys),
      exec (step uuid) ls Sys.init = some s →
        AtMostOnce s ∧ OneUnresolved s ∧ StartsAlone s := by
  intro h
  have hrun : (exec (step sampleUuid) replacedRun Sys.init).map Sys.started =
      some [⟨clientId, operationId⟩, ⟨clientId, operationId⟩] := by decide +kernel
  obtain ⟨s, hs, hstarted⟩ := Option.map_eq_some_iff.mp hrun
  have := (h sampleUuid replacedRun s hs).1
  rw [AtMostOnce, hstarted] at this
  exact absurd this (by decide)

/-- The same two requests with the directory left alone: the second finds the lock taken,
    and after a crash of the first finds its record, which it closes. -/
def keptRun : List Label :=
  [.spawn 1 clientId, .spawn 2 clientId, .arrive 1 (.write (initRequest 7)),
    .arrive 2 (.write (initRequest 7))] ++
    [1, 1, 1, 1, 2, 2, 1, 1, 1, 1].map .step ++
    [.crash 1, .reply 2, .arrive 2 (.write (initRequest 7))] ++
    (List.replicate 8 2).map .step

theorem kept_directory_starts_once : ∃ s, exec (step sampleUuid) keptRun Sys.init = some s ∧
    s.started = [⟨clientId, operationId⟩] ∧
    AtMostOnce s ∧ OneUnresolved s ∧ StartsAlone s := by
  have hrun : (exec (step sampleUuid) keptRun Sys.init).map Sys.started =
      some [⟨clientId, operationId⟩] := by decide +kernel
  obtain ⟨s, hs, hstarted⟩ := Option.map_eq_some_iff.mp hrun
  have hok : along (step sampleUuid) (fun s l => !recreates sampleUuid s l) keptRun Sys.init =
      true := by decide +kernel
  have hok := along_weaken (fun s l h => by simpa using h) (along_of_decide hok)
  exact ⟨s, hs, hstarted, applied_at_most_once sampleUuid keptRun s hok hs⟩

end Porthop.Git
