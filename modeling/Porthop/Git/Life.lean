import Mathlib.Logic.Relation
import Porthop.Git.Once

/- The life of a record, and what one client's requests see of another's.

   A record only moves along `Follows`, and a record whose state is final is never
   written again. Every file a request writes is its own client's. A lookup, a review
   and both looks of a write read their own client's files only; `begin` and the write
   of a record go over the whole directory, and see of another client's file its name
   and its length, and `begin` also whether it holds an unresolved record of the
   repository in hand, and of which operation. -/
namespace Porthop.Git
open Run

/-- The files of a client are the same. -/
def SameOwn (c : String) (j j' : Journal) : Prop :=
  ∀ op, j'.lookup ⟨c, op⟩ = j.lookup ⟨c, op⟩

/-- What the scan of the directory for repository `i` sees of a file. -/
def glance (i : Digest) (e : Sigma fun _ : Key => Stored) : Key × Nat × Option String :=
  (e.1, e.2.bytes,
    if e.2.record.repository = i ∧ e.2.record.state.unresolved then some e.2.record.operationId
    else none)

/-- Where a process goes in a step, were the journal `j`. -/
def nextWith (uuid : String → Option Uuid) (s : Sys) (p : Pid) (j : Journal) :
    Option (Option Proc) :=
  (step uuid { s with journal := j } (.step p)).map fun s' => s'.procs p

/-- The next step of a process does not depend on the files of other clients. -/
def ReadsOwn (uuid : String → Option Uuid) (s : Sys) (p : Pid) : Prop :=
  ∀ pr j, s.procs p = some pr → SameOwn pr.client s.journal j →
    nextWith uuid s p j = nextWith uuid s p s.journal

/-- The next step of a process depends on the files of other clients only through what the
    scan sees of them. -/
def ReadsGlance (uuid : String → Option Uuid) (s : Sys) (p : Pid) : Prop :=
  ∀ pr j, s.procs p = some pr → SameOwn pr.client s.journal j →
    (∀ i ∈ pr.phase.holds, j.entries.map (glance i) = s.journal.entries.map (glance i)) →
    nextWith uuid s p j = nextWith uuid s p s.journal

/-- The phases that go over the whole directory. -/
def Phase.scans : Phase → Bool
  | claim _ | persist .. => true
  | _ => false

/-- The next step writes no file of a client but that of the process it is of. -/
def WritesOwn (uuid : String → Option Uuid) (s : Sys) (l : Label) : Prop :=
  ∀ s', step uuid s l = some s' → ∀ k, s'.journal.lookup k ≠ s.journal.lookup k →
    ∃ pr, s.procs l.pid = some pr ∧ pr.client = k.client

/-- The next step leaves every record or moves it along its life. -/
def MovesOn (uuid : String → Option Uuid) (s : Sys) (l : Label) : Prop :=
  ∀ s', step uuid s l = some s' → ∀ k f, s.journal.lookup k = some f →
    ∃ f', s'.journal.lookup k = some f' ∧ (f' = f ∨ Follows f.record f'.record)

section
variable {uuid : String → Option Uuid} {s s' : Sys} {l : Label} {p : Pid} {c : String}

/-! ## Writing -/

theorem writesOwn (h : Safe s) (hno : recreates uuid s l = false) : WritesOwn uuid s l := by
  intro s' hs k hk
  cases h.moved hno hs with
  | born c h => exact absurd rfl hk
  | died h => exact absurd rfl hk
  | @turn p c ph ph' j locks catalog started ended hp hl ht hpid =>
    subst hpid
    cases ht with
    | @accept w ph' absent clear h' =>
      by_cases hkey : k = ⟨c, w.op⟩
      · exact ⟨_, hp, by rw [hkey]⟩
      · exact absurd (AList.lookup_insert_ne hkey) hk
    | @write sv i r reply =>
      by_cases hkey : k = ⟨c, r.operationId⟩
      · exact ⟨_, hp, by rw [hkey]⟩
      · exact absurd (AList.lookup_insert_ne hkey) hk
    | _ => exact absurd rfl hk

theorem movesOn (h : Safe s) (hno : recreates uuid s l = false) : MovesOn uuid s l := by
  intro s' hs k f hf
  cases h.moved hno hs with
  | born c h => exact ⟨f, hf, .inl rfl⟩
  | died h => exact ⟨f, hf, .inl rfl⟩
  | @turn p c ph ph' j locks catalog started ended hp hl ht hpid =>
    cases ht with
    | @accept w ph' absent clear h' =>
      refine ⟨f, ?_, .inl rfl⟩
      rw [AList.lookup_insert_ne, hf]
      rintro rfl
      rw [absent] at hf
      cases hf
    | @write sv i r reply =>
      by_cases hkey : k = ⟨c, r.operationId⟩
      · subst hkey
        obtain ⟨g, hg, hfol, -⟩ := h.1.facts p _ hp
        obtain rfl := Option.some.inj (hf.symm.trans hg)
        exact ⟨_, AList.lookup_insert _, .inr hfol⟩
      · exact ⟨f, by rw [AList.lookup_insert_ne hkey, hf], .inl rfl⟩
    | _ => exact ⟨f, hf, .inl rfl⟩

/-- Over a run a record goes along its life, and stays as it is once its state is final. -/
theorem lives_run {ms : List Label} {t : Sys} (h : Safe s)
    (hok : Along (step uuid) (fun s l => recreates uuid s l = false) ms s)
    (hrun : exec (step uuid) ms s = some t) {k : Key} {f : Stored}
    (hf : s.journal.lookup k = some f) :
    ∃ g, t.journal.lookup k = some g ∧ Relation.ReflTransGen Follows f.record g.record ∧
      (f.record.state.unresolved = false → g = f) := by
  induction ms generalizing s f with
  | nil =>
    obtain rfl : s = t := by simpa using hrun
    exact ⟨f, hf, .refl, fun _ => rfl⟩
  | cons l ms ih =>
    obtain ⟨s', hs', hrun⟩ := exec_cons.mp hrun
    obtain ⟨f', hf', hmove⟩ := movesOn h hok.1 s' hs' k f hf
    obtain ⟨g, hg, hlife, hfinal⟩ := ih (safe_step h hok.1 hs') (hok.2 s' hs') hrun hf'
    refine ⟨g, hg, ?_, ?_⟩
    · rcases hmove with rfl | hmove
      · exact hlife
      · exact .head hmove hlife
    · intro hu
      rcases hmove with rfl | hmove
      · exact hfinal hu
      · rw [hmove.unresolved] at hu
        cases hu

/-! ## Reading -/

theorem load_congr {j j' : Journal} {k : Key} (h : j'.lookup k = j.lookup k) :
    load j' k = load j k := by
  unfold load
  rw [h]

theorem loaded_congr {j j' : Journal} (h : SameOwn c j j') (op : String) :
    (recordPath uuid c op >>= load j') = (recordPath uuid c op >>= load j) := by
  cases hk : recordPath uuid c op with
  | error e => rfl
  | ok k =>
    obtain rfl := recordPath_ok hk
    exact load_congr (h op)

theorem existing_congr {j j' : Journal} (h : SameOwn c j j') (op : String) (payload : Digest) :
    existing uuid j' c op payload = existing uuid j c op payload := by
  unfold existing
  cases hk : recordPath uuid c op with
  | error e => rfl
  | ok k =>
    obtain rfl := recordPath_ok hk
    simp only [bind, Except.bind]
    rw [load_congr (h op)]

theorem readsOwn_of_not_scans {pr : Proc} (hp : s.procs p = some pr)
    (h : pr.phase.scans = false) : ReadsOwn uuid s p := by
  intro pr' j hp' hj
  obtain rfl := Option.some.inj (hp.symm.trans hp')
  obtain ⟨c, ph⟩ := pr
  simp only [nextWith, step, hp, Option.bind_some]
  cases ph with
  | lookup w =>
    simp only [advance, existing_congr hj]
    rcases existing uuid s.journal c w.op w.payload with e | _ | r <;> rfl
  | lock w =>
    simp only [advance]
    cases s.locks w.identity <;> rfl
  | recheck w =>
    simp only [advance, existing_congr hj]
    rcases existing uuid s.journal c w.op w.payload with e | _ | r <;> rfl
  | begin w =>
    simp only [advance]
    cases s.catalog <;> rfl
  | claimed w reply => cases reply <;> rfl
  | save sv i r =>
    simp only [advance]
    cases s.catalog <;> rfl
  | load op =>
    simp only [advance, loaded_congr hj]
    rcases recordPath uuid c op >>= load s.journal with e | _ | r
    · rfl
    · rfl
    · dsimp only
      split <;> rfl
  | probe op r =>
    simp only [advance]
    cases s.locks r.repository <;> rfl
  | mark op r =>
    simp only [advance, loaded_congr hj]
    rcases recordPath uuid c op >>= load s.journal with e | _ | r
    · rfl
    · rfl
    · dsimp only
      split <;> rfl
  | reviewLoad op =>
    simp only [advance, loaded_congr hj]
    rcases recordPath uuid c op >>= load s.journal with e | _ | r <;> rfl
  | reviewLock op r =>
    simp only [advance]
    cases s.locks r.repository <;> rfl
  | confirm op r =>
    simp only [advance, loaded_congr hj]
    rcases recordPath uuid c op >>= load s.journal with e | _ | r'
    · rfl
    · rfl
    · dsimp only
      split
      · rfl
      · split
        · rfl
        · split <;> rfl
        · rfl
  | claim w => cases h
  | persist sv i r => cases h
  | _ => rfl

/-! ## What the scan sees -/

theorem recordPaths_glance {i : Digest} {j j' : Journal}
    (h : j'.entries.map (glance i) = j.entries.map (glance i)) :
    (recordPaths j').map (List.map (glance i)) = (recordPaths j).map (List.map (glance i)) := by
  have hlen : j'.entries.length = j.entries.length := by
    have := congrArg List.length h
    simpa using this
  unfold recordPaths
  rw [hlen]
  split
  · rfl
  · exact congrArg Except.ok h

theorem scan_glance {i : Digest} {es es' : List (Sigma fun _ : Key => Stored)}
    (h : es'.map (glance i) = es.map (glance i)) (u : Usage) : scan i es' u = scan i es u := by
  induction es generalizing es' u with
  | nil =>
    obtain rfl : es' = [] := by simpa using h
    rfl
  | cons e es ih =>
    cases es' with
    | nil => cases h
    | cons e' es' =>
      obtain ⟨k, f⟩ := e
      obtain ⟨k', f'⟩ := e'
      rw [List.map_cons, List.map_cons] at h
      obtain ⟨hhead, htail⟩ := List.cons.inj h
      simp only [glance, Prod.mk.injEq] at hhead
      obtain ⟨rfl, hbytes, hun⟩ := hhead
      simp only [scan, ih htail, hbytes]
      split
      · rfl
      · split at hun <;> split at hun
        · next h1 h2 =>
          rw [if_pos h1, if_pos h2, Option.some.inj hun]
        · cases hun
        · cases hun
        · next h1 h2 => rw [if_neg h1, if_neg h2]

theorem usageExcept_glance {i : Digest} {j j' : Journal}
    (h : j'.entries.map (glance i) = j.entries.map (glance i)) (k : Key) :
    usageExcept j' k = usageExcept j k := by
  have hseen : ∀ es : List (Sigma fun _ : Key => Stored),
      ((es.filter fun e => e.1 ≠ k).map fun e => e.2.bytes) =
        (((es.map (glance i)).filter fun g => g.1 ≠ k).map fun g => g.2.1) := by
    intro es
    rw [List.filter_map, List.map_map]
    rfl
  have hmap := recordPaths_glance h
  unfold usageExcept
  cases hj : recordPaths j with
  | error e =>
    rw [hj] at hmap
    cases hj' : recordPaths j' with
    | error e' => rw [hj'] at hmap; cases hmap; rfl
    | ok es' => rw [hj'] at hmap; cases hmap
  | ok es =>
    rw [hj] at hmap
    cases hj' : recordPaths j' with
    | error e' => rw [hj'] at hmap; cases hmap
    | ok es' =>
      rw [hj'] at hmap
      have hes : es'.map (glance i) = es.map (glance i) := Except.ok.inj hmap
      have hbytes := (hseen es').trans ((by rw [hes]) : _ = _) |>.trans (hseen es).symm
      have hlen := congrArg List.length hbytes
      simp only [List.length_map] at hlen
      simp only [bind, Except.bind, hbytes, hlen]

theorem persist_glance {i : Digest} {j j' : Journal} {r : Record} {u : Option Usage}
    (h : j'.entries.map (glance i) = j.entries.map (glance i)) :
    (persist uuid j' c r u).map (fun _ => r) = (persist uuid j c r u).map fun _ => r := by
  unfold persist
  cases recordPath uuid c r.operationId with
  | error e => rfl
  | ok k =>
    simp only [bind, Except.bind, usageExcept_glance h]
    split
    · rfl
    · cases Option.elim u (usageExcept j k) Except.ok with
      | error e => rfl
      | ok u =>
        dsimp only
        split <;> rfl

theorem begin_glance {i : Digest} {j j' : Journal} {op : String} {payload : Digest}
    (hown : SameOwn c j j') (h : j'.entries.map (glance i) = j.entries.map (glance i)) :
    (begin uuid j' c op payload i).map Prod.fst = (begin uuid j c op payload i).map Prod.fst := by
  have hpaths := recordPaths_glance h
  unfold begin
  rw [existing_congr hown]
  rcases existing uuid j c op payload with e | _ | r
  · rfl
  · simp only [bind, Except.bind]
    cases hj : recordPaths j with
    | error e =>
      rw [hj] at hpaths
      cases hj' : recordPaths j' with
      | error e' => rw [hj'] at hpaths; cases hpaths; rfl
      | ok es' => rw [hj'] at hpaths; cases hpaths
    | ok es =>
      rw [hj] at hpaths
      cases hj' : recordPaths j' with
      | error e' => rw [hj'] at hpaths; cases hpaths
      | ok es' =>
        rw [hj'] at hpaths
        have hes : es'.map (glance i) = es.map (glance i) := Except.ok.inj hpaths
        simp only [scan_glance hes]
        cases scan i es ⟨0, 0⟩ with
        | error e => rfl
        | ok u =>
          have hp : (persist uuid j' c (.fresh op payload i) (some u)).map
              (fun _ => Record.fresh op payload i) =
            (persist uuid j c (.fresh op payload i) (some u)).map
              (fun _ => Record.fresh op payload i) := persist_glance h
          dsimp only
          revert hp
          cases persist uuid j' c (.fresh op payload i) (some u) <;>
            cases persist uuid j c (.fresh op payload i) (some u) <;> exact fun hp => hp
  · rfl

theorem nextWith_claim {w : Write} (hp : s.procs p = some ⟨c, .claim w⟩) (j : Journal) :
    nextWith uuid s p j = some (some ⟨c, .claimed w
      ((begin uuid j c w.op w.payload w.identity).map Prod.fst)⟩) := by
  simp only [nextWith, step, hp, Option.bind_some, advance]
  cases begin uuid j c w.op w.payload w.identity <;> simp [Sys.goto, Except.map]

theorem nextWith_persist {sv : Saver} {i : Digest} {r : Record}
    (hp : s.procs p = some ⟨c, .persist sv i r⟩) (j : Journal) :
    nextWith uuid s p j = some (some ⟨c, .persisted sv i
      ((persist uuid j c r none).map fun _ => r)⟩) := by
  simp only [nextWith, step, hp, Option.bind_some, advance]
  cases persist uuid j c r none <;> simp [Sys.goto, Except.map]

theorem readsGlance (s : Sys) (p : Pid) : ReadsGlance uuid s p := by
  intro pr j hp hj hglance
  obtain ⟨c, ph⟩ := pr
  cases hs : ph.scans with
  | false => exact readsOwn_of_not_scans hp hs _ j hp hj
  | true =>
    cases ph with
    | claim w => rw [nextWith_claim hp, nextWith_claim hp, begin_glance hj (hglance _ rfl)]
    | persist sv i r =>
      rw [nextWith_persist hp, nextWith_persist hp, persist_glance (hglance _ rfl)]
    | _ => cases hs

end

/-! ## The life cycle -/

/-- **Life cycle.** In every run in which no `begin` of a creation finds a record of its
    own client and operation: every step leaves each record or moves it along its life,
    and writes files of its own client only; over any stretch of the run a record goes along
    its life, unchanged once its state is final; a step that does not go over the directory
    reads files of its own client only, and one that does sees only `glance` of the others. -/
theorem record_life_cycle (uuid : String → Option Uuid) (ls ms : List Label) (s t : Sys)
    (hok : Along (step uuid) (fun s l => recreates uuid s l = false) (ls ++ ms) Sys.init)
    (hs : exec (step uuid) ls Sys.init = some s) (ht : exec (step uuid) ms s = some t) :
    (∀ l, recreates uuid t l = false → MovesOn uuid t l ∧ WritesOwn uuid t l) ∧
    (∀ k f, s.journal.lookup k = some f → ∃ g, t.journal.lookup k = some g ∧
      Relation.ReflTransGen Follows f.record g.record ∧
      (f.record.state.unresolved = false → g = f)) ∧
    ∀ p, ReadsGlance uuid t p ∧
      ∀ pr, t.procs p = some pr → pr.phase.scans = false → ReadsOwn uuid t p := by
  have hsplit := along_of_append hok
  have hsafe := safe_run hsplit.1 hs
  have hsafe' := along_invariant (fun _ _ _ h hno hs => safe_step h hno hs) hsafe
    (hsplit.2 s hs) ht
  refine ⟨fun l hno => ⟨movesOn hsafe' hno, writesOwn hsafe' hno⟩, ?_, ?_⟩
  · intro k f hf
    exact lives_run hsafe (hsplit.2 s hs) ht hf
  · intro p
    exact ⟨readsGlance t p, fun pr hp hscan => readsOwn_of_not_scans hp hscan⟩

/-- After `keptRun`, a review of the operation that the lookup closed. -/
def reviewRun : List Label :=
  [.reply 2, .arrive 2 (.review operationId)] ++ (List.replicate 7 2).map .step

theorem reviewed_record_life_cycle : ∃ s t f g,
    exec (step sampleUuid) keptRun Sys.init = some s ∧ exec (step sampleUuid) reviewRun s = some t ∧
    s.journal.lookup ⟨clientId, operationId⟩ = some f ∧ f.record.state = .outcomeUnknown ∧
    t.journal.lookup ⟨clientId, operationId⟩ = some g ∧ g.record.state = .reviewedUnknown ∧
    Relation.ReflTransGen Follows f.record g.record := by
  let state (s : Sys) := (s.journal.lookup ⟨clientId, operationId⟩).map fun f => f.record.state
  have hrun : (exec (step sampleUuid) keptRun Sys.init).bind (fun s =>
      (exec (step sampleUuid) reviewRun s).map fun t => (state s, state t)) =
      some (some .outcomeUnknown, some .reviewedUnknown) := by decide +kernel
  obtain ⟨s, hs, hrun⟩ := Option.bind_eq_some_iff.mp hrun
  obtain ⟨t, ht, hstates⟩ := Option.map_eq_some_iff.mp hrun
  obtain ⟨hf, hg⟩ := Prod.mk.inj hstates
  obtain ⟨f, hf, hfstate⟩ := Option.map_eq_some_iff.mp hf
  obtain ⟨g, hg, hgstate⟩ := Option.map_eq_some_iff.mp hg
  have hok : along (step sampleUuid) (fun s l => !recreates sampleUuid s l)
      (keptRun ++ reviewRun) Sys.init = true := by decide +kernel
  have hok := along_weaken (fun s l h => by simpa using h) (along_of_decide hok)
  obtain ⟨g', hg', hlife, -⟩ :=
    (record_life_cycle sampleUuid keptRun reviewRun s t hok hs ht).2.1 _ f hf
  obtain rfl := Option.some.inj (hg.symm.trans hg')
  exact ⟨s, t, f, g, hs, ht, hf, hfstate, hg, hgstate, hlife⟩

/-! The recovery scan names an operation of another client. -/

def otherClient : String := "8f9619ff-8b86-d011-b42d-00cf4fc964ff"
def otherOperation : String := "9f9619ff-8b86-d011-b42d-00cf4fc964ff"

/-- `sampleUuid` with the ids of a second client and its operation. -/
def sampleUuids (s : String) : Option Uuid :=
  if s = otherClient then some 0x8f9619ff8b86d011b42d00cf4fc964ff
  else if s = otherOperation then some 0x9f9619ff8b86d011b42d00cf4fc964ff
  else sampleUuid s

/-- A write to the repository `/r` under an operation id. -/
def stageRequest (op : String) : Write :=
  .start op [47, 114] 1 7 [47, 114] "snapshot" "stage"

/-- One client's operation is interrupted; another client's write then reaches `begin`. -/
def crossRun : List Label :=
  [.spawn 1 clientId, .arrive 1 (.write (stageRequest operationId))] ++
    (List.replicate 7 1).map .step ++
    [.crash 1, .spawn 2 otherClient, .arrive 2 (.write (stageRequest otherOperation))] ++
    (List.replicate 5 2).map .step

/-- Whether `begin` let a process through. -/
def letThrough : Option (Option Proc) → Bool
  | some (some ⟨_, .claimed _ (.ok _)⟩) => true
  | _ => false

theorem recovery_scan_reads_other_clients :
    ¬ ∀ (uuid : String → Option Uuid) (ls : List Label) (s : Sys),
      exec (step uuid) ls Sys.init = some s →
        (∀ l, MovesOn uuid s l ∧ WritesOwn uuid s l) ∧ ∀ p, ReadsOwn uuid s p := by
  intro h
  have hrun : (exec (step sampleUuids) crossRun Sys.init).map (fun s =>
      (s.journal.keys, (s.procs 2).map Proc.client, letThrough (nextWith sampleUuids s 2 ∅),
        letThrough (nextWith sampleUuids s 2 s.journal))) =
      some ([⟨clientId, operationId⟩], some otherClient, true, false) := by decide +kernel
  obtain ⟨s, hs, hfacts⟩ := Option.map_eq_some_iff.mp hrun
  simp only [Prod.mk.injEq] at hfacts
  obtain ⟨hkeys, hclient, hempty, hfull⟩ := hfacts
  obtain ⟨pr, hp, hc⟩ := Option.map_eq_some_iff.mp hclient
  have hown : SameOwn pr.client s.journal ∅ := by
    intro op
    have hmem : (⟨pr.client, op⟩ : Key) ∉ s.journal := by
      rw [AList.mem_keys, hkeys, hc]
      simp [otherClient, clientId]
    rw [AList.lookup_empty, AList.lookup_eq_none.mpr hmem]
  have hsame := (h sampleUuids crossRun s hs).2 2 pr ∅ hp hown
  rw [hsame, hfull] at hempty
  exact absurd hempty (by decide)

end Porthop.Git
