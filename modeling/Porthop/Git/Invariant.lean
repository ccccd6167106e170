import Porthop.Git.Turn

/- The invariant of the journal, and what it says of every run in which no `begin`
   finds a record of its own client and operation.

   Three facts carry it. A process that holds a repository lock is the lock's one
   holder. A process with a record to save found a record of the same operation that
   the new one follows, under the lock of that record's repository. And a repository
   has one unresolved record, since `begin` looks for another before it adds one. The
   lock is what keeps them: a record is only written under the lock of its own
   repository, so no other process's write can make a record in hand stale. -/
namespace Porthop.Git

/-- One step in a record's life. -/
structure Follows (r r' : Record) : Prop where
  op : r'.operationId = r.operationId
  repository : r'.repository = r.repository
  payload : r'.payloadHash = r.payloadHash
  seq : r'.seq = r.seq + 1
  edge : (r.state = .running ∧
      r'.state ∈ [State.succeeded, .failed, .needsResolution, .outcomeUnknown]) ∨
    (r.state = .outcomeUnknown ∧ r'.state = .reviewedUnknown ∧ r'.result = r.result ∧
      r'.error = r.error)

theorem follows_complete {r : Record} (h : r.state = .running) (start : Bool)
    (outcome : Except Error Value) : Follows r (r.complete start outcome) := by
  cases outcome with
  | ok v =>
    refine ⟨rfl, rfl, rfl, rfl, .inl ⟨h, ?_⟩⟩
    simp only [Record.complete]
    split <;> simp
  | error e =>
    refine ⟨rfl, rfl, rfl, rfl, .inl ⟨h, ?_⟩⟩
    simp only [Record.complete]
    split <;> simp

theorem follows_interrupt {r : Record} (h : r.state = .running) : Follows r r.interrupt :=
  ⟨rfl, rfl, rfl, rfl, .inl ⟨h, by simp [Record.interrupt]⟩⟩

theorem follows_review {r : Record} (h : r.state = .outcomeUnknown) : Follows r r.review :=
  ⟨rfl, rfl, rfl, rfl, .inr ⟨h, rfl, rfl, rfl⟩⟩

/-- A record that can still change is unresolved. -/
theorem Follows.unresolved {r r' : Record} (h : Follows r r') : r.state.unresolved = true := by
  rcases h.edge with ⟨hr, -⟩ | ⟨hr, -⟩ <;> simp [hr, State.unresolved]

/-- What a process knows of the journal in a phase. -/
def Local (j : Journal) (started : List Key) (c : String) : Phase → Prop
  | .claimed w (.ok r) | .ready w r =>
    r = .fresh w.op w.payload w.identity ∧ ⟨c, w.op⟩ ∉ started ∧
      ∃ f, j.lookup ⟨c, w.op⟩ = some f ∧ f.record = r
  | .acting w r =>
    r = .fresh w.op w.payload w.identity ∧
      ∃ f, j.lookup ⟨c, w.op⟩ = some f ∧ f.record = r
  | .save _ i r | .persist _ i r =>
    ∃ f, j.lookup ⟨c, r.operationId⟩ = some f ∧ Follows f.record r ∧
      f.record.repository = i
  | .probe op r | .mark op r | .reviewLock op r | .confirm op r =>
    ∃ f, j.lookup ⟨c, op⟩ = some f ∧ f.record.repository = r.repository
  | _ => True

structure Inv (s : Sys) : Prop where
  named : ∀ k f, s.journal.lookup k = some f → f.record.operationId = k.op
  single : ∀ k k' f f', s.journal.lookup k = some f → s.journal.lookup k' = some f' →
    f.record.repository = f'.record.repository → f.record.state.unresolved = true →
    f'.record.state.unresolved = true → k = k'
  kept : ∀ k ∈ s.started, ∃ f, s.journal.lookup k = some f
  once : s.started.Nodup
  locks : ∀ p pr i, s.procs p = some pr → i ∈ pr.phase.holds → s.locks i = some p
  facts : ∀ p pr, s.procs p = some pr → Local s.journal s.started pr.client pr.phase

theorem inv_init : Inv Sys.init where
  named k f h := by simp [Sys.init] at h
  single k k' f f' h := by simp [Sys.init] at h
  kept k h := by simp [Sys.init] at h
  once := List.nodup_nil
  locks p pr i h := by simp [Sys.init] at h
  facts p pr h := by simp [Sys.init] at h

section
variable {uuid : String → Option Uuid} {s s' : Sys} {l : Label} {p : Pid} {c : String}
  {ph ph' : Phase}

theorem local_of_plain {j : Journal} {started : List Key} (h : ph.plain = true) :
    Local j started c ph := by
  cases ph with
  | claimed w reply => cases reply <;> trivial
  | _ => trivial

/-- A change of the journal and of the history that leaves alone the records a process
    knows under its lock, and the repository of every other, leaves its facts alone. -/
theorem Local.frame {j j' : Journal} {started started' : List Key} (h : Local j started c ph)
    (hj : ∀ op f, j.lookup ⟨c, op⟩ = some f → ∃ f', j'.lookup ⟨c, op⟩ = some f' ∧
      f'.record.repository = f.record.repository ∧ (f.record.repository ∈ ph.holds → f' = f))
    (hs : ∀ op f, j.lookup ⟨c, op⟩ = some f → f.record.repository ∈ ph.holds →
      ⟨c, op⟩ ∈ started' → ⟨c, op⟩ ∈ started) :
    Local j' started' c ph := by
  have held : ∀ op f, j.lookup ⟨c, op⟩ = some f → f.record.repository ∈ ph.holds →
      j'.lookup ⟨c, op⟩ = some f := by
    intro op f hf hhold
    obtain ⟨f', hf', -, heq⟩ := hj op f hf
    rw [hf', heq hhold]
  have seen : ∀ op r, (∃ f, j.lookup ⟨c, op⟩ = some f ∧ f.record.repository = r) →
      ∃ f, j'.lookup ⟨c, op⟩ = some f ∧ f.record.repository = r := by
    rintro op r ⟨f, hf, rfl⟩
    obtain ⟨f', hf', hrepo, -⟩ := hj op f hf
    exact ⟨f', hf', hrepo⟩
  cases ph with
  | claimed w reply =>
    cases reply with
    | error e => trivial
    | ok r =>
      obtain ⟨rfl, hnew, f, hf, hr⟩ := h
      have hhold : f.record.repository ∈ (Phase.claimed w (.ok f.record)).holds := by
        rw [hr]; exact rfl
      exact ⟨rfl, fun hmem => hnew (hs _ f hf hhold hmem), f, held _ f hf hhold, hr⟩
  | ready w r =>
    obtain ⟨rfl, hnew, f, hf, hr⟩ := h
    have hhold : f.record.repository ∈ (Phase.ready w f.record).holds := by rw [hr]; exact rfl
    exact ⟨rfl, fun hmem => hnew (hs _ f hf hhold hmem), f, held _ f hf hhold, hr⟩
  | acting w r =>
    obtain ⟨rfl, f, hf, hr⟩ := h
    have hhold : f.record.repository ∈ (Phase.acting w f.record).holds := by rw [hr]; exact rfl
    exact ⟨rfl, f, held _ f hf hhold, hr⟩
  | save sv i r =>
    obtain ⟨f, hf, hfol, rfl⟩ := h
    exact ⟨f, held _ f hf rfl, hfol, rfl⟩
  | persist sv i r =>
    obtain ⟨f, hf, hfol, rfl⟩ := h
    exact ⟨f, held _ f hf rfl, hfol, rfl⟩
  | probe op r => exact seen op _ h
  | mark op r => exact seen op _ h
  | reviewLock op r => exact seen op _ h
  | confirm op r => exact seen op _ h
  | _ => trivial

/-- The lock side of a turn. -/
theorem Inv.lockMove (hi : Inv s) {locks : Digest → Option Pid}
    (hp : s.procs p = some ⟨c, ph⟩) (hl : LockMove s p ph ph' locks) :
    ∀ q pr i, Function.update s.procs p (some ⟨c, ph'⟩) q = some pr → i ∈ pr.phase.holds →
      locks i = some q := by
  intro q pr i hq hhold
  by_cases hqp : q = p
  · subst hqp
    obtain rfl : ⟨c, ph'⟩ = pr := by simpa using hq
    cases hl with
    | keep h => exact hi.locks q _ i hp (h i hhold)
    | take free h =>
      obtain rfl := Option.some.inj (h.symm.trans hhold)
      simp
    | free h h' => rw [Option.mem_def, h'] at hhold; cases hhold
  · rw [Function.update_of_ne hqp] at hq
    have hheld := hi.locks q pr i hq hhold
    cases hl with
    | keep h => exact hheld
    | take free h =>
      rw [Function.update_of_ne, hheld]
      rintro rfl
      rw [free] at hheld
      cases hheld
    | free h h' =>
      rw [Function.update_of_ne, hheld]
      rintro rfl
      have := hi.locks p _ _ hp h
      rw [hheld] at this
      exact hqp (Option.some.inj this)

/-- A repository lock has one holder. -/
theorem Inv.exclusive (hi : Inv s) {q : Pid} {pr pr' : Proc} {i : Digest}
    (hp : s.procs p = some pr) (hq : s.procs q = some pr') (h : i ∈ pr.phase.holds)
    (h' : i ∈ pr'.phase.holds) : p = q := by
  have hp := hi.locks p pr i hp h
  have hq := hi.locks q pr' i hq h'
  exact Option.some.inj (hp.symm.trans hq)

/-- The facts of every process after a turn, from those of the process and the others. -/
theorem facts_turn {j : Journal} {started : List Key}
    (hown : Local j started c ph')
    (hother : ∀ q pr, q ≠ p → s.procs q = some pr → Local j started pr.client pr.phase) :
    ∀ q pr, Function.update s.procs p (some ⟨c, ph'⟩) q = some pr →
      Local j started pr.client pr.phase := by
  intro q pr hq
  by_cases hqp : q = p
  · subst hqp
    obtain rfl : ⟨c, ph'⟩ = pr := by simpa using hq
    exact hown
  · rw [Function.update_of_ne hqp] at hq
    exact hother q pr hqp hq

/-- A turn that leaves the journal and the starts alone. -/
theorem Inv.still (hi : Inv s) {locks : Digest → Option Pid} {catalog : Option Pid}
    {ended : List (Key × Record)} (hp : s.procs p = some ⟨c, ph⟩)
    (hl : LockMove s p ph ph' locks) (hown : Local s.journal s.started c ph') :
    Inv ⟨s.journal, locks, catalog, Function.update s.procs p (some ⟨c, ph'⟩), s.started,
      ended⟩ where
  named := hi.named
  single := hi.single
  kept := hi.kept
  once := hi.once
  locks := hi.lockMove hp hl
  facts := facts_turn hown fun q pr _ hq => hi.facts q pr hq

/-- A fresh record, where the repository has no unresolved one. -/
theorem Inv.accept (hi : Inv s) {locks : Digest → Option Pid} {catalog : Option Pid}
    {ended : List (Key × Record)} {op : String} {r : Record} {n : Nat}
    (hp : s.procs p = some ⟨c, ph⟩) (hl : LockMove s p ph ph' locks)
    (absent : s.journal.lookup ⟨c, op⟩ = none) (hop : r.operationId = op)
    (clear : ∀ k f, s.journal.lookup k = some f → f.record.repository = r.repository →
      f.record.state.unresolved = false)
    (hown : Local (s.journal.insert ⟨c, op⟩ ⟨r, n⟩) s.started c ph') :
    Inv ⟨s.journal.insert ⟨c, op⟩ ⟨r, n⟩, locks, catalog,
      Function.update s.procs p (some ⟨c, ph'⟩), s.started, ended⟩ := by
  have hold : ∀ k f, s.journal.lookup k = some f →
      (s.journal.insert ⟨c, op⟩ ⟨r, n⟩).lookup k = some f := by
    intro k f hf
    rw [AList.lookup_insert_ne, hf]
    rintro rfl
    rw [absent] at hf
    cases hf
  have hcases : ∀ k f, (s.journal.insert ⟨c, op⟩ ⟨r, n⟩).lookup k = some f →
      (k = ⟨c, op⟩ ∧ f = ⟨r, n⟩) ∨ s.journal.lookup k = some f := by
    intro k f hf
    by_cases hk : k = ⟨c, op⟩
    · subst hk
      rw [AList.lookup_insert] at hf
      exact .inl ⟨rfl, (Option.some.inj hf).symm⟩
    · rw [AList.lookup_insert_ne hk] at hf
      exact .inr hf
  refine ⟨?_, ?_, ?_, hi.once, hi.lockMove hp hl, facts_turn hown ?_⟩
  · intro k f hf
    rcases hcases k f hf with ⟨rfl, rfl⟩ | hf
    · exact hop
    · exact hi.named k f hf
  · intro k k' f f' hf hf' hrepo hu hu'
    rcases hcases k f hf with ⟨rfl, rfl⟩ | hf <;> rcases hcases k' f' hf' with ⟨rfl, rfl⟩ | hf'
    · rfl
    · exact absurd hu' (by simp [clear k' f' hf' hrepo.symm])
    · exact absurd hu (by simp [clear k f hf hrepo])
    · exact hi.single k k' f f' hf hf' hrepo hu hu'
  · intro k hk
    obtain ⟨f, hf⟩ := hi.kept k hk
    exact ⟨f, hold k f hf⟩
  · intro q pr _ hq
    refine (hi.facts q pr hq).frame (fun op' f hf => ?_) fun _ _ _ _ h => h
    exact ⟨f, hold _ f hf, rfl, fun _ => rfl⟩

/-- A record that follows the stored one, written under the lock of its repository. -/
theorem Inv.write (hi : Inv s) {locks : Digest → Option Pid} {catalog : Option Pid}
    {ended : List (Key × Record)} {r : Record} {f : Stored} {n : Nat}
    (hp : s.procs p = some ⟨c, ph⟩) (hl : LockMove s p ph ph' locks)
    (hf : s.journal.lookup ⟨c, r.operationId⟩ = some f) (hfol : Follows f.record r)
    (hheld : f.record.repository ∈ ph.holds) (hplain : ph'.plain = true) :
    Inv ⟨s.journal.insert ⟨c, r.operationId⟩ ⟨r, n⟩, locks, catalog,
      Function.update s.procs p (some ⟨c, ph'⟩), s.started, ended⟩ := by
  have hcases : ∀ k g, (s.journal.insert ⟨c, r.operationId⟩ ⟨r, n⟩).lookup k = some g →
      ∃ g', s.journal.lookup k = some g' ∧ g'.record.repository = g.record.repository ∧
        g'.record.operationId = g.record.operationId ∧
        (g.record.state.unresolved = true → g'.record.state.unresolved = true) := by
    intro k g hg
    by_cases hk : k = ⟨c, r.operationId⟩
    · subst hk
      rw [AList.lookup_insert] at hg
      obtain rfl := Option.some.inj hg
      exact ⟨f, hf, hfol.repository.symm, hfol.op.symm, fun _ => hfol.unresolved⟩
    · rw [AList.lookup_insert_ne hk] at hg
      exact ⟨g, hg, rfl, rfl, id⟩
  refine ⟨?_, ?_, ?_, hi.once, hi.lockMove hp hl, facts_turn (local_of_plain hplain) ?_⟩
  · intro k g hg
    obtain ⟨g', hg', -, hop, -⟩ := hcases k g hg
    rw [← hop]
    exact hi.named k g' hg'
  · intro k k' g g' hg hg' hrepo hu hu'
    obtain ⟨h, hh, hr, -, hun⟩ := hcases k g hg
    obtain ⟨h', hh', hr', -, hun'⟩ := hcases k' g' hg'
    exact hi.single k k' h h' hh hh' (hr.trans (hrepo.trans hr'.symm)) (hun hu) (hun' hu')
  · intro k hk
    by_cases hkey : k = ⟨c, r.operationId⟩
    · subst hkey
      exact ⟨_, AList.lookup_insert _⟩
    · obtain ⟨g, hg⟩ := hi.kept k hk
      exact ⟨g, by rw [AList.lookup_insert_ne hkey, hg]⟩
  · intro q pr hqp hq
    refine (hi.facts q pr hq).frame (fun op g hg => ?_) fun _ _ _ _ h => h
    by_cases hkey : (⟨pr.client, op⟩ : Key) = ⟨c, r.operationId⟩
    · rw [hkey] at hg ⊢
      obtain rfl := Option.some.inj (hg.symm.trans hf)
      refine ⟨_, AList.lookup_insert _, hfol.repository, fun hhold => ?_⟩
      -- two holders of one lock
      exact absurd (hi.exclusive hq hp hhold hheld) hqp
    · exact ⟨g, by rw [AList.lookup_insert_ne hkey, hg], rfl, fun _ => rfl⟩

/-- The start of an action. -/
theorem Inv.start (hi : Inv s) {locks : Digest → Option Pid} {catalog : Option Pid}
    {ended : List (Key × Record)} {w : Write} {r : Record}
    (hp : s.procs p = some ⟨c, .ready w r⟩) (hl : LockMove s p (.ready w r) (.acting w r) locks) :
    Inv ⟨s.journal, locks, catalog, Function.update s.procs p (some ⟨c, .acting w r⟩),
      ⟨c, w.op⟩ :: s.started, ended⟩ := by
  obtain ⟨rfl, hnew, f, hf, hr⟩ := hi.facts p _ hp
  refine ⟨hi.named, hi.single, ?_, List.nodup_cons.mpr ⟨hnew, hi.once⟩, hi.lockMove hp hl,
    facts_turn ⟨rfl, f, hf, hr⟩ ?_⟩
  · intro k hk
    rcases List.mem_cons.mp hk with rfl | hk
    · exact ⟨f, hf⟩
    · exact hi.kept k hk
  · intro q pr hqp hq
    refine (hi.facts q pr hq).frame (fun op g hg => ⟨g, hg, rfl, fun _ => rfl⟩) ?_
    intro op g hg hhold hmem
    rcases List.mem_cons.mp hmem with heq | hmem
    · rw [heq] at hg
      obtain rfl := Option.some.inj (hg.symm.trans hf)
      rw [hr] at hhold
      exact absurd (hi.exclusive hq hp hhold rfl) hqp
    · exact hmem

theorem Inv.died (hi : Inv s) (p : Pid) : Inv (s.drop p) := by
  have hprocs : ∀ q pr, (s.drop p).procs q = some pr → q ≠ p ∧ s.procs q = some pr := by
    intro q pr hq
    by_cases hqp : q = p
    · subst hqp; simp [Sys.drop] at hq
    · exact ⟨hqp, by simpa [Sys.drop, hqp] using hq⟩
  refine ⟨hi.named, hi.single, hi.kept, hi.once, ?_, ?_⟩
  · intro q pr i hq hhold
    obtain ⟨hqp, hq⟩ := hprocs q pr hq
    have hheld := hi.locks q pr i hq hhold
    simp [Sys.drop, hheld, hqp]
  · intro q pr hq
    exact hi.facts q pr (hprocs q pr hq).2

theorem Inv.born (hi : Inv s) (c : String) (h : s.procs p = none) : Inv (s.goto p c .idle) := by
  refine ⟨hi.named, hi.single, hi.kept, hi.once, ?_,
    facts_turn trivial fun q pr _ hq => hi.facts q pr hq⟩
  intro q pr i hq hhold
  by_cases hqp : q = p
  · subst hqp
    obtain rfl : ⟨c, .idle⟩ = pr := by simpa [Sys.goto] using hq
    cases hhold
  · exact hi.locks q pr i (by simpa [Sys.goto, hqp] using hq) hhold

/-- **Step lemma.** -/
theorem inv_moved (hi : Inv s) (hm : Moved uuid s l s') : Inv s' := by
  cases hm with
  | born c h => exact hi.born c h
  | died h => exact hi.died _
  | @turn p c ph ph' _ _ _ _ _ hp hl ht hpid =>
    cases ht with
    | pass h h' _ => exact hi.still hp hl (local_of_plain h')
    | lose h h' _ => exact hi.still hp hl (local_of_plain h')
    | @accept w ph' absent clear h' =>
      refine hi.accept hp hl absent rfl clear ?_
      rcases h' with rfl | rfl
      · refine ⟨rfl, fun hmem => ?_, _, AList.lookup_insert _, rfl⟩
        obtain ⟨f, hf⟩ := hi.kept _ hmem
        rw [absent] at hf
        cases hf
      · trivial
    | grant => exact hi.still hp hl (hi.facts _ _ hp)
    | start => exact hi.start hp hl
    | finish outcome =>
      obtain ⟨rfl, f, hf, hr⟩ := hi.facts _ _ hp
      refine hi.still hp hl ⟨f, ?_, ?_, ?_⟩
      · cases outcome <;> exact hf
      · rw [hr]; exact follows_complete rfl _ _
      · rw [hr]; rfl
    | see h hf hr h' =>
      subst hr
      rcases h' with rfl | rfl <;> exact hi.still hp hl ⟨_, hf, rfl⟩
    | mark => exact hi.still hp hl (hi.facts _ _ hp)
    | confirm => exact hi.still hp hl (hi.facts _ _ hp)
    | @interrupt op r f hf hs =>
      obtain ⟨g, hg, hrepo⟩ := hi.facts _ _ hp
      obtain rfl := Option.some.inj (hf.symm.trans hg)
      refine hi.still hp hl ⟨f, ?_, follows_interrupt hs, hrepo⟩
      rw [show f.record.interrupt.operationId = op from hi.named _ f hf]
      exact hf
    | @review op r f hf hs =>
      obtain ⟨g, hg, hrepo⟩ := hi.facts _ _ hp
      obtain rfl := Option.some.inj (hf.symm.trans hg)
      refine hi.still hp hl ⟨f, ?_, follows_review hs, hrepo⟩
      rw [show f.record.review.operationId = op from hi.named _ f hf]
      exact hf
    | persist => exact hi.still hp hl (hi.facts _ _ hp)
    | write reply =>
      obtain ⟨f, hf, hfol, rfl⟩ := hi.facts _ _ hp
      exact hi.write hp hl hf hfol rfl rfl

end

end Porthop.Git
