import Mathlib.Data.List.Forall2
import Porthop.Lib.Json

/- The cached Git reads of the frontend: their keys and options (`query/git.ts`), and how a write
   retires the reads of its repository.

   A key is a list of JSON values. Its first parts are texts, so that a filter by prefix compares
   texts only. What a read answers is of no concern here, only which reads are sent again. -/
namespace Porthop.Query

variable {ν : Type}

/-- A connection to a server, as far as keys name it. -/
structure ServerScope where
  id : String
  connection : String
  deriving DecidableEq

/-- The string functions that normalise what is put into a key. -/
structure Text where
  toLowerCase : String → String
  trim : String → String

/-! ## Parameters -/

inductive Group where
  | all
  | staged
  | unstaged
  | untracked
  | conflicted
  deriving DecidableEq

def Group.text : Group → String
  | .all => "all"
  | .staged => "staged"
  | .unstaged => "unstaged"
  | .untracked => "untracked"
  | .conflicted => "conflicted"

structure StatusFilter where
  text : String
  group : Option Group

/-- A filter that lets everything pass is none. -/
def normalizeStatusFilter (t : Text) (filter : Option StatusFilter) : Option (String × Group) :=
  let text := (filter.map fun f => t.toLowerCase (t.trim f.text)).getD ""
  let group := (filter.bind StatusFilter.group).getD .all
  if text ≠ "" ∨ group ≠ .all then some (text, group) else none

inductive BranchKind where
  | all
  | local
  | remote

def BranchKind.text : BranchKind → String
  | .all => "all"
  | .local => "local"
  | .remote => "remote"

structure BranchOptions (ν : Type) where
  filter : Option String
  branchKind : Option BranchKind
  pageSize : Option ν

/-- Parameters that are sent as they are, the repository among them. -/
structure Params (ν : Type) where
  repoId : String
  fields : List (String × Json ν)
  named : ("repoId", Json.str repoId) ∈ fields

/-! ## Reads -/

/-- What `gitQueries` builds. -/
inductive Read (ν : Type) where
  | projects
  | receipts
  | summary (projectId : String)
  | checkout (targetId : String)
  | status (repoId : String) (filter : Option StatusFilter)
  | history (repoId revision : String)
  | commit (repoId commitOid : String)
  | branches (repoId : String) (cursor : Option String) (options : Option (BranchOptions ν))
  | remote (repoId name : String)
  | remotes (repoId : String)
  | stashes (repoId : String) (cursor : Option String)
  | tag (repoId oid : String)
  | tags (repoId : String) (cursor : Option String)
  | worktrees (repoId : String) (cursor : Option String) (options : Option (List (String × Json ν)))
  | blobPage (params : Params ν) (oid : String)
  | blob (repoId oid : String)
  | commitFiles (params : Params ν)
  | diff (params : Params ν)
  | diffPage (params : Params ν)
  | commitDiffPage (params : Params ν)
  | commitDiff (params : Params ν)
  | remoteNames (params : Params ν)
  | remoteRefs (params : Params ν)

/-- The repository that a read is of. -/
def Read.repoId : Read ν → Option String
  | .projects | .receipts | .summary _ | .checkout _ => none
  | .status repoId _ | .history repoId _ | .commit repoId _ | .branches repoId _ _
  | .remote repoId _ | .remotes repoId | .stashes repoId _ | .tag repoId _ | .tags repoId _
  | .worktrees repoId _ _ | .blob repoId _ => some repoId
  | .blobPage params _ | .commitFiles params | .diff params | .diffPage params
  | .commitDiffPage params | .commitDiff params | .remoteNames params | .remoteRefs params =>
    some params.repoId

/-! ## Keys -/

namespace gitKeys

def server (scope : ServerScope) : List String := ["server", scope.id, scope.connection]

def all (scope : ServerScope) : List String := server scope ++ ["git"]

def summaries (scope : ServerScope) : List String := all scope ++ ["summary"]

def repos (scope : ServerScope) : List String := all scope ++ ["repo"]

def repo (scope : ServerScope) (repoId : String) : List String := repos scope ++ [repoId]

def text (s : String) : Json ν := .str s

def cursorPart (cursor : Option String) : Json ν := (cursor.map .str).getD .null

def statusPart (t : Text) (filter : Option StatusFilter) : List (Json ν) :=
  ((normalizeStatusFilter t filter).map fun f =>
    Json.obj [("text", .str f.1), ("group", .str f.2.text)]).toList

/-- A hundred, where no page size is given. -/
def branchPart (hundred : ν) (options : Option (BranchOptions ν)) : List (Json ν) :=
  (options.map fun o =>
    Json.obj [("filter", .str (o.filter.getD "")),
      ("branchKind", .str (o.branchKind.getD .all).text),
      ("pageSize", .num (o.pageSize.getD hundred))]).toList

end gitKeys

open gitKeys in
/-- The key of a read: texts that say what it reads, and the rest. -/
def Read.queryKey (t : Text) (hundred : ν) (scope : ServerScope) : Read ν → List (Json ν)
  | .projects => (all scope ++ ["projects"]).map text
  | .receipts => (all scope ++ ["receipts"]).map text
  | .summary projectId => (summaries scope ++ [projectId]).map text
  | .checkout targetId => (summaries scope ++ [targetId]).map text
  | .status repoId filter => (repo scope repoId).map text ++ text "status" :: statusPart t filter
  | .history repoId revision => (repo scope repoId).map text ++ [text "history", text revision]
  | .commit repoId commitOid =>
    (repo scope repoId).map text ++ [text "commit", text (t.toLowerCase commitOid)]
  | .branches repoId cursor options =>
    (repo scope repoId).map text ++ text "branches" :: cursorPart cursor :: branchPart hundred options
  | .remote repoId name => (repo scope repoId).map text ++ [text "remote", text name]
  | .remotes repoId => (repo scope repoId).map text ++ [text "remotes"]
  | .stashes repoId cursor => (repo scope repoId).map text ++ [text "stashes", cursorPart cursor]
  | .tag repoId oid => (repo scope repoId).map text ++ [text "tag", text (t.toLowerCase oid)]
  | .tags repoId cursor => (repo scope repoId).map text ++ [text "tags", cursorPart cursor]
  | .worktrees repoId cursor options =>
    (repo scope repoId).map text ++ [text "worktrees", cursorPart cursor, .obj (options.getD [])]
  | .blobPage params oid =>
    (repo scope params.repoId).map text ++
      [text "blob-page", .obj (Json.setField "oid" (.str (t.toLowerCase oid)) params.fields)]
  | .blob repoId oid => (repo scope repoId).map text ++ [text "blob", text (t.toLowerCase oid)]
  | .commitFiles params =>
    (repo scope params.repoId).map text ++ [text "commit-files", .obj params.fields]
  | .diff params => (repo scope params.repoId).map text ++ [text "diff", .obj params.fields]
  | .diffPage params => (repo scope params.repoId).map text ++ [text "diff-page", .obj params.fields]
  | .commitDiffPage params =>
    (repo scope params.repoId).map text ++ [text "commit-diff-page", .obj params.fields]
  | .commitDiff params =>
    (repo scope params.repoId).map text ++ [text "commit-diff", .obj params.fields]
  | .remoteNames params =>
    (repo scope params.repoId).map text ++ [text "remote-names", .obj params.fields]
  | .remoteRefs params =>
    (repo scope params.repoId).map text ++ [text "remote-refs", .obj params.fields]

/-! ## Options -/

/-- How long an answer stays fresh by itself. -/
inductive StaleTime where
  | default
  | zero
  | infinity
  deriving DecidableEq

/-- The options of a query beside its key; `immutable` stands for those that are spread in from
`IMMUTABLE`. -/
structure Options where
  staleTime : StaleTime
  refetchOnMount : Bool
  immutable : Bool

def plain : Options := ⟨.default, true, false⟩

/-- An answer that is fixed by its key. -/
def IMMUTABLE : Options := ⟨.infinity, true, true⟩

def Read.options : Read ν → Options
  | .receipts => { plain with staleTime := .zero }
  | .summary _ | .checkout _ => { plain with staleTime := .infinity }
  | .commit _ _ | .tag _ _ | .blobPage _ _ | .blob _ _ | .commitFiles _ | .diff _ | .diffPage _
  | .commitDiffPage _ | .commitDiff _ => IMMUTABLE
  | .remoteRefs _ => { plain with staleTime := .infinity, refetchOnMount := false }
  | .projects | .status _ _ | .history _ _ | .branches _ _ _ | .remote _ _ | .remotes _
  | .stashes _ _ | .tags _ _ | .worktrees _ _ _ | .remoteNames _ => plain

/-- The one read that contacts the remote; the names of remotes are read from the repository. -/
def Read.contactsRemote : Read ν → Bool
  | .remoteRefs _ => true
  | _ => false

/-! ## The cache -/

/-- A query in the cache. `active` says that it is shown and not disabled, `fetches` counts how
often it was sent. -/
structure Cached (ν : Type) where
  scope : ServerScope
  read : Read ν
  active : Bool
  isInvalidated : Bool
  fetches : Nat

/-- A filter matches the keys that begin with its own. -/
def startsWith : List String → List (Json ν) → Bool
  | [], _ => true
  | s :: ss, .str r :: ks => s = r && startsWith ss ks
  | _ :: _, _ => false

/-- A query that is invalidated is marked stale, and sent again if it is shown. -/
def Cached.invalidate (q : Cached ν) : Cached ν :=
  { q with isInvalidated := true, fetches := if q.active then q.fetches + 1 else q.fetches }

/-- The kinds that no write makes stale. -/
def NEVER_INVALIDATED : List String :=
  ["tag", "commit", "blob", "diff", "commit-diff", "commit-files", "remote-refs"]

/-- What the caller has already read again: a kind, or one query by its key. -/
inductive Except (ν : Type) where
  | kind (name : String)
  | key (parts : List (Json ν))

section Invalidation
variable [NumText ν] (t : Text) (hundred : ν)

/-- The part of a key behind a prefix, if it is a text. -/
def kindAt (n : Nat) (key : List (Json ν)) : Option String :=
  match key[n]? with
  | some (.str s) => some s
  | _ => none

def skips (key : List (Json ν)) (kind : Option String) : Except ν → Bool
  | .kind name => some name = kind
  | .key parts => Json.render (.arr parts) = Json.render (.arr key)

def retires (scope : ServerScope) (repoId : String) (except : List (Except ν))
    (key : List (Json ν)) : Bool :=
  let kind := kindAt (gitKeys.repo scope repoId).length key
  startsWith (gitKeys.repo scope repoId) key &&
    (!(kind.any fun k => NEVER_INVALIDATED.contains k) && !except.any (skips key kind))

def invalidateRepository (cache : List (Cached ν)) (scope : ServerScope) (repoId : String)
    (except : List (Except ν)) : List (Cached ν) :=
  cache.map fun q =>
    if retires scope repoId except (q.read.queryKey t hundred q.scope) then q.invalidate else q

end Invalidation

end Porthop.Query

/- What a write to a repository leaves alone and what it retires. -/
namespace Porthop.Query

variable {ν : Type}

/-! ## Keys -/

theorem startsWith_append (ss : List String) (ks : List (Json ν)) :
    startsWith ss (ss.map gitKeys.text ++ ks) = true := by
  induction ss with
  | nil => cases ks <;> rfl
  | cons s ss ih =>
    rw [List.map_cons, List.cons_append, gitKeys.text, startsWith, ih]
    simp

/-- Among texts a filter matches its prefix and nothing else. -/
theorem startsWith_texts {ss rs : List String} {ks : List (Json ν)} (h : ss.length = rs.length) :
    startsWith ss (rs.map gitKeys.text ++ ks) = true ↔ ss = rs := by
  induction ss generalizing rs with
  | nil =>
    rw [List.length_eq_zero_iff.mp h.symm]
    simp [startsWith]
  | cons s ss ih =>
    cases rs with
    | nil => cases h
    | cons r rs =>
      rw [List.map_cons, List.cons_append, gitKeys.text, startsWith, Bool.and_eq_true,
        decide_eq_true_iff, ih (Nat.succ.inj h), List.cons.injEq]

theorem repo_injective {scope scope' : ServerScope} {repoId repoId' : String}
    (h : gitKeys.repo scope repoId = gitKeys.repo scope' repoId') :
    scope = scope' ∧ repoId = repoId' := by
  simp only [gitKeys.repo, gitKeys.repos, gitKeys.all, gitKeys.server, List.cons_append,
    List.nil_append, List.cons.injEq] at h
  obtain ⟨-, hid, hconnection, -, -, hrepo, -⟩ := h
  exact ⟨by cases scope; cases scope'; simp_all, hrepo⟩

/-- The name of what a read of a repository reads, as its key has it. -/
def Read.kind : Read ν → String
  | .projects => "projects"
  | .receipts => "receipts"
  | .summary _ | .checkout _ => "summary"
  | .status _ _ => "status"
  | .history _ _ => "history"
  | .commit _ _ => "commit"
  | .branches _ _ _ => "branches"
  | .remote _ _ => "remote"
  | .remotes _ => "remotes"
  | .stashes _ _ => "stashes"
  | .tag _ _ => "tag"
  | .tags _ _ => "tags"
  | .worktrees _ _ _ => "worktrees"
  | .blobPage _ _ => "blob-page"
  | .blob _ _ => "blob"
  | .commitFiles _ => "commit-files"
  | .diff _ => "diff"
  | .diffPage _ => "diff-page"
  | .commitDiffPage _ => "commit-diff-page"
  | .commitDiff _ => "commit-diff"
  | .remoteNames _ => "remote-names"
  | .remoteRefs _ => "remote-refs"

section
variable (t : Text) (hundred : ν)

/-- The key of a read of a repository begins with the repository and its kind. -/
theorem queryKey_repo (scope : ServerScope) {read : Read ν} {repoId : String}
    (h : read.repoId = some repoId) : ∃ rest, read.queryKey t hundred scope =
      (gitKeys.repo scope repoId).map gitKeys.text ++ gitKeys.text read.kind :: rest := by
  cases read with
  | projects | receipts | summary _ | checkout _ => cases h
  | status _ _ | history _ _ | commit _ _ | branches _ _ _ | remote _ _ | remotes _ | stashes _ _
  | tag _ _ | tags _ _ | worktrees _ _ _ | blobPage _ _ | blob _ _ | commitFiles _ | diff _
  | diffPage _ | commitDiffPage _ | commitDiff _ | remoteNames _ | remoteRefs _ =>
    obtain rfl := Option.some.inj h
    exact ⟨_, rfl⟩

/-- A filter by a repository matches the reads of this repository on this connection. -/
theorem startsWith_queryKey (scope scope' : ServerScope) (repoId : String) (read : Read ν) :
    startsWith (gitKeys.repo scope repoId) (read.queryKey t hundred scope') = true ↔
      scope' = scope ∧ read.repoId = some repoId := by
  cases hof : read.repoId with
  | some repoId' =>
    obtain ⟨rest, hkey⟩ := queryKey_repo t hundred scope' hof
    rw [hkey, startsWith_texts (by rfl), Option.some.injEq]
    constructor
    · intro h
      obtain ⟨rfl, rfl⟩ := repo_injective h
      exact ⟨rfl, rfl⟩
    · rintro ⟨rfl, rfl⟩
      rfl
  | none =>
    -- the fifth part of the other keys is not the one of repositories
    refine iff_of_false ?_ fun h => nomatch h.2
    cases read with
    | projects | receipts | summary _ | checkout _ =>
      simp [Read.queryKey, gitKeys.repo, gitKeys.repos, gitKeys.all, gitKeys.summaries,
        gitKeys.server, gitKeys.text, startsWith]
    | _ => cases hof

theorem kindAt_queryKey {scope : ServerScope} {read : Read ν} {repoId : String}
    (h : read.repoId = some repoId) :
    kindAt (gitKeys.repo scope repoId).length (read.queryKey t hundred scope) = some read.kind := by
  obtain ⟨rest, hkey⟩ := queryKey_repo t hundred scope h
  rw [hkey, kindAt, List.getElem?_append_right (by rw [List.length_map]), List.length_map,
    Nat.sub_self]
  rfl

end

/-! ## What a write must not touch -/

/-- The entry names the query: its kind, or its key. -/
def Except.names (kind : String) (key : List (Json ν)) : Except ν → Prop
  | .kind name => name = kind
  | .key parts => parts = key

/-- The reads of pages that are fixed by their key. -/
def Read.paged : Read ν → Bool
  | .blobPage _ _ | .diffPage _ | .commitDiffPage _ => true
  | _ => false

/-- The kinds that are never retired are those of immutable reads and of those that contact a
remote, without the pages. -/
theorem never_iff {read : Read ν} {repoId : String} (h : read.repoId = some repoId) :
    NEVER_INVALIDATED.contains read.kind = true ↔
      (read.options.immutable = true ∨ read.contactsRemote = true) ∧ read.paged = false := by
  cases read with
  | projects | receipts | summary _ | checkout _ => cases h
  | _ => simp [Read.kind, Read.options, Read.contactsRemote, Read.paged, NEVER_INVALIDATED,
      IMMUTABLE, plain]

theorem immutable_of_paged {read : Read ν} (h : read.paged = true) :
    read.options.immutable = true := by
  cases read with
  | blobPage _ _ | diffPage _ | commitDiffPage _ => rfl
  | _ => cases h

/-- A query that is neither changed nor sent again by being retired. -/
def Cached.settled (q : Cached ν) : Prop := q.isInvalidated = true ∧ q.active = false

theorem invalidate_eq_self (q : Cached ν) : q.invalidate = q ↔ q.settled := by
  cases q with
  | mk scope read active isInvalidated fetches =>
    cases active <;> cases isInvalidated <;> simp [Cached.invalidate, Cached.settled]

section
variable [NumText ν]

/-- JSON texts are compared in place of keys. -/
theorem render_injective {v w : Json ν} (h : Json.render v = Json.render w) : v = w :=
  Option.some.inj ((Json.read_render v).symm.trans ((congrArg Json.read h).trans (Json.read_render w)))

theorem skips_iff (key : List (Json ν)) (kind : String) (e : Except ν) :
    skips key (some kind) e = true ↔ e.names kind key := by
  cases e with
  | kind name =>
    rw [skips, decide_eq_true_iff, Option.some.injEq]
    rfl
  | key parts =>
    rw [skips, decide_eq_true_iff]
    constructor
    · exact fun h => Json.arr.inj (render_injective h)
    · exact fun h => congrArg (fun ks => Json.render (.arr ks)) h

variable (t : Text) (hundred : ν)

/-- What must be left alone: the reads of other repositories and connections, those that the
caller has read again, those whose answer is fixed by their key and those that contact a remote. -/
def Spared (scope : ServerScope) (repoId : String) (except : List (Except ν)) (q : Cached ν) : Prop :=
  q.scope ≠ scope ∨ q.read.repoId ≠ some repoId ∨
    (∃ e ∈ except, e.names q.read.kind (q.read.queryKey t hundred q.scope)) ∨
    q.read.options.immutable = true ∨ q.read.contactsRemote = true

/-- What a write retires. -/
theorem retires_iff (scope : ServerScope) (repoId : String) (except : List (Except ν))
    (q : Cached ν) : retires scope repoId except (q.read.queryKey t hundred q.scope) = true ↔
      q.scope = scope ∧ q.read.repoId = some repoId ∧
      ¬((q.read.options.immutable = true ∨ q.read.contactsRemote = true) ∧ q.read.paged = false) ∧
      ¬∃ e ∈ except, e.names q.read.kind (q.read.queryKey t hundred q.scope) := by
  dsimp only [retires]
  rw [Bool.and_eq_true, startsWith_queryKey, and_assoc]
  refine and_congr_right fun hscope => and_congr_right fun hof => ?_
  subst hscope
  rw [kindAt_queryKey t hundred hof, Bool.and_eq_true, Bool.not_eq_true', Bool.not_eq_true',
    ← Bool.not_eq_true, ← Bool.not_eq_true, Option.any_some, never_iff hof, List.any_eq_true]
  simp only [skips_iff]

/-- A query that is not retired is one to leave alone. -/
theorem spared_of_kept {scope : ServerScope} {repoId : String} {except : List (Except ν)}
    {q : Cached ν} (h : retires scope repoId except (q.read.queryKey t hundred q.scope) = false) :
    Spared t hundred scope repoId except q := by
  by_contra hspared
  simp only [Spared, not_or, not_not] at hspared
  obtain ⟨hscope, hof, hexcept, himmutable, hremote⟩ := hspared
  have hretires := (retires_iff t hundred scope repoId except q).mpr
    ⟨hscope, hof, fun hfixed => hfixed.1.elim himmutable hremote, hexcept⟩
  rw [h] at hretires
  cases hretires

/-- Of the queries that are retired only the fixed pages were to leave alone. -/
theorem spared_iff_paged {scope : ServerScope} {repoId : String} {except : List (Except ν)}
    {q : Cached ν} (h : retires scope repoId except (q.read.queryKey t hundred q.scope) = true) :
    Spared t hundred scope repoId except q ↔ q.read.paged = true := by
  obtain ⟨hscope, hof, hfixed, hexcept⟩ := (retires_iff t hundred scope repoId except q).mp h
  constructor
  · intro hspared
    rcases hspared with hother | hother | hnamed | hread
    · exact absurd hscope hother
    · exact absurd hof hother
    · exact absurd hnamed hexcept
    · by_contra hpaged
      exact hfixed ⟨hread, Bool.eq_false_of_not_eq_true hpaged⟩
  · exact fun hpaged => Or.inr (Or.inr (Or.inr (Or.inl (immutable_of_paged hpaged))))

/-- What a write does to one query, against what it should do. -/
theorem query_framed (scope : ServerScope) (repoId : String) (except : List (Except ν))
    (q q' : Cached ν) (h : q' = if retires scope repoId except (q.read.queryKey t hundred q.scope)
      then q.invalidate else q) :
    ((Spared t hundred scope repoId except q → q' = q) ∧
      (¬Spared t hundred scope repoId except q → q' = q.invalidate)) ↔
    (q.scope = scope → q.read.repoId = some repoId → q.read.paged = true →
      (∃ e ∈ except, e.names q.read.kind (q.read.queryKey t hundred q.scope)) ∨ q.settled) := by
  subst h
  cases hretires : retires scope repoId except (q.read.queryKey t hundred q.scope) with
  | false =>
    rw [if_neg Bool.false_ne_true]
    refine iff_of_true ⟨fun _ => rfl, fun hspared => ?_⟩ fun hscope hof hpaged => ?_
    · exact absurd (spared_of_kept t hundred hretires) hspared
    · -- a page of the repository is kept only if the caller has read it again
      by_contra hnot
      have hmet := (retires_iff t hundred scope repoId except q).mpr
        ⟨hscope, hof, fun hfixed => by simp [hpaged] at hfixed, fun hnamed => hnot (Or.inl hnamed)⟩
      rw [hretires] at hmet
      cases hmet
  | true =>
    rw [if_pos rfl, spared_iff_paged t hundred hretires, invalidate_eq_self]
    obtain ⟨hscope, hof, -, hexcept⟩ := (retires_iff t hundred scope repoId except q).mp hretires
    constructor
    · exact fun hframed _ _ hpaged => Or.inr (hframed.1 hpaged)
    · exact fun h => ⟨fun hpaged => (h hscope hof hpaged).resolve_left hexcept, fun _ => rfl⟩

/-- A write leaves alone what it must, and marks everything else of its repository. -/
def Frames (cache : List (Cached ν)) (scope : ServerScope) (repoId : String)
    (except : List (Except ν)) : Prop :=
  List.Forall₂ (fun q q' => (Spared t hundred scope repoId except q → q' = q) ∧
    (¬Spared t hundred scope repoId except q → q' = q.invalidate))
    cache (invalidateRepository t hundred cache scope repoId except)

/-- **A write touches no read that it cannot change, exactly** where no page of the repository
that is fixed by its key is shown or fresh in the cache, unless the caller has read it again. -/
theorem invalidation_frames (cache : List (Cached ν)) (scope : ServerScope) (repoId : String)
    (except : List (Except ν)) : Frames t hundred cache scope repoId except ↔
      ∀ q ∈ cache, q.scope = scope → q.read.repoId = some repoId → q.read.paged = true →
        (∃ e ∈ except, e.names q.read.kind (q.read.queryKey t hundred q.scope)) ∨ q.settled := by
  rw [Frames, invalidateRepository, List.forall₂_map_right_iff, List.forall₂_same]
  exact forall₂_congr fun q _ => query_framed t hundred scope repoId except q _ rfl

end

/-! ## A page that is sent again -/

/-- Texts as they are. -/
def sampleText : Text := ⟨id, id⟩

def sampleScope : ServerScope := ⟨"server", "server:0:"⟩

/-- The page of a working diff at a snapshot. -/
def samplePage : Params Int where
  repoId := "repo"
  fields := [("repoId", .str "repo"), ("snapshot", .str "before")]
  named := List.mem_cons_self

/-- The shown page of a working diff is sent again by a write to its repository. -/
theorem diffPage_resent :
    ¬Frames sampleText 100 [⟨sampleScope, .diffPage samplePage, true, false, 1⟩] sampleScope "repo" [] ∧
      (invalidateRepository sampleText 100 [⟨sampleScope, .diffPage samplePage, true, false, 1⟩]
        sampleScope "repo" []).map Cached.fetches = [2] := by
  constructor
  · intro h
    rw [Frames, invalidateRepository, List.forall₂_map_right_iff, List.forall₂_same] at h
    have hpage := (h _ List.mem_cons_self).1 (Or.inr (Or.inr (Or.inr (Or.inl rfl))))
    exact absurd (congrArg Cached.fetches hpage) (by decide)
  · decide

end Porthop.Query
