import Porthop.Lib.Distinct
import Porthop.Lib.Run

/- Pages put together without repeated entries (`uniquePages.ts`).

   The appender keeps an index of the keys of the page it made last, and uses it again when the
   page before the next one is that very object. Pages are therefore named by when they were
   made, and a page that the cache gives back in another object is a page of its own. Computing
   a key may throw, at one call and not at the next. -/
namespace Porthop.Git.UniquePages

open Porthop.Distinct

structure Page (T M : Type) where
  snapshot : String
  entries : List T
  nextCursor : Option String
  metadata : M

inductive Failure where
  /-- What does not hold of a response. -/
  | response (field : String)
  | noResults
  /-- The key of an entry could not be computed. -/
  | thrown
  deriving DecidableEq

def Failure.message : Failure → Option String
  | response field => some ("Invalid Git response (" ++ field ++ "). Reconnect before continuing.")
  | noResults => some "The next page did not add any results. Refresh the list."
  | thrown => none

/-- An empty text counts as no text at all. -/
def truthy (s : Option String) : Bool := s.any fun s => s ≠ ""

section
variable {T M : Type} (stringify : M → String) (key : T → String)

def validateGitPageContinuation (previous incoming : Page T M) (requestedCursor : String) :
    Except Failure Unit :=
  if previous.nextCursor ≠ some requestedCursor ∨ previous.snapshot ≠ incoming.snapshot ∨
      stringify previous.metadata ≠ stringify incoming.metadata then
    .error (.response "page snapshot")
  else if incoming.nextCursor = some requestedCursor then .error (.response "page cursor")
  else .ok ()

/-- The entries of the page before, without repeated ones, and their keys. -/
def index (throws : T → Bool) : List T → List String → Except Failure (List T × List String)
  | [], ids => .ok ([], ids)
  | entry :: entries, ids =>
    if throws entry then .error .thrown
    else if key entry ∈ ids then index throws entries ids
    else
      match index throws entries (key entry :: ids) with
      | .ok (kept, ids) => .ok (entry :: kept, ids)
      | .error e => .error e

/-- The entries that are new, and their keys. -/
def collect (throws : T → Bool) (ids : List String) :
    List T → List String → Except Failure (List T × List String)
  | [], added => .ok ([], added)
  | entry :: entries, added =>
    if throws entry then .error .thrown
    else if key entry ∈ ids ∨ key entry ∈ added then collect throws ids entries added
    else
      match collect throws ids entries (key entry :: added) with
      | .ok (new, added) => .ok (entry :: new, added)
      | .error e => .error e

/-- The object that was made last or adopted, and the keys of its entries. -/
structure Appender where
  indexed : Option Nat
  seen : List String

/-- The index is used again for the object it is of. -/
def Appender.entries (a : Appender) (ref : Nat) (throws : T → Bool) (previous : Page T M) :
    Except Failure (List T × List String) :=
  if a.indexed = some ref then .ok (previous.entries, a.seen)
  else index key throws previous.entries []

/-- The new page with the index for it. -/
def append (a : Appender) (ref : Nat) (throws : T → Bool) (previous incoming : Page T M)
    (cursor : String) : Except Failure (Page T M × List String) := do
  validateGitPageContinuation stringify previous incoming cursor
  let (entries, ids) ← a.entries key ref throws previous
  let (new, added) ← collect key throws ids incoming.entries []
  if truthy incoming.nextCursor ∧ (entries ++ new).length = previous.entries.length then
    .error .noResults
  else .ok ({ incoming with entries := entries ++ new }, added ++ ids)

/-! ## What it is for -/

def firsts (entries : List T) : List T := fresh key [] entries

/-- The entries of the incoming page that the page before does not have. -/
def added (previous incoming : Page T M) : List T :=
  fresh key (previous.entries.map key) incoming.entries

/-- The page without repeated entries, from the two pages alone. -/
def merged (previous incoming : Page T M) (cursor : String) : Except Failure (Page T M) := do
  validateGitPageContinuation stringify previous incoming cursor
  if incoming.nextCursor.isSome ∧ added key previous incoming = [] then .error .noResults
  else .ok { incoming with entries := firsts key previous.entries ++ added key previous incoming }

/-! ## Calls in any order -/

/-- All pages that were made, and the appender. -/
structure World (T M : Type) where
  pages : List (Page T M)
  appender : Appender

inductive Call (T M : Type) where
  /-- A page comes from elsewhere: it was read, refreshed or copied. -/
  | create (page : Page T M)
  | append (previous incoming : Nat) (cursor : String) (throws : T → Bool)
  | adopt (source : Nat) (stored : Option Nat)
  | reset

namespace World

def new : World T M := ⟨[], ⟨none, []⟩⟩

def result (w : World T M) (previous incoming : Nat) (cursor : String) (throws : T → Bool) :
    Option (Except Failure (Page T M × List String)) := do
  let before ← w.pages[previous]?
  let next ← w.pages[incoming]?
  some (append stringify key w.appender previous throws before next cursor)

def step (w : World T M) : Call T M → Option (World T M)
  | .create page => some { w with pages := w.pages ++ [page] }
  | .append previous incoming cursor throws =>
    (w.result stringify key previous incoming cursor throws).map fun
      | .ok (page, ids) => ⟨w.pages ++ [page], ⟨some w.pages.length, ids⟩⟩
      | .error _ => w
  | .adopt source stored =>
    if w.appender.indexed = some source ∧ stored.isSome then
      some { w with appender := { w.appender with indexed := stored } }
    else some w
  | .reset => some { w with appender := ⟨none, []⟩ }

/-- The cache gives back an equal value. -/
def Copied (w : World T M) : Call T M → Prop
  | .adopt source (some stored) => w.pages[stored]? = w.pages[source]?
  | _ => True

end World

/-! ## The loops -/

variable {stringify : M → String} {key : T → String} {throws : T → Bool}

theorem index_ok {entries : List T} (ids : List String)
    (h : ∀ entry ∈ entries, throws entry = false) :
    ∃ ids', index key throws entries ids = .ok (fresh key ids entries, ids') ∧
      ∀ k, k ∈ ids' ↔ k ∈ ids ∨ k ∈ entries.map key := by
  induction entries generalizing ids with
  | nil => exact ⟨ids, rfl, by simp⟩
  | cons entry entries ih =>
    have hrest : ∀ e ∈ entries, throws e = false := fun e he => h e (by simp [he])
    have hentry : throws entry = false := h entry (by simp)
    by_cases hk : key entry ∈ ids
    · obtain ⟨ids', heq, hmem⟩ := ih ids hrest
      refine ⟨ids', ?_, fun k => ?_⟩
      · simp [index, hentry, hk, heq, fresh_cons_known hk]
      · rw [hmem, List.map_cons, List.mem_cons]
        constructor
        · tauto
        · rintro (hids | rfl | hkeys)
          · exact Or.inl hids
          · exact Or.inl hk
          · exact Or.inr hkeys
    · obtain ⟨ids', heq, hmem⟩ := ih (key entry :: ids) hrest
      refine ⟨ids', ?_, fun k => ?_⟩
      · simp [index, hentry, hk, heq, fresh_cons_new hk]
      · rw [hmem, List.map_cons, List.mem_cons, List.mem_cons]
        tauto

theorem index_thrown {entries : List T} (ids : List String)
    (h : ∃ entry ∈ entries, throws entry = true) :
    index key throws entries ids = .error .thrown := by
  induction entries generalizing ids with
  | nil => simp at h
  | cons entry entries ih =>
    cases hentry : throws entry with
    | true => simp [index, hentry]
    | false =>
      have hrest : ∃ entry ∈ entries, throws entry = true := by simpa [hentry] using h
      by_cases hk : key entry ∈ ids
      · simp [index, hentry, hk, ih ids hrest]
      · simp [index, hentry, hk, ih (key entry :: ids) hrest]

theorem collect_ok {entries : List T} (ids added : List String)
    (h : ∀ entry ∈ entries, throws entry = false) :
    ∃ added', collect key throws ids entries added = .ok (fresh key (added ++ ids) entries, added') ∧
      ∀ k, k ∈ added' ++ ids ↔ k ∈ added ++ ids ∨ k ∈ entries.map key := by
  induction entries generalizing added with
  | nil => exact ⟨added, rfl, by simp⟩
  | cons entry entries ih =>
    have hrest : ∀ e ∈ entries, throws e = false := fun e he => h e (by simp [he])
    have hentry : throws entry = false := h entry (by simp)
    have hiff : (key entry ∈ ids ∨ key entry ∈ added) ↔ key entry ∈ added ++ ids := by
      rw [List.mem_append]
      tauto
    by_cases hk : key entry ∈ added ++ ids
    · obtain ⟨added', heq, hmem⟩ := ih added hrest
      refine ⟨added', ?_, fun k => ?_⟩
      · simp only [collect, hentry, hiff, hk, heq, fresh_cons_known hk, Bool.false_eq_true, if_false,
          if_true]
      · rw [hmem, List.map_cons, List.mem_cons]
        constructor
        · tauto
        · rintro (hids | rfl | hkeys)
          · exact Or.inl hids
          · exact Or.inl hk
          · exact Or.inr hkeys
    · obtain ⟨added', heq, hmem⟩ := ih (key entry :: added) hrest
      refine ⟨added', ?_, fun k => ?_⟩
      · simp only [collect, hentry, hiff, hk, heq, fresh_cons_new hk, Bool.false_eq_true, if_false,
          List.cons_append]
      · rw [hmem, List.map_cons, List.mem_cons, List.cons_append, List.mem_cons]
        tauto

theorem collect_thrown {entries : List T} (ids added : List String)
    (h : ∃ entry ∈ entries, throws entry = true) :
    collect key throws ids entries added = .error .thrown := by
  induction entries generalizing added with
  | nil => simp at h
  | cons entry entries ih =>
    cases hentry : throws entry with
    | true => simp [collect, hentry]
    | false =>
      have hrest : ∃ entry ∈ entries, throws entry = true := by simpa [hentry] using h
      by_cases hk : key entry ∈ ids ∨ key entry ∈ added
      · simp [collect, hentry, hk, ih added hrest]
      · simp [collect, hentry, hk, ih (key entry :: added) hrest]

/-! ## The index is that of the page it is for -/

/-- The page that is indexed repeats no key, and the index has its keys. -/
def Indexed (key : T → String) (w : World T M) : Prop :=
  ∀ ref, w.appender.indexed = some ref → ∃ page, w.pages[ref]? = some page ∧
    (page.entries.map key).Nodup ∧ ∀ k, k ∈ w.appender.seen ↔ k ∈ page.entries.map key

variable {w w' : World T M} {previous incoming : Page T M} {cursor : String}

theorem firsts_of_nodup (h : (previous.entries.map key).Nodup) :
    firsts key previous.entries = previous.entries :=
  fresh_eq_self h fun _ _ => List.not_mem_nil

/-- The entries whose keys an append computes. -/
def asked (w : World T M) (ref : Nat) (previous incoming : Page T M) : List T :=
  (if w.appender.indexed = some ref then [] else previous.entries) ++ incoming.entries

/-- What the page before comes to, by the index or without it. -/
theorem indexed_entries (h : Indexed key w) {ref : Nat} (hprevious : w.pages[ref]? = some previous)
    (hkeys : w.appender.indexed = some ref ∨ ∀ entry ∈ previous.entries, throws entry = false) :
    ∃ ids, w.appender.entries key ref throws previous = .ok (firsts key previous.entries, ids) ∧
      ∀ k, k ∈ ids ↔ k ∈ previous.entries.map key := by
  unfold Appender.entries
  by_cases hreusable : w.appender.indexed = some ref
  · obtain ⟨page, hpage, hnodup, hseen⟩ := h ref hreusable
    obtain rfl : page = previous := Option.some.inj (hpage.symm.trans hprevious)
    rw [if_pos hreusable, firsts_of_nodup hnodup]
    exact ⟨_, rfl, hseen⟩
  · obtain ⟨ids, heq, hmem⟩ : ∃ ids, index key throws previous.entries [] =
        .ok (firsts key previous.entries, ids) ∧ _ := index_ok [] (hkeys.resolve_left hreusable)
    rw [if_neg hreusable]
    exact ⟨ids, heq, fun k => by simp [hmem]⟩

/-- The result of an append whose keys can be computed. -/
theorem append_ok (h : Indexed key w) {ref : Nat} (hprevious : w.pages[ref]? = some previous)
    (hvalid : validateGitPageContinuation stringify previous incoming cursor = .ok ())
    (hkeys : ∀ entry ∈ asked w ref previous incoming, throws entry = false) :
    ∃ ids, append stringify key w.appender ref throws previous incoming cursor =
        (if truthy incoming.nextCursor ∧ (firsts key previous.entries).length +
            (added key previous incoming).length = previous.entries.length then .error .noResults
          else .ok ({ incoming with
            entries := firsts key previous.entries ++ added key previous incoming }, ids)) ∧
      ∀ k, k ∈ ids ↔ k ∈ previous.entries.map key ∨ k ∈ incoming.entries.map key := by
  have hbefore : w.appender.indexed = some ref ∨ ∀ entry ∈ previous.entries, throws entry = false := by
    by_cases hreusable : w.appender.indexed = some ref
    · exact Or.inl hreusable
    · refine Or.inr fun entry hentry => hkeys entry ?_
      simp [asked, hreusable, hentry]
  obtain ⟨ids, hentries, hids⟩ := indexed_entries h hprevious hbefore
  have hincoming : ∀ entry ∈ incoming.entries, throws entry = false := fun entry hentry =>
    hkeys entry (List.mem_append_right _ hentry)
  obtain ⟨added', hcollect, hadded⟩ : ∃ added', collect key throws ids incoming.entries [] =
      .ok (fresh key ([] ++ ids) incoming.entries, added') ∧ _ := collect_ok ids [] hincoming
  have hnew : fresh key ([] ++ ids) incoming.entries = added key previous incoming :=
    fresh_congr fun k => by simpa using hids k
  rw [hnew] at hcollect
  refine ⟨added' ++ ids, ?_, fun k => ?_⟩
  · unfold append
    rw [hvalid, hentries]
    simp only [Bind.bind, Except.bind, hcollect, List.length_append]
  · simpa [hids] using hadded k

/-- An append whose keys cannot be computed. -/
theorem append_thrown (h : Indexed key w) {ref : Nat} (hprevious : w.pages[ref]? = some previous)
    (hvalid : validateGitPageContinuation stringify previous incoming cursor = .ok ())
    (hthrown : ∃ entry ∈ asked w ref previous incoming, throws entry = true) :
    append stringify key w.appender ref throws previous incoming cursor = .error .thrown := by
  obtain ⟨entry, hentry, hthrows⟩ := hthrown
  unfold append
  rw [hvalid]
  simp only [Bind.bind, Except.bind]
  by_cases hbefore : w.appender.indexed = some ref ∨ ∀ entry ∈ previous.entries, throws entry = false
  · obtain ⟨ids, hentries, -⟩ := indexed_entries h hprevious hbefore
    have hincoming : ∃ entry ∈ incoming.entries, throws entry = true := by
      refine ⟨entry, ?_, hthrows⟩
      rcases List.mem_append.mp hentry with hmem | hmem
      · split at hmem
        · simp at hmem
        · next hreusable =>
          have := hbefore.resolve_left hreusable entry hmem
          simp [hthrows] at this
      · exact hmem
    rw [hentries]
    simp only [collect_thrown ids [] hincoming]
  · simp only [not_or, not_forall, Bool.not_eq_false] at hbefore
    obtain ⟨hreusable, e, he, hthrow⟩ := hbefore
    rw [Appender.entries, if_neg hreusable, index_thrown [] ⟨e, he, hthrow⟩]

theorem indexed_new : Indexed key (World.new : World T M) := fun _ href => by cases href

/-- Pages that are made later change nothing of those before. -/
theorem page_kept {pages : List (Page T M)} {page : Page T M} {ref : Nat} {found : Page T M}
    (h : pages[ref]? = some found) : (pages ++ [page])[ref]? = some found := by
  have hlt := (List.getElem?_eq_some_iff.mp h).1
  rwa [List.getElem?_append_left hlt]

/-- The keys of the page that an append makes. -/
theorem merged_keys : ((firsts key previous.entries ++ added key previous incoming).map key).Nodup ∧
    ∀ k, (k ∈ previous.entries.map key ∨ k ∈ incoming.entries.map key) ↔
      k ∈ (firsts key previous.entries ++ added key previous incoming).map key := by
  have hfirsts : ∀ k, k ∈ (firsts key previous.entries).map key ↔ k ∈ previous.entries.map key := by
    intro k
    have hmem : (k ∈ ([] : List String) ∨ k ∈ (firsts key previous.entries).map key) ↔ _ :=
      mem_keys_fresh
    simpa using hmem
  constructor
  · rw [List.map_append, List.nodup_append]
    refine ⟨nodup_keys_fresh, nodup_keys_fresh, ?_⟩
    rintro k hk _ hk' rfl
    obtain ⟨entry, hentry, rfl⟩ := List.mem_map.mp hk'
    exact not_known_of_mem_fresh hentry ((hfirsts _).mp hk)
  · intro k
    have hmem : (k ∈ previous.entries.map key ∨ k ∈ (added key previous incoming).map key) ↔ _ :=
      mem_keys_fresh
    rw [List.map_append, List.mem_append, hfirsts]
    exact hmem.symm

/-- What an append that succeeds leaves. -/
theorem indexed_append (h : Indexed key w) {ref next : Nat} {page : Page T M} {ids : List String}
    (hresult : w.result stringify key ref next cursor throws = some (.ok (page, ids))) :
    Indexed key ⟨w.pages ++ [page], ⟨some w.pages.length, ids⟩⟩ := by
  obtain ⟨previous, hprevious, hresult⟩ := Option.bind_eq_some_iff.mp hresult
  obtain ⟨incoming, -, hresult⟩ := Option.bind_eq_some_iff.mp hresult
  have hok := Option.some.inj hresult
  have hvalid : validateGitPageContinuation stringify previous incoming cursor = .ok () := by
    match hv : validateGitPageContinuation stringify previous incoming cursor with
    | .ok () => rfl
    | .error e =>
      rw [append, hv] at hok
      cases hok
  have hkeys : ∀ entry ∈ asked w ref previous incoming, throws entry = false := by
    intro entry hentry
    by_contra hthrows
    rw [append_thrown h hprevious hvalid ⟨entry, hentry, by simpa using hthrows⟩] at hok
    cases hok
  obtain ⟨ids', heq, hids⟩ := append_ok h hprevious hvalid hkeys
  rw [heq] at hok
  split at hok
  · cases hok
  · have hpair := Except.ok.inj hok
    rw [← (Prod.mk.inj hpair).1, ← (Prod.mk.inj hpair).2]
    intro ref' href'
    obtain rfl : w.pages.length = ref' := Option.some.inj href'
    refine ⟨_, List.getElem?_concat_length, merged_keys.1, fun k => ?_⟩
    rw [hids k]
    exact merged_keys.2 k

/-- **One call** keeps the index that of its page. -/
theorem indexed_step {c : Call T M} (h : Indexed key w) (hcopied : w.Copied c)
    (hstep : w.step stringify key c = some w') : Indexed key w' := by
  cases c with
  | create page =>
    obtain rfl := Option.some.inj hstep
    intro ref href
    obtain ⟨found, hfound, hrest⟩ := h ref href
    exact ⟨found, page_kept hfound, hrest⟩
  | append previous incoming cursor throws =>
    obtain ⟨r, hr, hw'⟩ := Option.map_eq_some_iff.mp hstep
    rw [← hw']
    match r, hr with
    | .ok (page, ids), hr => exact indexed_append h hr
    | .error e, hr => exact h
  | adopt source stored =>
    simp only [World.step] at hstep
    split at hstep
    · next hadopted =>
      obtain rfl := Option.some.inj hstep
      intro ref href
      obtain ⟨found, hfound, hrest⟩ := h source hadopted.1
      change stored = some ref at href
      subst href
      exact ⟨found, hcopied.trans hfound, hrest⟩
    · obtain rfl := Option.some.inj hstep
      exact h
  | reset =>
    obtain rfl := Option.some.inj hstep
    exact fun _ href => by cases href

/-! ## Results -/

/-- The append returns what the two pages alone say, or a key could not be computed. -/
def Agrees (stringify : M → String) (key : T → String) (throws : T → Bool)
    (previous incoming : Page T M) (cursor : String)
    (result : Except Failure (Page T M × List String)) : Prop :=
  (result = .error .thrown ∧ ∃ entry ∈ previous.entries ++ incoming.entries, throws entry = true) ∨
    result.map Prod.fst = merged stringify key previous incoming cursor

/-- So many entries of the page have the key of an earlier one. -/
def repeated (key : T → String) (page : Page T M) : Nat :=
  page.entries.length - (firsts key page.entries).length

/-- The page before repeats keys, and as many entries are new as it repeats, or none; or the
    cursor is an empty text and nothing is new. -/
def Miscounted (stringify : M → String) (key : T → String) (w : World T M) (throws : T → Bool)
    (ref : Nat) (previous incoming : Page T M) (cursor : String) : Prop :=
  validateGitPageContinuation stringify previous incoming cursor = .ok () ∧
    (∀ entry ∈ asked w ref previous incoming, throws entry = false) ∧
    (truthy incoming.nextCursor = true ∧ 0 < repeated key previous ∧
        ((added key previous incoming).length = 0 ∨
          (added key previous incoming).length = repeated key previous) ∨
      incoming.nextCursor = some "" ∧ (added key previous incoming).length = 0)

theorem truthy_or (c : Option String) : c.isSome = true ↔ truthy c = true ∨ c = some "" := by
  cases c with
  | none => simp [truthy]
  | some s =>
    by_cases hs : s = ""
    · simp [hs]
    · simp [truthy, hs]

theorem not_truthy_empty : truthy (some "") = false := rfl

/-- Two tests for progress come to the same results if they are the same test. -/
theorem same_iff {C S Q : Prop} [Decidable C] [Decidable S] {page : Page T M} {ids : List String} :
    ((if C then .error .noResults else .ok (page, ids) : Except Failure (Page T M × List String)) =
        .error .thrown ∧ Q ∨
      (if C then .error .noResults else .ok (page, ids) : Except Failure _).map Prod.fst =
        if S then .error .noResults else .ok page) ↔ (C ↔ S) := by
  by_cases hc : C <;> by_cases hs : S <;> simp [hc, hs, Except.map]

/-- The lengths tell whether something is new exactly where nothing was repeated, or where the
    repeated and the new do not balance. -/
theorem progress_iff {t : Bool} {E : Prop} {n f a : Nat} (hle : f ≤ n) (hempty : E → t = false) :
    ((t = true ∧ f + a = n) ↔ (t = true ∨ E) ∧ a = 0) ↔
      ¬ (t = true ∧ 0 < n - f ∧ (a = 0 ∨ a = n - f) ∨ E ∧ a = 0) := by
  cases t with
  | true =>
    have hE : ¬ E := fun he => Bool.noConfusion (hempty he)
    simp only [hE, true_and, or_false, false_and]
    omega
  | false =>
    by_cases hE : E
    · simp [hE]
    · simp [hE]

theorem agrees_iff (h : Indexed key w) {ref : Nat} (hprevious : w.pages[ref]? = some previous) :
    Agrees stringify key throws previous incoming cursor
        (append stringify key w.appender ref throws previous incoming cursor) ↔
      ¬ Miscounted stringify key w throws ref previous incoming cursor := by
  match hvalid : validateGitPageContinuation stringify previous incoming cursor with
  | .error e =>
    have hagrees : Agrees stringify key throws previous incoming cursor
        (append stringify key w.appender ref throws previous incoming cursor) := by
      right
      rw [append, merged, hvalid]
      rfl
    have hnot : ¬ Miscounted stringify key w throws ref previous incoming cursor := by
      rintro ⟨hok, -⟩
      rw [hvalid] at hok
      cases hok
    exact iff_of_true hagrees hnot
  | .ok () =>
    by_cases hkeys : ∀ entry ∈ asked w ref previous incoming, throws entry = false
    · obtain ⟨ids, heq, -⟩ := append_ok h hprevious hvalid hkeys
      have hle : (firsts key previous.entries).length ≤ previous.entries.length :=
        fresh_sublist.length_le
      have hcursor := truthy_or incoming.nextCursor
      have hempty : incoming.nextCursor = some "" → truthy incoming.nextCursor = false := by
        intro hsome
        rw [hsome]
        exact not_truthy_empty
      have hmerged : merged stringify key previous incoming cursor =
          if incoming.nextCursor.isSome ∧ added key previous incoming = [] then .error .noResults
          else .ok { incoming with
            entries := firsts key previous.entries ++ added key previous incoming } := by
        unfold merged
        rw [hvalid]
        rfl
      have hsame : Agrees stringify key throws previous incoming cursor
          (append stringify key w.appender ref throws previous incoming cursor) ↔
          (truthy incoming.nextCursor = true ∧ (firsts key previous.entries).length +
            (added key previous incoming).length = previous.entries.length ↔
          incoming.nextCursor.isSome ∧ added key previous incoming = []) := by
        rw [Agrees, heq, hmerged]
        exact same_iff
      have hmis : Miscounted stringify key w throws ref previous incoming cursor ↔
          (truthy incoming.nextCursor = true ∧ 0 < repeated key previous ∧
              ((added key previous incoming).length = 0 ∨
                (added key previous incoming).length = repeated key previous) ∨
            incoming.nextCursor = some "" ∧ (added key previous incoming).length = 0) :=
        ⟨fun hmis => hmis.2.2, fun hmis => ⟨hvalid, hkeys, hmis⟩⟩
      rw [hsame, hmis, ← List.length_eq_zero_iff, hcursor]
      exact progress_iff hle hempty
    · simp only [not_forall, Bool.not_eq_false] at hkeys
      obtain ⟨entry, hentry, hthrows⟩ := hkeys
      have hthrown := append_thrown h hprevious hvalid ⟨entry, hentry, hthrows⟩
      have hmem : entry ∈ previous.entries ++ incoming.entries := by
        unfold asked at hentry
        split at hentry <;> simp at hentry ⊢ <;> tauto
      refine iff_of_true (Or.inl ⟨hthrown, entry, hmem, hthrows⟩) ?_
      rintro ⟨-, hnone, -⟩
      simp [hnone entry hentry] at hthrows

open Porthop.Run in
/-- **In every run an append returns what the two pages alone say, exactly where the lengths tell
    whether something is new**; and an append that fails changes nothing. -/
theorem appended_iff {calls : List (Call T M)}
    (hcopied : Along (World.step stringify key) World.Copied calls .new)
    (hrun : exec (World.step stringify key) calls .new = some w) {ref next : Nat}
    (hprevious : w.pages[ref]? = some previous) (hincoming : w.pages[next]? = some incoming) :
    (Agrees stringify key throws previous incoming cursor
        (append stringify key w.appender ref throws previous incoming cursor) ↔
      ¬ Miscounted stringify key w throws ref previous incoming cursor) ∧
    ∀ e, append stringify key w.appender ref throws previous incoming cursor = .error e →
      w.step stringify key (.append ref next cursor throws) = some w := by
  have h : Indexed key w :=
    along_invariant (fun _ _ _ hs hok hstep => indexed_step hs hok hstep) indexed_new hcopied hrun
  refine ⟨agrees_iff h hprevious, fun e he => ?_⟩
  simp [World.step, World.result, hprevious, hincoming, he]

end

/-! ## A page that repeats a key -/

/-- A first page with an entry twice, and the next page with one new entry. -/
def firstPage : Page String Unit := ⟨"s", ["a", "a"], some "one", ()⟩

def nextPage : Page String Unit := ⟨"s", ["b"], some "two", ()⟩

def readPages : List (Call String Unit) := [.create firstPage, .create nextPage]

/-- Two new entries outnumber the repeated one. -/
def longerPage : Page String Unit := ⟨"s", ["b", "c"], some "two", ()⟩

theorem longerPage_appended : Agrees (fun _ => "") id (fun _ => false) firstPage longerPage "one"
    (append (fun _ => "") id ⟨none, []⟩ 0 (fun _ => false) firstPage longerPage "one") := by
  let w : World String Unit := ⟨[firstPage, longerPage], ⟨none, []⟩⟩
  have hrun : Run.exec (World.step (fun _ => "") id) [.create firstPage, .create longerPage] .new =
      some w := rfl
  have hcopied : Run.Along (World.step (fun _ => "") id) World.Copied
      [.create firstPage, .create longerPage] .new :=
    And.intro trivial fun _ _ => And.intro trivial fun _ _ => trivial
  have hincoming : w.pages[1]? = some longerPage := rfl
  refine (appended_iff hcopied hrun rfl hincoming).1.mpr ?_
  rintro ⟨-, -, hlengths⟩
  revert hlengths
  decide

/-- The new entry makes up for the repeated one in the count, and is refused. -/
theorem nextPage_refused : ∃ w, Run.exec (World.step (fun _ => "") id) readPages .new = some w ∧
    ¬ Agrees (fun _ => "") id (fun _ => false) firstPage nextPage "one"
      (append (fun _ => "") id w.appender 0 (fun _ => false) firstPage nextPage "one") := by
  refine ⟨_, rfl, ?_⟩
  rintro (⟨hthrown, -⟩ | hsame)
  · cases hthrown
  · cases hsame

end Porthop.Git.UniquePages
