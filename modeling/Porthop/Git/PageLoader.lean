import Porthop.Git.UniquePages

/- The loader of further pages (`useGitPageLoader.ts`) over the query cache.

   A page object has its query and a number: every query makes its own objects, and one that
   is cached again is the one it was. A render and its effects are two steps.
   Listeners of the cache run in the step that changes it; what a promise gives is handled in
   a step of its own, at any later time. A `load` may be the one of any render. -/
namespace Porthop.Git.PageLoader

open UniquePages (Page truthy)

deriving instance DecidableEq for Page

variable {T M : Type} [DecidableEq T] [DecidableEq M]

/-! ## The query cache -/

structure Held (T M : Type) where
  listing : String
  object : Nat
  page : Page T M
  deriving DecidableEq

structure Query (T M : Type) where
  data : Option (Held T M)
  dataUpdatedAt : Nat
  dataUpdateCount : Nat
  isInvalidated : Bool
  fetching : Bool

def Query.new : Query T M := ⟨none, 0, 0, false, false⟩

inductive Action (T M : Type) where
  | success (object : Nat) (page : Page T M) (updatedAt : Nat) (manual : Bool)
  | fetch
  | invalidate
  /-- A fetch ends without a page. An error invalidates what is there; a cancelled fetch goes
      back to what was before it. -/
  | stop (isInvalidated : Bool)

def Query.reduce (key : String) (q : Query T M) : Action T M → Query T M
  | .success object page updatedAt manual =>
    { data := some ⟨key, object, page⟩
      dataUpdatedAt := updatedAt
      dataUpdateCount := q.dataUpdateCount + 1
      isInvalidated := false
      fetching := q.fetching && manual }
  | .fetch => { q with fetching := true }
  | .invalidate => { q with isInvalidated := true }
  | .stop isInvalidated => { q with fetching := false, isInvalidated := isInvalidated }

/-! ## The hook -/

/-- What the hook is called with for good. `merge n` is what merging gives at its `n`-th call:
    the appender keeps an index. `share` is the query's structural sharing. -/
structure Hook (T M : Type) where
  prefetch : Bool
  merge : Nat → Page T M → Page T M → String → Except String (Page T M)
  share : Page T M → Page T M → Page T M

/-- What a render calls the hook with. -/
structure Props (T M : Type) where
  key : String
  page : Option (Held T M)
  enabled : Bool

def Props.identity (p : Props T M) : String :=
  p.key ++ ":" ++ ((p.page.map fun h => h.page.snapshot).getD "")

structure Ui where
  identity : String
  loading : Bool
  error : String

structure Prefetch (T M : Type) where
  key : String
  source : Held T M
  version : Nat
  cursor : String
  aborted : Bool
  subscribed : Bool
  /-- Once it has settled: its page, or none where the read failed. -/
  result : Option (Option (Page T M))

inductive Phase where
  | waiting (prepared : Nat)
  | reading
  | finished
  deriving DecidableEq

structure Load (T M : Type) where
  key : String
  identity : String
  current : Held T M
  cursor : String
  updatedAt : Nat
  count : Nat
  aborted : Bool
  subscribed : Bool
  /-- The prefetch that is aborted with the load. -/
  prepared : Option Nat
  phase : Phase

/-- An append: the query, the page object that was cached, and its generation. -/
structure Append where
  key : String
  object : Nat
  count : Nat
  deriving DecidableEq

structure State (T M : Type) where
  cache : String → Query T M
  renders : List (Props T M)
  shown : Props T M
  /-- The state of the hook as the last render saw it. -/
  seen : Ui
  /-- The props whose effects are in force. -/
  active : Option (Props T M)
  flushed : Bool
  mounted : Bool
  timer : Bool
  /-- The prefetch of the effect in force. -/
  own : Option Nat
  ahead : Option Nat
  /-- The query and the listing whose error the effect in force looks after. -/
  watch : Option (String × String)
  pending : Option Nat
  ui : Ui
  loads : List (Load T M)
  prefetches : List (Prefetch T M)
  merges : Nat
  appends : List Append

/-- After the first render. -/
def State.new (props : Props T M) : State T M where
  cache := fun _ => .new
  renders := [props]
  shown := props
  seen := ⟨props.identity, false, ""⟩
  active := none
  flushed := false
  mounted := true
  timer := false
  own := none
  ahead := none
  watch := none
  pending := none
  ui := ⟨props.identity, false, ""⟩
  loads := []
  prefetches := []
  merges := 0
  appends := []

namespace State

/-! ## Listeners -/

def isCurrent (s : State T M) (l : Load T M) : Bool :=
  let q := s.cache l.key
  !l.aborted && q.data == some l.current && q.dataUpdatedAt == l.updatedAt &&
    q.dataUpdateCount == l.count && !q.isInvalidated && !q.fetching

/-- A prefetch whose page was refreshed, invalidated or is fetched. -/
def obsolete (q : Query T M) (p : Prefetch T M) : Bool :=
  q.dataUpdateCount != p.version || q.isInvalidated || q.fetching

def notifyPrefetches (key : String) (s : State T M) : State T M :=
  { s with prefetches := s.prefetches.map fun p =>
      if p.subscribed && p.key == key && obsolete (s.cache key) p then
        { p with aborted := true, subscribed := false }
      else p }

def dropped (s : State T M) (key : String) (l : Load T M) : Bool :=
  l.subscribed && l.key == key && !s.isCurrent l

/-- Loads that are not current any more are aborted with their prefetches; the pending one
    is given up. -/
def notifyLoads (key : String) (s : State T M) : State T M :=
  let gone := (s.pending.bind fun n => s.loads[n]?).filter (s.dropped key)
  { s with
    loads := s.loads.map fun l =>
      if s.dropped key l then { l with aborted := true, subscribed := false } else l
    prefetches := s.prefetches.mapIdx fun i p =>
      if s.loads.any fun l => s.dropped key l && l.prepared == some i then
        { p with aborted := true }
      else p
    pending := if gone.isSome then none else s.pending
    ui := match gone with
      | some l =>
        if s.ui.identity = l.identity then { s.ui with loading := false, error := "" } else s.ui
      | none => s.ui }

/-- An error goes with what supersedes its listing. -/
def notifyWatch (key : String) (action : Action T M) (s : State T M) : State T M :=
  match s.watch, action with
  | _, .stop _ => s
  | none, _ => s
  | some (query, identity), _ =>
    if query = key ∧ s.ui.identity = identity then { s with ui := { s.ui with error := "" } } else s

def dispatch (key : String) (action : Action T M) (s : State T M) : State T M :=
  notifyWatch key action (notifyLoads key (notifyPrefetches key
    { s with cache := Function.update s.cache key ((s.cache key).reduce key action) }))

/-! ## Controllers -/

def abortPrefetch (s : State T M) (i : Nat) : State T M :=
  { s with prefetches := s.prefetches.modify i fun p => { p with aborted := true } }

def abortLoad (s : State T M) (n : Nat) : State T M :=
  match s.loads[n]? with
  | none => s
  | some l =>
    let s := { s with loads := s.loads.modify n fun l => { l with aborted := true, subscribed := false } }
    match l.prepared with
    | some i => s.abortPrefetch i
    | none => s

/-! ## Effects -/

/-- The clean-up of the prefetch effect. -/
def stopPrefetch (s : State T M) : State T M :=
  { s with
    timer := false
    own := none
    ahead := none
    prefetches := match s.own with
      | some i => s.prefetches.modify i fun p => { p with aborted := true, subscribed := false }
      | none => s.prefetches }

/-- The clean-up of the effect of a listing. -/
def stopPending (s : State T M) : State T M :=
  let s := match s.pending with
    | some n => s.abortLoad n
    | none => s
  { s with pending := none, ui := { s.ui with loading := false, error := "" } }

def startPrefetch (hook : Hook T M) (s : State T M) : State T M :=
  { s with timer := hook.prefetch && s.shown.enabled &&
      truthy (s.shown.page.bind fun h => h.page.nextCursor) }

def samePrefetch (s : State T M) : Bool :=
  s.active.any fun p =>
    p.key == s.shown.key && p.page == s.shown.page && p.enabled == s.shown.enabled

def sameListing (s : State T M) : Bool :=
  s.active.any fun p =>
    p.identity == s.shown.identity && p.enabled == s.shown.enabled && p.page == s.shown.page

/-- The effects of a render: first the clean-ups of those whose dependencies have changed. -/
def effects (hook : Hook T M) (s : State T M) : State T M :=
  let samePrefetch := s.samePrefetch
  let keepsPending := s.sameListing || s.active.isNone
  let s := if samePrefetch then s else s.stopPrefetch
  let s := if keepsPending then s else s.stopPending
  let s := if samePrefetch then s else s.startPrefetch hook
  { s with
    active := some s.shown
    flushed := true
    watch := if s.seen.error ≠ "" ∧ s.seen.identity = s.shown.identity ∧ s.shown.enabled then
        some (s.shown.key, s.shown.identity)
      else none }

def unmount (s : State T M) : State T M :=
  let s := if s.active.isNone then s else s.stopPrefetch.stopPending
  { s with active := none, watch := none, mounted := false }

/-- The timer of the prefetch effect: one page ahead, never appended by itself. -/
def fire (s : State T M) (p : Props T M) (h : Held T M) (cursor : String) : State T M :=
  if (s.cache p.key).data != some h || (s.cache p.key).isInvalidated ||
      (s.cache p.key).fetching || s.pending.isSome then
    { s with timer := false }
  else
    { s with
      timer := false
      ahead := some s.prefetches.length
      own := some s.prefetches.length
      prefetches := s.prefetches ++
        [⟨p.key, h, (s.cache p.key).dataUpdateCount, cursor, false, true, none⟩] }

/-! ## Loads -/

def usable (current : Held T M) (cursor : String) (count : Nat) (p : Prefetch T M) : Bool :=
  p.source == current && p.cursor == cursor && p.version == count && !p.aborted

/-- A load of a page; `taken` is the prefetch that it waits for. -/
def opened (s : State T M) (p : Props T M) (current : Held T M) (cursor : String)
    (taken : Option Nat) : Load T M where
  key := p.key
  identity := p.identity
  current := current
  cursor := cursor
  updatedAt := (s.cache p.key).dataUpdatedAt
  count := (s.cache p.key).dataUpdateCount
  aborted := false
  subscribed := true
  prepared := taken
  phase := taken.elim .reading .waiting

def start (s : State T M) (p : Props T M) (current : Held T M) (cursor : String)
    (taken : Option Nat) : State T M :=
  { s with
    pending := some s.loads.length
    ui := ⟨p.identity, true, ""⟩
    ahead := none
    loads := s.loads ++ [s.opened p current cursor taken] }

def load (s : State T M) (p : Props T M) : State T M :=
  match (s.cache p.key).data with
  | none => s
  | some current =>
    match current.page.nextCursor with
    | none => s
    | some cursor =>
      if !p.enabled || s.pending.isSome || cursor == "" || (s.cache p.key).fetching ||
          (s.cache p.key).isInvalidated then s
      else
        match s.ahead with
        | none => s.start p current cursor none
        | some i =>
          if s.prefetches[i]?.any (usable current cursor (s.cache p.key).dataUpdateCount) then
            s.start p current cursor (some i)
          else (s.start p current cursor none).abortPrefetch i

/-- The end of a load, however it ends. -/
def finish (s : State T M) (n : Nat) (l : Load T M) : State T M :=
  let s := { s with loads := s.loads.modify n fun l =>
    { l with subscribed := false, prepared := none, phase := .finished } }
  if s.pending = some n then
    { s with
      pending := none
      ui := if s.ui.identity = l.identity then { s.ui with loading := false } else s.ui }
  else s

/-- A read has failed, or its page could not be merged. -/
def fail (s : State T M) (n : Nat) (l : Load T M) (message : String) : State T M :=
  finish (if s.isCurrent l then { s with ui := ⟨l.identity, false, message⟩ } else s) n l

def unsubscribe (s : State T M) (n : Nat) : State T M :=
  { s with loads := s.loads.modify n fun l => { l with subscribed := false } }

/-- `setQueryData`, after which the cache keeps the object `stored`. -/
def append (hook : Hook T M) (s : State T M) (n : Nat) (l : Load T M) (merged : Page T M)
    (stored : Nat) : State T M :=
  { (s.unsubscribe n).dispatch l.key
      (.success stored (hook.share l.current.page merged) l.updatedAt true) with
    appends := s.appends ++ [⟨l.key, l.current.object, l.count⟩] }

/-- A page has been read. -/
def complete (hook : Hook T M) (s : State T M) (n : Nat) (l : Load T M) (incoming : Page T M)
    (stored : Nat) : State T M :=
  if s.isCurrent l then
    match hook.merge s.merges l.current.page incoming l.cursor with
    | .error message => fail { s with merges := s.merges + 1 } n l message
    | .ok merged => finish (append hook { s with merges := s.merges + 1 } n l merged stored) n l
  else s.finish n l

end State

/-! ## Runs -/

inductive Event (T M : Type) where
  | cache (key : String) (action : Action T M)
  | render (props : Props T M)
  | effects
  | unmount
  | timer
  /-- The read of a prefetch settles. -/
  | prefetched (i : Nat) (result : Option (Page T M))
  /-- `load`, as a render has given it. -/
  | load (render : Nat)
  /-- A load goes on with the prefetch it waits for. -/
  | resume (n : Nat) (stored : Nat)
  /-- The read of a load settles. -/
  | settled (n : Nat) (result : Except String (Page T M)) (stored : Nat)

open State in
def step (hook : Hook T M) (s : State T M) : Event T M → Option (State T M)
  | .cache key action => some (s.dispatch key action)
  | .render props =>
    if s.mounted && s.flushed then
      some { s with renders := s.renders ++ [props], shown := props, seen := s.ui, flushed := false }
    else none
  | .effects => if s.mounted then some (s.effects hook) else none
  | .unmount => if s.mounted then some s.unmount else none
  | .timer =>
    match s.active with
    | none => none
    | some p =>
      match p.page with
      | none => none
      | some h =>
        match h.page.nextCursor with
        | none => none
        | some cursor => if s.timer then some (s.fire p h cursor) else none
  | .prefetched i result =>
    match s.prefetches[i]? with
    | none => none
    | some p =>
      if p.result.isSome then none
      else some { s with prefetches := s.prefetches.modify i fun p : Prefetch T M =>
        { p with subscribed := false, result := some result } }
  | .load render =>
    match s.renders[render]? with
    | none => none
    | some p => some (s.load p)
  | .resume n stored =>
    match s.loads[n]? with
    | none => none
    | some l =>
      match l.phase with
      | .waiting i =>
        match s.prefetches[i]?.bind Prefetch.result with
        | none => none
        | some result =>
          if l.aborted then some (s.finish n l)
          else
            match result with
            | some incoming => some (s.complete hook n l incoming stored)
            | none => some { s with loads := s.loads.modify n fun l => { l with phase := .reading } }
      | _ => none
  | .settled n result stored =>
    match s.loads[n]? with
    | none => none
    | some l =>
      if l.phase = .reading then
        match result with
        | .ok incoming => some (s.complete hook n l incoming stored)
        | .error message => some (s.fail n l message)
      else none

end Porthop.Git.PageLoader
