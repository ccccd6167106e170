import Porthop.Ports.Listing

/- What the map holds for a key after all lines: the first process that is named, the last
   container, and the last details of the process. -/
namespace Porthop.Ports

open Agent (isWhitespace)
open Ordered (under)
open Pattern (words)

/-- What a line says of a key: the name and the identifier of a process. -/
abbrev Event := Key × Option Text × Option Nat

def eventOf (line : Text) : Option Event :=
  (localOf (words isWhitespace line)).map fun key => (key, reading line)

def eventsOf (lines : List Text) : List Event := (lines.filter isListener).filterMap eventOf

/-- What the first event with a name says. -/
def firstNamed (events : List Event) : Option (Text × Option Nat) :=
  events.findSome? fun e => e.2.1.map fun name => (name, e.2.2)

theorem firstNamed_cons (e : Event) (events : List Event) : firstNamed (e :: events) =
    (e.2.1.map fun name => (name, e.2.2)).or (firstNamed events) := by
  unfold firstNamed
  rw [List.findSome?_cons]
  cases e.2.1 <;> rfl

/-- The row of a key whose process and container are known. -/
def rowFor (key : Key) (process : Option (Text × Option Nat)) (container : Option Text)
    (details : Nat → Option Details) : DiscoveredPort where
  toDetails := ((process.bind Prod.snd).bind details).getD {}
  port := (ofLex key).1
  address := (ofLex key).2
  processName := process.map Prod.fst
  pid := process.bind Prod.snd
  containerName := container

/-! ## Listeners -/

section
variable {key : Key} {rows : Rows}

theorem addListener_event (rows : Rows) (line : Text) : addListener rows line =
    (eventOf line).elim rows fun e =>
      Ordered.alter (fun entry => named e.2.1 e.2.2 (entry.getD (blank e.1))) e.1 rows := by
  unfold addListener eventOf
  cases h : localOf (words isWhitespace line) with
  | none => simp only [h, Option.map_none, Option.elim_none]
  | some key =>
    simp only [h, Option.map_some, Option.elim_some]
    rfl

theorem named_rowFor (process : Option (Text × Option Nat)) (name : Option Text)
    (pid : Option Nat) : named name pid (rowFor key process none fun _ => none) =
      rowFor key (process.or (name.map fun name => (name, pid))) none fun _ => none := by
  cases process with
  | some p => rfl
  | none =>
    cases name with
    | none => rfl
    | some name =>
      cases pid with
      | none => rfl
      | some pid => rfl

/-- The first name that is found stays. -/
theorem foldl_named {events : List Event} (h : ∀ e ∈ events, e.1 = key)
    (process : Option (Text × Option Nat)) :
    events.foldl (fun entry e => some (named e.2.1 e.2.2 (entry.getD (blank e.1))))
        (some (rowFor key process none fun _ => none)) =
      some (rowFor key (process.or (firstNamed events)) none fun _ => none) := by
  induction events generalizing process with
  | nil => rw [List.foldl_nil, firstNamed, List.findSome?_nil, Option.or_none]
  | cons e events ih =>
    rw [List.foldl_cons, Option.getD_some, named_rowFor,
      ih fun e' he' => h e' (List.mem_cons_of_mem e he'), firstNamed_cons, Option.or_assoc]

theorem get_listeners (lines : List Text) :
    Ordered.Sorted ((lines.filter isListener).foldl addListener []) ∧
      Ordered.get key ((lines.filter isListener).foldl addListener []) =
        if under key (eventsOf lines) = [] then none
        else some (rowFor key (firstNamed (under key (eventsOf lines))) none fun _ => none) := by
  have hfold : (lines.filter isListener).foldl addListener [] =
      (eventsOf lines).foldl (fun rows e => Ordered.alter
        (fun entry => named e.2.1 e.2.2 (entry.getD (blank e.1))) e.1 rows) [] := by
    rw [eventsOf, List.foldl_filterMap]
    refine congrArg (fun step => List.foldl step [] (lines.filter isListener)) ?_
    funext rows line
    rw [addListener_event]
    cases eventOf line <;> rfl
  rw [hfold]
  obtain ⟨hsorted, hget⟩ := Ordered.get_foldl (k := key)
    (fun (e : Event) entry => named e.2.1 e.2.2 (entry.getD (blank e.1))) (eventsOf lines)
    (m := []) List.Pairwise.nil
  refine ⟨hsorted, ?_⟩
  rw [hget]
  have hkeys : ∀ e ∈ under key (eventsOf lines), e.1 = key :=
    fun e he => (Ordered.mem_under.mp he).2
  cases hevents : under key (eventsOf lines) with
  | nil => rfl
  | cons e events =>
    rw [hevents] at hkeys
    have hfirst := foldl_named hkeys none
    rw [List.foldl_cons, Option.getD_some] at hfirst
    rw [if_neg (List.cons_ne_nil e events), List.foldl_cons, ← Option.none_or (o := firstNamed _),
      ← hfirst, hkeys e List.mem_cons_self]
    rfl

end

/-! ## Containers -/

section
variable (ν : Type) [NumText ν] {key : Key} {rows : Rows}

/-- The keys a row publishes, each with the name of the container. -/
def entriesOf (line : Text) : List (Key × Text) :=
  match rowOf ν line with
  | none => []
  | some (name, bindings) => (published bindings).map fun key => (key, name)

theorem addContainer_entries (rows : Rows) (line : Text) : addContainer ν rows line =
    (entriesOf ν line).foldl (fun rows c => Ordered.alter
      (fun entry => { entry.getD (blank c.1) with containerName := some c.2 }) c.1 rows) rows := by
  unfold addContainer entriesOf
  cases rowOf ν line with
  | none => rfl
  | some row => rw [List.foldl_map]

/-- The last container stays. -/
theorem foldl_container {cs : List (Key × Text)} (h : ∀ c ∈ cs, c.1 = key)
    (entry : Option DiscoveredPort) :
    cs.foldl (fun entry c => some { entry.getD (blank c.1) with containerName := some c.2 }) entry =
      match cs.getLast? with
      | none => entry
      | some c => some { entry.getD (blank key) with containerName := some c.2 } := by
  induction cs generalizing entry with
  | nil => rfl
  | cons c cs ih =>
    rw [List.foldl_cons, ih fun c' hc' => h c' (List.mem_cons_of_mem c hc'),
      h c List.mem_cons_self]
    cases hlast : cs.getLast? with
    | none =>
      rw [List.getLast?_eq_none_iff.mp hlast]
      rfl
    | some d => rw [List.getLast?_cons, hlast]; rfl

theorem get_containers (lines : List Text) (hrows : Ordered.Sorted rows) :
    Ordered.Sorted (lines.foldl (addContainer ν) rows) ∧
      Ordered.get key (lines.foldl (addContainer ν) rows) =
        match (under key (lines.flatMap (entriesOf ν))).getLast? with
        | none => Ordered.get key rows
        | some c =>
          some { (Ordered.get key rows).getD (blank key) with containerName := some c.2 } := by
  have hfold : lines.foldl (addContainer ν) rows =
      (lines.flatMap (entriesOf ν)).foldl (fun rows c => Ordered.alter
        (fun entry => { entry.getD (blank c.1) with containerName := some c.2 }) c.1 rows)
        rows := by
    rw [List.foldl_flatMap]
    exact congrArg (fun step => List.foldl step rows lines)
      (funext fun rows => funext fun line => addContainer_entries ν rows line)
  rw [hfold]
  obtain ⟨hsorted, hget⟩ := Ordered.get_foldl (k := key)
    (fun (c : Key × Text) entry =>
      ({ entry.getD (blank c.1) with containerName := some c.2 } : DiscoveredPort))
    (lines.flatMap (entriesOf ν)) hrows
  refine ⟨hsorted, ?_⟩
  rw [hget]
  exact foldl_container (fun c hc => (Ordered.mem_under.mp hc).2) _

end

/-! ## Details -/

/-- What the last record of the process says. -/
def lastRecord (lines : List Text) (pid : Nat) : Option Details :=
  ((lines.filterMap recordOf).reverse.find? fun r => r.1 = pid).map Prod.snd

def enriched (details : Nat → Option Details) (entry : DiscoveredPort) : DiscoveredPort :=
  { entry with toDetails := (entry.pid.bind details).getD entry.toDetails }

theorem enriched_none {details : Nat → Option Details} {entry : DiscoveredPort}
    (h : entry.pid.bind details = none) : enriched details entry = entry := by
  unfold enriched
  rw [h]
  rfl

theorem enriched_some {details : Nat → Option Details} {entry : DiscoveredPort} {d : Details}
    (h : entry.pid.bind details = some d) :
    enriched details entry = { entry with toDetails := d } := by
  unfold enriched
  rw [h]
  rfl

theorem lastRecord_nil : lastRecord [] = fun _ => none := rfl

theorem lastRecord_one (line : Text) (pid : Nat) :
    lastRecord [line] pid = (recordOf line).bind fun r => if r.1 = pid then some r.2 else none := by
  unfold lastRecord
  cases hrecord : recordOf line with
  | none => simp [hrecord]
  | some r => by_cases h : r.1 = pid <;> simp [hrecord, h]

theorem lastRecord_cons (line : Text) (lines : List Text) (pid : Nat) :
    lastRecord (line :: lines) pid = (lastRecord lines pid).or (lastRecord [line] pid) := by
  rw [lastRecord_one]
  unfold lastRecord
  rw [List.filterMap_cons]
  cases recordOf line with
  | none => simp
  | some r =>
    rw [List.reverse_cons, List.find?_append, Option.map_or]
    by_cases h : r.1 = pid <;> simp [h]

theorem addDetails_map (rows : Rows) (line : Text) : addDetails rows line =
    rows.map fun e => (e.1, enriched (lastRecord [line]) e.2) := by
  unfold addDetails
  cases hrecord : recordOf line with
  | none =>
    refine (List.map_id'' ?_ rows).symm
    intro e
    have hnone : e.2.pid.bind (lastRecord [line]) = none := by
      refine Option.bind_eq_none_iff.mpr fun pid _ => ?_
      rw [lastRecord_one, hrecord, Option.bind_none]
    rw [enriched_none hnone]
  | some r =>
    refine List.map_congr_left fun e _ => ?_
    by_cases h : e.2.pid = some r.1
    · have hsome : e.2.pid.bind (lastRecord [line]) = some r.2 := by
        rw [h, Option.bind_some, lastRecord_one, hrecord, Option.bind_some, if_pos rfl]
      rw [if_pos h, enriched_some hsome]
    · have hnone : e.2.pid.bind (lastRecord [line]) = none := by
        refine Option.bind_eq_none_iff.mpr fun pid hpid => ?_
        rw [lastRecord_one, hrecord, Option.bind_some, if_neg]
        intro heq
        exact h (by rw [hpid, heq])
      rw [if_neg h, enriched_none hnone]

theorem enriched_twice (details details' : Nat → Option Details) (entry : DiscoveredPort) :
    enriched details' (enriched details entry) =
      enriched (fun pid => (details' pid).or (details pid)) entry := by
  unfold enriched
  cases hpid : entry.pid with
  | none => simp
  | some pid => cases hdetails : details' pid <;> simp [hdetails]

theorem foldl_addDetails (lines : List Text) (rows : Rows) :
    lines.foldl addDetails rows = rows.map fun e => (e.1, enriched (lastRecord lines) e.2) := by
  induction lines generalizing rows with
  | nil =>
    refine (List.map_id'' ?_ rows).symm
    intro e
    rw [lastRecord_nil, enriched_none (Option.bind_eq_none_iff.mpr fun _ _ => rfl)]
  | cons line lines ih =>
    rw [List.foldl_cons, ih, addDetails_map, List.map_map]
    refine List.map_congr_left fun e _ => ?_
    show (e.1, enriched _ (enriched _ e.2)) = _
    rw [enriched_twice]
    exact congrArg (fun details => (e.1, enriched details e.2))
      (funext fun pid => (lastRecord_cons line lines pid).symm)

theorem enriched_rowFor (key : Key) (process : Option (Text × Option Nat))
    (container : Option Text) (details : Nat → Option Details) :
    enriched details (rowFor key process container fun _ => none) =
      rowFor key process container details := by
  unfold enriched rowFor
  cases process.bind Prod.snd with
  | none => rfl
  | some pid => rfl

/-! ## All of it -/

section
variable (ν : Type) [NumText ν] {key : Key}

def rowsOf (listeners docker details : List Text) : Rows :=
  details.foldl addDetails
    (docker.foldl (addContainer ν) ((listeners.filter isListener).foldl addListener []))

/-- What is found under a key. -/
theorem get_rows (listeners docker details : List Text) :
    Ordered.Sorted (rowsOf ν listeners docker details) ∧
      Ordered.get key (rowsOf ν listeners docker details) =
        if under key (eventsOf listeners) = [] ∧ under key (docker.flatMap (entriesOf ν)) = []
        then none
        else some (rowFor key (firstNamed (under key (eventsOf listeners)))
          ((under key (docker.flatMap (entriesOf ν))).getLast?.map Prod.snd)
          (lastRecord details)) := by
  obtain ⟨hlisteners, hget⟩ := @get_listeners key listeners
  obtain ⟨hcontainers, hget'⟩ := @get_containers ν _ key _ docker hlisteners
  unfold rowsOf
  rw [foldl_addDetails]
  refine ⟨Ordered.sorted_map _ hcontainers, ?_⟩
  rw [Ordered.get_map, hget', hget]
  by_cases hevents : under key (eventsOf listeners) = []
  · rw [if_pos hevents]
    cases hdocker : under key (docker.flatMap (entriesOf ν)) with
    | nil =>
      rw [if_pos ⟨hevents, rfl⟩]
      rfl
    | cons c cs =>
      have hne : ¬ (under key (eventsOf listeners) = [] ∧ c :: cs = []) :=
        fun h => List.cons_ne_nil c cs h.2
      rw [if_neg hne, List.getLast?_cons, hevents]
      exact congrArg some (enriched_rowFor key none _ (lastRecord details))
  · have hne : ∀ cs : List (Key × Text), ¬ (under key (eventsOf listeners) = [] ∧ cs = []) :=
      fun cs h => hevents h.1
    rw [if_neg hevents, if_neg (hne _)]
    cases hdocker : under key (docker.flatMap (entriesOf ν)) with
    | nil => exact congrArg some (enriched_rowFor key _ none (lastRecord details))
    | cons c cs =>
      rw [List.getLast?_cons]
      exact congrArg some (enriched_rowFor key _ _ (lastRecord details))

/-- The row that a key has. -/
def rowAt (listeners docker details : List Text) (key : Key) : DiscoveredPort :=
  rowFor key (firstNamed (under key (eventsOf listeners)))
    ((under key (docker.flatMap (entriesOf ν))).getLast?.map Prod.snd) (lastRecord details)

theorem mem_rows {listeners docker details : List Text} {e : Key × DiscoveredPort} :
    e ∈ rowsOf ν listeners docker details ↔
      ¬ (under e.1 (eventsOf listeners) = [] ∧ under e.1 (docker.flatMap (entriesOf ν)) = []) ∧
        e.2 = rowAt ν listeners docker details e.1 := by
  obtain ⟨hsorted, hget⟩ := @get_rows ν _ e.1 listeners docker details
  rw [← Ordered.get_eq_some hsorted (k := e.1) (v := e.2), hget]
  by_cases h : under e.1 (eventsOf listeners) = [] ∧ under e.1 (docker.flatMap (entriesOf ν)) = []
  · rw [if_pos h]
    exact ⟨fun hnone => absurd hnone (Option.some_ne_none _).symm, fun hboth => absurd h hboth.1⟩
  · rw [if_neg h, Option.some.injEq]
    exact ⟨fun heq => ⟨h, heq.symm⟩, fun hboth => hboth.2.symm⟩

/-- Every row is at its own key. -/
theorem key_rows {listeners docker details : List Text} {e : Key × DiscoveredPort}
    (h : e ∈ rowsOf ν listeners docker details) : e.2.key = e.1 := by
  rw [((mem_rows ν).mp h).2]
  rfl

end

end Porthop.Ports
