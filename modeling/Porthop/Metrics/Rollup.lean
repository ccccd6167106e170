import Porthop.Lib.Json
import Porthop.Lib.Table

/- One minute of readings as one reading (`summarize` in `rollup.rs`).

   Readings are JSON texts. Numbers and floating-point arithmetic are parameters (`Arith`):
   what a summary computes with them is written out as the source has it, and the one field
   that is read back here, the number of readings, is an integer. -/
namespace Porthop.Metrics

/-- Numbers of JSON and the floating-point arithmetic on them. -/
structure Arith (ν F : Type) where
  asF64 : ν → F
  /-- `null` for what is not finite. -/
  json : F → Json ν
  int : Int → ν
  ofInt : Int → F
  zero : F
  negInf : F
  add : F → F → F
  sub : F → F → F
  div : F → F → F
  max : F → F → F
  lt : F → F → Bool
  le : F → F → Bool

def minuteMs : Int := 60000

section
variable {ν F : Type} (A : Arith ν F)

def asF64 : Json ν → Option F
  | .num n => some (A.asF64 n)
  | _ => none

def asStr : Json ν → Option String
  | .str s => some s
  | _ => none

/-- Readings with their times, oldest first. -/
abbrev Samples (ν : Type) := List (Int × Json ν)

def average (values : List F) : F :=
  A.div (values.foldl A.add A.zero) (A.ofInt values.length)

def peak (values : List F) : F := values.foldl A.max A.negInf

/-- The fields that are averaged. -/
def gauges : List String := ["cpu", "memoryUsed", "memoryTotal", "swapUsed", "swapTotal"]

def gauge (samples : Samples ν) (acc : Json ν × List (String × Json ν)) (key : String) :
    Option (Json ν × List (String × Json ν)) :=
  match samples.filterMap fun s => asF64 A (s.2.index key) with
  | [] => some acc
  | values => do
    let result ← acc.1.set key (A.json (average A values))
    some (result, Json.setField key (A.json (peak A values)) acc.2)

/-- The averages and the peaks of the three loads. -/
def loads (samples : Samples ν) : List (Json ν) × List (Json ν) :=
  ((List.range 3).map fun index =>
    match samples.filterMap fun s => asF64 A ((s.2.index "load").item index) with
    | [] => (.null, .null)
    | values => (A.json (average A values), A.json (peak A values))).unzip

structure Rate (F : Type) where
  bytes : F
  seconds : F
  peak : F
  invalid : Bool

/-- A counter of the interface of that name. -/
def counterOf (name counter : String) (sample : Json ν) : Option F :=
  match sample.index "network" with
  | .arr ns => (ns.find? fun n => asStr (n.index "name") = some name).bind fun n =>
      asF64 A (n.index counter)
  | _ => none

def Rate.step (name counter : String) (rate : Rate F) (pair : (Int × Json ν) × (Int × Json ν)) :
    Rate F :=
  let elapsed := A.div (A.ofInt (pair.2.1 - pair.1.1)) (A.ofInt 1000)
  let uptime := match asF64 A (pair.2.2.index "uptime"), asF64 A (pair.1.2.index "uptime") with
    | some b, some a => A.le a b
    | _, _ => false
  match counterOf A name counter pair.1.2, counterOf A name counter pair.2.2 with
  | some a, some b =>
    if A.lt A.zero elapsed && A.le elapsed (A.ofInt 30) && A.le a b && uptime then
      { rate with
        bytes := A.add rate.bytes (A.sub b a)
        seconds := A.add rate.seconds elapsed
        peak := A.max rate.peak (A.div (A.sub b a) elapsed) }
    else { rate with invalid := true }
  | _, _ => { rate with invalid := true }

/-- One counter of one interface: its rate and the peak of it, or `null` over a gap. -/
def withRate (samples : Samples ν) (interface : Json ν) (counter : String × String) :
    Option (Json ν) :=
  let name := (asStr (interface.index "name")).getD ""
  let rate := (samples.zip samples.tail).foldl (Rate.step A name counter.1)
    ⟨A.zero, A.zero, A.zero, false⟩
  let valid := !rate.invalid && A.lt A.zero rate.seconds
  (interface.set counter.2
    (if valid then A.json (A.div rate.bytes rate.seconds) else .null)).bind fun interface =>
      interface.set s!"{counter.2}Peak" (if valid then A.json rate.peak else .null)

def counters : List (String × String) := [("received", "rx"), ("sent", "tx")]

def network (samples : Samples ν) : Json ν → Option (Json ν)
  | .obj fs =>
    match Json.field "network" fs with
    | some (.arr interfaces) => do
      let rows ← interfaces.mapM fun interface => counters.foldlM (withRate A samples) interface
      some (.obj (Json.setField "network" (.arr rows) fs))
    | some _ => some (.obj fs)
    | none => some (.obj (Json.setField "network" .null fs))
  | _ => none

def gap (samples : Samples ν) : Bool :=
  samples.length < 6 || (samples.zip samples.tail).any fun p => p.2.1 - p.1.1 > 30000

/-- The fields every summary has. -/
def stamped (samples : Samples ν) (peaks : List (String × Json ν)) (result : Json ν) :
    Option (Json ν) := do
  let result ← result.set "resolutionMs" (.num (A.int minuteMs))
  let result ← result.set "sampleCount" (.num (A.int samples.length))
  let result ← result.set "peaks" (.obj peaks)
  result.set "gap" (.bool (gap samples))

variable [NumText ν]

/-- A stored reading: its time and its text. -/
def parsed (row : Int × String) : Except String (Int × Json ν) :=
  match Json.read row.2.toList with
  | some value => .ok (row.1, value)
  | none => .error "Invalid stored metric"

/-- Indexing what is not an object stops the task. -/
def orStop {α : Type} : Option α → Except String α
  | some a => .ok a
  | none => .error "cannot access key in JSON value"

def summarize (rows : List (Int × String)) : Except String (Json ν) := do
  let samples ← rows.mapM parsed
  match samples.getLast? with
  | none => .error "Empty metric bucket"
  | some last =>
    orStop do
      let (result, peaks) ← gauges.foldlM (gauge A samples) (last.2, [])
      let (averages, tops) := loads A samples
      let result ← result.set "load" (.arr averages)
      let result ← network A samples result
      stamped A samples (Json.setField "load" (.arr tops) peaks) result

end

/-! ## The number of readings -/

section
variable {ν F : Type} {A : Arith ν F}

theorem stamped_count {samples : Samples ν} {peaks : List (String × Json ν)}
    {result v : Json ν} (h : stamped A samples peaks result = some v) :
    v.index "sampleCount" = .num (A.int samples.length) := by
  unfold stamped at h
  obtain ⟨r₁, _, h⟩ := Option.bind_eq_some_iff.mp h
  obtain ⟨r₂, hcount, h⟩ := Option.bind_eq_some_iff.mp h
  obtain ⟨r₃, hpeaks, hgap⟩ := Option.bind_eq_some_iff.mp h
  have hne : ("gap" ≠ "sampleCount") ∧ "peaks" ≠ "sampleCount" := by decide
  calc v.index "sampleCount" = r₃.index "sampleCount" := Json.index_set_of_ne hne.1 hgap
    _ = r₂.index "sampleCount" := Json.index_set_of_ne hne.2 hpeaks
    _ = .num (A.int samples.length) := Json.index_set_self hcount

theorem length_mapM {ε α β : Type} {f : α → Except ε β} {as : List α} {bs : List β}
    (h : as.mapM f = .ok bs) : bs.length = as.length := by
  induction as generalizing bs with
  | nil =>
    obtain rfl := Except.ok.inj h
    rfl
  | cons a as ih =>
    rw [List.mapM_cons] at h
    cases hfa : f a with
    | error e =>
      rw [hfa] at h
      cases h
    | ok b =>
      rw [hfa] at h
      cases hrest : as.mapM f with
      | error e =>
        rw [hrest] at h
        cases h
      | ok cs =>
        rw [hrest] at h
        obtain rfl := Except.ok.inj h
        rw [List.length_cons, List.length_cons, ih hrest]

variable [NumText ν]

/-- A summary names the number of readings it stands for. -/
theorem summarize_count {rows : List (Int × String)} {v : Json ν}
    (h : summarize A rows = .ok v) : v.index "sampleCount" = .num (A.int rows.length) := by
  unfold summarize at h
  cases hsamples : rows.mapM (parsed (ν := ν)) with
  | error e =>
    rw [hsamples] at h
    cases h
  | ok samples =>
    rw [hsamples] at h
    simp only [Bind.bind, Except.bind] at h
    rw [← length_mapM hsamples]
    split at h
    · cases h
    · next last _ =>
      unfold orStop at h
      split at h
      · next a ha =>
        obtain rfl := Except.ok.inj h
        obtain ⟨⟨r, peaks⟩, _, ha⟩ := Option.bind_eq_some_iff.mp ha
        obtain ⟨r', _, ha⟩ := Option.bind_eq_some_iff.mp ha
        obtain ⟨r'', _, ha⟩ := Option.bind_eq_some_iff.mp ha
        exact stamped_count ha
      · cases h

/-- There is no summary of nothing. -/
theorem summarize_nil : summarize A [] = .error "Empty metric bucket" := rfl

end

end Porthop.Metrics

/- The metric history: recording readings and compacting them (`metrics_db.rs`,
   `metrics_db/rollup.rs`).

   A reading is a raw row. A batch of the compaction takes the minutes of the oldest raw rows
   before the cutoff and puts one row at the start of each in the place of all its rows.
   Recording holds the maintenance lock shared and a batch holds it alone, and each is one
   transaction, so a run is a sequence of them. Any statement may fail (`fails`), which rolls
   its transaction back. Which rows a query returns where its order leaves a choice is open
   (`Oldest`). -/
namespace Porthop.Metrics

structure Row where
  server : String
  endpoint : String
  time : Int
  data : String
  resolution : Int
  deriving DecidableEq

def Row.key (r : Row) : String × String × Int := (r.server, r.endpoint, r.time)

/-- The `samples` table. -/
abbrev Db := Table Row.key

/-- The resolution of a reading, which a row has by default. -/
def rawResolution : Int := 10000

def summaryResolution : Int := 60000

def retentionMs : Int := 7 * 24 * 60 * 60 * 1000

def dayMs : Int := 24 * 60 * 60 * 1000

/-- The most minutes a batch compacts. -/
def batchSize : Nat := 16

/-- The most rows a batch looks for them in. -/
def windowSize : Nat := 96

structure Minute where
  server : String
  endpoint : String
  start : Int
  deriving DecidableEq

/-- The start of the minute of a time; the division of the database truncates. -/
def startOf (time : Int) : Int := time.tdiv minuteMs * minuteMs

def Row.minute (r : Row) : Minute := ⟨r.server, r.endpoint, startOf r.time⟩

def Row.raw (r : Row) : Bool := r.resolution = rawResolution

def Minute.holds (m : Minute) (r : Row) : Bool :=
  r.server = m.server ∧ r.endpoint = m.endpoint ∧ m.start ≤ r.time ∧ r.time < m.start + minuteMs

/-! ## Transactions -/

/-- The statements of the transactions. -/
inductive Statement where
  | prune
  | oldest
  | read (m : Minute)
  | clear (m : Minute)
  | write (m : Minute)
  | insert
  | commit

/-- A call to the database: it fails with a text or it goes on. -/
def call (fails : Statement → Option String) (s : Statement) : Except String Unit :=
  match fails s with
  | some e => .error e
  | none => .ok ()

section
variable {α : Type}

/-- A transaction that fails is rolled back. -/
def transact (t : Db) : Except String (Db × α) → Db × Except String α
  | .ok (u, a) => (u, .ok a)
  | .error e => (t, .error e)

end

def expired (now : Int) (r : Row) : Bool := r.time < now - retentionMs

/-! ## Recording -/

section
variable {ν F : Type}

/-- What is kept of an overview. -/
def recorded : List String :=
  ["cpu", "memoryUsed", "memoryTotal", "swapUsed", "swapTotal", "load", "uptime", "network",
    "disks"]

def isNumber : Json ν → Bool
  | .num _ => true
  | _ => false

def isArray : Json ν → Bool
  | .arr _ => true
  | _ => false

def kept : Json ν → List (String × Json ν)
  | .obj fs => recorded.filterMap fun key => (Json.field key fs).map (key, ·)
  | _ => []

variable [NumText ν]

def measurements (overview : Json ν) : Except String String :=
  let data := kept overview
  if (Json.field "cpu" data).any isNumber ∧ (Json.field "network" data).any isArray then
    let encoded := Json.render (.obj data)
    if String.utf8Len encoded > 128 * 1024 then .error "Metric sample exceeds storage limit"
    else .ok (String.ofList encoded)
  else .error "Incomplete metric sample"

/-- The minute of a reading was compacted before. -/
def compacted (t : Db) (r : Row) : Bool :=
  t.rows.any fun s => s.server = r.server ∧ s.endpoint = r.endpoint ∧
    s.resolution = summaryResolution ∧ s.time = startOf r.time

def recordTx (fails : Statement → Option String) (server fingerprint : String) (time : Int)
    (overview : Json ν) (t : Db) : Except String (Db × Unit) := do
  let data ← measurements overview
  let r : Row := ⟨server, fingerprint, time, data, rawResolution⟩
  call fails .insert
  let t := if compacted t r then t else t.replace r
  call fails .prune
  let t := t.delete (expired time)
  call fails .commit
  return (t, ())

def record (fails : Statement → Option String) (server fingerprint : String) (time : Int)
    (overview : Json ν) (t : Db) : Db × Except String Unit :=
  transact t (recordTx fails server fingerprint time overview t)

/-! ## Compaction -/

/-- Complete minutes that are a day old are compacted. -/
def cutoff (now : Int) : Int := (now - dayMs) / minuteMs * minuteMs

/-- A result of the query for the minutes to compact. -/
def Oldest (t : Db) (cutoff : Int) (minutes : List Minute) : Prop :=
  ∃ rows groups, OrderedBy Row.time (t.select fun r => r.raw && r.time < cutoff) rows ∧
    OrderedBy Minute.start ((rows.take windowSize).map Row.minute).dedup groups ∧
    minutes = groups.take batchSize

variable (A : Arith ν F)

/-- The rows of a minute as `summarize` takes them. -/
def readings (rows : List Row) : List (Int × String) :=
  (orderBy Row.time rows).map fun r => (r.time, r.data)

def summaryRow (m : Minute) (v : Json ν) : Row :=
  ⟨m.server, m.endpoint, m.start, String.ofList v.render, summaryResolution⟩

def compactMinute (fails : Statement → Option String) (t : Db) (m : Minute) :
    Except String Db := do
  call fails (.read m)
  let summary ← summarize A (readings (t.select m.holds))
  call fails (.clear m)
  let t := t.delete m.holds
  call fails (.write m)
  match t.insert (summaryRow m summary) with
  | some t => .ok t
  | none => .error "UNIQUE constraint failed"

/-- One batch, given what the query for the minutes returned. -/
def compactTx (fails : Statement → Option String) (now : Int) (minutes : List Minute) (t : Db) :
    Except String (Db × Nat) := do
  call fails .prune
  let t := t.delete (expired now)
  call fails .oldest
  let t ← minutes.foldlM (compactMinute A fails) t
  call fails .commit
  return (t, minutes.length)

def compactBatch (fails : Statement → Option String) (now : Int) (minutes : List Minute)
    (t : Db) : Db × Except String Nat :=
  transact t (compactTx A fails now minutes t)

/-! ## Runs -/

/-- What may happen while the history is compacted. -/
inductive Event (ν : Type) where
  | record (fails : Statement → Option String) (server fingerprint : String) (time : Int)
      (overview : Json ν)
  | batch (fails : Statement → Option String) (minutes : List Minute)

/-- A step of `compact_history`: a batch that compacted something, or a reading recorded
    between two batches. -/
inductive Step (now : Int) : Db → Event ν → Db → Prop
  | record {t : Db} (fails : Statement → Option String) (server fingerprint : String) {time : Int}
      (overview : Json ν) (h : 0 ≤ time) :
      Step now t (.record fails server fingerprint time overview)
        (Metrics.record fails server fingerprint time overview t).1
  | batch {t u : Db} {fails : Statement → Option String} {minutes : List Minute} {count : Nat}
      (query : Oldest (t.delete (expired now)) (cutoff now) minutes)
      (done : compactBatch A fails now minutes t = (u, .ok count)) (more : count ≠ 0) :
      Step now t (.batch fails minutes) u

inductive Steps (now : Int) : Db → List (Event ν) → Db → Prop
  | nil {t : Db} : Steps now t [] t
  | cons {t u v : Db} {e : Event ν} {es : List (Event ν)} (step : Step A now t e u)
      (rest : Steps now u es v) : Steps now t (e :: es) v

/-- The last batch: it found nothing to compact. -/
def Finishes (now : Int) (t u : Db) : Prop :=
  ∃ fails minutes, Oldest (t.delete (expired now)) (cutoff now) minutes ∧
    compactBatch A fails now minutes t = (u, .ok 0)

end

end Porthop.Metrics
