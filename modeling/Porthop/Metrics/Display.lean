import Mathlib.Algebra.Order.Field.Basic
import Porthop.Lib.Dict
import Porthop.Lib.Latest

/- The metrics that are displayed: what is received in the session, with what was saved
   (`metricHistory.ts`, `useMetricHistory.ts`).

   Times are in milliseconds. The other numbers are of any ordered field. An object that is
   made of entries, and a map, is a list of them (`Dict`). -/
namespace Porthop.Metrics.Display

/-- The name of a counter. -/
inductive Key where
  | received
  | sent
  deriving DecidableEq

structure NetInput (α : Type) where
  received : α
  sent : α
  rx : Option α
  tx : Option α

structure MetricInput (α : Type) where
  cpu : α
  memoryUsed : α
  memoryTotal : α
  load : List α
  uptime : α
  resolutionMs : Option Int
  gap : Option Bool
  network : List (String × NetInput α)

structure Net (α : Type) where
  received : α
  sent : α
  rx : Option α
  tx : Option α

structure MetricSample (α : Type) where
  at' : Int
  resolutionMs : Option Int
  incomplete : Option Nat
  cpu : α
  memory : α
  /-- It is undefined where the first load is. -/
  load : Option α
  uptime : α
  network : List (String × Net α)

structure SavedSample (α : Type) where
  at' : Int
  data : MetricInput α

def HISTORY_MS : Int := 7 * 24 * 60 * 60 * 1000
def MAX_SAMPLES : Nat := 120960
def GAP_MS : Int := 30000

section
variable {α : Type}

def NetInput.counter (n : NetInput α) : Key → α
  | .received => n.received
  | .sent => n.sent

def Net.counter (n : Net α) : Key → α
  | .received => n.received
  | .sent => n.sent

def Net.rate (n : Net α) : Key → Option α
  | .received => n.rx
  | .sent => n.tx

variable [Field α] [LinearOrder α]

def continuous (last : MetricSample α) (input : MetricInput α) (at' : Int) : Bool :=
  last.resolutionMs.getD 10000 = 10000 ∧ at' - last.at' ≤ GAP_MS ∧ last.uptime ≤ input.uptime

/-- The interface in the sample before, if the counters go on from it. -/
def oldNetwork (last : Option (MetricSample α)) (input : MetricInput α) (at' : Int)
    (name : String) : Option (Net α) :=
  last.bind fun last =>
    if continuous last input at' then Dict.last name last.network else none

def seconds (last : Option (MetricSample α)) (at' : Int) : α :=
  match last with
  | some last => ((at' - last.at' : Int) : α) / 1000
  | none => 0

def rate (last : Option (MetricSample α)) (input : MetricInput α) (at' : Int) (name : String)
    (n : NetInput α) (key : Key) : Option α :=
  (oldNetwork last input at' name).bind fun old =>
    if old.counter key ≤ n.counter key then
      some ((n.counter key - old.counter key) / seconds last at')
    else none

def makeNet (last : Option (MetricSample α)) (input : MetricInput α) (at' : Int) (name : String)
    (n : NetInput α) : Net α where
  received := n.received
  sent := n.sent
  rx := if input.resolutionMs = some 60000 then n.rx else rate last input at' name n .received
  tx := if input.resolutionMs = some 60000 then n.tx else rate last input at' name n .sent

def makeSample (last : Option (MetricSample α)) (input : MetricInput α) (at' : Int) :
    MetricSample α where
  at' := at'
  resolutionMs := some (input.resolutionMs.getD 10000)
  incomplete := some (if input.gap = some true then 1 else 0)
  cpu := input.cpu
  memory := if input.memoryTotal ≠ 0 then input.memoryUsed / input.memoryTotal * 100 else 0
  load := input.load.head?
  uptime := input.uptime
  network := Dict.ofEntries (input.network.map fun n => (n.1, makeNet last input at' n.1 n.2))

def addSample (previous : List (MetricSample α)) (input : MetricInput α) (at' : Int) :
    List (MetricSample α) :=
  match previous.getLast? with
  | none =>
    ((previous.filter fun p => at' - p.at' ≤ HISTORY_MS) ++
      [makeSample none input at']).rtake MAX_SAMPLES
  | some last =>
    if at' ≤ last.at' then previous
    else
      ((previous.filter fun p => at' - p.at' ≤ HISTORY_MS) ++
        [makeSample (some last) input at']).rtake MAX_SAMPLES

def minuteOf (at' : Int) : Int := at' / 60000

/-- The minute has a saved summary. -/
def summarized (saved : List (SavedSample α)) (minute : Int) : Bool :=
  (saved.filter fun p => p.data.resolutionMs = some 60000).any fun p => minuteOf p.at' = minute

/-- A sample as what it could have been made of. -/
def inputOf (p : MetricSample α) : MetricInput α where
  cpu := p.cpu
  resolutionMs := p.resolutionMs
  gap := some (p.incomplete.getD 0 ≠ 0)
  memoryUsed := p.memory
  memoryTotal := 100
  load := p.load.toList
  uptime := p.uptime
  network := p.network.map fun n => (n.1, ⟨n.2.received, n.2.sent, n.2.rx, n.2.tx⟩)

/-- What the samples are made of, by time. -/
def merged (previous : List (MetricSample α)) (saved : List (SavedSample α)) :
    List (Int × MetricInput α) :=
  previous.foldl
    (fun merged p =>
      if summarized saved (minuteOf p.at') then merged else Dict.set p.at' (inputOf p) merged)
    (Dict.ofEntries (saved.map fun p => (p.at', p.data)))

/-- What is inside the limits. -/
def shown (merged : List (Int × MetricInput α)) : List (Int × MetricInput α) :=
  let sorted := merged.mergeSort fun a b => a.1 ≤ b.1
  let cutoff := ((sorted.getLast?.map Prod.fst).getD 0) - HISTORY_MS
  (sorted.filter fun e => cutoff ≤ e.1).rtake MAX_SAMPLES

def restoreHistory (previous : List (MetricSample α)) (saved : List (SavedSample α)) :
    List (MetricSample α) :=
  (shown (merged previous saved)).foldl
    (fun result e => result ++ [makeSample result.getLast? e.2 e.1]) []

/-- A reading, or the summary of a minute. -/
def Reading (input : MetricInput α) : Prop :=
  input.resolutionMs = none ∨ input.resolutionMs = some 10000 ∨ input.resolutionMs = some 60000

/-- What is displayed comes about by readings of the session and by answers with saved ones, in
    any order. -/
inductive Built : List (MetricSample α) → Prop where
  | none : Built []
  | received {previous : List (MetricSample α)} (h : Built previous) {live : MetricInput α}
      (hlive : Reading live) (at' : Int) : Built (addSample previous live at')
  | answered {previous : List (MetricSample α)} (h : Built previous)
      {saved : List (SavedSample α)} (hsaved : ∀ row ∈ saved, Reading row.data) :
      Built (restoreHistory previous saved)

end

end Porthop.Metrics.Display
