import Mathlib.Data.List.Dedup
import Mathlib.Data.List.Sort
import Mathlib.Order.Defs.LinearOrder
import Porthop.Lib.Lists

/- The points of a chart that are drawn (`chartPoints` in `metricHistory.ts`).

   The points come in buckets of one size. Of each bucket the first and the last point are kept,
   and for each series the points with its least and its greatest value and both points of every
   step from or to a gap; a step between two buckets is seen from the bucket with the gap. All
   series share the set of kept points. -/
namespace Porthop.Metrics

/-- A point with the keys it has, and its numbers by key; `none` is the `null` of a gap. -/
structure ChartRow (α : Type) where
  at' : α
  keys : List String
  value : String → Option α

namespace Chart

section
variable {α : Type}

/-- The series are the keys that start with a `v`. -/
def series (points : List (ChartRow α)) : List String :=
  (points.head?.map ChartRow.keys).getD [] |>.filter fun key => key.toList.head? = some 'v'

def valueAt (points : List (ChartRow α)) (key : String) (i : Nat) : Option α :=
  points[i]?.bind fun row => row.value key

structure Scan where
  min : Nat
  max : Nat
  keep : List Nat

/-- The index with the better value of the two, which is the first one in a tie. -/
def better (value : Nat → Option α) (lt : α → α → Bool) (best i : Nat) (v : α) : Nat :=
  match value best with
  | none => i
  | some m => if lt v m then i else best

variable [LinearOrder α]

def scanPoint (value : Nat → Option α) (n : Nat) (s : Scan) (i : Nat) : Scan :=
  match value i with
  | none =>
    let before := if 0 < i ∧ (value (i - 1)).isSome then [i - 1, i] else []
    let after := if i + 1 < n ∧ (value (i + 1)).isSome then [i, i + 1] else []
    { s with keep := s.keep ++ before ++ after }
  | some v =>
    { s with
      min := better value (fun a b => a < b) s.min i v
      max := better value (fun a b => b < a) s.max i v }

/-- What is kept of a bucket for one series. -/
def keepSeries (value : Nat → Option α) (n first last : Nat) : List Nat :=
  let s := (List.range' first (last - first)).foldl (scanPoint value n) ⟨first, first, []⟩
  s.keep ++ [s.min, s.max]

def keepBucket (points : List (ChartRow α)) (first last : Nat) : List Nat :=
  [first, last - 1] ++
    (series points).flatMap fun key => keepSeries (valueAt points key) points.length first last

/-- The buckets from a point on; each takes a point at least. -/
def keepFrom (points : List (ChartRow α)) (size : Nat) : Nat → Nat → List Nat
  | 0, _ => []
  | fuel + 1, first =>
    if first < points.length then
      keepBucket points first (min (first + size) points.length) ++
        keepFrom points size fuel (first + size)
    else []

/-- The number of points in a bucket, rounded up. -/
def bucketSize (n buckets : Nat) : Nat := (n + buckets - 1) / buckets

def chartPoints (points : List (ChartRow α)) (buckets : Nat) : List (ChartRow α) :=
  if points.length ≤ buckets * 2 then points
  else
    let keep := keepFrom points (bucketSize points.length buckets) points.length 0
    (keep.dedup.mergeSort fun a b => a ≤ b).filterMap fun i => points[i]?

end

/-! ## The best value of a part -/

section
variable {α : Type} {value : Nat → Option α} {lt : α → α → Bool} {le : α → α → Prop} {first k best : Nat}

/-- An index of the part, if it has one, whose value is no worse than any of the part. -/
structure Best (value : Nat → Option α) (le : α → α → Prop) (first k best : Nat) : Prop where
  inside : first ≤ best ∧ (best < first + k ∨ best = first)
  least : ∀ i, first ≤ i → i < first + k → ∀ v, value i = some v → ∃ m, value best = some m ∧ le m v

theorem best_start : Best value le first 0 first where
  inside := ⟨Nat.le_refl _, Or.inr rfl⟩
  least i hfirst hi := by omega

theorem Best.skip (h : Best value le first k best) (hnone : value (first + k) = none) :
    Best value le first (k + 1) best where
  inside := ⟨h.inside.1, by have := h.inside.2; omega⟩
  least i hfirst hi v hv := by
    by_cases heq : i = first + k
    · rw [heq, hnone] at hv
      cases hv
    · exact h.least i hfirst (by omega) v hv

/-- A new value takes the place of a worse one. -/
theorem Best.update (h : Best value le first k best) (hrefl : ∀ a, le a a)
    (htrans : ∀ a b c, le a b → le b c → le a c) (hlt : ∀ a b, lt a b = true → le a b)
    (hle : ∀ a b, lt a b = false → le b a) {v : α} (hv : value (first + k) = some v) :
    Best value le first (k + 1) (better value lt best (first + k) v) := by
  have hinside := h.inside
  unfold better
  match hbest : value best with
  | none =>
    refine ⟨by simp only; omega, fun i hfirst hi w hw => ?_⟩
    by_cases heq : i = first + k
    · rw [heq, hv] at hw
      exact ⟨v, hv, Option.some.inj hw ▸ hrefl v⟩
    · obtain ⟨m, hm, -⟩ := h.least i hfirst (by omega) w hw
      rw [hbest] at hm
      cases hm
  | some m =>
    cases hcmp : lt v m with
    | true =>
      simp only [hcmp, if_true]
      refine ⟨by omega, fun i hfirst hi w hw => ⟨v, hv, ?_⟩⟩
      by_cases heq : i = first + k
      · rw [heq, hv] at hw
        exact Option.some.inj hw ▸ hrefl v
      · obtain ⟨m', hm', hmw⟩ := h.least i hfirst (by omega) w hw
        obtain rfl : m = m' := Option.some.inj (hbest.symm.trans hm')
        exact htrans v m w (hlt v m hcmp) hmw
    | false =>
      simp only [hcmp, Bool.false_eq_true, if_false]
      refine ⟨by omega, fun i hfirst hi w hw => ?_⟩
      by_cases heq : i = first + k
      · rw [heq, hv] at hw
        exact ⟨m, hbest, Option.some.inj hw ▸ hle v m hcmp⟩
      · exact h.least i hfirst (by omega) w hw

end

/-! ## One bucket -/

section
variable {α : Type} {value : Nat → Option α} {n first k : Nat} {s : Scan}

/-- A step from or to a gap, as the point in the gap sees it. -/
structure Edges (value : Nat → Option α) (n i : Nat) (keep : List Nat) : Prop where
  before : 0 < i → (value (i - 1)).isSome → i - 1 ∈ keep ∧ i ∈ keep
  after : i + 1 < n → (value (i + 1)).isSome → i ∈ keep ∧ i + 1 ∈ keep

theorem Edges.mono {i : Nat} {keep keep' : List Nat} (h : Edges value n i keep)
    (hsub : ∀ j ∈ keep, j ∈ keep') : Edges value n i keep' where
  before hi hv := ⟨hsub _ (h.before hi hv).1, hsub _ (h.before hi hv).2⟩
  after hi hv := ⟨hsub _ (h.after hi hv).1, hsub _ (h.after hi hv).2⟩

variable [LinearOrder α]

/-- What the scan of `k` points from `first` on has found. -/
structure Scanned (value : Nat → Option α) (n first k : Nat) (s : Scan) : Prop where
  least : Best value (fun a b => a ≤ b) first k s.min
  greatest : Best value (fun a b => b ≤ a) first k s.max
  edges : ∀ i, first ≤ i → i < first + k → value i = none → Edges value n i s.keep
  inside : ∀ i ∈ s.keep, i < n

theorem scanned_start : Scanned value n first 0 ⟨first, first, []⟩ where
  least := best_start
  greatest := best_start
  edges i hfirst hi := by omega
  inside i hi := by simp at hi

theorem scanPoint_gap (hnone : value (first + k) = none) :
    Edges value n (first + k) (scanPoint value n s (first + k)).keep := by
  constructor
  · intro hpos hsome
    simp [scanPoint, hnone, hpos, hsome]
  · intro hlt hsome
    simp [scanPoint, hnone, hlt, hsome]

theorem mem_scanPoint {i j : Nat} (hj : j ∈ s.keep) : j ∈ (scanPoint value n s i).keep := by
  unfold scanPoint
  split <;> simp [hj]

/-- The scan keeps nothing past the last point. -/
theorem scanPoint_inside {i : Nat} (hi : i < n) (h : ∀ j ∈ s.keep, j < n) :
    ∀ j ∈ (scanPoint value n s i).keep, j < n := by
  intro j hj
  unfold scanPoint at hj
  split at hj
  · simp only [List.mem_append] at hj
    obtain (hkeep | hbefore) | hafter := hj
    · exact h j hkeep
    · split at hbefore
      · simp at hbefore; omega
      · simp at hbefore
    · split at hafter
      · simp at hafter; omega
      · simp at hafter
  · exact h j hj

/-- One point more. -/
theorem Scanned.step (h : Scanned value n first k s) (hn : first + k < n) :
    Scanned value n first (k + 1) (scanPoint value n s (first + k)) := by
  have hedges : ∀ i, first ≤ i → i < first + (k + 1) → value i = none →
      Edges value n i (scanPoint value n s (first + k)).keep := by
    intro i hfirst hi hnone
    by_cases heq : i = first + k
    · subst heq
      exact scanPoint_gap hnone
    · exact (h.edges i hfirst (by omega) hnone).mono fun j hj => mem_scanPoint hj
  have hinside : ∀ j ∈ (scanPoint value n s (first + k)).keep, j < n := scanPoint_inside hn h.inside
  cases hv : value (first + k) with
  | none =>
    have hs : (scanPoint value n s (first + k)).min = s.min ∧
        (scanPoint value n s (first + k)).max = s.max := by simp [scanPoint, hv]
    exact ⟨hs.1 ▸ h.least.skip hv, hs.2 ▸ h.greatest.skip hv, hedges, hinside⟩
  | some v =>
    have hmin : Best value (fun a b => a ≤ b) first (k + 1)
        (better value (fun a b => a < b) s.min (first + k) v) := by
      apply h.least.update (fun a => le_refl a) (fun a b c => le_trans) ?_ ?_ hv
      · intro a b hlt
        exact le_of_lt (of_decide_eq_true hlt)
      · intro a b hlt
        exact not_lt.mp (of_decide_eq_false hlt)
    have hmax : Best value (fun a b => b ≤ a) first (k + 1)
        (better value (fun a b => b < a) s.max (first + k) v) := by
      apply h.greatest.update (fun a => le_refl a) (fun a b c hab hbc => le_trans hbc hab) ?_ ?_ hv
      · intro a b hlt
        exact le_of_lt (of_decide_eq_true hlt)
      · intro a b hlt
        exact not_lt.mp (of_decide_eq_false hlt)
    have hs : (scanPoint value n s (first + k)).min =
          better value (fun a b => a < b) s.min (first + k) v ∧
        (scanPoint value n s (first + k)).max =
          better value (fun a b => b < a) s.max (first + k) v := by simp [scanPoint, hv]
    exact ⟨hs.1 ▸ hmin, hs.2 ▸ hmax, hedges, hinside⟩

/-- A whole scan, by induction on its length. -/
theorem scanned (value : Nat → Option α) (n first k : Nat) (hn : first + k ≤ n) :
    Scanned value n first k ((List.range' first k).foldl (scanPoint value n) ⟨first, first, []⟩) := by
  induction k with
  | zero => exact scanned_start
  | succ k ih =>
    rw [List.range'_1_concat, List.foldl_append]
    exact (ih (by omega)).step (by omega)

end

/-! ## All buckets -/

section
variable {α : Type} [LinearOrder α] {points : List (ChartRow α)} {size first last : Nat}

theorem mem_keepBucket_ends (points : List (ChartRow α)) (first last : Nat) :
    first ∈ keepBucket points first last ∧ last - 1 ∈ keepBucket points first last := by
  simp [keepBucket]

theorem mem_keepBucket {key : String} (hkey : key ∈ series points) {i : Nat}
    (hi : i ∈ keepSeries (valueAt points key) points.length first last) :
    i ∈ keepBucket points first last := by
  simp only [keepBucket, List.mem_append, List.mem_flatMap]
  exact Or.inr ⟨key, hkey, hi⟩

/-- A bucket keeps indices of points only. -/
theorem keepBucket_inside (hlt : first < last) (hlast : last ≤ points.length) :
    ∀ i ∈ keepBucket points first last, i < points.length := by
  intro i hi
  simp only [keepBucket, List.mem_append, List.mem_flatMap] at hi
  obtain hends | ⟨key, -, hi⟩ := hi
  · simp at hends
    omega
  · have hscan := scanned (valueAt points key) points.length first (last - first) (by omega)
    simp only [keepSeries, List.mem_append, List.mem_cons, List.not_mem_nil, or_false] at hi
    obtain hkeep | rfl | rfl := hi
    · exact hscan.inside i hkeep
    · have := hscan.least.inside
      omega
    · have := hscan.greatest.inside
      omega

theorem keepFrom_inside (hsize : 1 ≤ size) (fuel : Nat) :
    ∀ first, ∀ i ∈ keepFrom points size fuel first, i < points.length := by
  induction fuel with
  | zero => intro first i hi; simp [keepFrom] at hi
  | succ fuel ih =>
    intro first i hi
    simp only [keepFrom] at hi
    split at hi
    · obtain hbucket | hrest := List.mem_append.mp hi
      · exact keepBucket_inside (by omega) (by omega) i hbucket
      · exact ih _ i hrest
    · simp at hi

/-- Every bucket is reached. -/
theorem mem_keepFrom {i : Nat} (b : Nat) :
    ∀ fuel first, b < fuel → first + b * size < points.length →
      i ∈ keepBucket points (first + b * size) (min (first + b * size + size) points.length) →
      i ∈ keepFrom points size fuel first := by
  induction b with
  | zero =>
    intro fuel first hfuel hlt hi
    obtain ⟨fuel, rfl⟩ : ∃ f, fuel = f + 1 := ⟨fuel - 1, by omega⟩
    have hfirst : first < points.length := by omega
    simp only [keepFrom, hfirst, if_true, List.mem_append]
    exact Or.inl (by simpa using hi)
  | succ b ih =>
    intro fuel first hfuel hlt hi
    obtain ⟨fuel, rfl⟩ : ∃ f, fuel = f + 1 := ⟨fuel - 1, by omega⟩
    have hnext : first + (b + 1) * size = first + size + b * size := by
      rw [Nat.add_mul, Nat.one_mul]
      omega
    have hfirst : first < points.length := by omega
    rw [hnext] at hlt hi
    simp only [keepFrom, hfirst, if_true, List.mem_append]
    exact Or.inr (ih fuel (first + size) (by omega) hlt hi)

end

/-! ## What is drawn -/

/-- The bucket with the number `b`. -/
def InBucket (n size b i : Nat) : Prop := b * size ≤ i ∧ i < min (b * size + size) n

/-- An index is kept in a bucket at which no value of the bucket is below the one there. -/
def Attained {α : Type} (value : Nat → Option α) (le : α → α → Prop) (n size b : Nat) (kept : List Nat) : Prop :=
  ∃ j ∈ kept, InBucket n size b j ∧ ∃ m, value j = some m ∧
    ∀ i, InBucket n size b i → ∀ v, value i = some v → le m v

/-- The best index of a bucket is the one the scan ends with. -/
theorem attained_of_best {α : Type} {value : Nat → Option α} {le : α → α → Prop} {n size b best : Nat}
    {kept : List Nat} (hlt : b * size < n) (hsize : 1 ≤ size)
    (hbest : Best value le (b * size) (min (b * size + size) n - b * size) best)
    (hkept : best ∈ kept) (hsome : ∃ i v, InBucket n size b i ∧ value i = some v) :
    Attained value le n size b kept := by
  have hlen : b * size + (min (b * size + size) n - b * size) = min (b * size + size) n := by omega
  obtain ⟨i, v, ⟨hfirst, hi⟩, hv⟩ := hsome
  obtain ⟨m, hm, -⟩ := hbest.least i hfirst (by omega) v hv
  refine ⟨best, hkept, ⟨hbest.inside.1, ?_⟩, m, hm, ?_⟩
  · have := hbest.inside.2
    omega
  · intro j hj w hw
    obtain ⟨m', hm', hle⟩ := hbest.least j hj.1 (by have := hj.2; omega) w hw
    obtain rfl : m = m' := Option.some.inj (hm.symm.trans hm')
    exact hle

section
variable {α : Type} [LinearOrder α] {points : List (ChartRow α)} {size : Nat} {kept : List Nat}

/-- What the kept indices of a chart show. -/
structure Shows (points : List (ChartRow α)) (size : Nat) (kept : List Nat) : Prop where
  ordered : kept.Pairwise fun a b => a < b
  inside : ∀ i ∈ kept, i < points.length
  ends : ∀ b, b * size < points.length →
    b * size ∈ kept ∧ min (b * size + size) points.length - 1 ∈ kept
  extrema : ∀ b, ∀ key ∈ series points,
    (∃ i v, InBucket points.length size b i ∧ valueAt points key i = some v) →
    Attained (valueAt points key) (fun a b => a ≤ b) points.length size b kept ∧
    Attained (valueAt points key) (fun a b => b ≤ a) points.length size b kept
  gaps : ∀ key ∈ series points, ∀ i, i + 1 < points.length →
    (valueAt points key i).isSome ≠ (valueAt points key (i + 1)).isSome → i ∈ kept ∧ i + 1 ∈ kept

/-- The bucket of an index. -/
theorem inBucket_div {n size i : Nat} (hsize : 1 ≤ size) (hi : i < n) :
    InBucket n size (i / size) i := by
  have hdiv := Nat.div_add_mod i size
  have hmod := Nat.mod_lt i hsize
  rw [Nat.mul_comm] at hdiv
  unfold InBucket
  omega

/-- A list that has all that the buckets keep shows the chart. -/
theorem shows_of_buckets (hsize : 1 ≤ size) (hordered : kept.Pairwise fun a b => a < b)
    (hinside : ∀ i ∈ kept, i < points.length)
    (hkept : ∀ b, b * size < points.length →
      ∀ i ∈ keepBucket points (b * size) (min (b * size + size) points.length), i ∈ kept) :
    Shows points size kept where
  ordered := hordered
  inside := hinside
  ends b hb :=
    ⟨hkept b hb _ (mem_keepBucket_ends points _ _).1, hkept b hb _ (mem_keepBucket_ends points _ _).2⟩
  extrema b key hkey hsome := by
    have hb : b * size < points.length := by
      obtain ⟨i, v, hi, -⟩ := hsome
      have := hi.1
      have := hi.2
      omega
    have hscan := scanned (valueAt points key) points.length (b * size)
      (min (b * size + size) points.length - b * size) (by omega)
    have hmem := fun i hi => hkept b hb i (mem_keepBucket hkey hi)
    constructor
    · exact attained_of_best hb hsize hscan.least (hmem _ (by simp [keepSeries])) hsome
    · exact attained_of_best hb hsize hscan.greatest (hmem _ (by simp [keepSeries])) hsome
  gaps key hkey i hi hne := by
    -- The point with the gap keeps both, from whichever bucket it is in.
    have hedges : ∀ j, j < points.length → valueAt points key j = none →
        Edges (valueAt points key) points.length j kept := by
      intro j hj hnone
      obtain ⟨hfirst, hlast⟩ := inBucket_div hsize hj
      have hscan := scanned (valueAt points key) points.length (j / size * size)
        (min (j / size * size + size) points.length - j / size * size) (by omega)
      apply (hscan.edges j hfirst (by omega) hnone).mono
      intro i hmem
      exact hkept (j / size) (by omega) i
        (mem_keepBucket hkey (by simp [keepSeries, hmem]))
    cases hleft : valueAt points key i with
    | none =>
      have hright : (valueAt points key (i + 1)).isSome := by
        rw [hleft] at hne
        cases hval : valueAt points key (i + 1) with
        | none => simp [hval] at hne
        | some v => rfl
      exact (hedges i (by omega) hleft).after hi hright
    | some v =>
      have hright : valueAt points key (i + 1) = none := by
        rw [hleft] at hne
        cases hval : valueAt points key (i + 1) with
        | none => rfl
        | some w => simp [hval] at hne
      exact (hedges (i + 1) hi hright).before (by omega) (by simp [hleft])

theorem shows_nil : Shows ([] : List (ChartRow α)) size [] where
  ordered := List.Pairwise.nil
  inside i hi := by simp at hi
  ends b hb := by simp at hb
  extrema b key hkey := by simp [series] at hkey
  gaps key hkey := by simp [series] at hkey

/-- No bucket is empty. -/
theorem bucketSize_pos {n buckets : Nat} (hbuckets : 1 ≤ buckets) (hn : 0 < n) :
    1 ≤ bucketSize n buckets := by
  unfold bucketSize
  rw [Nat.le_div_iff_mul_le hbuckets]
  omega

/-- Sorted and without repeats, the indices are in the order of the points. -/
theorem pairwise_lt_sorted (keep : List Nat) :
    (keep.dedup.mergeSort fun a b => decide (a ≤ b)).Pairwise fun a b => a < b := by
  have hle : (keep.dedup.mergeSort fun a b => decide (a ≤ b)).Pairwise fun a b => a ≤ b := by
    have htrans : ∀ a b c : Nat, decide (a ≤ b) = true → decide (b ≤ c) = true →
        decide (a ≤ c) = true := by
      intro a b c
      simp only [decide_eq_true_eq]
      omega
    have htotal : ∀ a b : Nat, (decide (a ≤ b) || decide (b ≤ a)) = true := by
      intro a b
      simp only [Bool.or_eq_true, decide_eq_true_eq]
      omega
    simpa using List.pairwise_mergeSort htrans htotal keep.dedup
  have hnodup : (keep.dedup.mergeSort fun a b => decide (a ≤ b)).Nodup :=
    (List.mergeSort_perm _ _).nodup_iff.mpr keep.nodup_dedup
  exact (hle.and hnodup).imp fun h => Nat.lt_of_le_of_ne h.1 h.2

/-- Increasing indices of points name a part of the points, in their order. -/
theorem Shows.sublist (h : Shows points size kept) :
    (kept.filterMap fun i => points[i]?).Sublist points := by
  have hsub : kept.Sublist (List.range points.length) := by
    apply List.sublist_of_subperm_of_pairwise (r := fun a b => a < b) ?_ h.ordered List.pairwise_lt_range
    apply List.subperm_of_subset (h.ordered.imp Nat.ne_of_lt)
    intro i hi
    exact List.mem_range.mpr (h.inside i hi)
  have := hsub.filterMap fun i => points[i]?
  rwa [Lists.filterMap_getElem?_range (Nat.le_refl _)] at this

/-- The indices that are drawn. -/
theorem chartPoints_shows (points : List (ChartRow α)) (buckets : Nat) (hbuckets : 1 ≤ buckets) :
    ∃ kept, chartPoints points buckets = kept.filterMap (fun i => points[i]?) ∧
      Shows points (bucketSize points.length buckets) kept := by
  by_cases hall : points.length ≤ buckets * 2
  · refine ⟨List.range points.length, ?_, ?_⟩
    · rw [Lists.filterMap_getElem?_range (Nat.le_refl _), chartPoints, if_pos hall]
    · cases points with
      | nil => exact shows_nil
      | cons row points =>
        have hpos : 0 < (row :: points).length := Nat.succ_pos _
        apply shows_of_buckets (bucketSize_pos hbuckets hpos) List.pairwise_lt_range
        · intro i hi
          exact List.mem_range.mp hi
        · intro b hb i hi
          have hsize := bucketSize_pos hbuckets hpos
          exact List.mem_range.mpr (keepBucket_inside (by omega) (by omega) i hi)
  · have hsize : 1 ≤ bucketSize points.length buckets := bucketSize_pos hbuckets (by omega)
    refine ⟨_, by rw [chartPoints, if_neg hall], ?_⟩
    apply shows_of_buckets hsize (pairwise_lt_sorted _)
    · intro i hi
      rw [List.mem_mergeSort, List.mem_dedup] at hi
      exact keepFrom_inside hsize _ _ i hi
    · intro b hb i hi
      rw [List.mem_mergeSort, List.mem_dedup]
      have hfuel : b < points.length :=
        Nat.lt_of_le_of_lt (Nat.le_mul_of_pos_right b hsize) hb
      exact mem_keepFrom b points.length 0 hfuel (by omega) (by simpa using hi)

/-- A chart is drawn from a part of its points, in their order, that has the first and the last
point of every bucket, for each series a point with the least and one with the greatest value of
the bucket, and both points of each step from or to a gap. -/
theorem extrema_and_gaps_drawn (points : List (ChartRow α)) (buckets : Nat)
    (hbuckets : 1 ≤ buckets) :
    (chartPoints points buckets).Sublist points ∧
    ∃ kept, chartPoints points buckets = kept.filterMap (fun i => points[i]?) ∧
      Shows points (bucketSize points.length buckets) kept := by
  obtain ⟨kept, heq, hshows⟩ := chartPoints_shows points buckets hbuckets
  exact ⟨heq ▸ hshows.sublist, kept, heq, hshows⟩

end

/-- A chart of five points with a gap. -/
def fivePoints : List (ChartRow Nat) :=
  [some 3, some 9, none, some 1, some 4].zipIdx.map fun (v, i) =>
    { at' := i, keys := ["at", "v0"], value := fun key => if key = "v0" then v else some i }

theorem fivePoints_drawn :
    (chartPoints fivePoints 1).Sublist fivePoints ∧
    ∃ kept, chartPoints fivePoints 1 = kept.filterMap (fun i => fivePoints[i]?) ∧
      Shows fivePoints (bucketSize fivePoints.length 1) kept :=
  extrema_and_gaps_drawn fivePoints 1 (by decide)

end Chart

end Porthop.Metrics
