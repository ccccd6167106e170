import Mathlib.Algebra.Field.Rat
import Mathlib.Algebra.Order.Ring.Rat
import Mathlib.Data.Finset.Card
import Porthop.Metrics.Display

/- Merging saved samples into those that are displayed. -/
namespace Porthop.Metrics.Display

section
variable {α : Type} [Field α] [LinearOrder α] {previous : List (MetricSample α)}
  {saved : List (SavedSample α)} {last : Option (MetricSample α)} {input : MetricInput α}
  {at' : Int}

/-! ## A sample made again -/

/-- A rate depends on the counters and the uptime alone. -/
theorem rate_congr {input' : MetricInput α} {n n' : NetInput α} {key : Key} {name : String}
    (huptime : input'.uptime = input.uptime) (hcounter : n'.counter key = n.counter key) :
    rate last input' at' name n' key = rate last input at' name n key := by
  unfold rate oldNetwork continuous
  rw [hcounter, huptime]

theorem network_makeSample (last : Option (MetricSample α)) (input : MetricInput α) (at' : Int) :
    (makeSample last input at').network =
      (Dict.ofEntries input.network).map fun n => (n.1, makeNet last input at' n.1 n.2) :=
  Dict.ofEntries_map (makeNet last input at') input.network

theorem nodup_network (last : Option (MetricSample α)) (input : MetricInput α) (at' : Int) :
    ((makeSample last input at').network.map Prod.fst).Nodup :=
  Dict.nodup_ofEntries _

omit [LinearOrder α] in
/-- The networks of an object have different names, so it is made again as it is. -/
theorem network_inputOf {p : MetricSample α} (h : (p.network.map Prod.fst).Nodup) :
    Dict.ofEntries (inputOf p).network = (inputOf p).network := by
  refine Dict.ofEntries_of_nodup ?_
  have hkeys : (inputOf p).network.map Prod.fst = p.network.map Prod.fst := by
    unfold inputOf
    rw [List.map_map]
    rfl
  rw [hkeys]
  exact h

theorem resolution_inputOf :
    (inputOf (makeSample last input at')).resolutionMs = some 60000 ↔
      input.resolutionMs = some 60000 := by
  show some (input.resolutionMs.getD 10000) = some 60000 ↔ _
  cases input.resolutionMs with
  | none => simp
  | some r => simp

theorem makeNet_inputOf (name : String) (n : NetInput α) :
    makeNet last (inputOf (makeSample last input at')) at' name
        ⟨n.received, n.sent, (makeNet last input at' name n).rx,
          (makeNet last input at' name n).tx⟩ =
      makeNet last input at' name n := by
  have hrate : ∀ (rx tx : Option α) (key : Key),
      rate last (inputOf (makeSample last input at')) at' name ⟨n.received, n.sent, rx, tx⟩ key =
        rate last input at' name n key := by
    intro rx tx key
    refine rate_congr rfl ?_
    cases key with
    | received => rfl
    | sent => rfl
  unfold makeNet
  by_cases hsummary : input.resolutionMs = some 60000
  · simp only [if_pos hsummary, if_pos (resolution_inputOf.mpr hsummary)]
  · simp only [if_neg hsummary, if_neg (fun h => hsummary (resolution_inputOf.mp h)), hrate]

variable [IsStrictOrderedRing α]

theorem memory_inputOf (m : α) : (if (100 : α) ≠ 0 then m / 100 * 100 else 0) = m := by
  have h : (100 : α) ≠ 0 := by norm_num
  rw [if_pos h, div_mul_cancel₀ m h]

theorem head?_toList {β : Type} (o : Option β) : o.toList.head? = o := by
  cases o with
  | none => rfl
  | some b => rfl

/-- A sample that is taken as an input and made again behind the same one is the same. -/
theorem makeSample_inputOf : makeSample last (inputOf (makeSample last input at')) at' =
    makeSample last input at' := by
  have hnetwork : (makeSample last (inputOf (makeSample last input at')) at').network =
      (makeSample last input at').network := by
    rw [network_makeSample, network_inputOf (nodup_network last input at')]
    unfold inputOf
    rw [List.map_map]
    refine (List.map_congr_left ?_).trans (List.map_id _)
    intro e he
    rw [network_makeSample] at he
    obtain ⟨n, -, rfl⟩ := List.mem_map.mp he
    exact Prod.ext rfl (makeNet_inputOf n.1 n.2)
  have hgap : (if some (decide ((some (if input.gap = some true then 1 else 0)).getD 0 ≠ 0)) =
      some true then 1 else 0) = if input.gap = some true then 1 else 0 := by
    split
    · split
      · rfl
      · rename_i h
        simp at h
    · split
      · rename_i h
        simp at h
      · rfl
  refine MetricSample.mk.injEq .. |>.mpr ⟨rfl, rfl, ?_, rfl, ?_, ?_, rfl, hnetwork⟩
  · exact congrArg some hgap
  · exact memory_inputOf _
  · exact head?_toList _

end

/-! ## Merging -/

section
variable {α : Type} {previous : List (MetricSample α)} {saved : List (SavedSample α)} {t : Int}

/-- The samples of the minutes that have no saved summary. -/
def live (previous : List (MetricSample α)) (saved : List (SavedSample α)) :
    List (MetricSample α) :=
  previous.filter fun p => !summarized saved (minuteOf p.at')

/-- The times that are to be shown. -/
def wanted (previous : List (MetricSample α)) (saved : List (SavedSample α)) : List Int :=
  saved.map SavedSample.at' ++ (live previous saved).map MetricSample.at'

theorem mem_wanted : t ∈ wanted previous saved ↔
    (∃ row ∈ saved, row.at' = t) ∨
      ∃ p ∈ previous, summarized saved (minuteOf p.at') = false ∧ p.at' = t := by
  unfold wanted live
  rw [List.mem_append, List.mem_map, List.mem_map]
  simp only [List.mem_filter, Bool.not_eq_true', and_assoc]

variable [Field α] {d : MetricInput α}

def savedEntries (saved : List (SavedSample α)) : List (Int × MetricInput α) :=
  saved.map fun p => (p.at', p.data)

def liveEntries (previous : List (MetricSample α)) (saved : List (SavedSample α)) :
    List (Int × MetricInput α) :=
  (live previous saved).map fun p => (p.at', inputOf p)

theorem merged_eq : merged previous saved =
    Dict.ofEntries (savedEntries saved ++ liveEntries previous saved) := by
  have hfold : ∀ start : List (Int × MetricInput α),
      previous.foldl (fun merged p =>
        if summarized saved (minuteOf p.at') then merged
        else Dict.set p.at' (inputOf p) merged) start =
      (liveEntries previous saved).foldl (fun d e => Dict.set e.1 e.2 d) start := by
    unfold liveEntries live
    induction previous with
    | nil => exact fun start => rfl
    | cons p previous ih =>
      intro start
      rw [List.foldl_cons, ih]
      cases hsummarized : summarized saved (minuteOf p.at') with
      | true => simp [hsummarized]
      | false => simp [hsummarized]
  unfold merged
  rw [hfold, Dict.ofEntries, Dict.ofEntries, List.foldl_append]
  rfl

theorem nodup_merged : ((merged previous saved).map Prod.fst).Nodup := by
  rw [merged_eq]
  exact Dict.nodup_ofEntries _

/-- A live sample goes before what was saved. -/
theorem mem_merged : (t, d) ∈ merged previous saved ↔
    (Dict.last t (liveEntries previous saved)).or (Dict.last t (savedEntries saved)) = some d := by
  rw [merged_eq, Dict.mem_ofEntries, Dict.last_append]

theorem mem_keys_merged : t ∈ (merged previous saved).map Prod.fst ↔
    t ∈ wanted previous saved := by
  have hlast : t ∈ (merged previous saved).map Prod.fst ↔
      Dict.last t (savedEntries saved ++ liveEntries previous saved) ≠ none := by
    rw [merged_eq]
    constructor
    · intro h
      obtain ⟨e, he, rfl⟩ := List.mem_map.mp h
      rw [Dict.mem_ofEntries.mp he]
      exact Option.some_ne_none _
    · intro h
      obtain ⟨d, hd⟩ := Option.ne_none_iff_exists'.mp h
      exact List.mem_map_of_mem (Dict.mem_ofEntries.mpr hd)
  rw [hlast, ne_eq, Dict.last_eq_none, not_not]
  unfold savedEntries liveEntries wanted
  rw [List.map_append, List.map_map, List.map_map]
  exact Iff.rfl

end

/-! ## The limits -/

section
variable {α : Type} {m m' : List (Int × MetricInput α)} {t : Int}

def sorted (m : List (Int × MetricInput α)) : List (Int × MetricInput α) :=
  m.mergeSort fun a b => a.1 ≤ b.1

def newest (m : List (Int × MetricInput α)) : Int := ((sorted m).getLast?.map Prod.fst).getD 0

/-- The times since the limit, in order. -/
def recent (m : List (Int × MetricInput α)) : List Int :=
  ((sorted m).map Prod.fst).filter fun t => newest m - HISTORY_MS ≤ t

theorem times_shown (m : List (Int × MetricInput α)) :
    (shown m).map Prod.fst = (recent m).rtake MAX_SAMPLES := by
  unfold shown recent newest sorted List.rtake
  rw [List.map_drop, List.filter_map, List.length_map]
  rfl

theorem shown_subset {e : Int × MetricInput α} (h : e ∈ shown m) : e ∈ m := by
  unfold shown List.rtake at h
  have hsorted := List.mem_of_mem_filter (List.mem_of_mem_drop h)
  exact (List.mergeSort_perm m _).mem_iff.mp hsorted

theorem perm_keys (m : List (Int × MetricInput α)) :
    ((sorted m).map Prod.fst).Perm (m.map Prod.fst) :=
  (List.mergeSort_perm m _).map Prod.fst

theorem increasing_sorted (h : (m.map Prod.fst).Nodup) :
    ((sorted m).map Prod.fst).Pairwise fun a b => a < b := by
  have hle : (sorted m).Pairwise fun a b => decide (a.1 ≤ b.1) = true := by
    refine List.pairwise_mergeSort ?_ ?_ m
    · intro a b c hab hbc
      simp only [decide_eq_true_eq] at hab hbc ⊢
      exact le_trans hab hbc
    · intro a b
      simp only [Bool.or_eq_true, decide_eq_true_eq]
      exact le_total a.1 b.1
  have hpair : ((sorted m).map Prod.fst).Pairwise fun a b => a ≤ b := by
    rw [List.pairwise_map]
    exact hle.imp fun hab => of_decide_eq_true hab
  have hne : ((sorted m).map Prod.fst).Pairwise fun a b => a ≠ b :=
    (perm_keys m).nodup_iff.mpr h
  exact (hpair.and hne).imp fun hab => lt_of_le_of_ne hab.1 hab.2

theorem increasing_recent (h : (m.map Prod.fst).Nodup) :
    (recent m).Pairwise fun a b => a < b :=
  (increasing_sorted h).sublist List.filter_sublist

theorem increasing_shown (h : (m.map Prod.fst).Nodup) :
    ((shown m).map Prod.fst).Pairwise fun a b => a < b := by
  rw [times_shown]
  exact (increasing_recent h).sublist (List.drop_sublist _ _)

/-- The newest time, if there is any. -/
theorem newest_spec (h : (m.map Prod.fst).Nodup) (hne : m ≠ []) :
    newest m ∈ m.map Prod.fst ∧ ∀ u ∈ m.map Prod.fst, u ≤ newest m := by
  have hsorted := increasing_sorted h
  have hperm := perm_keys m
  have hlast : ((sorted m).map Prod.fst).getLast? = some (newest m) := by
    cases hget : (sorted m).getLast? with
    | none =>
      rw [List.getLast?_eq_none_iff.mp hget, List.map_nil] at hperm
      exact absurd (List.map_eq_nil_iff.mp hperm.symm.eq_nil) hne
    | some e =>
      unfold newest
      rw [List.getLast?_map, hget]
      rfl
  obtain ⟨before, hbefore⟩ := List.getLast?_eq_some_iff.mp hlast
  rw [hbefore] at hsorted hperm
  refine ⟨hperm.mem_iff.mp (by simp), ?_⟩
  intro u hu
  rcases List.mem_append.mp (hperm.mem_iff.mpr hu) with hu | hu
  · exact le_of_lt ((List.pairwise_append.mp hsorted).2.2 u hu _ List.mem_cons_self)
  · exact le_of_eq (List.mem_singleton.mp hu)

theorem mem_recent (h : (m.map Prod.fst).Nodup) : t ∈ recent m ↔
    t ∈ m.map Prod.fst ∧ ∀ u ∈ m.map Prod.fst, u - HISTORY_MS ≤ t := by
  unfold recent
  rw [List.mem_filter, (perm_keys m).mem_iff, decide_eq_true_eq]
  constructor
  · rintro ⟨ht, hnewest⟩
    refine ⟨ht, ?_⟩
    intro u hu
    have hne : m ≠ [] := by
      rintro rfl
      cases ht
    have hle := (newest_spec h hne).2 u hu
    omega
  · rintro ⟨ht, hall⟩
    have hne : m ≠ [] := by
      rintro rfl
      cases ht
    exact ⟨ht, hall _ (newest_spec h hne).1⟩

/-- What is shown are the times to be shown that are inside the limits. -/
theorem mem_times (h : (m.map Prod.fst).Nodup) : t ∈ (shown m).map Prod.fst ↔
    t ∈ m.map Prod.fst ∧ (∀ u ∈ m.map Prod.fst, u - HISTORY_MS ≤ t) ∧
      ((m.map Prod.fst).filter fun u => t < u).length < MAX_SAMPLES := by
  rw [times_shown, Latest.mem_rtake (increasing_recent h), mem_recent h, and_assoc]
  refine and_congr_right fun ht => and_congr_right fun hall => ?_
  -- what is greater is inside the limit as well
  have hfilter : (recent m).filter (fun u => t < u) =
      ((sorted m).map Prod.fst).filter fun u => t < u := by
    unfold recent
    rw [List.filter_filter]
    refine List.filter_congr ?_
    intro u hu
    have hne : m ≠ [] := by
      rintro rfl
      cases ht
    have hcut := hall _ (newest_spec h hne).1
    rw [Bool.eq_iff_iff, Bool.and_eq_true, decide_eq_true_eq, decide_eq_true_eq]
    constructor
    · exact fun hboth => hboth.1
    · exact fun hlt => ⟨hlt, le_trans hcut (le_of_lt hlt)⟩
  rw [hfilter, ((perm_keys m).filter _).length_eq]

/-- Fewer times that still have all that are shown are shown alike. -/
theorem times_shown_again (h : (m.map Prod.fst).Nodup) (h' : (m'.map Prod.fst).Nodup)
    (hsub : ∀ t ∈ m'.map Prod.fst, t ∈ m.map Prod.fst)
    (hshown : ∀ t ∈ (shown m).map Prod.fst, t ∈ m'.map Prod.fst) :
    (shown m').map Prod.fst = (shown m).map Prod.fst := by
  by_cases hm : m = []
  · have hm' : m' = [] := by
      rw [hm] at hsub
      cases m' with
      | nil => rfl
      | cons e m' => exact absurd (hsub e.1 List.mem_cons_self) List.not_mem_nil
    rw [hm, hm']
  · -- the newest time is shown, so both have the same limit
    have hnewest : newest m ∈ (shown m).map Prod.fst := by
      refine (mem_times h).mpr ⟨(newest_spec h hm).1, ?_, ?_⟩
      · intro u hu
        have hle := (newest_spec h hm).2 u hu
        unfold HISTORY_MS
        omega
      · have hnone : ((m.map Prod.fst).filter fun u => newest m < u) = [] := by
          refine List.filter_eq_nil_iff.mpr ?_
          intro u hu
          simpa using (newest_spec h hm).2 u hu
        rw [hnone]
        decide
    have hrecent : ∀ t, t ∈ recent m' → t ∈ recent m := by
      intro t ht
      obtain ⟨hmem, hall⟩ := (mem_recent h').mp ht
      refine (mem_recent h).mpr ⟨hsub t hmem, ?_⟩
      intro u hu
      have hle := (newest_spec h hm).2 u hu
      have hcut := hall _ (hshown _ hnewest)
      omega
    rw [times_shown, times_shown]
    refine Latest.rtake_of_between (increasing_recent h) ?_ ?_
    · exact List.sublist_of_subperm_of_pairwise
        (List.subperm_of_subset ((increasing_recent h').imp ne_of_lt) hrecent)
        (increasing_recent h') (increasing_recent h)
    · intro t ht
      rw [← times_shown] at ht
      refine (mem_recent h').mpr ⟨hshown t ht, ?_⟩
      intro u hu
      exact ((mem_times h).mp ht).2.1 u (hsub u hu)

end

/-! ## Samples one behind the other -/

section
variable {α : Type} [Field α] [LinearOrder α] {previous : List (MetricSample α)}
  {saved : List (SavedSample α)} {last : Option (MetricSample α)}
  {es : List (Int × MetricInput α)} {s : MetricSample α}

/-- Each sample is made behind the one before. -/
def chain (last : Option (MetricSample α)) : List (Int × MetricInput α) → List (MetricSample α)
  | [] => []
  | e :: es => makeSample last e.2 e.1 :: chain (some (makeSample last e.2 e.1)) es

theorem foldl_chain (es : List (Int × MetricInput α)) (result : List (MetricSample α)) :
    es.foldl (fun result e => result ++ [makeSample result.getLast? e.2 e.1]) result =
      result ++ chain result.getLast? es := by
  induction es generalizing result with
  | nil => exact (List.append_nil result).symm
  | cons e es ih =>
    rw [List.foldl_cons, ih, List.getLast?_concat, List.append_assoc, List.singleton_append, chain]

theorem restoreHistory_eq (previous : List (MetricSample α)) (saved : List (SavedSample α)) :
    restoreHistory previous saved = chain none (shown (merged previous saved)) := by
  unfold restoreHistory
  rw [foldl_chain, List.nil_append, List.getLast?_nil]

theorem times_chain : (chain last es).map MetricSample.at' = es.map Prod.fst := by
  induction es generalizing last with
  | nil => rfl
  | cons e es ih =>
    rw [chain, List.map_cons, List.map_cons, ih]
    rfl

theorem mem_zip_chain {p : (Int × MetricInput α) × MetricSample α}
    (h : p ∈ es.zip (chain last es)) : p.1 ∈ es ∧ p.2 ∈ chain last es ∧ p.2.at' = p.1.1 := by
  refine ⟨(List.of_mem_zip h).1, (List.of_mem_zip h).2, ?_⟩
  induction es generalizing last with
  | nil => cases h
  | cons e es ih =>
    rw [chain, List.zip_cons_cons] at h
    rcases List.mem_cons.mp h with rfl | h
    · rfl
    · exact ih h

/-- A sample is made of its entry, behind the sample that comes before it. -/
theorem chain_split {before after : List (MetricSample α)}
    (h : chain last es = before ++ s :: after) :
    ∃ e ∈ es, s = makeSample (before.getLast?.or last) e.2 e.1 := by
  induction es generalizing last before with
  | nil =>
    rw [chain] at h
    cases before with
    | nil => cases h
    | cons b before => cases h
  | cons e es ih =>
    rw [chain] at h
    cases before with
    | nil =>
      rw [List.nil_append, List.cons.injEq] at h
      exact ⟨e, List.mem_cons_self, h.1.symm⟩
    | cons b before =>
      rw [List.cons_append, List.cons.injEq] at h
      obtain ⟨f, hf, hs⟩ := ih h.2
      refine ⟨f, List.mem_cons_of_mem e hf, ?_⟩
      rw [hs, h.1, List.getLast?_cons]
      cases before.getLast? with
      | none => rfl
      | some a => rfl

theorem mem_chain (h : s ∈ chain last es) : ∃ (before : Option (MetricSample α)),
    ∃ e ∈ es, s = makeSample before e.2 e.1 := by
  obtain ⟨before, after, hsplit⟩ := List.append_of_mem h
  obtain ⟨e, he, hs⟩ := chain_split hsplit
  exact ⟨_, e, he, hs⟩

variable [IsStrictOrderedRing α]

/-- With the same entry or with the sample itself in each place, the samples are the same. -/
theorem chain_again {es' : List (Int × MetricInput α)}
    (h : List.Forall₂ (fun (p : (Int × MetricInput α) × MetricSample α) e' =>
      e'.1 = p.1.1 ∧ (e'.2 = p.1.2 ∨ e'.2 = inputOf p.2)) (es.zip (chain last es)) es') :
    chain last es' = chain last es := by
  induction es generalizing last es' with
  | nil =>
    cases h
    rfl
  | cons e es ih =>
    rw [chain, List.zip_cons_cons] at h
    cases h with
    | cons hhead htail =>
      obtain ⟨htime, hdata⟩ := hhead
      rename_i e' es'
      have hsame : makeSample last e'.2 e'.1 = makeSample last e.2 e.1 := by
        rw [htime]
        rcases hdata with heq | heq
        · rw [heq]
        · rw [heq]
          exact makeSample_inputOf
      rw [chain, chain, hsame, ih htail]

end

/-- Lists that are alike in one respect, element by element. -/
theorem forall₂_of_map_eq {α β γ : Type} {f : α → γ} {g : β → γ} {as : List α} {bs : List β}
    (h : as.map f = bs.map g) {S : α → β → Prop}
    (hmem : ∀ a ∈ as, ∀ b ∈ bs, f a = g b → S a b) : List.Forall₂ S as bs := by
  induction as generalizing bs with
  | nil =>
    rw [List.map_eq_nil_iff.mp h.symm]
    exact .nil
  | cons a as ih =>
    cases bs with
    | nil => cases h
    | cons b bs =>
      obtain ⟨hab, htail⟩ := List.cons.inj h
      refine .cons (hmem a List.mem_cons_self b List.mem_cons_self hab) (ih htail ?_)
      intro a ha b hb
      exact hmem _ (List.mem_cons_of_mem _ ha) _ (List.mem_cons_of_mem _ hb)

/-! ## Restoring again -/

theorem unique_of_increasing {α : Type} {samples : List (MetricSample α)}
    (h : samples.Pairwise fun a b => a.at' < b.at') {p q : MetricSample α} (hp : p ∈ samples)
    (hq : q ∈ samples) (heq : p.at' = q.at') : p = q := by
  have hnodup : (samples.map MetricSample.at').Nodup := by
    rw [List.Nodup, List.pairwise_map]
    exact h.imp fun hab => ne_of_lt hab
  exact List.inj_on_of_nodup_map hnodup hp hq heq

section
variable {α : Type} [Field α] {previous : List (MetricSample α)} {saved : List (SavedSample α)}
  {t : Int}

/-- What a live sample was made into is what is entered for its time. -/
theorem last_liveEntries (h : previous.Pairwise fun a b => a.at' < b.at') {p : MetricSample α}
    (hp : p ∈ previous) (hlive : summarized saved (minuteOf p.at') = false) :
    Dict.last p.at' (liveEntries previous saved) = some (inputOf p) := by
  refine Dict.last_of_nodup ?_ ?_
  · unfold liveEntries live
    rw [List.map_map, List.Nodup]
    change List.Pairwise _ (List.map MetricSample.at' _)
    rw [List.pairwise_map]
    exact (h.sublist List.filter_sublist).imp fun hab => ne_of_lt hab
  · refine List.mem_map.mpr ⟨p, List.mem_filter.mpr ⟨hp, ?_⟩, rfl⟩
    rw [hlive]
    rfl

theorem last_liveEntries_none (h : ∀ p ∈ previous, summarized saved (minuteOf p.at') = false →
    p.at' ≠ t) : Dict.last t (liveEntries previous saved) = none := by
  rw [Dict.last_eq_none]
  unfold liveEntries live
  rw [List.map_map]
  intro hmem
  obtain ⟨p, hp, hpt⟩ := List.mem_map.mp hmem
  obtain ⟨hp, hlive⟩ := List.mem_filter.mp hp
  rw [Bool.not_eq_true'] at hlive
  exact h p hp hlive hpt

/-- An entry is a live sample, or what was saved last for a time that no live one has. -/
theorem merged_cases {d : MetricInput α} (h : (t, d) ∈ merged previous saved) :
    (∃ p ∈ previous, summarized saved (minuteOf p.at') = false ∧ p.at' = t ∧ d = inputOf p) ∨
      ((∀ p ∈ previous, summarized saved (minuteOf p.at') = false → p.at' ≠ t) ∧
        Dict.last t (savedEntries saved) = some d) := by
  have hlast := mem_merged.mp h
  cases hlive : Dict.last t (liveEntries previous saved) with
  | some d' =>
    rw [hlive, Option.some_or, Option.some.injEq] at hlast
    have hmem := Dict.mem_of_last hlive
    unfold liveEntries live at hmem
    obtain ⟨p, hp, heq⟩ := List.mem_map.mp hmem
    obtain ⟨hp, hminute⟩ := List.mem_filter.mp hp
    rw [Bool.not_eq_true'] at hminute
    rw [Prod.mk.injEq] at heq
    exact Or.inl ⟨p, hp, hminute, heq.1, hlast.symm.trans heq.2.symm⟩
  | none =>
    rw [hlive, Option.none_or] at hlast
    refine Or.inr ⟨?_, hlast⟩
    intro p hp hminute heq
    refine (Dict.last_eq_none.mp hlive) ?_
    unfold liveEntries live
    rw [List.map_map, ← heq]
    refine List.mem_map_of_mem (f := fun p => p.at') (List.mem_filter.mpr ⟨hp, ?_⟩)
    rw [hminute]
    rfl

variable [LinearOrder α]

theorem times_restore : (restoreHistory previous saved).map MetricSample.at' =
    (shown (merged previous saved)).map Prod.fst := by
  rw [restoreHistory_eq, times_chain]

theorem increasing_restore (previous : List (MetricSample α)) (saved : List (SavedSample α)) :
    (restoreHistory previous saved).Pairwise fun a b => a.at' < b.at' := by
  have hnodup : ((merged previous saved).map Prod.fst).Nodup := nodup_merged
  have h := increasing_shown hnodup
  rw [← times_restore, List.pairwise_map] at h
  exact h

/-- The samples that are shown again are no others, but all that were shown. -/
theorem times_again : (shown (merged (restoreHistory previous saved) saved)).map Prod.fst =
    (shown (merged previous saved)).map Prod.fst := by
  have hold : ∀ s ∈ restoreHistory previous saved, s.at' ∈ wanted previous saved := by
    intro s hs
    have htime := List.mem_map_of_mem (f := MetricSample.at') hs
    rw [times_restore] at htime
    obtain ⟨e, he, heq⟩ := List.mem_map.mp htime
    rw [← heq]
    exact mem_keys_merged.mp (List.mem_map_of_mem (shown_subset he))
  refine times_shown_again nodup_merged nodup_merged ?_ ?_
  · intro t ht
    refine mem_keys_merged.mpr ?_
    rcases mem_wanted.mp (mem_keys_merged.mp ht) with hsaved | ⟨s, hs, -, rfl⟩
    · exact mem_wanted.mpr (Or.inl hsaved)
    · exact hold s hs
  · intro t ht
    refine mem_keys_merged.mpr (mem_wanted.mpr ?_)
    rw [← times_restore] at ht
    obtain ⟨s, hs, rfl⟩ := List.mem_map.mp ht
    rcases mem_wanted.mp (hold s hs) with hsaved | ⟨p, -, hlive, heq⟩
    · exact Or.inl hsaved
    · rw [heq] at hlive
      exact Or.inr ⟨s, hs, hlive, rfl⟩

variable [IsStrictOrderedRing α]

theorem restoreHistory_again :
    restoreHistory (restoreHistory previous saved) saved = restoreHistory previous saved := by
  have hentries : (((shown (merged previous saved)).zip
      (chain none (shown (merged previous saved)))).map fun p => p.1.1) =
        (shown (merged (restoreHistory previous saved) saved)).map Prod.fst := by
    have hlength : (chain none (shown (merged previous saved))).length =
        (shown (merged previous saved)).length := by
      calc (chain none (shown (merged previous saved))).length
          = ((chain none (shown (merged previous saved))).map MetricSample.at').length :=
            List.length_map _ |>.symm
        _ = ((shown (merged previous saved)).map Prod.fst).length := by rw [times_chain]
        _ = (shown (merged previous saved)).length := List.length_map _
    calc _ = (((shown (merged previous saved)).zip
          (chain none (shown (merged previous saved)))).map Prod.fst).map Prod.fst :=
            List.map_map.symm
      _ = (shown (merged previous saved)).map Prod.fst := by
            rw [List.map_fst_zip (Nat.le_of_eq hlength.symm)]
      _ = _ := times_again.symm
  rw [restoreHistory_eq (restoreHistory previous saved) saved, restoreHistory_eq previous saved]
  rw [restoreHistory_eq previous saved] at hentries
  refine chain_again (forall₂_of_map_eq hentries ?_)
  rintro p hp e' he' heq
  refine ⟨heq.symm, ?_⟩
  obtain ⟨hentry, hsample, htime⟩ := mem_zip_chain hp
  have hmerged : (p.1.1, p.1.2) ∈ merged previous saved := shown_subset hentry
  have hmerged' : (e'.1, e'.2) ∈ merged (chain none (shown (merged previous saved))) saved :=
    shown_subset he'
  have hincreasing := increasing_restore previous saved
  rw [restoreHistory_eq] at hincreasing
  rcases merged_cases hmerged' with ⟨q, hq, hlive, hqt, hdata⟩ | ⟨hnolive, hsaved⟩
  · -- the sample itself
    right
    rw [hdata, unique_of_increasing hincreasing hq hsample (hqt.trans (heq.symm.trans htime.symm))]
  · left
    rcases merged_cases hmerged with ⟨q, -, hlive, hqt, -⟩ | ⟨-, hsaved'⟩
    · rw [hqt, ← htime] at hlive
      exact absurd (htime.trans heq) (hnolive p.2 hsample hlive)
    · rw [← heq, hsaved'] at hsaved
      exact (Option.some.inj hsaved).symm

end

/-! ## What a sample shows -/

section
variable {α : Type}

def counters (network : List (String × Net α)) : List (String × α × α) :=
  network.map fun n => (n.1, n.2.received, n.2.sent)

/-- The sample carries what this one does; its rates too, where they are those of a summary. -/
structure Same (s p : MetricSample α) : Prop where
  resolution : s.resolutionMs = p.resolutionMs
  incomplete : s.incomplete = p.incomplete
  cpu : s.cpu = p.cpu
  memory : s.memory = p.memory
  load : s.load = p.load
  uptime : s.uptime = p.uptime
  counters : counters s.network = counters p.network
  rates : p.resolutionMs = some 60000 → s.network = p.network

/-- The sample shows the saved data. -/
structure Shows [Field α] [LinearOrder α] (s : MetricSample α) (d : MetricInput α) : Prop where
  resolution : s.resolutionMs = some (d.resolutionMs.getD 10000)
  incomplete : s.incomplete = some (if d.gap = some true then 1 else 0)
  cpu : s.cpu = d.cpu
  memory : s.memory = if d.memoryTotal ≠ 0 then d.memoryUsed / d.memoryTotal * 100 else 0
  load : s.load = d.load.head?
  uptime : s.uptime = d.uptime
  counters : counters s.network =
    (Dict.ofEntries d.network).map fun n => (n.1, n.2.received, n.2.sent)
  rates : d.resolutionMs = some 60000 →
    s.network = (Dict.ofEntries d.network).map fun n =>
      (n.1, ⟨n.2.received, n.2.sent, n.2.rx, n.2.tx⟩)

/-- A sample of a reading, and not of a whole minute. -/
def Raw (s : MetricSample α) : Prop := s.resolutionMs = some 10000

variable [Field α] [LinearOrder α]

/-- Each rate is one of a summary, or comes from the reading just before by its counters. -/
def RatesHold (samples : List (MetricSample α)) : Prop :=
  ∀ before s after, samples = before ++ s :: after → ∀ name n, (name, n) ∈ s.network →
    ∀ key r, n.rate key = some r → s.resolutionMs = some 60000 ∨
      ∃ q old, before.getLast? = some q ∧ Raw q ∧ Raw s ∧ s.at' - q.at' ≤ GAP_MS ∧
        q.uptime ≤ s.uptime ∧ (name, old) ∈ q.network ∧ old.counter key ≤ n.counter key ∧
        r = (n.counter key - old.counter key) /
          (((s.at' - q.at' : Int) : α) / ((1000 : Int) : α))

/-- The sample was made of a reading or of a summary. -/
def Made (s : MetricSample α) : Prop :=
  ∃ last input at', Reading input ∧ s = makeSample last input at'

theorem Made.resolution {s : MetricSample α} (h : Made s) :
    s.resolutionMs = some 10000 ∨ s.resolutionMs = some 60000 := by
  obtain ⟨last, input, at', hreading, rfl⟩ := h
  show some (input.resolutionMs.getD 10000) = _ ∨ some (input.resolutionMs.getD 10000) = _
  rcases hreading with hnone | hraw | hsummary
  · rw [hnone]
    exact Or.inl rfl
  · rw [hraw]
    exact Or.inl rfl
  · rw [hsummary]
    exact Or.inr rfl

theorem Made.reading {s : MetricSample α} (h : Made s) : Reading (inputOf s) := by
  rcases h.resolution with hraw | hsummary
  · exact Or.inr (Or.inl hraw)
  · exact Or.inr (Or.inr hsummary)

theorem Made.nodup {s : MetricSample α} (h : Made s) : (s.network.map Prod.fst).Nodup := by
  obtain ⟨last, input, at', -, rfl⟩ := h
  exact nodup_network last input at'

theorem counters_makeSample (last : Option (MetricSample α)) (input : MetricInput α) (at' : Int) :
    counters (makeSample last input at').network =
      (Dict.ofEntries input.network).map fun n => (n.1, n.2.received, n.2.sent) := by
  rw [network_makeSample]
  unfold counters
  rw [List.map_map]
  rfl

theorem rates_makeSample (last : Option (MetricSample α)) {input : MetricInput α} (at' : Int)
    (h : input.resolutionMs = some 60000) : (makeSample last input at').network =
      (Dict.ofEntries input.network).map fun n =>
        (n.1, ⟨n.2.received, n.2.sent, n.2.rx, n.2.tx⟩) := by
  rw [network_makeSample]
  refine List.map_congr_left ?_
  intro n hn
  unfold makeNet
  rw [if_pos h, if_pos h]

theorem shows_makeSample (last : Option (MetricSample α)) (input : MetricInput α) (at' : Int) :
    Shows (makeSample last input at') input where
  resolution := rfl
  incomplete := rfl
  cpu := rfl
  memory := rfl
  load := rfl
  uptime := rfl
  counters := counters_makeSample last input at'
  rates := rates_makeSample last at'

theorem same_makeSample [IsStrictOrderedRing α] (last : Option (MetricSample α))
    {p : MetricSample α} (hp : Made p) (at' : Int) : Same (makeSample last (inputOf p) at') p := by
  have hnetwork := network_inputOf hp.nodup
  have hnets : ∀ {γ : Type} (f : String → α → α → Option α → Option α → γ),
      ((Dict.ofEntries (inputOf p).network).map fun n =>
        f n.1 n.2.received n.2.sent n.2.rx n.2.tx) =
      p.network.map fun n => f n.1 n.2.received n.2.sent n.2.rx n.2.tx := by
    intro γ f
    rw [hnetwork]
    unfold inputOf
    rw [List.map_map]
    rfl
  constructor
  · obtain ⟨last', input, at'', -, rfl⟩ := hp
    rfl
  · obtain ⟨last', input, at'', -, rfl⟩ := hp
    show some (if some (decide _) = some true then 1 else 0) = some (if _ then 1 else 0)
    by_cases hgap : input.gap = some true
    · simp [makeSample, hgap]
    · simp [makeSample, hgap]
  · rfl
  · exact memory_inputOf p.memory
  · exact head?_toList p.load
  · rfl
  · rw [counters_makeSample]
    exact hnets fun name received sent _ _ => (name, received, sent)
  · intro hsummary
    rw [rates_makeSample last at' hsummary]
    exact (hnets fun name received sent rx tx => (name, Net.mk received sent rx tx)).trans
      (List.map_id _)

/-- A rate that is there goes on from the reading before. -/
theorem rate_some {last : Option (MetricSample α)} {input : MetricInput α} {at' : Int}
    {name : String} {n : NetInput α} {key : Key} {r : α}
    (h : rate last input at' name n key = some r) :
    ∃ q old, last = some q ∧ q.resolutionMs.getD 10000 = 10000 ∧ at' - q.at' ≤ GAP_MS ∧
      q.uptime ≤ input.uptime ∧ (name, old) ∈ q.network ∧ old.counter key ≤ n.counter key ∧
      r = (n.counter key - old.counter key) / (((at' - q.at' : Int) : α) / ((1000 : Int) : α)) := by
  unfold rate at h
  obtain ⟨old, hold, hr⟩ := Option.bind_eq_some_iff.mp h
  unfold oldNetwork at hold
  obtain ⟨q, rfl, hq⟩ := Option.bind_eq_some_iff.mp hold
  split at hq
  · rename_i hcontinuous
    unfold continuous at hcontinuous
    obtain ⟨hraw, hgap, huptime⟩ := of_decide_eq_true hcontinuous
    split at hr
    · rename_i hle
      refine ⟨q, old, rfl, hraw, hgap, huptime, Dict.mem_of_last hq, hle, ?_⟩
      rw [Int.cast_ofNat]
      exact (Option.some.inj hr).symm
    · cases hr
  · cases hq

theorem rate_makeNet {last : Option (MetricSample α)} {input : MetricInput α} {at' : Int}
    {name : String} {n : NetInput α} {key : Key} {r : α}
    (h : (makeNet last input at' name n).rate key = some r)
    (hraw : input.resolutionMs ≠ some 60000) : rate last input at' name n key = some r := by
  unfold makeNet at h
  rw [if_neg hraw, if_neg hraw] at h
  cases key with
  | received => exact h
  | sent => exact h

end

/-! ## What is displayed -/

section
variable {α : Type} [Field α] [LinearOrder α] {previous : List (MetricSample α)}
  {saved : List (SavedSample α)}

/-- What every list that is displayed is like. -/
structure Sound (samples : List (MetricSample α)) : Prop where
  increasing : samples.Pairwise fun a b => a.at' < b.at'
  made : ∀ s ∈ samples, Made s

theorem Sound.add (h : Sound previous) {live : MetricInput α} (hlive : Reading live) (at' : Int) :
    Sound (addSample previous live at') := by
  have happend : ∀ last : Option (MetricSample α), (∀ p ∈ previous, p.at' < at') →
      Sound (((previous.filter fun p => at' - p.at' ≤ HISTORY_MS) ++
        [makeSample last live at']).rtake MAX_SAMPLES) := by
    intro last hbefore
    constructor
    · refine List.Pairwise.sublist (List.drop_sublist _ _) ?_
      refine List.pairwise_append.mpr
        ⟨h.increasing.sublist List.filter_sublist, List.pairwise_singleton _ _, ?_⟩
      intro p hp s hs
      rw [List.mem_singleton.mp hs]
      exact hbefore p (List.mem_of_mem_filter hp)
    · intro s hs
      rcases List.mem_append.mp (List.mem_of_mem_drop hs) with hp | hnew
      · exact h.made s (List.mem_of_mem_filter hp)
      · rw [List.mem_singleton.mp hnew]
        exact ⟨last, live, at', hlive, rfl⟩
  unfold addSample
  cases hlast : previous.getLast? with
  | none =>
    refine happend none ?_
    rw [List.getLast?_eq_none_iff.mp hlast]
    intro p hp
    cases hp
  | some last =>
    show Sound (if _ then _ else _)
    split
    · exact h
    · rename_i hlate
      refine happend (some last) ?_
      obtain ⟨before, rfl⟩ := List.getLast?_eq_some_iff.mp hlast
      intro p hp
      rcases List.mem_append.mp hp with hp | hp
      · have hlt := (List.pairwise_append.mp h.increasing).2.2 p hp last List.mem_cons_self
        omega
      · rw [List.mem_singleton.mp hp]
        omega

/-- A restored sample is made of a live one, or of what was saved for its time. -/
theorem restore_split {before after : List (MetricSample α)} {s : MetricSample α}
    (h : restoreHistory previous saved = before ++ s :: after) :
    ∃ d, s = makeSample before.getLast? d s.at' ∧ (s.at', d) ∈ merged previous saved := by
  rw [restoreHistory_eq] at h
  obtain ⟨e, he, hs⟩ := chain_split h
  rw [Option.or_none] at hs
  refine ⟨e.2, ?_, ?_⟩
  · rw [hs]
    rfl
  · rw [hs]
    exact shown_subset he

theorem merged_reading (h : Sound previous) (hsaved : ∀ row ∈ saved, Reading row.data) {t : Int}
    {d : MetricInput α} (hd : (t, d) ∈ merged previous saved) : Reading d := by
  rcases merged_cases hd with ⟨p, hp, -, -, rfl⟩ | ⟨-, hlast⟩
  · exact (h.made p hp).reading
  · obtain ⟨row, hrow, heq⟩ := List.mem_map.mp (Dict.mem_of_last hlast)
    rw [Prod.mk.injEq] at heq
    rw [← heq.2]
    exact hsaved row hrow

theorem Sound.restore (h : Sound previous) (hsaved : ∀ row ∈ saved, Reading row.data) :
    Sound (restoreHistory previous saved) := by
  refine ⟨increasing_restore previous saved, ?_⟩
  intro s hs
  obtain ⟨before, after, hsplit⟩ := List.append_of_mem hs
  obtain ⟨d, hmade, hd⟩ := restore_split hsplit
  exact ⟨_, d, s.at', merged_reading h hsaved hd, hmade⟩

theorem Built.sound (h : Built previous) : Sound previous := by
  induction h with
  | none => exact ⟨List.Pairwise.nil, by simp⟩
  | received h hlive at' ih => exact ih.add hlive at'
  | answered h hsaved ih => exact ih.restore hsaved

theorem ratesHold_restore (h : Sound previous) (hsaved : ∀ row ∈ saved, Reading row.data) :
    RatesHold (restoreHistory previous saved) := by
  have hsound := h.restore hsaved
  intro before s after hsplit name n hn key r hr
  obtain ⟨d, hmade, hd⟩ := restore_split hsplit
  have hmem : s ∈ restoreHistory previous saved := by
    rw [hsplit]
    exact List.mem_append_right before List.mem_cons_self
  rcases (hsound.made s hmem).resolution with hraw | hsummary
  · right
    have hdraw : d.resolutionMs ≠ some 60000 := by
      intro hd60
      rw [hmade] at hraw
      change some (d.resolutionMs.getD 10000) = some 10000 at hraw
      rw [hd60] at hraw
      exact absurd hraw (by decide)
    have hnet : ∃ input, n = makeNet before.getLast? d s.at' name input := by
      rw [hmade, network_makeSample] at hn
      obtain ⟨e, -, heq⟩ := List.mem_map.mp hn
      rw [Prod.mk.injEq] at heq
      rw [← heq.1, ← heq.2]
      exact ⟨e.2, rfl⟩
    obtain ⟨input, rfl⟩ := hnet
    obtain ⟨q, old, hq, hqraw, hgap, huptime, hold, hle, rfl⟩ := rate_some (rate_makeNet hr hdraw)
    have hqmem : q ∈ restoreHistory previous saved := by
      rw [hsplit]
      exact List.mem_append_left _ (List.mem_of_getLast? hq)
    have hqres : Raw q := by
      rcases (hsound.made q hqmem).resolution with hres | hres
      · exact hres
      · rw [hres] at hqraw
        exact absurd hqraw (by decide)
    have hcounter : (makeNet before.getLast? d s.at' name input).counter key =
        input.counter key := by
      cases key with
      | received => rfl
      | sent => rfl
    have hsuptime : s.uptime = d.uptime := congrArg MetricSample.uptime hmade
    refine ⟨q, old, hq, hqres, hraw, hgap, ?_, hold, ?_, ?_⟩
    · rw [hsuptime]
      exact huptime
    · rw [hcounter]
      exact hle
    · rw [hcounter]
  · exact Or.inl hsummary

theorem card_filter {keys keys' : List Int} (hnodup : keys.Nodup)
    (h : ∀ t, t ∈ keys ↔ t ∈ keys') (p : Int → Prop) [DecidablePred p] :
    (keys.filter fun t => p t).length = (keys'.toFinset.filter p).card := by
  have hset : keys'.toFinset.filter p = (keys.filter fun t => p t).toFinset := by
    ext t
    simp [h]
  rw [hset, List.toFinset_card_of_nodup (hnodup.filter _)]

theorem mem_times_restore {t : Int} :
    (∃ s ∈ restoreHistory previous saved, s.at' = t) ↔
      t ∈ wanted previous saved ∧ (∀ u ∈ wanted previous saved, u - HISTORY_MS ≤ t) ∧
        ((wanted previous saved).toFinset.filter fun u => t < u).card < MAX_SAMPLES := by
  rw [← List.mem_map, times_restore, mem_times nodup_merged, mem_keys_merged,
    card_filter nodup_merged fun t => mem_keys_merged]
  simp only [mem_keys_merged]

/-- Saved samples are merged into what is displayed.

    The result is in strict order of time. But for the limits it has one sample for each time of
    a saved row, and of a live sample of a minute with no saved summary. Where there is such a
    live sample, it is the one that is shown, and the saved row elsewhere. Rates come from a
    reading and the one before it, or from a summary. Merging the same rows again changes
    nothing. -/
theorem restore_merges [IsStrictOrderedRing α] (hbuilt : Built previous)
    (hsaved : ∀ row ∈ saved, Reading row.data) :
    (restoreHistory previous saved).Pairwise (fun a b => a.at' < b.at') ∧
    (∀ t, (∃ s ∈ restoreHistory previous saved, s.at' = t) ↔
      ((∃ row ∈ saved, row.at' = t) ∨
        ∃ p ∈ previous, summarized saved (minuteOf p.at') = false ∧ p.at' = t) ∧
      (∀ u ∈ wanted previous saved, u - HISTORY_MS ≤ t) ∧
      ((wanted previous saved).toFinset.filter fun u => t < u).card < MAX_SAMPLES) ∧
    (∀ s ∈ restoreHistory previous saved,
      (∃ p ∈ previous, summarized saved (minuteOf p.at') = false ∧ p.at' = s.at' ∧ Same s p) ∨
      ((∀ p ∈ previous, summarized saved (minuteOf p.at') = false → p.at' ≠ s.at') ∧
        ∃ row ∈ saved, row.at' = s.at' ∧ Shows s row.data)) ∧
    RatesHold (restoreHistory previous saved) ∧
    restoreHistory (restoreHistory previous saved) saved = restoreHistory previous saved := by
  have hsound := hbuilt.sound
  refine ⟨increasing_restore previous saved, ?_, ?_, ratesHold_restore hsound hsaved,
    restoreHistory_again⟩
  · intro t
    rw [mem_times_restore, mem_wanted]
  · intro s hs
    obtain ⟨before, after, hsplit⟩ := List.append_of_mem hs
    obtain ⟨d, hmade, hd⟩ := restore_split hsplit
    rcases merged_cases hd with ⟨p, hp, hlive, hpt, rfl⟩ | ⟨hnolive, hlast⟩
    · left
      refine ⟨p, hp, hlive, hpt, ?_⟩
      rw [hmade]
      exact same_makeSample _ (hsound.made p hp) _
    · right
      refine ⟨hnolive, ?_⟩
      obtain ⟨row, hrow, heq⟩ := List.mem_map.mp (Dict.mem_of_last hlast)
      rw [Prod.mk.injEq] at heq
      refine ⟨row, hrow, heq.1, ?_⟩
      rw [hmade, heq.2]
      exact shows_makeSample _ d _

theorem late_answer_merged :
    let received : MetricInput ℚ := ⟨1, 2, 4, [3], 5, none, none, [("eth0", ⟨7, 8, none, none⟩)]⟩
    let displayed := addSample [] received 10000
    let saved : List (SavedSample ℚ) := [⟨5000, received⟩, ⟨10000, { received with cpu := 9 }⟩]
    (restoreHistory displayed saved).Pairwise (fun a b => a.at' < b.at') ∧
      restoreHistory (restoreHistory displayed saved) saved = restoreHistory displayed saved := by
  intro received displayed saved
  have hsaved : ∀ row ∈ saved, Reading row.data := by
    intro row hrow
    rcases List.mem_cons.mp hrow with rfl | hrow
    · exact Or.inl rfl
    · rw [List.mem_singleton.mp hrow]
      exact Or.inl rfl
  have hreading : Reading received := Or.inl rfl
  have hmerges := restore_merges (Built.received Built.none hreading 10000) hsaved
  exact ⟨hmerges.1, hmerges.2.2.2.2⟩

end

end Porthop.Metrics.Display
