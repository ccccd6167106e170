import Porthop.Agent.ShellSetup

/- What merging the block into a text gives: the lines outside the old block stay, and merging
   again changes nothing. -/
namespace Porthop.Agent.ShellSetup

open MessagePack (utf8)
open Inclusive

/-! ## Lines -/

def isStart (line : Text) : Bool := shellStart (trimEnd line)
def isEnd (line : Text) : Bool := shellEnd (trimEnd line)

/-- The line is no marker. -/
def Plain (line : Text) : Prop := isStart line = false ∧ isEnd line = false

/-- The lines of a block, with its markers. -/
def IsBlock (old : List Text) : Prop :=
  ∃ s inner e, old = s :: inner ++ [e] ∧ isStart s = true ∧ isEnd e = true ∧
    ∀ line ∈ inner, Plain line

/-- The text has no markers. -/
def NoMarkers (text : Text) : Prop := ∀ line ∈ lines text, Plain line

/-- The lines of the text are those of one block with others around it that are no markers. -/
structure Around (text : Text) (before old after : List Text) : Prop where
  lines_eq : lines text = before ++ old ++ after
  isBlock : IsBlock old
  plain_before : ∀ line ∈ before, Plain line
  plain_after : ∀ line ∈ after, Plain line

theorem not_both (line : Text) (h : isStart line = true) : isEnd line = false := by
  unfold isStart shellStart at h
  unfold isEnd shellEnd
  rcases Bool.or_eq_true_iff.mp h with hline | hline
  · rw [eq_of_beq hline]
    decide +kernel
  · rw [eq_of_beq hline]
    decide +kernel

theorem isStart_ne_nil {line : Text} (h : isStart line = true) : line ≠ [] := by
  rintro rfl
  revert h
  decide +kernel

theorem isEnd_ne_nil {line : Text} (h : isEnd line = true) : line ≠ [] := by
  rintro rfl
  revert h
  decide +kernel

theorem trimEnd_newline (line : Text) : trimEnd (line ++ [newline]) = trimEnd line := by
  unfold trimEnd
  exact List.rdropWhile_concat_pos _ _ _ rfl

/-- A newline more makes no marker. -/
theorem Plain.newline {line : Text} (h : Plain line) : Plain (line ++ [newline]) := by
  unfold Plain isStart isEnd at h ⊢
  rw [trimEnd_newline]
  exact h

/-! ## The loop -/

theorem next_plain {line : Text} (h : Plain line) (m : Marks) :
    m.next line = { m with offset := m.offset + line.length } := by
  obtain ⟨hstart, hend⟩ := h
  unfold isStart at hstart
  unfold isEnd at hend
  simp [Marks.next, hstart, hend]

theorem next_start {line : Text} (h : isStart line = true) (m : Marks) :
    m.next line = ⟨m.starts ++ [m.offset], m.ends, m.offset + line.length⟩ := by
  unfold isStart at h
  simp [Marks.next, h]

theorem next_end {line : Text} (h : isEnd line = true) (m : Marks) :
    m.next line = ⟨m.starts, m.ends ++ [m.offset + line.length], m.offset + line.length⟩ := by
  have hstart : isStart line = false := by
    by_contra hstart
    rw [not_both line (eq_true_of_ne_false hstart)] at h
    cases h
  unfold isStart at hstart
  unfold isEnd at h
  simp [Marks.next, hstart, h]

/-- Lines that are no markers only move the offset. -/
theorem foldl_plain {ls : List Text} (h : ∀ line ∈ ls, Plain line) (m : Marks) :
    ls.foldl Marks.next m = { m with offset := m.offset + ls.flatten.length } := by
  induction ls generalizing m with
  | nil => rfl
  | cons line ls ih =>
    obtain ⟨hline, hls⟩ := List.forall_mem_cons.mp h
    rw [List.foldl_cons, next_plain hline, ih hls, List.flatten_cons, List.length_append,
      ← Nat.add_assoc]

/-- One start before one end. -/
theorem marks_around {text : Text} {before inner after : List Text} {s e : Text}
    (hlines : lines text = before ++ (s :: inner ++ [e]) ++ after) (hs : isStart s = true)
    (he : isEnd e = true) (hbefore : ∀ line ∈ before, Plain line)
    (hinner : ∀ line ∈ inner, Plain line) (hafter : ∀ line ∈ after, Plain line) :
    (marks text).starts = [before.flatten.length] ∧
      (marks text).ends = [(before ++ (s :: inner ++ [e])).flatten.length] := by
  unfold marks
  rw [hlines, List.foldl_append, List.foldl_append, List.cons_append, List.foldl_cons,
    List.foldl_append, List.foldl_cons, List.foldl_nil, foldl_plain hbefore, next_start hs,
    foldl_plain hinner, next_end he, foldl_plain hafter]
  simp [Nat.add_assoc]

/-- One end before one start. -/
theorem marks_reversed {text : Text} {before mid after : List Text} {s e : Text}
    (hlines : lines text = before ++ e :: (mid ++ s :: after)) (hs : isStart s = true)
    (he : isEnd e = true) (hbefore : ∀ line ∈ before, Plain line)
    (hmid : ∀ line ∈ mid, Plain line) (hafter : ∀ line ∈ after, Plain line) :
    (marks text).starts = [(before ++ e :: mid).flatten.length] ∧
      (marks text).ends = [(before ++ [e]).flatten.length] := by
  unfold marks
  rw [hlines, List.foldl_append, List.foldl_cons, List.foldl_append, List.foldl_cons,
    foldl_plain hbefore, next_end he, foldl_plain hmid, next_start hs, foldl_plain hafter]
  simp [Nat.add_assoc]

theorem length_starts (ls : List Text) (m : Marks) :
    (ls.foldl Marks.next m).starts.length = m.starts.length + ls.countP isStart := by
  induction ls generalizing m with
  | nil => rfl
  | cons line ls ih =>
    rw [List.foldl_cons, ih, List.countP_cons]
    cases hstart : isStart line with
    | true =>
      rw [next_start hstart, if_pos rfl, List.length_append, List.length_singleton]
      omega
    | false =>
      cases hend : isEnd line with
      | true => simp [next_end hend]
      | false => simp [next_plain ⟨hstart, hend⟩]

theorem length_ends (ls : List Text) (m : Marks) :
    (ls.foldl Marks.next m).ends.length = m.ends.length + ls.countP isEnd := by
  induction ls generalizing m with
  | nil => rfl
  | cons line ls ih =>
    rw [List.foldl_cons, ih, List.countP_cons]
    cases hend : isEnd line with
    | true =>
      rw [next_end hend, if_pos rfl, List.length_append, List.length_singleton]
      omega
    | false =>
      cases hstart : isStart line with
      | true => simp [next_start hstart]
      | false => simp [next_plain ⟨hstart, hend⟩]

/-! ## What merging gives -/

theorem marks_plain {text : Text} (h : NoMarkers text) :
    (marks text).starts = [] ∧ (marks text).ends = [] := by
  unfold marks
  rw [foldl_plain h]
  exact ⟨rfl, rfl⟩

/-- What is put between the text and the block. -/
def gap (text : Text) : Text :=
  if text.isEmpty || text.getLast? == some newline then [] else [newline]

theorem merge_plain {text : Text} (h : NoMarkers text) (block : Text) :
    merge text block = .ok (text ++ gap text ++ block) := by
  obtain ⟨hstarts, hends⟩ := marks_plain h
  unfold merge
  rw [hstarts, hends]
  rfl

theorem merge_around {text : Text} {before old after : List Text} (h : Around text before old after)
    (block : Text) : merge text block = .ok (before.flatten ++ block ++ after.flatten) := by
  obtain ⟨s, inner, e, rfl, hs, he, hinner⟩ := h.isBlock
  obtain ⟨hstarts, hends⟩ :=
    marks_around h.lines_eq hs he h.plain_before hinner h.plain_after
  have htext : text = before.flatten ++ (s :: inner ++ [e]).flatten ++ after.flatten := by
    calc text = (lines text).flatten := (flatten_splitInclusive text).symm
      _ = _ := by rw [h.lines_eq, List.flatten_append, List.flatten_append]
  have hpos : 0 < s.length := List.length_pos_of_ne_nil (isStart_ne_nil hs)
  have hlt : before.flatten.length < (before ++ (s :: inner ++ [e])).flatten.length := by
    rw [List.flatten_append, List.length_append, List.cons_append, List.flatten_cons,
      List.length_append]
    omega
  have htake : text.take before.flatten.length = before.flatten := by
    rw [htext, List.append_assoc, List.take_left]
  have hdrop : text.drop (before ++ (s :: inner ++ [e])).flatten.length = after.flatten := by
    rw [htext, ← List.flatten_append, List.drop_left]
  unfold merge
  rw [hstarts, hends]
  show (if _ then _ else _) = _
  rw [if_pos hlt, htake, hdrop]

theorem countP_one {α : Type} {p : α → Bool} {l : List α} (h : l.countP p = 1) :
    ∃ before a after, l = before ++ a :: after ∧ p a = true ∧
      (∀ b ∈ before, p b = false) ∧ ∀ b ∈ after, p b = false := by
  rw [List.countP_eq_length_filter] at h
  obtain ⟨a, ha⟩ := List.length_eq_one_iff.mp h
  obtain ⟨before, after, rfl, hbefore, hpa, hafter⟩ := List.filter_eq_cons_iff.mp ha
  refine ⟨before, a, after, rfl, hpa, ?_, ?_⟩
  · exact fun b hb => eq_false_of_ne_true (hbefore b hb)
  · exact fun b hb => eq_false_of_ne_true (List.filter_eq_nil_iff.mp hafter b hb)

theorem countP_zero {α : Type} {p : α → Bool} {l : List α} (h : l.countP p = 0) :
    ∀ a ∈ l, p a = false :=
  fun a ha => eq_false_of_ne_true (List.countP_eq_zero.mp h a ha)

/-- With one start and one end among the lines, one comes before the other. -/
theorem two_markers {ls : List Text} (hstart : ls.countP isStart = 1) (hend : ls.countP isEnd = 1) :
    ∃ before x mid y after, ls = before ++ x :: (mid ++ y :: after) ∧
      ((isStart x = true ∧ isEnd y = true) ∨ (isEnd x = true ∧ isStart y = true)) ∧
      (∀ line ∈ before, Plain line) ∧ (∀ line ∈ mid, Plain line) ∧ ∀ line ∈ after, Plain line := by
  obtain ⟨left, s, right, rfl, hs, hleft, hright⟩ := countP_one hstart
  rw [List.countP_append, List.countP_cons_of_neg (by simp [not_both s hs])] at hend
  rcases Nat.add_eq_one_iff.mp hend with ⟨hnone, hone⟩ | ⟨hone, hnone⟩
  · -- the end comes behind the start
    obtain ⟨mid, e, after, rfl, he, hmid, hafter⟩ := countP_one hone
    have hnone := countP_zero hnone
    have hright := List.forall_mem_append.mp hright
    refine ⟨left, s, mid, e, after, rfl, Or.inl ⟨hs, he⟩, ?_, ?_, ?_⟩
    · exact fun line hl => ⟨hleft line hl, hnone line hl⟩
    · exact fun line hl => ⟨hright.1 line hl, hmid line hl⟩
    · exact fun line hl => ⟨hright.2 line (List.mem_cons_of_mem e hl), hafter line hl⟩
  · obtain ⟨before, e, mid, rfl, he, hbefore, hmid⟩ := countP_one hone
    have hnone := countP_zero hnone
    have hleft := List.forall_mem_append.mp hleft
    refine ⟨before, e, mid, s, right, ?_, Or.inr ⟨he, hs⟩, ?_, ?_, ?_⟩
    · rw [List.append_assoc, List.cons_append]
    · exact fun line hl => ⟨hleft.1 line hl, hbefore line hl⟩
    · exact fun line hl => ⟨hleft.2 line (List.mem_cons_of_mem e hl), hmid line hl⟩
    · exact fun line hl => ⟨hright line hl, hnone line hl⟩

/-- A text that is merged has no markers, or one block. -/
theorem merge_ok {text block updated : Text} (h : merge text block = .ok updated) :
    NoMarkers text ∨ ∃ before old after, Around text before old after := by
  have hstarts := length_starts (lines text) {}
  have hends := length_ends (lines text) {}
  change (marks text).starts.length = 0 + _ at hstarts
  change (marks text).ends.length = 0 + _ at hends
  rw [Nat.zero_add] at hstarts hends
  unfold merge at h
  split at h
  · -- no marker was seen
    rename_i hnostart hnoend
    rw [hnostart] at hstarts
    rw [hnoend] at hends
    left
    exact fun line hl => ⟨countP_zero hstarts.symm line hl, countP_zero hends.symm line hl⟩
  · rename_i start stop hstart hstop
    rw [hstart] at hstarts
    rw [hstop] at hends
    obtain ⟨before, x, mid, y, after, hlines, horder, hbefore, hmid, hafter⟩ :=
      two_markers hstarts.symm hends.symm
    rcases horder with ⟨hx, hy⟩ | ⟨hx, hy⟩
    · right
      refine ⟨before, x :: mid ++ [y], after, ?_, ⟨x, mid, y, rfl, hx, hy, hmid⟩, hbefore, hafter⟩
      rw [hlines]
      simp
    · -- the end comes first, and the offsets say so
      obtain ⟨hstart', hstop'⟩ := marks_reversed hlines hy hx hbefore hmid hafter
      rw [hstart', List.cons.injEq] at hstart
      rw [hstop', List.cons.injEq] at hstop
      rw [← hstart.1, ← hstop.1, if_neg] at h
      · cases h
      · simp
  · cases h

/-! ## The block -/

theorem block_closed (fish : Bool) : (block fish).getLast? = some newline := by
  cases fish with
  | true => decide +kernel
  | false => decide +kernel

theorem block_isBlock (fish : Bool) : IsBlock (lines (block fish)) := by
  refine ⟨utf8 (START ++ "\n"), (lines (block fish)).tail.dropLast, utf8 (END ++ "\n"),
    ?_, ?_, ?_, ?_⟩
  · cases fish with
    | true => decide +kernel
    | false => decide +kernel
  · decide +kernel
  · decide +kernel
  · have hall : (lines (block fish)).tail.dropLast.all
        (fun line => !isStart line && !isEnd line) = true := by
      cases fish with
      | true => decide +kernel
      | false => decide +kernel
    intro line hline
    have hplain := List.all_eq_true.mp hall line hline
    rw [Bool.and_eq_true_iff, Bool.not_eq_true', Bool.not_eq_true'] at hplain
    exact hplain

/-! ## Merging again -/

theorem lines_append {text : Text} (h : text.getLast? = some newline ∨ text = []) (rest : Text) :
    lines (text ++ rest) = lines text ++ lines rest := by
  refine splitInclusive_append ?_ rest
  intro b hb
  rcases h with hlast | rfl
  · rw [hlast] at hb
    rw [← Option.some.inj hb]
    rfl
  · cases hb

/-- What is kept of the lines around is around the new block. -/
theorem around_block {before after : List Text} (fish : Bool)
    (hbefore : lines before.flatten = before)
    (hclosed : before.flatten.getLast? = some newline ∨ before.flatten = [])
    (hafter : lines after.flatten = after) (hplain : ∀ line ∈ before, Plain line)
    (hplain' : ∀ line ∈ after, Plain line) :
    Around (before.flatten ++ block fish ++ after.flatten) before (lines (block fish)) after := by
  refine ⟨?_, block_isBlock fish, hplain, hplain'⟩
  rw [List.append_assoc, lines_append hclosed, lines_append (Or.inl (block_closed fish)), hbefore,
    hafter, List.append_assoc]

theorem Around.replaced {text : Text} {before old after : List Text}
    (h : Around text before old after) (fish : Bool) :
    Around (before.flatten ++ block fish ++ after.flatten) before (lines (block fish)) after := by
  obtain ⟨s, inner, e, rfl, -⟩ := h.isBlock
  have hshaped : Shaped (fun b => b == newline) (before ++ s :: (inner ++ [e] ++ after)) := by
    have hlines := @shaped_splitInclusive _ (fun b => b == newline) text
    have heq := h.lines_eq
    rw [List.append_assoc, List.cons_append, List.cons_append] at heq
    rw [← heq]
    exact hlines
  have hright : Shaped (fun b => b == newline) (before ++ s :: (inner ++ [e]) ++ after) := by
    rw [List.append_assoc, List.cons_append]
    exact hshaped
  refine around_block fish hshaped.left.splitInclusive_flatten ?_
    hright.right.splitInclusive_flatten h.plain_before h.plain_after
  cases hlast : before.flatten.getLast? with
  | none => exact Or.inr (List.getLast?_eq_none_iff.mp hlast)
  | some b =>
    have hb := hshaped.left_closed b hlast
    rw [eq_of_beq hb]
    exact Or.inl rfl

/-- The text with its last line closed, before the block. -/
theorem NoMarkers.appended {text : Text} (h : NoMarkers text) (fish : Bool) :
    Around (text ++ gap text ++ block fish) (lines (text ++ gap text)) (lines (block fish)) [] := by
  have hflat : (lines (text ++ gap text)).flatten = text ++ gap text :=
    flatten_splitInclusive (text ++ gap text)
  have hgap : ((text ++ gap text).getLast? = some newline ∨ text ++ gap text = []) ∧
      ∀ line ∈ lines (text ++ gap text), Plain line := by
    unfold gap
    split
    · rename_i hnone
      rw [List.append_nil]
      refine ⟨?_, h⟩
      rcases Bool.or_eq_true_iff.mp hnone with hempty | hlast
      · exact Or.inr (List.isEmpty_iff.mp hempty)
      · exact Or.inl (eq_of_beq hlast)
    · rename_i hsome
      refine ⟨Or.inl List.getLast?_concat, ?_⟩
      have hopen : ∃ b, text.getLast? = some b ∧ (b == newline) = false := by
        cases hlast : text.getLast? with
        | none =>
          rw [List.getLast?_eq_none_iff.mp hlast] at hsome
          exact absurd rfl hsome
        | some b =>
          refine ⟨b, rfl, ?_⟩
          by_contra hb
          rw [hlast, eq_of_beq (eq_true_of_ne_false hb)] at hsome
          simp at hsome
      -- the open line is the one that is closed
      obtain ⟨ts, t, hlines, hclosed⟩ :=
        @splitInclusive_concat _ (fun b => b == newline) text newline rfl hopen
      have hplain : ∀ line ∈ ts ++ [t], Plain line := by
        rw [← hlines]
        exact h
      obtain ⟨hts, ht⟩ := List.forall_mem_append.mp hplain
      unfold lines
      rw [hclosed]
      refine List.forall_mem_append.mpr ⟨hts, ?_⟩
      intro line hline
      rw [List.mem_singleton.mp hline]
      exact (ht t List.mem_cons_self).newline
  have hclosed := hgap.1
  rw [← hflat] at hclosed
  have haround := @around_block (lines (text ++ gap text)) [] fish (by rw [hflat]) hclosed rfl
    hgap.2 (by simp)
  rw [hflat, List.flatten_nil, List.append_nil] at haround
  exact haround

/-- The new text has the block once, where the old one was or behind the whole text, and the
    lines around it are as they were but for a newline that closes the last one. -/
def Replaces (text block updated : Text) : Prop :=
  ∃ before after, Around updated before (lines block) after ∧
    updated = before.flatten ++ block ++ after.flatten ∧
    ((∃ old, Around text before old after) ∨
      (NoMarkers text ∧ after = [] ∧
        (before.flatten = text ∨ before.flatten = text ++ [newline])))

theorem merge_replaces {text updated : Text} {fish : Bool}
    (h : merge text (block fish) = .ok updated) : Replaces text (block fish) updated := by
  rcases merge_ok h with hnone | ⟨before, old, after, haround⟩
  · rw [merge_plain hnone, Except.ok.injEq] at h
    have hflat : (lines (text ++ gap text)).flatten = text ++ gap text :=
      flatten_splitInclusive (text ++ gap text)
    rw [← h]
    refine ⟨lines (text ++ gap text), [], hnone.appended fish, ?_, Or.inr ⟨hnone, rfl, ?_⟩⟩
    · rw [hflat, List.flatten_nil, List.append_nil]
    · rw [hflat]
      unfold gap
      split
      · exact Or.inl (List.append_nil text)
      · exact Or.inr rfl
  · rw [merge_around haround, Except.ok.injEq] at h
    rw [← h]
    exact ⟨before, after, haround.replaced fish, rfl, Or.inl ⟨old, haround⟩⟩

theorem Replaces.merge_again {text updated : Text} {fish : Bool}
    (h : Replaces text (block fish) updated) : merge updated (block fish) = .ok updated := by
  obtain ⟨before, after, haround, heq, -⟩ := h
  rw [merge_around haround, ← heq]

theorem merge_fails_iff (text block : Text) : (∃ e, merge text block = .error e) ↔
    ¬ (NoMarkers text ∨ ∃ before old after, Around text before old after) := by
  constructor
  · rintro ⟨e, he⟩ (hnone | ⟨before, old, after, haround⟩)
    · rw [merge_plain hnone] at he
      cases he
    · rw [merge_around haround] at he
      cases he
  · intro hneither
    cases h : merge text block with
    | error e => exact ⟨e, rfl⟩
    | ok updated => exact absurd (merge_ok h) hneither

end Porthop.Agent.ShellSetup
