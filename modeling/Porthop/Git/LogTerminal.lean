import Mathlib.Data.UInt
import Porthop.Lib.Scan

/- What of a command's output reaches the terminal that shows the log (`logTerminal.ts`).

   A text is its code units. The loop has one index, which each branch moves on, so a branch may
   leave it behind the end or on a unit that another sequence would begin with. -/
namespace Porthop.Git.LogTerminal

open Scan (seek)

abbrev Text := List UInt16

/-- `/[\x40-\x7e]/` -/
def isFinal (c : UInt16) : Bool := 0x40 ≤ c ∧ c ≤ 0x7e

/-- `[0-9;:]` -/
def isParameter (c : UInt16) : Bool := (0x30 ≤ c ∧ c ≤ 0x39) ∨ c = 0x3b ∨ c = 0x3a

/-- `[mKGCD]` -/
def isDisplay (c : UInt16) : Bool := c ∈ [0x6d, 0x4b, 0x47, 0x43, 0x44]

/-- `/^[0-9;:]*[mKGCD]$/` -/
def displays (body : Text) : Bool := body.getLast?.any isDisplay && body.dropLast.all isParameter

/-- The openings of control strings: `]PX^_`. -/
def opensString (c : UInt16) : Bool := c ∈ [0x5d, 0x50, 0x58, 0x5e, 0x5f]

def beginsFinal : Text → Bool
  | [] => false
  | c :: _ => isFinal c

/-- A control string ends at a bell, or at an escape before a backslash. -/
def endsString : Text → Bool
  | [] => false
  | c :: rest => c = 7 ∨ (c = 27 ∧ rest.head? = some 0x5c)

def isKept (code : UInt16) : Bool :=
  code = 8 ∨ code = 9 ∨ code = 10 ∨ code = 13 ∨ (32 ≤ code ∧ ¬(127 ≤ code ∧ code ≤ 159))

def slice (text : Text) (start stop : Nat) : Text := (text.drop start).take (stop - start)

/-- One pass: what is added to the result, and the index before the loop moves it on. -/
def pass (text : Text) (index : Nat) (code : UInt16) : Text × Nat :=
  if code = 27 then
    match text[index + 1]? with
    | none => ([], index + 1)
    | some next =>
      if next = 0x5b then
        let stop := seek beginsFinal text (index + 2)
        let sequence := slice text index (stop + 1)
        (if displays (sequence.drop 2) then sequence else [], stop)
      else if opensString next then
        let stop := seek endsString text (index + 2)
        ([], if text[stop]? = some 27 then stop + 1 else stop)
      else ([], index + 1)
  else if code = 0 then ([10], index)
  else if isKept code then ([code], index)
  else ([], index)

/-- The index never goes back, so the loop ends. -/
theorem le_pass (text : Text) (index : Nat) (code : UInt16) :
    index ≤ (pass text index code).2 := by
  rw [pass]
  split
  · split
    · exact Nat.le_succ index
    · split
      · exact Nat.le_trans (Nat.le_add_right index 2) Scan.le_seek
      · split
        · have hle : index ≤ seek endsString text (index + 2) :=
            Nat.le_trans (Nat.le_add_right index 2) Scan.le_seek
          dsimp only
          split
          · exact Nat.le_succ_of_le hle
          · exact hle
        · exact Nat.le_succ index
  · split
    · exact Nat.le_refl index
    · split
      · exact Nat.le_refl index
      · exact Nat.le_refl index

def loop (text : Text) (index : Nat) (result : Text) : Text :=
  if h : index < text.length then
    loop text ((pass text index text[index]).2 + 1) (result ++ (pass text index text[index]).1)
  else result
termination_by text.length - index
decreasing_by
  have hle := le_pass text index text[index]
  omega

def terminalLogText (text : Text) : Text := loop text 0 []

/-! ## What may be displayed -/

/-- A piece of what is displayed: a character, or a whole sequence that only displays. -/
inductive Piece where
  | character (c : UInt16) (kept : isKept c = true)
  | sequence (parameters : Text) (final : UInt16) (all : ∀ c ∈ parameters, isParameter c = true)
    (display : isDisplay final = true)

def Piece.text : Piece → Text
  | character c _ => [c]
  | sequence parameters final _ _ => 27 :: 0x5b :: parameters ++ [final]

def Displayable (text : Text) : Prop := ∃ pieces : List Piece, text = pieces.flatMap Piece.text

theorem displayable_nil : Displayable [] := ⟨[], rfl⟩

theorem Displayable.append {text rest : Text} (h : Displayable text) (h' : Displayable rest) :
    Displayable (text ++ rest) := by
  obtain ⟨ps, rfl⟩ := h
  obtain ⟨qs, rfl⟩ := h'
  exact ⟨ps ++ qs, List.flatMap_append.symm⟩

theorem Piece.displayable (p : Piece) : Displayable p.text :=
  ⟨[p], by rw [List.flatMap_cons, List.flatMap_nil, List.append_nil]⟩

theorem displays_split {body : Text} (h : displays body = true) : ∃ parameters final,
    body = parameters ++ [final] ∧ (∀ c ∈ parameters, isParameter c = true) ∧
      isDisplay final = true := by
  rw [displays, Bool.and_eq_true] at h
  obtain ⟨hlast, hall⟩ := h
  cases hbody : body.getLast? with
  | none =>
    rw [hbody] at hlast
    cases hlast
  | some final =>
    rw [hbody, Option.any_some] at hlast
    refine ⟨body.dropLast, final, ?_, List.all_eq_true.mp hall, hlast⟩
    exact (List.dropLast_append_getLast? final hbody).symm

theorem drop_eq_cons_cons {text : Text} {index : Nat} {c d : UInt16}
    (hc : text[index]? = some c) (hd : text[index + 1]? = some d) :
    text.drop index = c :: d :: text.drop (index + 2) := by
  obtain ⟨hindex, rfl⟩ := List.getElem?_eq_some_iff.mp hc
  obtain ⟨hnext, rfl⟩ := List.getElem?_eq_some_iff.mp hd
  rw [List.drop_eq_getElem_cons hindex, List.drop_eq_getElem_cons hnext]

/-- Whatever a pass adds is whole. -/
theorem pass_displayable {text : Text} {index : Nat} {code : UInt16}
    (hcode : text[index]? = some code) : Displayable (pass text index code).1 := by
  rw [pass]
  split
  · next hescape =>
    split
    · exact displayable_nil
    · next next hnext =>
      split
      · next hbracket =>
        dsimp only
        split
        · next hdisplays =>
          have hstop : index + 2 ≤ seek beginsFinal text (index + 2) := Scan.le_seek
          obtain ⟨n, hn⟩ := Nat.exists_eq_add_of_le hstop
          rw [hn] at hdisplays ⊢
          have hsequence : slice text index (index + 2 + n + 1) =
              27 :: 0x5b :: (text.drop (index + 2)).take (n + 1) := by
            rw [slice, drop_eq_cons_cons hcode hnext, hescape, hbracket,
              show index + 2 + n + 1 - index = n + 1 + 1 + 1 by omega, List.take_succ_cons,
              List.take_succ_cons]
          rw [hsequence] at hdisplays ⊢
          obtain ⟨parameters, final, hbody, hall, hfinal⟩ := displays_split hdisplays
          change (text.drop (index + 2)).take (n + 1) = parameters ++ [final] at hbody
          rw [hbody]
          exact Piece.displayable (.sequence parameters final hall hfinal)
        · exact displayable_nil
      · split
        · exact displayable_nil
        · exact displayable_nil
  · split
    · exact Piece.displayable (.character 10 (by decide))
    · split
      · next hkept => exact Piece.displayable (.character code hkept)
      · exact displayable_nil

theorem loop_displayable {text : Text} {index : Nat} {result : Text}
    (h : Displayable result) : Displayable (loop text index result) := by
  induction index, result using loop.induct text with
  | case1 index result hindex ih =>
    rw [loop, dif_pos hindex]
    exact ih (h.append (pass_displayable (List.getElem?_eq_getElem hindex)))
  | case2 index result hindex =>
    rw [loop, dif_neg hindex]
    exact h

/-! ## What is whole stays -/

theorem loop_end {text : Text} {index : Nat} {result : Text} (h : text.length ≤ index) :
    loop text index result = result := by
  rw [loop, dif_neg (Nat.not_lt.mpr h)]

theorem isKept_ne {c : UInt16} (h : isKept c = true) : c ≠ 27 ∧ c ≠ 0 := by
  constructor
  · rintro rfl
    exact absurd h (by decide)
  · rintro rfl
    exact absurd h (by decide)

theorem isFinal_of_display {c : UInt16} (h : isDisplay c = true) : isFinal c = true := by
  have hall : ([0x6d, 0x4b, 0x47, 0x43, 0x44] : List UInt16).all isFinal = true := by decide
  exact List.all_eq_true.mp hall c (of_decide_eq_true h)

theorem not_isFinal_of_parameter {c : UInt16} (h : isParameter c = true) : isFinal c = false := by
  rw [isParameter, decide_eq_true_eq] at h
  rw [isFinal, decide_eq_false_iff_not, UInt16.le_iff_toNat_le, UInt16.le_iff_toNat_le]
  rcases h with h | rfl | rfl
  · rw [UInt16.le_iff_toNat_le, UInt16.le_iff_toNat_le] at h
    have hnine : (0x39 : UInt16).toNat = 57 := rfl
    have hat : (0x40 : UInt16).toNat = 64 := rfl
    omega
  · decide
  · decide

theorem displays_concat {parameters : Text} {final : UInt16}
    (hall : ∀ c ∈ parameters, isParameter c = true) (hfinal : isDisplay final = true) :
    displays (parameters ++ [final]) = true := by
  rw [displays, List.getLast?_concat, List.dropLast_concat, Option.any_some, hfinal, Bool.true_and]
  exact List.all_eq_true.mpr hall

/-- The first final byte is the one of the sequence. -/
theorem seek_sequence {before rest parameters : Text} {final : UInt16}
    (hall : ∀ c ∈ parameters, isParameter c = true) (hfinal : isDisplay final = true) :
    seek beginsFinal (before ++ (27 :: 0x5b :: parameters ++ [final] ++ rest)) (before.length + 2) =
      before.length + 2 + parameters.length := by
  have hdrop : ∀ i ≤ parameters.length,
      (before ++ (27 :: 0x5b :: parameters ++ [final] ++ rest)).drop (before.length + 2 + i) =
        parameters.drop i ++ final :: rest := by
    intro i hi
    calc (before ++ (27 :: 0x5b :: parameters ++ [final] ++ rest)).drop (before.length + 2 + i)
        = (27 :: 0x5b :: parameters ++ [final] ++ rest).drop (2 + i) := by
          rw [Nat.add_assoc, List.drop_append, List.drop_eq_nil_of_le (by omega),
            List.nil_append, Nat.add_sub_cancel_left]
      _ = (parameters ++ ([final] ++ rest)).drop i := by
          rw [show 2 + i = i + 1 + 1 by omega, List.cons_append, List.cons_append,
            List.cons_append, List.cons_append, List.drop_succ_cons, List.drop_succ_cons,
            List.append_assoc]
      _ = parameters.drop i ++ final :: rest := List.drop_append_of_le_length hi
  apply Scan.seek_add
  · intro i hi
    constructor
    · simp only [List.length_append, List.length_cons, List.length_nil]
      omega
    · rw [hdrop i (Nat.le_of_lt hi), List.drop_eq_getElem_cons hi]
      exact not_isFinal_of_parameter (hall _ (List.getElem_mem hi))
  · rw [hdrop parameters.length (Nat.le_refl _), List.drop_length]
    exact isFinal_of_display hfinal

theorem Piece.text_ne_nil (p : Piece) : p.text ≠ [] := by
  cases p with
  | character c kept => exact List.cons_ne_nil c []
  | sequence parameters final all display => exact List.cons_ne_nil 27 _

/-- A pass on a whole piece adds it and ends on its last unit. -/
theorem pass_piece (p : Piece) (before rest : Text) {code : UInt16}
    (hcode : p.text.head? = some code) :
    (pass (before ++ (p.text ++ rest)) before.length code).1 = p.text ∧
      (pass (before ++ (p.text ++ rest)) before.length code).2 + 1 =
        before.length + p.text.length := by
  cases p with
  | character c kept =>
    obtain rfl : c = code := Option.some.inj hcode
    obtain ⟨hescape, hzero⟩ := isKept_ne kept
    rw [pass, if_neg hescape, if_neg hzero, if_pos kept]
    exact ⟨rfl, rfl⟩
  | sequence parameters final all display =>
    obtain rfl : 27 = code := Option.some.inj hcode
    have htext : (Piece.sequence parameters final all display).text =
        27 :: 0x5b :: parameters ++ [final] := rfl
    have hlength : (Piece.sequence parameters final all display).text.length =
        parameters.length + 3 := by
      rw [htext]
      simp only [List.length_append, List.length_cons, List.length_nil]
    have hnext : (before ++ ((Piece.sequence parameters final all display).text ++ rest))[
        before.length + 1]? = some 0x5b := by
      rw [List.getElem?_append_right (Nat.le_add_right before.length 1), Nat.add_sub_cancel_left]
      rfl
    have hseek : seek beginsFinal
        (before ++ ((Piece.sequence parameters final all display).text ++ rest))
        (before.length + 2) = before.length + 2 + parameters.length := seek_sequence all display
    have hslice : slice (before ++ ((Piece.sequence parameters final all display).text ++ rest))
        before.length (before.length + 2 + parameters.length + 1) =
          (Piece.sequence parameters final all display).text := by
      rw [slice, List.drop_left, show before.length + 2 + parameters.length + 1 - before.length =
        (Piece.sequence parameters final all display).text.length by omega, List.take_left]
    rw [pass, if_pos rfl, hnext]
    dsimp only
    rw [if_pos rfl, hseek, hslice]
    constructor
    · exact if_pos (displays_concat all display)
    · show before.length + 2 + parameters.length + 1 = _
      omega

theorem loop_piece (p : Piece) (before rest result : Text) :
    loop (before ++ (p.text ++ rest)) before.length result =
      loop (before ++ (p.text ++ rest)) (before ++ p.text).length (result ++ p.text) := by
  obtain ⟨code, tail, htext⟩ := List.exists_cons_of_ne_nil p.text_ne_nil
  have hhead : p.text.head? = some code := by
    rw [htext]
    rfl
  have hindex : before.length < (before ++ (p.text ++ rest)).length := by
    rw [htext]
    simp only [List.length_append, List.length_cons]
    omega
  have hcode : (before ++ (p.text ++ rest))[before.length] = code := by
    have hget : (before ++ (p.text ++ rest))[before.length]? = some code := by
      rw [List.getElem?_append_right (Nat.le_refl _), Nat.sub_self, htext]
      rfl
    exact Option.some.inj ((List.getElem?_eq_getElem hindex).symm.trans hget)
  obtain ⟨hadded, hmoved⟩ := pass_piece p before rest hhead
  rw [loop, dif_pos hindex, hcode, hadded, hmoved, List.length_append]

theorem loop_pieces (ps : List Piece) (before result : Text) :
    loop (before ++ ps.flatMap Piece.text) before.length result =
      result ++ ps.flatMap Piece.text := by
  induction ps generalizing before result with
  | nil =>
    rw [List.flatMap_nil, List.append_nil, List.append_nil]
    exact loop_end (Nat.le_refl before.length)
  | cons p ps ih =>
    rw [List.flatMap_cons, loop_piece, ← List.append_assoc, ih, List.append_assoc]

theorem terminalLogText_of_displayable {text : Text} (h : Displayable text) :
    terminalLogText text = text := by
  obtain ⟨ps, rfl⟩ := h
  exact loop_pieces ps [] []

/-! ## Escapes -/

theorem escape_not_mem {parameters : Text} {final : UInt16}
    (hall : ∀ c ∈ parameters, isParameter c = true) (hfinal : isDisplay final = true) :
    27 ∉ 0x5b :: parameters ++ [final] := by
  intro hmem
  rcases List.mem_append.mp hmem with hmem | hmem
  · rcases List.mem_cons.mp hmem with heq | hmem
    · exact absurd heq (by decide)
    · exact absurd (hall 27 hmem) (by decide)
  · rw [← List.mem_singleton.mp hmem] at hfinal
    exact absurd hfinal (by decide)

/-- Behind every escape is the rest of a sequence that only displays. -/
theorem escape_sequence {text : Text} (h : Displayable text) {before rest : Text}
    (heq : text = before ++ 27 :: rest) : ∃ parameters final after,
      rest = 0x5b :: parameters ++ final :: after ∧ (∀ c ∈ parameters, isParameter c = true) ∧
        isDisplay final = true := by
  obtain ⟨ps, rfl⟩ := h
  induction ps generalizing before with
  | nil => exact absurd heq.symm (by simp)
  | cons p ps ih =>
    rw [List.flatMap_cons] at heq
    -- the escape is in the rest, or it opens the first piece
    rcases List.append_eq_append_iff.mp heq with ⟨l, hbefore, hrest⟩ | ⟨l, htext, hrest⟩
    · exact ih hrest
    · cases l with
      | nil => exact @ih [] hrest.symm
      | cons c l =>
        obtain ⟨rfl, htail⟩ := List.cons.inj hrest
        cases p with
        | character c kept =>
          have hmem : 27 ∈ [c] := by
            rw [show [c] = before ++ 27 :: l from htext]
            simp
          rw [← List.mem_singleton.mp hmem] at kept
          exact absurd kept (by decide)
        | sequence parameters final all display =>
          cases before with
          | nil =>
            obtain ⟨-, hl⟩ := List.cons.inj htext
            refine ⟨parameters, final, ps.flatMap Piece.text, ?_, all, display⟩
            rw [show rest = l ++ ps.flatMap Piece.text from htail, ← hl]
            simp
          | cons d before =>
            obtain ⟨-, hbody⟩ := List.cons.inj htext
            have hmem : 27 ∈ 0x5b :: parameters ++ [final] := by
              rw [show 0x5b :: parameters ++ [final] = before ++ 27 :: l from hbody]
              simp
            exact absurd hmem (escape_not_mem all display)

theorem displayable_terminalLogText (text : Text) : Displayable (terminalLogText text) :=
  loop_displayable displayable_nil

/-- Nothing but what displays reaches the terminal, and what only displays reaches it as it is. -/
theorem terminalLogText_displays :
    (∀ text : Text, Displayable (terminalLogText text)) ∧
    (∀ texts : List Text, Displayable (texts.flatMap terminalLogText)) ∧
    (∀ (texts : List Text) (before rest : Text),
      texts.flatMap terminalLogText = before ++ 27 :: rest → ∃ parameters final after,
        rest = 0x5b :: parameters ++ final :: after ∧ (∀ c ∈ parameters, isParameter c = true) ∧
          isDisplay final = true) ∧
    (∀ text : Text, terminalLogText (terminalLogText text) = terminalLogText text) ∧
    ∀ text : Text, Displayable text → terminalLogText text = text := by
  have hall : ∀ texts : List Text, Displayable (texts.flatMap terminalLogText) := by
    intro texts
    induction texts with
    | nil => exact displayable_nil
    | cons text texts ih =>
      rw [List.flatMap_cons]
      exact (displayable_terminalLogText text).append ih
  refine ⟨displayable_terminalLogText, hall, ?_, ?_, ?_⟩
  · exact fun texts before rest heq => escape_sequence (hall texts) heq
  · exact fun text => terminalLogText_of_displayable (displayable_terminalLogText text)
  · exact fun text h => terminalLogText_of_displayable h

/-- A counter that is written again over itself: `1`, a carriage return, an erase and `2`. -/
theorem progress_displays :
    terminalLogText [0x31, 13, 27, 0x5b, 0x32, 0x4b, 0x32] =
      [0x31, 13, 27, 0x5b, 0x32, 0x4b, 0x32] :=
  terminalLogText_displays.2.2.2.2 _
    ⟨[.character 0x31 (by decide), .character 13 (by decide),
      .sequence [0x32] 0x4b (fun c hc => by rw [List.mem_singleton.mp hc]; decide) (by decide),
      .character 0x32 (by decide)], rfl⟩

end Porthop.Git.LogTerminal
