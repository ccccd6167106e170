import Mathlib.Algebra.Order.BigOperators.Group.List
import Mathlib.Data.String.Basic
import Mathlib.Tactic.IntervalCases

/- JSON text: values, the compact writer and a reader.

   A value is generic in its numbers; `NumText` says how a number is written and
   read back. The text of a value is a list of characters and `Json.size` is its
   length in UTF-8. The writer is the compact one (no blanks, short escapes where
   JSON has them, four lower-case hexadecimal digits for the other control
   characters); the reader takes blanks between tokens and every escape.
   `read_render` is the round trip: the reader gives back any value that was
   written, whatever blanks follow it. -/
namespace Porthop

inductive Json (ν : Type) where
  | null
  | bool (b : Bool)
  | num (n : ν)
  | str (s : String)
  | arr (vs : List (Json ν))
  | obj (fs : List (String × Json ν))

mutual
/-- Every object names each of its members once. -/
def Json.Distinct {ν : Type} : Json ν → Prop
  | .arr vs => Json.DistinctAll vs
  | .obj fs => (fs.map Prod.fst).Nodup ∧ Json.DistinctMembers fs
  | _ => True

def Json.DistinctAll {ν : Type} : List (Json ν) → Prop
  | [] => True
  | v :: vs => v.Distinct ∧ Json.DistinctAll vs

def Json.DistinctMembers {ν : Type} : List (String × Json ν) → Prop
  | [] => True
  | (_, v) :: fs => v.Distinct ∧ Json.DistinctMembers fs
end

/-- The characters a JSON number is made of. -/
def numeric (c : Char) : Bool :=
  c.isDigit || c = '-' || c = '+' || c = '.' || c = 'e' || c = 'E'

/-- Numbers with a text that reads back. -/
class NumText (ν : Type) where
  write : ν → List Char
  read : List Char → Option ν
  write_ne_nil : ∀ n, write n ≠ []
  numeric_of_mem : ∀ n, ∀ c ∈ write n, numeric c = true
  read_write : ∀ n, read (write n) = some n

/-- A canonical decimal numeral: no sign, no leading zero. -/
def readNat (cs : List Char) : Option Nat :=
  let n := Nat.ofDigitChars 10 cs 0
  if Nat.toDigits 10 n = cs then some n else none

theorem readNat_toDigits (n : Nat) : readNat (Nat.toDigits 10 n) = some n := by
  simp [readNat, Nat.ofDigitChars_ten_toDigits]

theorem numeric_of_mem_toDigits {n : Nat} {c : Char} (h : c ∈ Nat.toDigits 10 n) :
    numeric c = true := by
  simp [numeric, Nat.isDigit_of_mem_toDigits (by decide) (by decide) h]

/-- Integers are written in decimal; a fraction or an exponent is not an integer. -/
instance : NumText Int where
  write
    | .ofNat n => Nat.toDigits 10 n
    | .negSucc n => '-' :: Nat.toDigits 10 (n + 1)
  read
    | '-' :: cs => (readNat cs).bind fun
      | 0 => none
      | n + 1 => some (.negSucc n)
    | cs => (readNat cs).map .ofNat
  write_ne_nil
    | .ofNat _ => Nat.toDigits_ne_nil
    | .negSucc _ => List.cons_ne_nil _ _
  numeric_of_mem
    | .ofNat n, c, h => numeric_of_mem_toDigits h
    | .negSucc n, c, h => by
      rcases List.mem_cons.mp h with rfl | h
      · decide
      · exact numeric_of_mem_toDigits h
  read_write
    | .ofNat n => by
      have hne : ∀ cs, Nat.toDigits 10 n ≠ '-' :: cs := by
        intro cs h
        have := Nat.isDigit_of_mem_toDigits (b := 10) (n := n) (c := '-')
          (by decide) (by decide) (by simp [h])
        exact absurd this (by decide)
      dsimp only
      split
      · next cs h => exact absurd h (hne cs)
      · rw [readNat_toDigits]; rfl
    | .negSucc n => by simp [readNat_toDigits]

namespace Json

def quote : Char := Char.ofNat 0x22
def backslash : Char := Char.ofNat 0x5c

open String (utf8Len)

/-! ## The writer -/

/-- The letter of the short escape of a character that has one. -/
def shortOf (c : Char) : Option Char :=
  if c = quote then some quote
  else if c = backslash then some backslash
  else if c = Char.ofNat 8 then some 'b'
  else if c = Char.ofNat 9 then some 't'
  else if c = Char.ofNat 10 then some 'n'
  else if c = Char.ofNat 12 then some 'f'
  else if c = Char.ofNat 13 then some 'r'
  else none

def escapeChar (c : Char) : List Char :=
  match shortOf c with
  | some e => [backslash, e]
  | none =>
    if c.toNat < 0x20 then
      [backslash, 'u', '0', '0', Nat.digitChar (c.toNat / 16), Nat.digitChar (c.toNat % 16)]
    else [c]

def renderString (s : String) : List Char :=
  quote :: s.toList.flatMap escapeChar ++ [quote]

section Writer
variable {ν : Type} [NumText ν]

mutual

def render : Json ν → List Char
  | null => ['n', 'u', 'l', 'l']
  | bool true => ['t', 'r', 'u', 'e']
  | bool false => ['f', 'a', 'l', 's', 'e']
  | num n => NumText.write n
  | str s => renderString s
  | arr [] => ['[', ']']
  | arr (v :: vs) => '[' :: render v ++ renderElements vs
  | obj [] => ['{', '}']
  | obj ((k, v) :: fs) => '{' :: renderString k ++ ':' :: render v ++ renderMembers fs

/-- The elements after the first, with their commas, and the closing bracket. -/
def renderElements : List (Json ν) → List Char
  | [] => [']']
  | v :: vs => ',' :: render v ++ renderElements vs

def renderMembers : List (String × Json ν) → List Char
  | [] => ['}']
  | (k, v) :: fs => ',' :: renderString k ++ ':' :: render v ++ renderMembers fs

end

/-- The length of the text of a value in UTF-8. -/
def size (v : Json ν) : Nat := utf8Len (render v)

end Writer

/-! ## The reader -/

def blank (c : Char) : Bool :=
  c = ' ' || c = Char.ofNat 9 || c = Char.ofNat 10 || c = Char.ofNat 13

def skipBlanks (cs : List Char) : List Char := cs.dropWhile blank

def hexVal (c : Char) : Option Nat :=
  if '0' ≤ c ∧ c ≤ '9' then some (c.toNat - 48)
  else if 'a' ≤ c ∧ c ≤ 'f' then some (c.toNat - 87)
  else if 'A' ≤ c ∧ c ≤ 'F' then some (c.toNat - 55)
  else none

def shortEscape (c : Char) : Option Char :=
  if c = quote then some quote
  else if c = backslash then some backslash
  else if c = '/' then some '/'
  else if c = 'b' then some (Char.ofNat 8)
  else if c = 't' then some (Char.ofNat 9)
  else if c = 'n' then some (Char.ofNat 10)
  else if c = 'f' then some (Char.ofNat 12)
  else if c = 'r' then some (Char.ofNat 13)
  else none

/-- A character of a string, or the code unit of a `\u` escape. -/
abbrev Item := Char ⊕ Nat

/-- Read up to the closing quote. -/
def scanString : List Char → Option (List Item × List Char)
  | [] => none
  | c :: cs =>
    if c = quote then some ([], cs)
    else if c = backslash then
      match cs with
      | [] => none
      | e :: cs =>
        if e = 'u' then
          match cs with
          | h3 :: h2 :: h1 :: h0 :: cs => do
            let n3 ← hexVal h3
            let n2 ← hexVal h2
            let n1 ← hexVal h1
            let n0 ← hexVal h0
            let (items, rest) ← scanString cs
            some (.inr (((n3 * 16 + n2) * 16 + n1) * 16 + n0) :: items, rest)
          | _ => none
        else do
          let d ← shortEscape e
          let (items, rest) ← scanString cs
          some (.inl d :: items, rest)
    else if c.toNat < 0x20 then none
    else do
      let (items, rest) ← scanString cs
      some (.inl c :: items, rest)

/-- Join surrogate pairs; a lone surrogate is refused. -/
def joinItems : List Item → Option (List Char)
  | [] => some []
  | .inl c :: is => (joinItems is).map (c :: ·)
  | .inr u :: is =>
    if 0xd800 ≤ u ∧ u < 0xdc00 then
      match is with
      | .inr v :: is =>
        if 0xdc00 ≤ v ∧ v < 0xe000 then
          (joinItems is).map (Char.ofNat (0x10000 + (u - 0xd800) * 0x400 + (v - 0xdc00)) :: ·)
        else none
      | _ => none
    else if 0xdc00 ≤ u ∧ u < 0xe000 then none
    else (joinItems is).map (Char.ofNat u :: ·)

def readString (cs : List Char) : Option (String × List Char) := do
  let (items, rest) ← scanString cs
  let s ← joinItems items
  some (String.ofList s, rest)

section Reader
variable {ν : Type} [NumText ν]

mutual

/-- Read one value. The fuel bounds the nesting and the number of elements. -/
def readValue : Nat → List Char → Option (Json ν × List Char)
  | 0, _ => none
  | fuel + 1, cs =>
    match skipBlanks cs with
    | 'n' :: 'u' :: 'l' :: 'l' :: rest => some (null, rest)
    | 't' :: 'r' :: 'u' :: 'e' :: rest => some (bool true, rest)
    | 'f' :: 'a' :: 'l' :: 's' :: 'e' :: rest => some (bool false, rest)
    | '[' :: rest =>
      match skipBlanks rest with
      | ']' :: rest => some (arr [], rest)
      | rest => do
        let (vs, rest) ← readElements fuel rest
        some (arr vs, rest)
    | '{' :: rest =>
      match skipBlanks rest with
      | '}' :: rest => some (obj [], rest)
      | rest => do
        let (fs, rest) ← readMembers fuel rest
        some (obj fs, rest)
    | c :: rest =>
      if c = quote then do
        let (s, rest) ← readString rest
        some (str s, rest)
      else do
        let n ← NumText.read ((c :: rest).takeWhile numeric)
        some (num n, (c :: rest).dropWhile numeric)
    | [] => none

/-- Read a value and the elements after it, up to the closing bracket. -/
def readElements : Nat → List Char → Option (List (Json ν) × List Char)
  | 0, _ => none
  | fuel + 1, cs => do
    let (v, rest) ← readValue fuel cs
    match skipBlanks rest with
    | ',' :: rest => do
      let (vs, rest) ← readElements fuel rest
      some (v :: vs, rest)
    | ']' :: rest => some ([v], rest)
    | _ => none

def readMembers : Nat → List Char → Option (List (String × Json ν) × List Char)
  | 0, _ => none
  | fuel + 1, cs =>
    match skipBlanks cs with
    | c :: rest =>
      if c = quote then do
        let (k, rest) ← readString rest
        match skipBlanks rest with
        | ':' :: rest => do
          let (v, rest) ← readValue fuel rest
          match skipBlanks rest with
          | ',' :: rest => do
            let (fs, rest) ← readMembers fuel rest
            some ((k, v) :: fs, rest)
          | '}' :: rest => some ([(k, v)], rest)
          | _ => none
        | _ => none
      else none
    | [] => none

end

/-- Read a whole text: one value and blanks. -/
def read (cs : List Char) : Option (Json ν) := do
  let (v, rest) ← readValue (cs.length + 1) cs
  if skipBlanks rest = [] then some v else none

end Reader

/-! ## The round trip -/

/-- The item the reader finds where the writer put a character. -/
def itemOf (c : Char) : Item :=
  if shortOf c = none ∧ c.toNat < 0x20 then .inr c.toNat else .inl c

theorem hexVal_digitChar {n : Nat} (h : n < 16) : hexVal (Nat.digitChar n) = some n := by
  interval_cases n <;> rfl

theorem shortEscape_shortOf {c e : Char} (h : shortOf c = some e) :
    shortEscape e = some c ∧ e ≠ 'u' := by
  unfold shortOf at h
  split_ifs at h <;> (subst_vars; injection h with h; subst h; decide)

theorem scanString_short {d e : Char} (h : shortEscape e = some d) (hu : e ≠ 'u')
    (cs : List Char) :
    scanString (backslash :: e :: cs) = (scanString cs).map fun r => (.inl d :: r.1, r.2) := by
  have hq : backslash ≠ quote := by decide
  rw [scanString.eq_def]
  simp only [if_neg hq, if_neg hu, h]
  cases scanString cs <;> rfl

theorem scanString_unit {n : Nat} (h : n < 0x20) (cs : List Char) :
    scanString (backslash :: 'u' :: '0' :: '0' ::
        Nat.digitChar (n / 16) :: Nat.digitChar (n % 16) :: cs) =
      (scanString cs).map fun r => (.inr n :: r.1, r.2) := by
  have hq : backslash ≠ quote := by decide
  have h0 : hexVal '0' = some 0 := by decide
  rw [scanString.eq_def]
  simp only [if_neg hq, h0, hexVal_digitChar (show n / 16 < 16 by omega),
    hexVal_digitChar (show n % 16 < 16 by omega)]
  have hn : n / 16 * 16 + n % 16 = n := by omega
  cases scanString cs with
  | none => rfl
  | some r => simp [hn]

theorem scanString_plain {c : Char} (h : shortOf c = none) (hc : ¬c.toNat < 0x20)
    (cs : List Char) :
    scanString (c :: cs) = (scanString cs).map fun r => (.inl c :: r.1, r.2) := by
  have hq : c ≠ quote := by rintro rfl; exact absurd h (by decide)
  have hb : c ≠ backslash := by rintro rfl; exact absurd h (by decide)
  rw [scanString.eq_def]
  simp only [if_neg hq, if_neg hb, if_neg hc]
  cases scanString cs <;> rfl

theorem scanString_escapeChar (c : Char) (cs : List Char) :
    scanString (escapeChar c ++ cs) =
      (scanString cs).map fun r => (itemOf c :: r.1, r.2) := by
  unfold itemOf escapeChar
  cases h : shortOf c with
  | some e =>
    obtain ⟨he, hu⟩ := shortEscape_shortOf h
    simpa using scanString_short he hu cs
  | none =>
    by_cases hc : c.toNat < 0x20
    · simpa [hc] using scanString_unit hc cs
    · simpa [hc] using scanString_plain h hc cs

theorem scanString_flatMap (cs rest : List Char) :
    scanString (cs.flatMap escapeChar ++ quote :: rest) = some (cs.map itemOf, rest) := by
  induction cs with
  | nil => rw [List.flatMap_nil, List.nil_append, scanString.eq_def]; rfl
  | cons c cs ih =>
    rw [List.flatMap_cons, List.append_assoc, scanString_escapeChar, ih]
    rfl

theorem joinItems_itemOf (c : Char) (is : List Item) :
    joinItems (itemOf c :: is) = (joinItems is).map (c :: ·) := by
  unfold itemOf
  split_ifs with h
  · have h1 : ¬(0xd800 ≤ c.toNat ∧ c.toNat < 0xdc00) := by omega
    have h2 : ¬(0xdc00 ≤ c.toNat ∧ c.toNat < 0xe000) := by omega
    rw [joinItems.eq_def]
    simp only [if_neg h1, if_neg h2, Char.ofNat_toNat]
  · rw [joinItems]

theorem joinItems_map (cs : List Char) : joinItems (cs.map itemOf) = some cs := by
  induction cs with
  | nil => rfl
  | cons c cs ih => rw [List.map_cons, joinItems_itemOf, ih]; rfl

theorem readString_renderString (s : String) (rest : List Char) :
    readString (s.toList.flatMap escapeChar ++ quote :: rest) = some (s, rest) := by
  simp [readString, scanString_flatMap, joinItems_map]

section RoundTrip
variable {ν : Type} [NumText ν]

/-- A text that does not continue a number. -/
def Stops (rest : List Char) : Prop := ∀ c ∈ rest.head?, numeric c = false

/-- What the writer starts a value with: a number, or one of a few characters. -/
theorem render_head (v : Json ν) : ∃ c cs, render v = c :: cs ∧ blank c = false ∧
    c ≠ ']' ∧ c ≠ '}' := by
  have hnum : ∀ c, numeric c = true → blank c = false ∧ c ≠ ']' ∧ c ≠ '}' := by
    intro c hc
    refine ⟨?_, ?_, ?_⟩
    · by_contra hb
      simp only [blank, Bool.not_eq_false, Bool.or_eq_true, decide_eq_true_eq] at hb
      obtain ((rfl | rfl) | rfl) | rfl := hb <;> exact absurd hc (by decide)
    · rintro rfl; exact absurd hc (by decide)
    · rintro rfl; exact absurd hc (by decide)
  match v with
  | null => exact ⟨_, _, rfl, by decide⟩
  | bool true => exact ⟨_, _, rfl, by decide⟩
  | bool false => exact ⟨_, _, rfl, by decide⟩
  | str s => exact ⟨_, _, rfl, by decide⟩
  | arr [] => exact ⟨_, _, rfl, by decide⟩
  | arr (_ :: _) => exact ⟨_, _, rfl, by decide⟩
  | obj [] => exact ⟨_, _, rfl, by decide⟩
  | obj ((_, _) :: _) => exact ⟨_, _, rfl, by decide⟩
  | num n =>
    obtain ⟨c, cs, hcs⟩ := List.exists_cons_of_ne_nil (NumText.write_ne_nil n)
    exact ⟨c, cs, hcs, hnum c (NumText.numeric_of_mem n c (by simp [hcs]))⟩

theorem skipBlanks_cons {c : Char} (h : blank c = false) (cs : List Char) :
    skipBlanks (c :: cs) = c :: cs :=
  List.dropWhile_cons_of_neg (by simp [h])

theorem skipBlanks_render (v : Json ν) (rest : List Char) :
    skipBlanks (render v ++ rest) = render v ++ rest := by
  obtain ⟨c, cs, hcs, hb, -⟩ := render_head v
  rw [hcs, List.cons_append, skipBlanks_cons hb]

theorem render_length_pos (v : Json ν) : 0 < (render v).length := by
  obtain ⟨c, cs, hcs, -⟩ := render_head v
  simp [hcs]

/-- A value that starts with no letter or bracket of the grammar: a string or a number. -/
theorem readValue_cons {c : Char} {cs : List Char} (hb : blank c = false)
    (hne : c ∉ ['n', 't', 'f', '[', '{']) (fuel : Nat) :
    readValue (fuel + 1) (c :: cs) =
      if c = quote then (readString cs).map fun r => ((str r.1 : Json ν), r.2)
      else (NumText.read ((c :: cs).takeWhile numeric)).map fun n =>
        (num n, (c :: cs).dropWhile numeric) := by
  simp only [List.mem_cons, List.not_mem_nil, or_false, not_or] at hne
  rw [readValue, skipBlanks_cons hb]
  split
  all_goals rename_i h
  iterate 5 exact absurd (List.cons.inj h).1 (by simp [hne])
  · obtain ⟨rfl, rfl⟩ := List.cons.inj h
    congr 1
    · cases readString cs <;> rfl
    · cases (NumText.read : _ → Option ν) (List.takeWhile numeric (c :: cs)) <;> rfl
  · exact absurd h (by simp)

theorem readValue_num (n : ν) {rest : List Char} (hr : Stops rest) (fuel : Nat) :
    readValue (fuel + 1) (NumText.write n ++ rest) = some (num n, rest) := by
  obtain ⟨c, cs, hcs⟩ := List.exists_cons_of_ne_nil (NumText.write_ne_nil n)
  have hmem := NumText.numeric_of_mem n
  have hne : ∀ d, numeric d = false → c ≠ d := by
    rintro d hd rfl
    exact absurd (hmem c (by simp [hcs])) (by simp [hd])
  have hb : blank c = false := by
    obtain ⟨d, ds, hds, hb, -⟩ := render_head (num n)
    obtain ⟨rfl, -⟩ := List.cons.inj (hcs.symm.trans hds)
    exact hb
  have htake : (NumText.write n ++ rest).takeWhile numeric = NumText.write n := by
    rw [List.takeWhile_append_of_pos hmem]
    cases rest with
    | nil => simp
    | cons d ds => rw [List.takeWhile_cons_of_neg (by simp [hr d rfl]), List.append_nil]
  have hdrop : (NumText.write n ++ rest).dropWhile numeric = rest := by
    rw [List.dropWhile_append_of_pos hmem]
    cases rest with
    | nil => rfl
    | cons d ds => rw [List.dropWhile_cons_of_neg (by simp [hr d rfl])]
  rw [hcs, List.cons_append] at htake hdrop ⊢
  rw [readValue_cons hb (by simp [hne 'n', hne 't', hne 'f', hne '[', hne '{', numeric]),
    if_neg (hne quote (by decide)), htake, hdrop, ← hcs, NumText.read_write]
  rfl

theorem readValue_str (s : String) (rest : List Char) (fuel : Nat) :
    readValue (fuel + 1) (renderString s ++ rest) = some ((str s : Json ν), rest) := by
  rw [renderString, List.append_assoc, List.cons_append, List.singleton_append,
    readValue_cons (by decide) (by decide), if_pos rfl, readString_renderString]
  rfl

theorem stops_renderElements (vs : List (Json ν)) (rest : List Char) :
    Stops (renderElements vs ++ rest) := by
  cases vs <;> simp [renderElements, Stops, numeric]

theorem stops_renderMembers (fs : List (String × Json ν)) (rest : List Char) :
    Stops (renderMembers fs ++ rest) := by
  obtain _ | ⟨⟨k, v⟩, fs⟩ := fs <;> simp [renderMembers, Stops, numeric]

/-- A value is read back from its text, whatever text follows that does not continue it. -/
def ReadsBack (v : Json ν) : Prop :=
  ∀ fuel rest, (render v).length ≤ fuel → Stops rest →
    readValue fuel (render v ++ rest) = some (v, rest)

theorem readValue_arr {fuel : Nat} {c : Char} {cs : List Char} (hb : blank c = false)
    (hc : c ≠ ']') :
    readValue (fuel + 1) ('[' :: c :: cs) =
      (readElements fuel (c :: cs)).map fun r => ((arr r.1 : Json ν), r.2) := by
  rw [readValue, skipBlanks_cons (by decide)]
  simp only [skipBlanks_cons hb]
  split
  · next h => exact absurd (List.cons.inj h).1 hc
  · cases @readElements ν _ fuel (c :: cs) <;> rfl

theorem readValue_obj {fuel : Nat} {c : Char} {cs : List Char} (hb : blank c = false)
    (hc : c ≠ '}') :
    readValue (fuel + 1) ('{' :: c :: cs) =
      (readMembers fuel (c :: cs)).map fun r => ((obj r.1 : Json ν), r.2) := by
  rw [readValue, skipBlanks_cons (by decide)]
  simp only [skipBlanks_cons hb]
  split
  · next h => exact absurd (List.cons.inj h).1 hc
  · cases @readMembers ν _ fuel (c :: cs) <;> rfl

theorem readElements_cons {fuel : Nat} {cs rest : List Char} {v : Json ν}
    (h : readValue fuel cs = some (v, ',' :: rest)) :
    readElements (fuel + 1) cs = (readElements fuel rest).map fun r => (v :: r.1, r.2) := by
  rw [readElements, h]
  simp only [Option.bind_eq_bind, Option.bind_some, skipBlanks_cons (show blank ',' = false by decide)]
  cases @readElements ν _ fuel rest <;> rfl

theorem readMembers_key {fuel : Nat} (k : String) {cs rest : List Char} {v : Json ν}
    (h : readValue fuel cs = some (v, rest)) :
    readMembers (fuel + 1) (renderString k ++ ':' :: cs) =
      match skipBlanks rest with
      | ',' :: rest => (readMembers fuel rest).map fun s => ((k, v) :: s.1, s.2)
      | '}' :: rest => some ([(k, v)], rest)
      | _ => none := by
  rw [renderString, List.append_assoc, List.cons_append, List.singleton_append, readMembers,
    skipBlanks_cons (by decide)]
  simp only [if_pos, readString_renderString, Option.bind_eq_bind, Option.bind_some,
    skipBlanks_cons (show blank ':' = false by decide), h]
  split
  · next rest' _ => cases @readMembers ν _ fuel rest' <;> rfl
  · rfl
  · rfl

mutual

theorem readsBack : ∀ v : Json ν, ReadsBack v
  | null, fuel + 1, rest, _, _ => rfl
  | bool true, fuel + 1, rest, _, _ => rfl
  | bool false, fuel + 1, rest, _, _ => rfl
  | num n, fuel + 1, rest, _, hr => readValue_num n hr fuel
  | str s, fuel + 1, rest, _, _ => readValue_str s rest fuel
  | arr [], fuel + 1, rest, _, _ => rfl
  | arr (v :: vs), fuel + 1, rest, hf, _ => by
    have ih := readElements_render vs v (readsBack v) fuel rest
      (by simp [render] at hf ⊢; omega)
    obtain ⟨c, cs, hcs, hb, hc, -⟩ := render_head v
    simp only [render, List.cons_append, List.append_assoc]
    rw [hcs, List.cons_append] at ih ⊢
    rw [readValue_arr hb hc, ih]
    rfl
  | obj [], fuel + 1, rest, _, _ => rfl
  | obj ((k, v) :: fs), fuel + 1, rest, hf, _ => by
    have ih := readMembers_render fs k v (readsBack v) fuel rest
      (by simp [render] at hf ⊢; omega)
    simp only [render, List.cons_append, List.append_assoc]
    rw [renderString, List.cons_append, List.cons_append] at ih ⊢
    rw [readValue_obj (by decide) (by decide), ih]
    rfl
  | v, 0, rest, hf, _ => by
    have := render_length_pos v
    omega

theorem readElements_render : ∀ (vs : List (Json ν)) (v : Json ν), ReadsBack v →
    ∀ fuel rest, (render v ++ renderElements vs).length ≤ fuel →
      readElements fuel (render v ++ (renderElements vs ++ rest)) = some (v :: vs, rest)
  | _, v, _, 0, _, hf => by
    have := render_length_pos v
    rw [List.length_append] at hf
    omega
  | [], v, hv, fuel + 1, rest, hf => by
    rw [readElements, hv fuel _ (by simp [renderElements] at hf; omega)
      (stops_renderElements [] rest)]
    rfl
  | w :: vs, v, hv, fuel + 1, rest, hf => by
    have hlen := render_length_pos v
    have ih := readElements_render vs w (readsBack w) fuel rest
      (by simp [renderElements] at hf ⊢; omega)
    have hv := hv fuel (renderElements (w :: vs) ++ rest) (by simp [renderElements] at hf; omega)
      (stops_renderElements _ rest)
    simp only [renderElements, List.cons_append, List.append_assoc] at hv ⊢
    rw [readElements_cons hv, ih]
    rfl

theorem readMembers_render : ∀ (fs : List (String × Json ν)) (k : String) (v : Json ν),
    ReadsBack v → ∀ fuel rest,
      (renderString k ++ ':' :: (render v ++ renderMembers fs)).length ≤ fuel →
      readMembers fuel (renderString k ++ ':' :: (render v ++ (renderMembers fs ++ rest))) =
        some ((k, v) :: fs, rest)
  | _, _, _, _, 0, _, hf => by simp at hf
  | [], k, v, hv, fuel + 1, rest, hf => by
    rw [readMembers_key k (hv fuel _ (by simp at hf; omega) (stops_renderMembers [] rest))]
    rfl
  | (j, w) :: fs, k, v, hv, fuel + 1, rest, hf => by
    have ih := readMembers_render fs j w (readsBack w) fuel rest
      (by simp [renderMembers] at hf ⊢; omega)
    have hv := hv fuel (renderMembers ((j, w) :: fs) ++ rest)
      (by simp at hf; omega) (stops_renderMembers _ rest)
    simp only [renderMembers, List.cons_append, List.append_assoc] at hv ih ⊢
    rw [readMembers_key k hv, skipBlanks_cons (by decide)]
    simp only [ih]
    rfl

end

/-- **Round trip.** Every value is read back from its text. -/
theorem read_render (v : Json ν) : read (render v) = some v := by
  have h := readsBack v ((render v).length + 1) [] (by omega) (by simp [Stops])
  rw [List.append_nil] at h
  unfold read
  rw [h]
  rfl

/-! ## Lengths -/

theorem utf8Size_digitChar {n : Nat} (h : n < 16) : (Nat.digitChar n).utf8Size = 1 := by
  interval_cases n <;> rfl

/-- Escaping makes a character at most six times as long. -/
theorem utf8Len_escapeChar (c : Char) : utf8Len (escapeChar c) ≤ 6 * c.utf8Size := by
  have hpos := Char.utf8Size_pos c
  have hb : backslash.utf8Size = 1 := by decide
  have hu : ('u' : Char).utf8Size = 1 := by decide
  have h0 : ('0' : Char).utf8Size = 1 := by decide
  unfold escapeChar
  cases h : shortOf c with
  | some e =>
    have he : e.utf8Size = 1 := by
      unfold shortOf at h
      split_ifs at h <;> (injection h with h; subst h; decide)
    simp only [String.utf8Len_cons, String.utf8Len_nil, hb, he]
    omega
  | none =>
    dsimp only
    split
    · next hc =>
      simp only [String.utf8Len_cons, String.utf8Len_nil, hb, hu, h0,
        utf8Size_digitChar (show c.toNat / 16 < 16 by omega),
        utf8Size_digitChar (show c.toNat % 16 < 16 by omega)]
      omega
    · simp only [String.utf8Len_cons, String.utf8Len_nil]
      omega

theorem utf8Len_flatMap_escapeChar (cs : List Char) :
    utf8Len (cs.flatMap escapeChar) ≤ 6 * utf8Len cs := by
  induction cs with
  | nil => simp
  | cons c cs ih =>
    have hc := utf8Len_escapeChar c
    rw [List.flatMap_cons, String.utf8Len_append, String.utf8Len_cons]
    omega

theorem size_str_le (s : String) : (str s : Json ν).size ≤ 6 * utf8Len s.toList + 2 := by
  have h := utf8Len_flatMap_escapeChar s.toList
  have hq : quote.utf8Size = 1 := by decide
  simp only [size, render, renderString, List.cons_append, String.utf8Len_cons,
    String.utf8Len_append, String.utf8Len_nil, hq]
  omega

/-- Escaping makes no character shorter. -/
theorem utf8Len_le_escapeChar (c : Char) : c.utf8Size ≤ utf8Len (escapeChar c) := by
  unfold escapeChar
  cases h : shortOf c with
  | some e =>
    have hc : c.utf8Size = 1 := by
      unfold shortOf at h
      split_ifs at h <;> (subst_vars; decide)
    have hb : backslash.utf8Size = 1 := by decide
    simp only [String.utf8Len_cons, String.utf8Len_nil, hb, hc]
    omega
  | none =>
    dsimp only
    split
    · next hc =>
      have hsize : c.utf8Size = 1 := by
        rw [Char.utf8Size, if_pos]
        have hval : c.val.toNat < 0x20 := hc
        exact UInt32.le_iff_toNat_le.mpr (Nat.le_of_lt (Nat.lt_trans hval (by decide)))
      have hb : backslash.utf8Size = 1 := by decide
      simp only [String.utf8Len_cons, String.utf8Len_nil, hb, hsize]
      omega
    · exact Nat.le_of_eq (Nat.zero_add _).symm

theorem utf8Len_le_flatMap_escapeChar (cs : List Char) :
    utf8Len cs ≤ utf8Len (cs.flatMap escapeChar) := by
  induction cs with
  | nil => exact Nat.le_refl _
  | cons c cs ih =>
    have hc := utf8Len_le_escapeChar c
    rw [List.flatMap_cons, String.utf8Len_append, String.utf8Len_cons]
    omega

theorem le_size_str (s : String) : utf8Len s.toList + 2 ≤ (str s : Json ν).size := by
  have h := utf8Len_le_flatMap_escapeChar s.toList
  have hq : quote.utf8Size = 1 := by decide
  simp only [size, render, renderString, List.cons_append, String.utf8Len_cons,
    String.utf8Len_append, String.utf8Len_nil, hq]
  omega

/-- A text with nothing to escape. -/
theorem size_str_plain {s : String} (h : ∀ c ∈ s.toList, escapeChar c = [c]) :
    (str s : Json ν).size = utf8Len s.toList + 2 := by
  have hflat : s.toList.flatMap escapeChar = s.toList := by
    rw [List.flatMap_congr h, List.flatMap_singleton']
  have hq : quote.utf8Size = 1 := by decide
  simp only [size, render, renderString, List.cons_append, String.utf8Len_cons,
    String.utf8Len_append, String.utf8Len_nil, hq, hflat]

theorem utf8Len_renderElements (vs : List (Json ν)) :
    utf8Len (renderElements vs) = 1 + (vs.map fun v => 1 + v.size).sum := by
  have hb : (']' : Char).utf8Size = 1 := by decide
  have hcomma : (',' : Char).utf8Size = 1 := by decide
  induction vs with
  | nil => simp [renderElements, hb]
  | cons v vs ih =>
    simp only [renderElements, List.cons_append, String.utf8Len_cons, String.utf8Len_append, ih,
      hcomma, List.map_cons, List.sum_cons, size]
    omega

/-- The length of an array is that of its elements. -/
theorem size_arr {vs : List (Json ν)} (hne : vs ≠ []) :
    (arr vs).size = 1 + (vs.map fun v => 1 + v.size).sum := by
  have ho : ('[' : Char).utf8Size = 1 := by decide
  cases vs with
  | nil => exact absurd rfl hne
  | cons v vs =>
    simp only [size, render, List.cons_append, String.utf8Len_cons, String.utf8Len_append,
      utf8Len_renderElements, ho, List.map_cons, List.sum_cons]
    omega

theorem utf8Len_renderMembers (fs : List (String × Json ν)) :
    utf8Len (renderMembers fs) =
      1 + (fs.map fun f => 2 + (str f.1 : Json ν).size + f.2.size).sum := by
  have hb : ('}' : Char).utf8Size = 1 := by decide
  have hcomma : (',' : Char).utf8Size = 1 := by decide
  have hcolon : (':' : Char).utf8Size = 1 := by decide
  induction fs with
  | nil => simp [renderMembers, hb]
  | cons f fs ih =>
    simp only [renderMembers, List.cons_append, String.utf8Len_cons, String.utf8Len_append, ih,
      hcomma, hcolon, List.map_cons, List.sum_cons, size, render]
    omega

/-- The length of an object is that of its members. -/
theorem size_obj {fs : List (String × Json ν)} (hne : fs ≠ []) :
    (obj fs).size = 1 + (fs.map fun f => 2 + (str f.1 : Json ν).size + f.2.size).sum := by
  have ho : ('{' : Char).utf8Size = 1 := by decide
  have hcolon : (':' : Char).utf8Size = 1 := by decide
  cases fs with
  | nil => exact absurd rfl hne
  | cons f fs =>
    simp only [size, render, List.cons_append, String.utf8Len_cons, String.utf8Len_append,
      utf8Len_renderMembers, ho, hcolon, List.map_cons, List.sum_cons]
    omega

/-- An array is longer than any of its elements. -/
theorem size_element_le {v : Json ν} {vs : List (Json ν)} (h : v ∈ vs) :
    v.size ≤ (arr vs).size := by
  have hmem : 1 + v.size ∈ vs.map fun v => 1 + v.size := List.mem_map.mpr ⟨v, h, rfl⟩
  have hle := List.le_sum_of_mem hmem
  rw [size_arr (List.ne_nil_of_mem h)]
  omega

theorem renderElements_le {n : Nat} (vs : List (Json ν)) (h : ∀ v ∈ vs, v.size ≤ n) :
    utf8Len (renderElements vs) ≤ vs.length * (n + 1) + 1 := by
  have hb : (']' : Char).utf8Size = 1 := by decide
  have hcomma : (',' : Char).utf8Size = 1 := by decide
  induction vs with
  | nil => simp [renderElements, hb]
  | cons v vs ih =>
    have hv : utf8Len (render v) ≤ n := h v (by simp)
    have ih := ih fun w hw => h w (by simp [hw])
    simp only [renderElements, List.cons_append, String.utf8Len_cons, String.utf8Len_append,
      hcomma, List.length_cons, Nat.succ_mul]
    omega

/-- An array of so many elements, each so long at most. -/
theorem size_arr_le {n : Nat} (vs : List (Json ν)) (h : ∀ v ∈ vs, v.size ≤ n) :
    (arr vs).size ≤ vs.length * (n + 1) + 2 := by
  have hb : (']' : Char).utf8Size = 1 := by decide
  have ho : ('[' : Char).utf8Size = 1 := by decide
  cases vs with
  | nil => simp [size, render, hb, ho]
  | cons v vs =>
    have hv : utf8Len (render v) ≤ n := h v (by simp)
    have hvs := renderElements_le vs fun w hw => h w (by simp [hw])
    simp only [size, render, List.cons_append, String.utf8Len_cons, String.utf8Len_append, ho,
      List.length_cons, Nat.succ_mul]
    omega

end RoundTrip

/-! ## Records -/

section Records
variable {ν : Type}

/-- The fields of a record from an object, which has each name once and no other, in any
    order, or from an array of the values in order. -/
def record (names : List String) : Json ν → Option (List (Json ν))
  | obj fs =>
    if (∀ f ∈ fs, f.1 ∈ names) ∧ (fs.map Prod.fst).Nodup then
      names.mapM fun n => (fs.find? fun f => f.1 = n).map Prod.snd
    else none
  | arr vs => if vs.length = names.length then some vs else none
  | _ => none

theorem find?_zip {names : List String} (hn : names.Nodup) {vs : List (Json ν)}
    (hl : names.length = vs.length) {n : String} {v : Json ν} (h : (n, v) ∈ names.zip vs) :
    ((names.zip vs).find? fun f => f.1 = n) = some (n, v) := by
  induction names generalizing vs with
  | nil => cases h
  | cons m names ih =>
    cases vs with
    | nil => cases hl
    | cons w vs =>
      rw [List.nodup_cons] at hn
      rw [List.zip_cons_cons] at h ⊢
      rcases List.mem_cons.mp h with heq | h
      · obtain ⟨rfl, rfl⟩ := Prod.mk.inj heq
        simp
      · have hne : m ≠ n := by
          rintro rfl
          exact hn.1 (List.of_mem_zip h).1
        rw [List.find?_cons_of_neg (by simpa using hne)]
        exact ih hn.2 (by simpa using hl) h

theorem mapM_find?_zip {names : List String} (hn : names.Nodup) {vs : List (Json ν)}
    (hl : names.length = vs.length) {ms : List String} {ws : List (Json ν)}
    (hm : ms.length = ws.length) (h : ∀ f ∈ ms.zip ws, f ∈ names.zip vs) :
    (ms.mapM fun n => ((names.zip vs).find? fun f => f.1 = n).map Prod.snd) = some ws := by
  induction ms generalizing ws with
  | nil =>
    obtain rfl : ws = [] := List.length_eq_zero_iff.mp hm.symm
    rfl
  | cons m ms ih =>
    cases ws with
    | nil => cases hm
    | cons w ws =>
      have hhead := find?_zip hn hl (h (m, w) (by simp))
      have hlen : ms.length = ws.length := by simpa using hm
      have htail := ih hlen fun f hf => h f (by simp [hf])
      simp [List.mapM_cons, hhead, htail]

/-- A record is read back from the object with its names and values. -/
theorem record_obj {names : List String} (hn : names.Nodup) {vs : List (Json ν)}
    (hl : names.length = vs.length) : record names (.obj (names.zip vs)) = some vs := by
  rw [record, if_pos]
  · exact mapM_find?_zip hn hl hl fun f hf => hf
  · refine ⟨fun f hf => (List.of_mem_zip hf).1, ?_⟩
    rw [List.map_fst_zip (by omega)]
    exact hn

/-- The value of a member. -/
def field (name : String) (fs : List (String × Json ν)) : Option (Json ν) :=
  (fs.find? fun f => f.1 = name).map Prod.snd

/-- The same with fields that may be left out: from an object any of them, from an array
    those at its end. -/
def recordWith (required optional : List String) :
    Json ν → Option (List (Json ν) × List (Option (Json ν)))
  | obj fs =>
    if (∀ f ∈ fs, f.1 ∈ required ++ optional) ∧ (fs.map Prod.fst).Nodup then
      (required.mapM fun n => field n fs).map fun vs => (vs, optional.map fun n => field n fs)
    else none
  | arr vs =>
    if required.length ≤ vs.length ∧ vs.length ≤ required.length + optional.length then
      some (vs.take required.length, optional.mapIdx fun i _ => vs[required.length + i]?)
    else none
  | _ => none

theorem find?_of_not_mem {fs : List (String × Json ν)} {n : String}
    (h : n ∉ fs.map Prod.fst) : (fs.find? fun f => f.1 = n) = none := by
  rw [List.find?_eq_none]
  intro f hf heq
  have hname : f.1 = n := of_decide_eq_true heq
  exact h (hname ▸ List.mem_map_of_mem hf)

theorem mapM_congr {α β : Type} {f g : α → Option β} {as : List α} (h : ∀ a ∈ as, f a = g a) :
    as.mapM f = as.mapM g := by
  induction as with
  | nil => rfl
  | cons a as ih =>
    rw [List.mapM_cons, List.mapM_cons, h a List.mem_cons_self,
      ih fun b hb => h b (List.mem_cons_of_mem _ hb)]

/-- A record is read back from the object of its fields and of those that are there of the
    fields that may be left out. -/
theorem recordWith_obj {required optional : List String} (hn : (required ++ optional).Nodup)
    {vs : List (Json ν)} (hl : required.length = vs.length) {os : List (String × Json ν)}
    (ho : (os.map Prod.fst).Sublist optional) :
    recordWith required optional (.obj (required.zip vs ++ os)) =
      some (vs, optional.map fun n => field n os) := by
  have hrequired := (List.nodup_append.mp hn).1
  have hnames : (required.zip vs ++ os).map Prod.fst = required ++ os.map Prod.fst := by
    rw [List.map_append, List.map_fst_zip (by omega)]
  have hthere : ∀ n ∈ required, field n (required.zip vs ++ os) = field n (required.zip vs) := by
    intro n hmem
    obtain ⟨v, hv⟩ : ∃ v, (n, v) ∈ required.zip vs := by
      obtain ⟨i, hi, rfl⟩ := List.mem_iff_getElem.mp hmem
      refine ⟨vs[i], List.mem_iff_getElem.mpr ⟨i, ?_, List.getElem_zip⟩⟩
      rw [List.length_zip]
      omega
    rw [field, field, List.find?_append, find?_zip hrequired hl hv, Option.some_or]
  have hleft : ∀ n ∈ optional, field n (required.zip vs ++ os) = field n os := by
    intro n hmem
    have hnot : n ∉ (required.zip vs).map Prod.fst := by
      rw [List.map_fst_zip (by omega)]
      exact fun h => (List.nodup_append.mp hn).2.2 n h n hmem rfl
    rw [field, field, List.find?_append, find?_of_not_mem hnot, Option.none_or]
  have hvalues : (required.mapM fun n => field n (required.zip vs ++ os)) = some vs := by
    calc (required.mapM fun n => field n (required.zip vs ++ os))
        = required.mapM fun n => field n (required.zip vs) := mapM_congr hthere
      _ = some vs := mapM_find?_zip hrequired hl hl fun f hf => hf
  rw [recordWith, if_pos, hvalues, Option.map_some, List.map_congr_left hleft]
  refine ⟨fun f hf => ?_, ?_⟩
  · have hmem := List.mem_map_of_mem (f := Prod.fst) hf
    rw [hnames] at hmem
    exact (List.Sublist.append (List.Sublist.refl required) ho).subset hmem
  · rw [hnames]
    exact (List.Sublist.append (List.Sublist.refl required) ho).nodup hn

theorem recordWith_zip {required : List String} (hn : required.Nodup) {vs : List (Json ν)}
    (hl : required.length = vs.length) :
    recordWith required [] (.obj (required.zip vs)) = some (vs, []) := by
  have h := @recordWith_obj ν required [] (by rwa [List.append_nil]) vs hl [] (List.nil_sublist _)
  rwa [List.append_nil] at h

/-- A member that is not a field. -/
theorem recordWith_unknown {required optional : List String} {fs : List (String × Json ν)}
    {f : String × Json ν} (hf : f ∈ fs) (hn : f.1 ∉ required ++ optional) :
    recordWith required optional (.obj fs) = none := by
  rw [recordWith, if_neg]
  intro h
  exact hn (h.1 f hf)

/-- A field that is not there. -/
theorem recordWith_missing {required optional : List String} {fs : List (String × Json ν)}
    {n : String} (hn : n ∈ required) (hfs : n ∉ fs.map Prod.fst) :
    recordWith required optional (.obj fs) = none := by
  have hfield : field n fs = none := by rw [field, find?_of_not_mem hfs, Option.map_none]
  have hnone : (required.mapM fun n => field n fs) = none := by
    clear hfs
    induction required with
    | nil => cases hn
    | cons m required ih =>
      rw [List.mapM_cons]
      cases List.mem_cons.mp hn with
      | inl heq =>
        rw [← heq, hfield]
        rfl
      | inr hmem =>
        rw [ih hmem]
        cases field m fs <;> rfl
  rw [recordWith]
  split
  · rw [hnone]
    rfl
  · rfl

end Records

/-! ## Members -/

section Members
variable {ν : Type}

/-- The value under a name: `null` if there is none. -/
def index (name : String) : Json ν → Json ν
  | obj fs => (field name fs).getD null
  | _ => null

/-- The element at a position: `null` if there is none. -/
def item (i : Nat) : Json ν → Json ν
  | arr vs => vs.getD i null
  | _ => null

def setField (name : String) (v : Json ν) : List (String × Json ν) → List (String × Json ν)
  | [] => [(name, v)]
  | f :: fs => if f.1 = name then (name, v) :: fs else f :: setField name v fs

/-- Put a value under a name: `null` becomes an object, and nothing else may be indexed. -/
def set (w : Json ν) (name : String) (v : Json ν) : Option (Json ν) :=
  match w with
  | obj fs => some (obj (setField name v fs))
  | null => some (obj [(name, v)])
  | _ => none

theorem field_setField_self (name : String) (v : Json ν) (fs : List (String × Json ν)) :
    field name (setField name v fs) = some v := by
  induction fs with
  | nil => simp [setField, field]
  | cons f fs ih =>
    rw [setField]
    split
    · simp [field]
    · next h =>
      rw [field, List.find?_cons_of_neg (by simpa using h)]
      exact ih

theorem field_setField_of_ne {name other : String} (h : other ≠ name) (v : Json ν)
    (fs : List (String × Json ν)) : field name (setField other v fs) = field name fs := by
  induction fs with
  | nil => simp [setField, field, h]
  | cons f fs ih =>
    rw [setField]
    split
    · next heq =>
      have hf : f.1 ≠ name := heq ▸ h
      simp [field, h, hf]
    · by_cases hf : f.1 = name
      · simp [field, hf]
      · rw [field, field, List.find?_cons_of_neg (by simpa using hf),
          List.find?_cons_of_neg (by simpa using hf)]
        exact ih

/-- What is put under a name is found there. -/
theorem index_set_self {name : String} {v w w' : Json ν} (h : w.set name v = some w') :
    index name w' = v := by
  cases w with
  | obj fs =>
    obtain rfl := Option.some.inj h
    rw [index, field_setField_self]
    rfl
  | null =>
    obtain rfl := Option.some.inj h
    simp [index, field]
  | _ => cases h

theorem index_set_of_ne {name other : String} {v w w' : Json ν} (hne : other ≠ name)
    (h : w.set other v = some w') : index name w' = index name w := by
  cases w with
  | obj fs =>
    obtain rfl := Option.some.inj h
    rw [index, field_setField_of_ne hne, index]
  | null =>
    obtain rfl := Option.some.inj h
    simp [index, field, hne]
  | _ => cases h

end Members

end Json

end Porthop
