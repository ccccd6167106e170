import Porthop.Lib.Lists
import Porthop.Ports.Rows

/- The containers and the records that are printed behind the listings, and what is read
   from them. -/
namespace Porthop.Ports

open Agent (isWhitespace)
open Ordered (under)

/-! ## Containers -/

/-- A port of a container: published over TCP, or anything else that `docker ps` lists. -/
inductive Mapping where
  | tcp (address : Text) (first last : Nat) (target : Text)
  | other (text : Text)

namespace Mapping

def range (first last : Nat) : Text :=
  if first = last then digits first else digits first ++ '-' :: digits last

/-- `0.0.0.0:8080->80/tcp`, `127.0.0.1:9000-9001->9000-9001/tcp` -/
def text : Mapping → Text
  | tcp address first last target =>
    (address ++ ':' :: range first last) ++ ('-' :: '>' :: (target ++ "/tcp".toList))
  | other text => text

def Plain : Mapping → Prop
  | tcp address first last target =>
    (∀ c ∈ address, isWhitespace c = false ∧ c ∉ [',', '>']) ∧
      (0 < first ∧ first ≤ last ∧ last < 2 ^ 16) ∧
      ∀ c ∈ target, isWhitespace c = false ∧ c ≠ ','
  | other text => (∀ c ∈ text, isWhitespace c = false ∧ c ≠ ',') ∧
      ¬ ("->".toList <:+: text ∧ "/tcp".toList <:+ text)

def publishes (key : Key) : Mapping → Bool
  | tcp address first last _ =>
    first ≤ (ofLex key).1 ∧ (ofLex key).1 ≤ last ∧ (ofLex key).2 = trimBrackets address
  | other _ => false

end Mapping

inductive Container where
  | row (text name : Text) (mappings : List Mapping)
  | malformed (text : Text)

namespace Container
variable (ν : Type) [NumText ν]

def text : Container → Text
  | row text _ _ => text
  | malformed text => text

/-- The ports as they are listed. -/
def listed (mappings : List Mapping) : Text :=
  List.intercalate ", ".toList (mappings.map Mapping.text)

/-- A row is an object with its name and its ports, and what is not such an object is
    malformed. -/
def Plain (c : Container) : Prop :=
  ('\n' ∉ c.text ∧ ¬ detailsMark.dropLast <:+ c.text) ∧
  match c with
  | row text name mappings => (∀ m ∈ mappings, m.Plain) ∧
      ∃ v : Json ν, Json.read (Ssh.stripReturn text) = some v ∧
        asStr ν (v.index "name") = some name ∧ asStr ν (v.index "ports") = some (listed mappings)
  | malformed text => ∀ v : Json ν, Json.read (Ssh.stripReturn text) = some v →
      asStr ν (v.index "name") = none ∨ asStr ν (v.index "ports") = none

/-- The container's name, if it publishes the key. -/
def nameFor (key : Key) : Container → Option Text
  | row _ name mappings => if mappings.any (·.publishes key) then some name else none
  | malformed _ => none

end Container

/-! ## Records -/

def hex (bytes : List UInt8) : Text :=
  bytes.flatMap fun b => [Nat.digitChar (b.toNat / 16), Nat.digitChar (b.toNat % 16)]

inductive Record where
  | of (pid : Nat) (exe cwd args user : List UInt8)
  | malformed (text : Text)

namespace Record

def text : Record → Text
  | of pid exe cwd args user =>
    List.intercalate ['|'] [digits pid, hex exe, hex cwd, hex args, hex user]
  | malformed text => text

/-- Fields are cut at 4096 bytes. What has not a number and four fields is malformed. -/
def Plain : Record → Prop
  | of pid exe cwd args user =>
    pid < 2 ^ 32 ∧ ∀ bytes ∈ [exe, cwd, args, user], bytes.length ≤ 4096
  | malformed text => '\n' ∉ text ∧ ∀ pid exe cwd args user,
      (Ssh.stripReturn text).splitOn '|' = [pid, exe, cwd, args, user] →
        parseU32 pid = none ∨ ∃ f ∈ [exe, cwd, args, user], decodeHex f = none

def lossy (bytes : List UInt8) : Text := (Utf8.fromUtf8Lossy bytes).toList

/-- What the record says of a process. -/
def about (pid : Nat) : Record → Option Details
  | of pid' exe cwd args user =>
    if pid' = pid then some (describe (lossy exe) (lossy cwd) (lossy args) (lossy user)) else none
  | malformed _ => none

end Record

/-! ## What is read from a mapping -/

section
variable {address target : Text} {first last : Nat}

theorem notMem_range {c : Char} (hdigit : c.isDigit = false) (hdash : c ≠ '-') :
    c ∉ Mapping.range first last := by
  have hnot : ∀ n, c ∉ digits n := by
    intro n hc
    rw [digit_plain hc] at hdigit
    cases hdigit
  unfold Mapping.range
  split
  · exact hnot first
  · rw [List.mem_append, List.mem_cons]
    rintro (hc | hc | hc)
    · exact hnot first hc
    · exact hdash hc
    · exact hnot last hc

theorem dash_digits {n : Nat} : '-' ∉ digits n := by
  intro hc
  exact absurd (digit_plain hc) (by decide)

theorem splitOnce_range : (Splits.splitOnce '-' (Mapping.range first last)).getD
    (Mapping.range first last, Mapping.range first last) = (digits first, digits last) := by
  unfold Mapping.range
  split
  · rename_i h
    rw [Splits.splitOnce_none dash_digits, Option.getD_none, h]
  · rw [Splits.splitOnce_cons dash_digits, Option.getD_some]

/-- The last separator, when none is behind it. -/
theorem rsplitOnce_cons {c : Char} {a b : Text} (hb : c ∉ b) :
    rsplitOnce c (a ++ c :: b) = some (a, b) := by
  have hrev : (a ++ c :: b).reverse = b.reverse ++ c :: a.reverse := by simp
  unfold rsplitOnce
  rw [hrev, Splits.splitOnce_cons (by rwa [List.mem_reverse])]
  simp

theorem publishedBy_tcp (h : (Mapping.tcp address first last target).Plain) :
    publishedBy (Mapping.tcp address first last target).text =
      some (trimBrackets address, first, last) := by
  obtain ⟨haddress, ⟨hpos, hle, hlast⟩, htarget⟩ := h
  have hsplit : Pattern.splitOnce "->".toList (Mapping.tcp address first last target).text =
      some (address ++ ':' :: Mapping.range first last, target ++ "/tcp".toList) := by
    refine Pattern.splitOnce_new (q := ['-']) ?_ (target ++ "/tcp".toList)
    simp only [List.mem_append, List.mem_cons, List.not_mem_nil, or_false, not_or]
    refine ⟨⟨?_, by decide, notMem_range (by decide) (by decide)⟩, by decide⟩
    exact fun hc => (haddress '>' hc).2 (by decide)
  have htcp : "/tcp".toList <:+ target ++ "/tcp".toList := List.suffix_append target _
  have hcolon : ':' ∉ Mapping.range first last := notMem_range (by decide) (by decide)
  have hrange := @splitOnce_range first last
  unfold publishedBy
  rw [hsplit]
  simp only [Option.bind_eq_bind, Option.bind_some, htcp, guard_true, rsplitOnce_cons hcolon,
    hrange, Option.pure_def, parseU16_digits hlast,
    parseU16_digits (Nat.lt_of_le_of_lt hle hlast)]
  rw [guard, if_pos ⟨by omega, hle⟩]
  rfl

theorem publishedBy_other {text : Text} (h : (Mapping.other text).Plain) :
    publishedBy text = none := by
  unfold publishedBy
  cases hsplit : Pattern.splitOnce "->".toList text with
  | none => rfl
  | some r =>
    obtain ⟨htext, -⟩ := (Pattern.splitOnce_eq_some (by decide)).mp hsplit
    have htcp : ¬ "/tcp".toList <:+ r.2 := by
      intro hend
      refine h.2 ⟨⟨r.1, r.2, by rw [htext, List.append_assoc]⟩, hend.trans ?_⟩
      exact ⟨r.1 ++ "->".toList, by rw [htext, List.append_assoc]⟩
    simp only [Option.bind_eq_bind, Option.bind_some, htcp, guard_false]
    rfl

/-! ## What is read from the ports of a container -/

theorem dropWhile_plain {p : Char → Bool} {t : Text} (h : ∀ c ∈ t, p c = false) :
    t.dropWhile p = t := by
  cases t with
  | nil => rfl
  | cons c t => rw [List.dropWhile_cons_of_neg (by simp [h c List.mem_cons_self])]

theorem trim_plain {t : Text} (h : ∀ c ∈ t, isWhitespace c = false) : trim t = t := by
  unfold trim trimMatches
  rw [dropWhile_plain h, List.rdropWhile,
    dropWhile_plain fun c hc => h c (List.mem_reverse.mp hc), List.reverse_reverse]

theorem trim_space (t : Text) : trim (' ' :: t) = trim t := by
  unfold trim trimMatches
  rw [List.dropWhile_cons_of_pos (by decide)]

theorem map_trim_space (s : Text) :
    ((' ' :: s).splitOn ',').map trim = (s.splitOn ',').map trim := by
  have hcons : (' ' :: s).splitOn ',' = (s.splitOn ',').modifyHead (List.cons ' ') := by
    unfold List.splitOn
    rw [List.splitOnP_cons_eq_if_modifyHead, if_neg (by decide)]
  rw [hcons]
  cases s.splitOn ',' with
  | nil => rfl
  | cons t ts => rw [List.modifyHead_cons, List.map_cons, List.map_cons, trim_space]

/-- Texts without white space are found between the commas. -/
theorem map_trim_splitOn {t : Text} {ts : List Text}
    (h : ∀ t' ∈ t :: ts, ∀ c ∈ t', isWhitespace c = false ∧ c ≠ ',') :
    ((List.intercalate ", ".toList (t :: ts)).splitOn ',').map trim = t :: ts := by
  induction ts generalizing t with
  | nil =>
    have hcomma : ',' ∉ t := fun hc => (h t List.mem_cons_self ',' hc).2 rfl
    rw [List.intercalate_singleton, List.splitOn_eq_singleton hcomma, List.map_singleton,
      trim_plain fun c hc => (h t List.mem_cons_self c hc).1]
  | cons t' ts ih =>
    have hcomma : ',' ∉ t := fun hc => (h t List.mem_cons_self ',' hc).2 rfl
    have htext : List.intercalate ", ".toList (t :: t' :: ts) =
        t ++ ',' :: ' ' :: List.intercalate ", ".toList (t' :: ts) := by
      rw [List.intercalate_cons_cons]
      simp
    rw [htext, List.splitOn_append_cons_self_of_not_mem hcomma, List.map_cons, map_trim_space,
      ih fun t'' ht'' => h t'' (List.mem_cons_of_mem t ht''),
      trim_plain fun c hc => (h t List.mem_cons_self c hc).1]

theorem digit_apart {n : Nat} {c : Char} (hc : c ∈ digits n) :
    isWhitespace c = false ∧ c ≠ ',' := by
  refine ⟨(digits_plain.2 c hc).1, ?_⟩
  rintro rfl
  exact absurd (digit_plain hc) (by decide)

theorem Mapping.text_plain {m : Mapping} (h : m.Plain) :
    ∀ c ∈ m.text, isWhitespace c = false ∧ c ≠ ',' := by
  cases m with
  | other text => exact h.1
  | tcp address first last target =>
    obtain ⟨haddress, -, htarget⟩ := h
    have hrange : ∀ c ∈ Mapping.range first last, isWhitespace c = false ∧ c ≠ ',' := by
      intro c hc
      unfold Mapping.range at hc
      split at hc
      · exact digit_apart hc
      · rcases List.mem_append.mp hc with hc | hc
        · exact digit_apart hc
        · rcases List.mem_cons.mp hc with rfl | hc
          · exact ⟨by decide, by decide⟩
          · exact digit_apart hc
    intro c hc
    simp only [Mapping.text, List.mem_append, List.mem_cons] at hc
    rcases hc with (hc | rfl | hc) | rfl | rfl | hc | hc
    · refine ⟨(haddress c hc).1, ?_⟩
      rintro rfl
      exact (haddress ',' hc).2 (by decide)
    · exact ⟨by decide, by decide⟩
    · exact hrange c hc
    · exact ⟨by decide, by decide⟩
    · exact ⟨by decide, by decide⟩
    · exact htarget c hc
    · exact of_all (p := fun c => isWhitespace c = false ∧ c ≠ ',') (by decide) c hc

/-- The keys that are read from a mapping. -/
def keysOf (mapping : Text) : List Key :=
  match publishedBy mapping with
  | none => []
  | some (address, start, stop) =>
    (List.range' start (stop + 1 - start)).map fun port => toLex (port, address)

theorem mem_keysOf {m : Mapping} (h : m.Plain) {key : Key} :
    key ∈ keysOf m.text ↔ m.publishes key = true := by
  unfold keysOf
  cases m with
  | other text =>
    have hnone : publishedBy (Mapping.other text).text = none := publishedBy_other h
    rw [hnone]
    exact ⟨fun hmem => absurd hmem List.not_mem_nil, fun hfalse => absurd hfalse Bool.false_ne_true⟩
  | tcp address first last target =>
    rw [publishedBy_tcp h]
    have hle := h.2.1.2.1
    simp only [Mapping.publishes, decide_eq_true_eq, List.mem_map, List.mem_range'_1]
    constructor
    · rintro ⟨port, hport, rfl⟩
      exact ⟨hport.1, by show port ≤ last; omega, rfl⟩
    · rintro ⟨hfirst, hlast, haddress⟩
      refine ⟨(ofLex key).1, ⟨hfirst, by omega⟩, ?_⟩
      rw [← haddress]
      rfl

theorem published_listed {mappings : List Mapping} (h : ∀ m ∈ mappings, m.Plain) :
    published (Container.listed mappings) = mappings.flatMap fun m => keysOf m.text := by
  have hpublished : ∀ bindings,
      published bindings = ((bindings.splitOn ',').map trim).flatMap keysOf := fun _ => rfl
  rw [hpublished]
  cases mappings with
  | nil => rfl
  | cons m ms =>
    have htexts : ∀ t ∈ m.text :: ms.map Mapping.text, ∀ c ∈ t,
        isWhitespace c = false ∧ c ≠ ',' := by
      intro t ht
      rw [← List.map_cons (f := Mapping.text)] at ht
      obtain ⟨m', hm', rfl⟩ := List.mem_map.mp ht
      exact Mapping.text_plain (h m' hm')
    unfold Container.listed
    rw [List.map_cons, map_trim_splitOn htexts, ← List.map_cons (f := Mapping.text),
      List.flatMap_map]

end

section
variable (ν : Type) [NumText ν] {key : Key}

theorem rowOf_row {text name : Text} {mappings : List Mapping} {v : Json ν}
    (hread : Json.read text = some v) (hname : asStr ν (v.index "name") = some name)
    (hports : asStr ν (v.index "ports") = some (Container.listed mappings)) :
    rowOf ν text = some (name, Container.listed mappings) := by
  unfold rowOf
  rw [hread]
  simp only [Option.bind_eq_bind, Option.bind_some, hname, hports, Option.pure_def]

theorem rowOf_malformed {text : Text} (h : ∀ v : Json ν, Json.read text = some v →
    asStr ν (v.index "name") = none ∨ asStr ν (v.index "ports") = none) :
    rowOf ν text = none := by
  unfold rowOf
  cases hread : (Json.read text : Option (Json ν)) with
  | none => rfl
  | some v =>
    simp only [Option.bind_eq_bind, Option.bind_some]
    rcases h v hread with hnone | hnone
    · rw [hnone, Option.bind_none]
    · cases asStr ν (v.index "name") with
      | none => rfl
      | some name => rw [Option.bind_some, hnone, Option.bind_none]

/-- The last thing a container says of a key. -/
theorem getLast?_entriesOf {c : Container} (h : c.Plain ν) :
    ((under key (entriesOf ν (Ssh.stripReturn c.text))).getLast?).map Prod.snd =
      c.nameFor key := by
  unfold entriesOf
  cases c with
  | malformed text =>
    rw [show rowOf ν (Ssh.stripReturn (Container.malformed text).text) = none from
      rowOf_malformed ν h.2]
    rfl
  | row text name mappings =>
    obtain ⟨-, hmappings, v, hread, hname, hports⟩ := h
    have hrow : rowOf ν (Ssh.stripReturn (Container.row text name mappings).text) =
        some (name, Container.listed mappings) := rowOf_row ν hread hname hports
    rw [hrow]
    show ((under key ((published _).map _)).getLast?).map Prod.snd = _
    have hname : ∀ c ∈ under key
        ((published (Container.listed mappings)).map fun key => (key, name)), c.2 = name := by
      intro c hc
      obtain ⟨k, -, rfl⟩ := List.mem_map.mp (Ordered.mem_under.mp hc).1
      rfl
    have hnil : under key
        ((published (Container.listed mappings)).map fun key => (key, name)) ≠ [] ↔
          mappings.any (·.publishes key) = true := by
      rw [published_listed hmappings, List.any_eq_true]
      constructor
      · intro hne
        obtain ⟨c, hc⟩ := List.exists_mem_of_ne_nil _ hne
        obtain ⟨hmem, hkey⟩ := Ordered.mem_under.mp hc
        obtain ⟨k, hk, rfl⟩ := List.mem_map.mp hmem
        obtain ⟨m, hm, hkm⟩ := List.mem_flatMap.mp hk
        refine ⟨m, hm, (mem_keysOf (hmappings m hm)).mp ?_⟩
        rw [← hkey]
        exact hkm
      · rintro ⟨m, hm, hpublishes⟩
        refine List.ne_nil_of_mem (a := (key, name)) (Ordered.mem_under.mpr ⟨?_, rfl⟩)
        refine List.mem_map.mpr ⟨key, List.mem_flatMap.mpr ⟨m, hm, ?_⟩, rfl⟩
        exact (mem_keysOf (hmappings m hm)).mpr hpublishes
    show _ = if mappings.any (·.publishes key) then some name else none
    by_cases hany : mappings.any (·.publishes key) = true
    · rw [if_pos hany, List.getLast?_eq_some_getLast (hnil.mpr hany), Option.map_some,
        hname _ (List.getLast_mem _)]
    · have hempty := Decidable.not_not.mp fun hne => hany (hnil.mp hne)
      rw [if_neg hany, hempty]
      rfl

/-- The container that a key is given. -/
theorem getLast?_containers {cs : List Container} (h : ∀ c ∈ cs, c.Plain ν) :
    ((under key ((cs.map fun c => Ssh.stripReturn c.text).flatMap (entriesOf ν))).getLast?).map
      Prod.snd = cs.reverse.findSome? (·.nameFor key) := by
  rw [List.flatMap_map, Ordered.getLast?_under_flatMap, List.map_findSome?]
  refine Lists.findSome?_congr ?_
  intro c hc
  exact getLast?_entriesOf ν (h c (List.mem_reverse.mp hc))

end

/-! ## What is read from a record -/

theorem hex_cons (b : UInt8) (bytes : List UInt8) : hex (b :: bytes) =
    Nat.digitChar (b.toNat / 16) :: Nat.digitChar (b.toNat % 16) :: hex bytes := rfl

theorem length_hex (bytes : List UInt8) : (hex bytes).length = 2 * bytes.length := by
  induction bytes with
  | nil => rfl
  | cons b bytes ih =>
    rw [hex_cons, List.length_cons, List.length_cons, ih, List.length_cons]
    omega

/-- The digits of bytes, in lower case. -/
def hexDigits : Text := "0123456789abcdef".toList

theorem digitChar_mem {n : Nat} (h : n < 16) : Nat.digitChar n ∈ hexDigits := by
  interval_cases n <;> decide

theorem mem_hex {bytes : List UInt8} {c : Char} (h : c ∈ hex bytes) : c ∈ hexDigits := by
  obtain ⟨b, -, hc⟩ := List.mem_flatMap.mp h
  have hhigh : b.toNat / 16 < 16 := by
    have hb := b.toNat_lt
    omega
  rcases List.mem_cons.mp hc with rfl | hc
  · exact digitChar_mem hhigh
  · rw [List.mem_singleton.mp hc]
    exact digitChar_mem (Nat.mod_lt _ (by decide))

theorem byteOf_digits (b : UInt8) :
    byteOf (Nat.digitChar (b.toNat / 16)) (Nat.digitChar (b.toNat % 16)) = some b.toNat := by
  have hhigh : b.toNat / 16 < 16 := by
    have hb := b.toNat_lt
    omega
  have hlow : b.toNat % 16 < 16 := Nat.mod_lt _ (by decide)
  have hplus : Nat.digitChar (b.toNat / 16) ≠ '+' := by
    intro heq
    have hmem := digitChar_mem hhigh
    rw [heq] at hmem
    exact absurd hmem (by decide)
  unfold byteOf
  rw [if_neg hplus, Json.hexVal_digitChar hhigh, Json.hexVal_digitChar hlow]
  show some (16 * (b.toNat / 16) + b.toNat % 16) = _
  rw [Nat.div_add_mod]

theorem bytesOf_hex (bytes : List UInt8) : bytesOf (hex bytes) = some bytes := by
  induction bytes with
  | nil => rfl
  | cons b bytes ih =>
    rw [hex_cons, bytesOf, byteOf_digits, ih]
    show some (UInt8.ofNat b.toNat :: bytes) = _
    rw [UInt8.ofNat_toNat]

theorem decodeHex_hex {bytes : List UInt8} (h : bytes.length ≤ 4096) :
    decodeHex (hex bytes) = some (Record.lossy bytes) := by
  have hascii : (hex bytes).all (fun c => decide (c.toNat < 128)) = true := by
    refine List.all_eq_true.mpr fun c hc => ?_
    exact decide_eq_true (of_all (p := fun c => c.toNat < 128) (by decide) c (mem_hex hc))
  have hlength : decide ((hex bytes).length ≤ 16384) = true := by
    rw [length_hex]
    exact decide_eq_true (by omega)
  have heven : ((hex bytes).length % 2 == 0) = true := by
    rw [length_hex, Nat.mul_mod_right]
    rfl
  unfold decodeHex
  rw [hascii, hlength, heven, bytesOf_hex]
  rfl

theorem recordOf_malformed {text : Text} (h : ∀ pid exe cwd args user,
    text.splitOn '|' = [pid, exe, cwd, args, user] →
      parseU32 pid = none ∨ ∃ f ∈ [exe, cwd, args, user], decodeHex f = none) :
    recordOf text = none := by
  unfold recordOf
  split
  · rename_i pid exe cwd args user hfields
    simp only [Option.bind_eq_bind, Option.pure_def]
    rcases h pid exe cwd args user hfields with hnone | ⟨f, hf, hnone⟩
    · rw [hnone, Option.bind_none]
    · simp only [Option.bind_eq_none_iff]
      intro _ _ _ hexe _ hcwd _ hargs _ huser
      simp only [List.mem_cons, List.not_mem_nil, or_false] at hf
      rcases hf with rfl | rfl | rfl | rfl
      · rw [hnone] at hexe
        cases hexe
      · rw [hnone] at hcwd
        cases hcwd
      · rw [hnone] at hargs
        cases hargs
      · rw [hnone] at huser
        cases huser
  · rfl

/-- The characters of a record. -/
theorem mem_record {pid : Nat} {exe cwd args user : List UInt8} {c : Char}
    (h : c ∈ (Record.of pid exe cwd args user).text) :
    c = '|' ∨ c ∈ digits pid ∨ c ∈ hexDigits := by
  simp only [Record.text, List.intercalate_cons_cons, List.intercalate_singleton,
    List.mem_append, or_assoc, List.mem_singleton] at h
  rcases h with hc | rfl | hc | rfl | hc | rfl | hc | rfl | hc
  · exact Or.inr (Or.inl hc)
  · exact Or.inl rfl
  · exact Or.inr (Or.inr (mem_hex hc))
  · exact Or.inl rfl
  · exact Or.inr (Or.inr (mem_hex hc))
  · exact Or.inl rfl
  · exact Or.inr (Or.inr (mem_hex hc))
  · exact Or.inl rfl
  · exact Or.inr (Or.inr (mem_hex hc))

theorem notMem_record {pid : Nat} {exe cwd args user : List UInt8} {c : Char} (hbar : c ≠ '|')
    (hspace : isWhitespace c = true) (hhex : c ∉ hexDigits) :
    c ∉ (Record.of pid exe cwd args user).text := by
  intro hc
  rcases mem_record hc with heq | hdigit | hmem
  · exact hbar heq
  · rw [(digits_plain.2 c hdigit).1] at hspace
    cases hspace
  · exact hhex hmem

/-- A record that is printed is read. -/
theorem recordOf_of {pid : Nat} {exe cwd args user : List UInt8}
    (h : (Record.of pid exe cwd args user).Plain) :
    recordOf (Ssh.stripReturn (Record.of pid exe cwd args user).text) = some (pid,
      describe (Record.lossy exe) (Record.lossy cwd) (Record.lossy args) (Record.lossy user)) := by
  have hhexbar : ∀ bytes, '|' ∉ hex bytes := fun bytes hc => absurd (mem_hex hc) (by decide)
  have hdigitbar : '|' ∉ digits pid := fun hc => absurd (digit_plain hc) (by decide)
  have hsplit : (Record.of pid exe cwd args user).text.splitOn '|' =
      [digits pid, hex exe, hex cwd, hex args, hex user] := by
    refine List.splitOn_intercalate '|' ?_ (List.cons_ne_nil _ _)
    intro f hf
    simp only [List.mem_cons, List.not_mem_nil, or_false] at hf
    rcases hf with rfl | rfl | rfl | rfl | rfl
    · exact hdigitbar
    · exact hhexbar exe
    · exact hhexbar cwd
    · exact hhexbar args
    · exact hhexbar user
  have hexe := decodeHex_hex (h.2 exe (by simp))
  have hcwd := decodeHex_hex (h.2 cwd (by simp))
  have hargs := decodeHex_hex (h.2 args (by simp))
  have huser := decodeHex_hex (h.2 user (by simp))
  rw [Ssh.stripReturn_eq (notMem_record (by decide) (by decide) (by decide))]
  unfold recordOf
  rw [hsplit]
  simp only [Option.bind_eq_bind, Option.bind_some, parseU32_digits h.1, hexe, hcwd, hargs, huser,
    Option.pure_def]

theorem lastRecord_eq {rs : List Record} (h : ∀ r ∈ rs, r.Plain) (pid : Nat) :
    lastRecord (rs.map fun r => Ssh.stripReturn r.text) pid =
      rs.reverse.findSome? (·.about pid) := by
  induction rs with
  | nil => rfl
  | cons r rs ih =>
    rw [List.map_cons, lastRecord_cons, ih fun r' hr' => h r' (List.mem_cons_of_mem r hr'),
      List.reverse_cons, List.findSome?_append, List.findSome?_singleton, lastRecord_one]
    refine congrArg _ ?_
    cases r with
    | of pid' exe cwd args user =>
      rw [recordOf_of (h _ List.mem_cons_self)]
      rfl
    | malformed text =>
      have hnone : recordOf (Ssh.stripReturn (Record.malformed text).text) = none :=
        recordOf_malformed (h _ List.mem_cons_self).2
      rw [hnone]
      rfl

end Porthop.Ports
