import Porthop.Lib.Lossy
import Porthop.Ssh.KnownHosts

/- What the check of a host key decides, and what it leaves behind.

   The name of a host and a port is made of letters, digits and a few signs, so no symbol of
   it stands for anything in a pattern: the entry that is written for it is found again for
   this name and for no other. -/
namespace Porthop.Ssh

open MessagePack (utf8)
open Profile (Addresses hostValid)

/-! ## The meaning of an entry -/

/-- The usual meaning of `*` and `?`, letters in either case. -/
def Globs (pattern name : String) : Prop := Glob.Matches wildOne wildMany (utf8 pattern) (utf8 name)

def negated (pattern : String) : Bool := pattern.toList.head? = some '!'

def withoutSign (pattern : String) : String := String.ofList pattern.toList.tail

section
variable {κ : Type} (R : Reader κ)

/-- An entry matches a name. -/
def Entry.Names (e : Entry κ) (name : String) : Prop :=
  match e.hostPatterns with
  | .hashedName salt hash => R.verifies salt hash (utf8 name) = true
  | .patterns ps => (∃ p ∈ ps, negated p = false ∧ Globs p name) ∧
      ∀ p ∈ ps, negated p = true → ¬ Globs (withoutSign p) name

/-- What a name is made of. -/
def nameChar (c : Char) : Prop := c.isAlphanum = true ∨ c ∈ ".-_:[]".toList

/-- What the desktop relies on: a blank line holds no entry, blanks at the end of a line make
    no difference, a key is written on one line, and a name and a key on a line are read as the
    entry of that name. -/
structure Reader.Lawful : Prop where
  blank : R.line [] = none
  trailing : ∀ l, R.line (l ++ ['\r']) = R.line l
  oneLine : ∀ key, '\n' ∉ R.openssh key
  written : ∀ (name : String) (key : κ), name ≠ "" → (∀ c ∈ name.toList, nameChar c) →
    R.line (name.toList ++ ' ' :: R.openssh key) = some (.ok ⟨none, .patterns [name], key⟩)

variable {R} {name : String} {key : κ}

theorem wildOne_plain {v : UInt8} (hv : v ≠ asterisk) (c : UInt8) (hc : wildMany c = true) :
    wildOne c v = false := by
  obtain rfl : c = asterisk := of_decide_eq_true hc
  have hlower : toAsciiLowercase asterisk = asterisk := by decide
  rw [wildOne, eqIgnoreAsciiCase, hlower]
  have hne : asterisk ≠ toAsciiLowercase v := by
    rw [toAsciiLowercase]
    split
    · next hupper =>
      intro heq
      have hnat := congrArg UInt8.toNat heq
      have hlow := UInt8.le_iff_toNat_le.mp hupper.1
      have hhigh := UInt8.le_iff_toNat_le.mp hupper.2
      have h65 : (65 : UInt8).toNat = 65 := rfl
      have h90 : (90 : UInt8).toNat = 90 := rfl
      have h42 : asterisk.toNat = 42 := rfl
      have h32 : (32 : UInt8).toNat = 32 := rfl
      rw [UInt8.toNat_add, h42, h32] at hnat
      omega
    · exact fun heq => hv heq.symm
  have hquestion : asterisk ≠ questionMark := by decide
  rw [decide_eq_false hquestion, decide_eq_false hne]
  rfl

/-- The loop decides the meaning, for a name without `*`. -/
theorem wildcard_iff {pattern : String} (hname : asterisk ∉ utf8 name) :
    wildcard (utf8 pattern) (utf8 name) = true ↔ Globs pattern name := by
  apply Glob.decides_iff
  intro v hv c hc
  apply wildOne_plain _ c hc
  rintro rfl
  exact hname hv

theorem matchesFrom_iff (hname : asterisk ∉ utf8 name) : ∀ {matched : Bool} {ps : List String},
    matchesFrom name matched ps = true ↔
      (matched = true ∨ ∃ p ∈ ps, negated p = false ∧ Globs p name) ∧
        ∀ p ∈ ps, negated p = true → ¬ Globs (withoutSign p) name
  | matched, [] => by
    simp [matchesFrom]
  | matched, p :: ps => by
    rw [matchesFrom]
    by_cases hp : p.toList.head? = some '!'
    · have hneg : negated p = true := decide_eq_true hp
      rw [if_pos hp]
      by_cases hglob : wildcard (utf8 (withoutSign p)) (utf8 name) = true
      · rw [← withoutSign, if_pos hglob]
        refine iff_of_false Bool.false_ne_true fun h => ?_
        exact h.2 p List.mem_cons_self hneg ((wildcard_iff hname).mp hglob)
      · rw [← withoutSign, if_neg hglob, matchesFrom_iff hname]
        have hnot : ¬ Globs (withoutSign p) name := fun h => hglob ((wildcard_iff hname).mpr h)
        simp only [List.mem_cons, exists_eq_or_imp, forall_eq_or_imp, hneg, Bool.true_eq_false,
          false_and, false_or, hnot, not_false_eq_true, forall_const, true_and]
    · have hpos : negated p = false := decide_eq_false hp
      rw [if_neg hp, matchesFrom_iff hname, Bool.or_eq_true, wildcard_iff hname]
      simp only [List.mem_cons, exists_eq_or_imp, forall_eq_or_imp, hpos, true_and,
        Bool.false_eq_true, false_implies, or_assoc]

theorem matchesHost_iff (hname : asterisk ∉ utf8 name) {e : Entry κ} :
    matchesHost R e.hostPatterns name = true ↔ e.Names R name := by
  rw [Entry.Names]
  cases e.hostPatterns with
  | hashedName salt hash => rfl
  | patterns ps =>
    show matchesFrom name false ps = true ↔ _
    rw [matchesFrom_iff hname]
    simp only [Bool.false_eq_true, false_or]

/-! ## One file -/

variable [DecidableEq κ] (R name key)

/-- An entry revokes the key for the name. -/
def revokedIn (es : List (Entry κ)) : Bool :=
  es.any fun e => matchesHost R e.hostPatterns name && (e.marker = some .revoked && e.key = key)

/-- An entry that is no revocation is for the name. -/
def foundIn (es : List (Entry κ)) : Bool :=
  es.any fun e => matchesHost R e.hostPatterns name && e.marker ≠ some .revoked

/-- An unmarked entry for the name has the key. -/
def trustedIn (es : List (Entry κ)) : Bool :=
  es.any fun e => matchesHost R e.hostPatterns name && (e.marker = none && e.key = key)

variable {R name key}

theorem inspectFrom_ok : ∀ {es : List (Entry κ)} {found trusted : Bool},
    inspectFrom R name key found trusted (es.map .ok) =
      if revokedIn R name key es then .error s!"The SSH host key for {name} is revoked."
      else .ok (found || foundIn R name es, trusted || trustedIn R name key es)
  | [], found, trusted => by
    simp [inspectFrom, revokedIn, foundIn, trustedIn]
  | e :: es, found, trusted => by
    rw [List.map_cons, inspectFrom]
    by_cases hmatch : matchesHost R e.hostPatterns name = true
    · by_cases hrevoked : e.marker = some .revoked
      · by_cases hkey : e.key = key
        · simp [hmatch, hrevoked, hkey, revokedIn]
        · simp only [hmatch, hrevoked, hkey, Bool.not_true, Bool.false_eq_true, if_false, if_true]
          rw [inspectFrom_ok]
          simp [hrevoked, hkey, revokedIn, foundIn, trustedIn]
      · by_cases hcert : e.marker = some .certAuthority
        · have hne : ¬ (some Marker.certAuthority = some Marker.revoked) := by decide
          simp only [hmatch, hcert, hne, Bool.not_true, Bool.false_eq_true, if_false, if_true]
          rw [inspectFrom_ok]
          simp [hmatch, hcert, revokedIn, foundIn, trustedIn]
        · have hnone : e.marker = none := by
            match hm : e.marker with
            | none => rfl
            | some .revoked => exact absurd hm hrevoked
            | some .certAuthority => exact absurd hm hcert
          have hne : ¬ ((none : Option Marker) = some Marker.revoked) := by decide
          have hne' : ¬ ((none : Option Marker) = some Marker.certAuthority) := by decide
          simp only [hmatch, hnone, hne, hne', Bool.not_true, Bool.false_eq_true, if_false]
          rw [inspectFrom_ok]
          simp [hmatch, hnone, revokedIn, foundIn, trustedIn, Bool.or_assoc]
    · have hfalse := eq_false_of_ne_true hmatch
      simp only [hfalse, Bool.not_false, if_true]
      rw [inspectFrom_ok]
      simp [hfalse, revokedIn, foundIn, trustedIn]

theorem inspect_ok {text : String} {es : List (Entry κ)}
    (h : entriesOf R text = es.map .ok) : inspect R text name key =
      if revokedIn R name key es then .error s!"The SSH host key for {name} is revoked."
      else .ok (foundIn R name es, trustedIn R name key es) := by
  rw [inspect, h, inspectFrom_ok, Bool.false_or, Bool.false_or]

end

/-! ## The name of a host and a port -/

/-- A sign of a name: it is one byte, which stands for itself in a pattern. -/
structure Plain (c : Char) : Prop where
  name : nameChar c
  lower : c.isUpper = false

/-- The letters and digits. -/
theorem isAlphanum_val {c : Char} (h : c.isAlphanum = true) :
    65 ≤ c.val.toNat ∧ c.val.toNat ≤ 90 ∨ 97 ≤ c.val.toNat ∧ c.val.toNat ≤ 122 ∨
      48 ≤ c.val.toNat ∧ c.val.toNat ≤ 57 := by
  change ((decide (c.val ≥ 'A'.val ∧ c.val ≤ 'Z'.val) ||
    (decide (c.val ≥ 'a'.val) && decide (c.val ≤ 'z'.val))) ||
    (decide (c.val ≥ '0'.val) && decide (c.val ≤ '9'.val))) = true at h
  rw [Bool.or_eq_true, Bool.or_eq_true, Bool.and_eq_true, Bool.and_eq_true, decide_eq_true_eq,
    decide_eq_true_eq, decide_eq_true_eq, decide_eq_true_eq, decide_eq_true_eq] at h
  rcases h with (⟨hlow, hhigh⟩ | ⟨hlow, hhigh⟩) | ⟨hlow, hhigh⟩
  · exact .inl ⟨UInt32.le_iff_toNat_le.mp hlow, UInt32.le_iff_toNat_le.mp hhigh⟩
  · exact .inr (.inl ⟨UInt32.le_iff_toNat_le.mp hlow, UInt32.le_iff_toNat_le.mp hhigh⟩)
  · exact .inr (.inr ⟨UInt32.le_iff_toNat_le.mp hlow, UInt32.le_iff_toNat_le.mp hhigh⟩)

theorem Plain.val {c : Char} (h : Plain c) :
    c.val.toNat < 128 ∧ c.val.toNat ≠ 42 ∧ c.val.toNat ≠ 63 ∧
      ¬ (65 ≤ c.val.toNat ∧ c.val.toNat ≤ 90) := by
  have hupper : ¬ (65 ≤ c.val.toNat ∧ c.val.toNat ≤ 90) := by
    rintro ⟨hlow, hhigh⟩
    have htrue : c.isUpper = true := by
      apply decide_eq_true
      exact ⟨UInt32.le_iff_toNat_le.mpr hlow, UInt32.le_iff_toNat_le.mpr hhigh⟩
    rw [h.lower] at htrue
    cases htrue
  rcases h.name with halnum | hsign
  · have hval := isAlphanum_val halnum
    omega
  · have hall : (".-_:[]".toList.all fun c => c.val.toNat < 128 ∧ c.val.toNat ≠ 42 ∧
        c.val.toNat ≠ 63 ∧ ¬ (65 ≤ c.val.toNat ∧ c.val.toNat ≤ 90)) = true := by decide
    exact of_decide_eq_true (List.all_eq_true.mp hall c hsign)

/-- The byte of a sign. -/
theorem Plain.byte {c : Char} (h : Plain c) :
    c.utf8Size = 1 ∧ c.val.toUInt8 ≠ asterisk ∧ c.val.toUInt8 ≠ questionMark ∧
      toAsciiLowercase c.val.toUInt8 = c.val.toUInt8 := by
  obtain ⟨hlt, hstar, hquestion, hupper⟩ := h.val
  have hnat : c.val.toUInt8.toNat = c.val.toNat := by
    rw [UInt32.toNat_toUInt8]
    exact Nat.mod_eq_of_lt (by omega)
  refine ⟨Char.utf8Size_eq_one_iff.mpr ?_, ?_, ?_, ?_⟩
  · apply UInt32.le_iff_toNat_le.mpr
    have h127 : (127 : UInt32).toNat = 127 := rfl
    omega
  · intro heq
    exact hstar (hnat.symm.trans (congrArg UInt8.toNat heq))
  · intro heq
    exact hquestion (hnat.symm.trans (congrArg UInt8.toNat heq))
  · rw [toAsciiLowercase]
    apply if_neg
    rintro ⟨hlow, hhigh⟩
    have h₁ := UInt8.le_iff_toNat_le.mp hlow
    have h₂ := UInt8.le_iff_toNat_le.mp hhigh
    rw [hnat] at h₁ h₂
    exact hupper ⟨h₁, h₂⟩

/-- A text of such signs. -/
def PlainText (s : String) : Prop := ∀ c ∈ s.toList, Plain c

theorem PlainText.bytes {s : String} (h : PlainText s) {b : UInt8} (hb : b ∈ utf8 s) :
    b ≠ asterisk ∧ b ≠ questionMark ∧ toAsciiLowercase b = b := by
  rw [Utf8.utf8_ascii fun c hc => (h c hc).byte.1] at hb
  obtain ⟨c, hc, rfl⟩ := List.mem_map.mp hb
  exact (h c hc).byte.2

/-- As a pattern, such a text matches no other one. -/
theorem PlainText.globs {pattern name : String} (hp : PlainText pattern) (hn : PlainText name) :
    Globs pattern name ↔ pattern = name := by
  rw [Globs, Glob.matches_literal]
  · constructor
    · intro h
      have hsome := congrArg MessagePack.ofUtf8 h
      rw [MessagePack.ofUtf8_utf8, MessagePack.ofUtf8_utf8] at hsome
      exact Option.some.inj hsome
    · exact congrArg utf8
  · intro b hb
    exact decide_eq_false (hp.bytes hb).1
  · intro b hb v hv
    rw [wildOne, eqIgnoreAsciiCase, decide_eq_false (hp.bytes hb).2.1, (hp.bytes hb).2.2,
      (hn.bytes hv).2.2, Bool.false_or, decide_eq_true_eq]

theorem PlainText.not_negated {s : String} (h : PlainText s) : negated s = false := by
  apply decide_eq_false
  intro hhead
  have hplain := h '!' (List.mem_of_mem_head? hhead)
  have hsign : ¬ nameChar '!' := by
    rw [nameChar]
    decide
  exact hsign hplain.name

/-- What comes before the first of a sign, and what comes behind it. -/
theorem append_cons_inj {a : Char} : ∀ {xs xs' ys ys' : List Char}, a ∉ xs → a ∉ xs' →
    xs ++ a :: ys = xs' ++ a :: ys' → xs = xs' ∧ ys = ys'
  | [], [], _, _, _, _, h => ⟨rfl, (List.cons.inj h).2⟩
  | [], x :: xs', _, _, _, hxs', h => by
    rw [(List.cons.inj h).1] at hxs'
    exact absurd List.mem_cons_self hxs'
  | x :: xs, [], _, _, hxs, _, h => by
    rw [← (List.cons.inj h).1] at hxs
    exact absurd List.mem_cons_self hxs
  | x :: xs, x' :: xs', _, _, hxs, hxs', h => by
    obtain ⟨rfl, hrest⟩ := List.cons.inj h
    obtain ⟨rfl, hys⟩ := append_cons_inj (fun hmem => hxs (List.mem_cons_of_mem x hmem))
      (fun hmem => hxs' (List.mem_cons_of_mem x hmem)) hrest
    exact ⟨rfl, hys⟩

theorem toLower_char {c : Char} (h : c.isAlphanum = true ∨ c ∈ ".-_:".toList) :
    (c.toLower.isAlphanum = true ∨ c.toLower ∈ ".-_:".toList) ∧ c.toLower.isUpper = false := by
  have hall : ∀ n < 128, (Char.ofNat n).isAlphanum = true ∨ Char.ofNat n ∈ ".-_:".toList →
      ((Char.ofNat n).toLower.isAlphanum = true ∨ (Char.ofNat n).toLower ∈ ".-_:".toList) ∧
        (Char.ofNat n).toLower.isUpper = false := by decide +kernel
  have hlt : c.toNat < 128 := by
    rcases h with halnum | hsign
    · have hval := isAlphanum_val halnum
      show c.val.toNat < 128
      omega
    · have hsigns : (".-_:".toList.all fun c => c.toNat < 128) = true := by decide
      exact of_decide_eq_true (List.all_eq_true.mp hsigns c hsign)
  have hc := hall c.toNat hlt
  rw [Char.ofNat_toNat] at hc
  exact hc h

section
variable {A : Addresses} {host host' : String} {port port' : UInt16}

/-- The host in lower case. -/
theorem toLower_mem (h : hostValid A host) {c : Char} (hc : c ∈ host.toLower.toList) :
    (c.isAlphanum = true ∨ c ∈ ".-_:".toList) ∧ c.isUpper = false := by
  have hlist : host.toLower.toList = host.toList.map Char.toLower := String.toList_map
  rw [hlist] at hc
  obtain ⟨d, hd, rfl⟩ := List.mem_map.mp hc
  exact toLower_char (Profile.hostValid_char h hd)

theorem toLower_plain (h : hostValid A host) : PlainText host.toLower := by
  intro c hc
  obtain ⟨hname, hlower⟩ := toLower_mem h hc
  refine ⟨hname.imp_right fun hsign => ?_, hlower⟩
  have hsigns : (".-_:".toList.all fun c => c ∈ ".-_:[]".toList) = true := by decide
  exact of_decide_eq_true (List.all_eq_true.mp hsigns c hsign)

theorem toLower_bracket (h : hostValid A host) {c : Char} (hc : c ∈ host.toLower.toList) :
    c ≠ '[' ∧ c ≠ ']' := by
  have hopen : ¬ ('['.isAlphanum = true ∨ '[' ∈ ".-_:".toList) := by decide
  have hclose : ¬ (']'.isAlphanum = true ∨ ']' ∈ ".-_:".toList) := by decide
  constructor
  · rintro rfl
    exact hopen (toLower_mem h hc).1
  · rintro rfl
    exact hclose (toLower_mem h hc).1

theorem nameOf_default : nameOf host 22 = host.toLower := by
  rw [nameOf]
  exact if_pos rfl

theorem nameOf_port (hport : port ≠ 22) : (nameOf host port).toList =
    '[' :: host.toLower.toList ++ ']' :: ':' :: Nat.toDigits 10 port.toNat := by
  rw [nameOf]
  simp only [if_neg hport]
  rw [String.toList_ofList]

theorem nameOf_plain (h : hostValid A host) : PlainText (nameOf host port) := by
  by_cases hport : port = 22
  · subst hport
    rw [nameOf_default]
    exact toLower_plain h
  · intro c hc
    rw [nameOf_port hport] at hc
    simp only [List.cons_append, List.mem_cons, List.mem_append] at hc
    rcases hc with rfl | hc | rfl | rfl | hc
    · exact ⟨.inr (by decide), by decide⟩
    · exact toLower_plain h c hc
    · exact ⟨.inr (by decide), by decide⟩
    · exact ⟨.inr (by decide), by decide⟩
    · have hdigit := Nat.isDigit_of_mem_toDigits (by decide) (by decide) hc
      refine ⟨.inl ?_, ?_⟩
      · rw [Char.isAlphanum, hdigit, Bool.or_true]
      · apply decide_eq_false
        rintro ⟨hlow, -⟩
        rw [Char.isDigit, Bool.and_eq_true, decide_eq_true_eq, decide_eq_true_eq] at hdigit
        have h₁ := UInt32.le_iff_toNat_le.mp hlow
        have h₂ := UInt32.le_iff_toNat_le.mp hdigit.2
        have hA : 'A'.val.toNat = 65 := rfl
        have h9 : '9'.val.toNat = 57 := rfl
        omega

theorem nameOf_ne_nil (h : hostValid A host) : nameOf host port ≠ "" := by
  intro hnil
  by_cases hport : port = 22
  · subst hport
    rw [nameOf_default] at hnil
    have hlist : host.toLower.toList = host.toList.map Char.toLower := String.toList_map
    rw [hnil] at hlist
    apply Profile.hostValid_ne_nil h
    apply String.toList_injective
    exact List.map_eq_nil_iff.mp hlist.symm
  · have hlist : (nameOf host port).toList = _ := nameOf_port hport
    rw [hnil] at hlist
    cases hlist

theorem nameOf_bracket (h : hostValid A host) (hport' : port' ≠ 22) :
    nameOf host 22 ≠ nameOf host' port' := by
  intro heq
  have hmem : '[' ∈ (nameOf host 22).toList := by
    rw [heq, nameOf_port hport']
    exact List.mem_cons_self
  rw [nameOf_default] at hmem
  exact (toLower_bracket h hmem).1 rfl

/-- **A name stands for one host and one port.** -/
theorem nameOf_injective (h : hostValid A host) (h' : hostValid A host') :
    nameOf host port = nameOf host' port' ↔ host.toLower = host'.toLower ∧ port = port' := by
  constructor
  · intro heq
    by_cases hport : port = 22
    · by_cases hport' : port' = 22
      · subst hport hport'
        rw [nameOf_default, nameOf_default] at heq
        exact ⟨heq, rfl⟩
      · subst hport
        exact absurd heq (nameOf_bracket h hport')
    · by_cases hport' : port' = 22
      · subst hport'
        exact absurd heq.symm (nameOf_bracket h' hport)
      · have hlist := congrArg String.toList heq
        rw [nameOf_port hport, nameOf_port hport', List.cons_append, List.cons_append] at hlist
        obtain ⟨hhost, hdigits⟩ := append_cons_inj
          (fun hmem => (toLower_bracket h hmem).2 rfl) (fun hmem => (toLower_bracket h' hmem).2 rfl)
          (List.cons.inj hlist).2
        refine ⟨String.toList_injective hhost, ?_⟩
        have hnat := congrArg (Nat.ofDigitChars 10 · 0) (List.cons.inj hdigits).2
        rw [Nat.ofDigitChars_ten_toDigits, Nat.ofDigitChars_ten_toDigits] at hnat
        exact UInt16.toNat_inj.mp hnat
  · rintro ⟨hhost, rfl⟩
    rw [nameOf, nameOf, hhost]

end

/-! ## The text of a file -/

section
variable {κ : Type} {R : Reader κ} {name : String} {key : κ}

theorem line_stripReturn (hR : R.Lawful) (line : List Char) :
    R.line (stripReturn line) = R.line line := by
  rw [stripReturn]
  by_cases hlast : line.getLast? = some '\r'
  · rw [if_pos hlast, ← hR.trailing, List.dropLast_append_getLast? '\r' hlast]
  · rw [if_neg hlast]

/-- The entries are those between the line feeds, with or without one at the end. -/
theorem entriesOf_eq (hR : R.Lawful) (text : String) :
    entriesOf R text = (text.toList.splitOn '\n').filterMap R.line := by
  obtain hnil | ⟨init, last, hsplit⟩ := List.eq_nil_or_concat (text.toList.splitOn '\n')
  · exact absurd hnil (List.splitOn_ne_nil '\n' _)
  rw [List.concat_eq_append] at hsplit
  have hstrip : R.line ∘ stripReturn = R.line := funext (line_stripReturn hR)
  rw [entriesOf, linesOf, hsplit, List.dropLast_concat, List.getLast?_concat,
    List.filterMap_append, List.filterMap_append, List.filterMap_map, hstrip]
  congr 1
  by_cases hlast : last = []
  · simp [hlast, hR.blank]
  · simp [Option.filter, hlast]

theorem entriesOf_empty (hR : R.Lawful) : entriesOf R "" = [] := by
  rw [entriesOf_eq hR]
  simp [hR.blank]

/-- The line that is written. -/
def written (R : Reader κ) (name : String) (key : κ) : List Char :=
  name.toList ++ ' ' :: R.openssh key

/-- Its entry. -/
def writtenEntry (name : String) (key : κ) : Entry κ := ⟨none, .patterns [name], key⟩

theorem line_written (hR : R.Lawful) (hname : PlainText name) (hne : name ≠ "") :
    ((written R name key ++ ['\n']).splitOn '\n').filterMap R.line =
      [.ok (writtenEntry name key)] := by
  have hmem : '\n' ∉ written R name key := by
    intro hmem
    rcases List.mem_append.mp hmem with hmem | hmem
    · have hsign : ¬ nameChar '\n' := by
        rw [nameChar]
        decide
      exact hsign (hname '\n' hmem).name
    · rcases List.mem_cons.mp hmem with hspace | hmem
      · cases hspace
      · exact hR.oneLine key hmem
  have hread : R.line (written R name key) = some (.ok (writtenEntry name key)) :=
    hR.written name key hne fun c hc => (hname c hc).name
  rw [List.splitOn_append_cons_self, List.splitOn_eq_singleton hmem]
  simp [hread, hR.blank]

/-- **The line that is appended keeps every entry before it.** -/
theorem entriesOf_appended (hR : R.Lawful) (hname : PlainText name) (hne : name ≠ "")
    (user : String) : entriesOf R (appended R user name key) =
      entriesOf R user ++ [.ok (writtenEntry name key)] := by
  rw [entriesOf_eq hR, entriesOf_eq hR, appended, String.toList_ofList,
    ← @line_written _ _ _ key hR hname hne]
  by_cases hnil : user.toList = []
  · rw [hnil]
    simp [hR.blank, written]
  · by_cases hlast : user.toList.getLast? = some '\n'
    · rw [if_neg fun h => h.2 hlast, List.append_nil]
      obtain hempty | ⟨init, last, huser⟩ := List.eq_nil_or_concat user.toList
      · exact absurd hempty hnil
      rw [List.concat_eq_append] at huser
      obtain rfl : last = '\n' := by
        rw [huser, List.getLast?_concat] at hlast
        exact Option.some.inj hlast
      have hold : (init ++ ['\n']).splitOn '\n' = init.splitOn '\n' ++ [[]] :=
        List.splitOn_append_cons_self init []
      have hnew : (init ++ '\n' :: (written R name key ++ ['\n'])).splitOn '\n' =
          init.splitOn '\n' ++ (written R name key ++ ['\n']).splitOn '\n' :=
        List.splitOn_append_cons_self init _
      have hblank : List.filterMap R.line [[]] = [] := by simp [hR.blank]
      rw [huser, hold, List.append_assoc, List.singleton_append, ← written, hnew,
        List.filterMap_append, List.filterMap_append, hblank, List.append_nil]
    · rw [if_pos ⟨hnil, hlast⟩, List.append_assoc, List.singleton_append,
        List.splitOn_append_cons_self, List.filterMap_append]
      rfl

end

/-! ## Both files -/

section
variable {κ : Type} (R : Reader κ) (name : String) (key : κ)

/-- An entry of the name revokes the key. -/
def Revoked (es : List (Entry κ)) : Prop :=
  ∃ e ∈ es, e.Names R name ∧ e.marker = some .revoked ∧ e.key = key

/-- An entry of the name without a marker has the key. -/
def Trusted (es : List (Entry κ)) : Prop :=
  ∃ e ∈ es, e.Names R name ∧ e.marker = none ∧ e.key = key

/-- No entry but revocations is for the name. -/
def FirstUse (es : List (Entry κ)) : Prop :=
  ∀ e ∈ es, e.Names R name → e.marker = some .revoked

/-- Every line of a file is read. A file that is not there has none. -/
def Reads (text : Option String) (es : List (Entry κ)) : Prop :=
  text.elim (es = []) fun text => entriesOf R text = es.map .ok

variable {R name key} {A : Addresses} {host host' : String} {port port' : UInt16} {key' : κ}
  {user : String} {system : Option String} {es us ss : List (Entry κ)}

theorem PlainText.asterisk_notMem (h : PlainText name) : asterisk ∉ utf8 name :=
  fun hmem => (h.bytes hmem).1 rfl

theorem foundIn_iff (h : PlainText name) :
    foundIn R name es = false ↔ FirstUse R name es := by
  simp only [foundIn, FirstUse, List.any_eq_false, Bool.and_eq_true, ne_eq, decide_eq_true_eq,
    matchesHost_iff h.asterisk_notMem, not_and, Decidable.not_not]

/-- The entry that is written is for its name only. -/
theorem writtenEntry_names (h : PlainText name) {other : String} (hother : PlainText other) :
    (writtenEntry name key).Names R other ↔ name = other := by
  show ((∃ p ∈ [name], negated p = false ∧ Globs p other) ∧
    ∀ p ∈ [name], negated p = true → ¬ Globs (withoutSign p) other) ↔ _
  simp only [List.mem_singleton, exists_eq_left, forall_eq, h.not_negated, h.globs hother,
    true_and, Bool.false_eq_true, false_implies, and_true]

theorem FirstUse.not_trusted (h : FirstUse R name es) : ¬ Trusted R name key es := by
  rintro ⟨e, he, hname, hnone, -⟩
  have hrevoked := h e he hname
  rw [hnone] at hrevoked
  cases hrevoked

theorem reads_appended (hR : R.Lawful) (h : hostValid A host) (hus : Reads R (some user) us) :
    Reads R (some (appended R user (nameOf host port) key))
      (us ++ [writtenEntry (nameOf host port) key]) := by
  show entriesOf R _ = List.map _ _
  rw [entriesOf_appended hR (nameOf_plain h) (nameOf_ne_nil h), List.map_append]
  exact congrArg (· ++ _) hus

variable [DecidableEq κ]

theorem revokedIn_iff (h : PlainText name) :
    revokedIn R name key es = true ↔ Revoked R name key es := by
  simp only [revokedIn, Revoked, List.any_eq_true, Bool.and_eq_true, decide_eq_true_eq,
    matchesHost_iff h.asterisk_notMem]

theorem trustedIn_iff (h : PlainText name) :
    trustedIn R name key es = true ↔ Trusted R name key es := by
  simp only [trustedIn, Trusted, List.any_eq_true, Bool.and_eq_true, decide_eq_true_eq,
    matchesHost_iff h.asterisk_notMem]

/-- What the check answers, from what is in the files. -/
theorem verify_eq (hus : Reads R (some user) us) (hss : Reads R system ss) :
    verify R host port key user system =
      if revokedIn R (nameOf host port) key (us ++ ss) then
        (.error s!"The SSH host key for {nameOf host port} is revoked.", user)
      else if trustedIn R (nameOf host port) key (us ++ ss) then (.ok (), user)
      else if foundIn R (nameOf host port) (us ++ ss) then
        (.error s!"SSH host key changed or requires a certificate for {nameOf host port}. Verify the server and update known_hosts before reconnecting.", user)
      else (.ok (), appended R user (nameOf host port) key) := by
  have huser : inspect R user (nameOf host port) key = _ := inspect_ok hus
  have hsystem : (system.elim (.ok (false, false)) fun text => inspect R text (nameOf host port) key)
      = if revokedIn R (nameOf host port) key ss then
          .error s!"The SSH host key for {nameOf host port} is revoked."
        else .ok (foundIn R (nameOf host port) ss, trustedIn R (nameOf host port) key ss) := by
    cases system with
    | none =>
      obtain rfl : ss = [] := hss
      rfl
    | some text => exact inspect_ok hss
  have happend : revokedIn R (nameOf host port) key (us ++ ss) =
      (revokedIn R (nameOf host port) key us || revokedIn R (nameOf host port) key ss) :=
    List.any_append
  have htrusted : trustedIn R (nameOf host port) key (us ++ ss) =
      (trustedIn R (nameOf host port) key us || trustedIn R (nameOf host port) key ss) :=
    List.any_append
  have hfound : foundIn R (nameOf host port) (us ++ ss) =
      (foundIn R (nameOf host port) us || foundIn R (nameOf host port) ss) :=
    List.any_append
  rw [verify]
  simp only [huser, hsystem, happend, htrusted, hfound]
  cases revokedIn R (nameOf host port) key ss with
  | true => simp
  | false =>
    cases revokedIn R (nameOf host port) key us with
    | true => simp
    | false => simp

theorem verify_accepts (h : hostValid A host) (hus : Reads R (some user) us)
    (hss : Reads R system ss) : (verify R host port key user system).1 = .ok () ↔
      ¬ Revoked R (nameOf host port) key (us ++ ss) ∧
        (Trusted R (nameOf host port) key (us ++ ss) ∨
          FirstUse R (nameOf host port) (us ++ ss)) := by
  have hplain : PlainText (nameOf host port) := nameOf_plain h
  rw [verify_eq hus hss, ← revokedIn_iff hplain, ← trustedIn_iff hplain, ← foundIn_iff hplain]
  cases revokedIn R (nameOf host port) key (us ++ ss) with
  | true => simp
  | false =>
    cases trustedIn R (nameOf host port) key (us ++ ss) with
    | true => simp
    | false =>
      cases foundIn R (nameOf host port) (us ++ ss) with
      | true => simp
      | false => simp

/-- Elsewhere than at a first use the file stays as it is. -/
theorem verify_unchanged (h : hostValid A host) (hus : Reads R (some user) us)
    (hss : Reads R system ss)
    (hfirst : ¬ (¬ Revoked R (nameOf host port) key (us ++ ss) ∧
      FirstUse R (nameOf host port) (us ++ ss))) :
    (verify R host port key user system).2 = user := by
  have hplain : PlainText (nameOf host port) := nameOf_plain h
  rw [← revokedIn_iff hplain, ← foundIn_iff hplain] at hfirst
  rw [verify_eq hus hss]
  cases hrevoked : revokedIn R (nameOf host port) key (us ++ ss) with
  | true => simp
  | false =>
    cases hfound : foundIn R (nameOf host port) (us ++ ss) with
    | true =>
      cases trustedIn R (nameOf host port) key (us ++ ss) with
      | true => rfl
      | false => rfl
    | false => exact absurd ⟨by simp [hrevoked], hfound⟩ hfirst

/-- At a first use the line is appended. -/
theorem verify_first (h : hostValid A host) (hus : Reads R (some user) us)
    (hss : Reads R system ss) (hrevoked : ¬ Revoked R (nameOf host port) key (us ++ ss))
    (hfirst : FirstUse R (nameOf host port) (us ++ ss)) :
    verify R host port key user system =
      (.ok (), appended R user (nameOf host port) key) := by
  have hplain : PlainText (nameOf host port) := nameOf_plain h
  have htrusted : ¬ Trusted R (nameOf host port) key (us ++ ss) := hfirst.not_trusted
  rw [← revokedIn_iff hplain] at hrevoked
  rw [← trustedIn_iff hplain] at htrusted
  rw [← foundIn_iff hplain] at hfirst
  rw [verify_eq hus hss, if_neg hrevoked, if_neg htrusted, hfirst]
  rfl

/-! ## What a first use leaves -/

variable (key') in
/-- After it the key is known, and any other key is refused. -/
theorem after_first (hR : R.Lawful) (h : hostValid A host) (hus : Reads R (some user) us)
    (hss : Reads R system ss) (hrevoked : ¬ Revoked R (nameOf host port) key (us ++ ss))
    (hfirst : FirstUse R (nameOf host port) (us ++ ss)) (user' : String)
    (huser' : user' = appended R user (nameOf host port) key) :
    (verify R host port key' user' system).2 = user' ∧
      ((verify R host port key' user' system).1 = .ok () ↔ key' = key) := by
  have hplain : PlainText (nameOf host port) := nameOf_plain h
  have hus' : Reads R (some user') (us ++ [writtenEntry (nameOf host port) key]) := by
    rw [huser']
    exact reads_appended hR h hus
  have hnames : (writtenEntry (nameOf host port) key).Names R (nameOf host port) :=
    (writtenEntry_names hplain hplain).mpr rfl
  have hmem : writtenEntry (nameOf host port) key ∈
      us ++ [writtenEntry (nameOf host port) key] ++ ss := by simp
  have hnot : ¬ FirstUse R (nameOf host port)
      (us ++ [writtenEntry (nameOf host port) key] ++ ss) := by
    intro hall
    cases hall _ hmem hnames
  refine ⟨verify_unchanged h hus' hss fun hboth => hnot hboth.2, ?_⟩
  rw [verify_accepts h hus' hss, or_iff_left hnot]
  constructor
  · rintro ⟨-, e, he, hname, hnone, rfl⟩
    simp only [List.mem_append, List.mem_singleton] at he
    rcases he with (he | rfl) | he
    · have hmark := hfirst e (List.mem_append_left ss he) hname
      rw [hnone] at hmark
      cases hmark
    · rfl
    · have hmark := hfirst e (List.mem_append_right us he) hname
      rw [hnone] at hmark
      cases hmark
  · rintro rfl
    refine ⟨?_, _, hmem, hnames, rfl, rfl⟩
    rintro ⟨e, he, hname, hmark, hkey⟩
    simp only [List.mem_append, List.mem_singleton] at he
    rcases he with (he | rfl) | he
    · exact hrevoked ⟨e, List.mem_append_left ss he, hname, hmark, hkey⟩
    · cases hmark
    · exact hrevoked ⟨e, List.mem_append_right us he, hname, hmark, hkey⟩

/-- An entry of no concern to a name changes nothing for it. -/
theorem verify_frame {e : Entry κ} {user' : String} (h : hostValid A host)
    (hus : Reads R (some user) us) (hus' : Reads R (some user') (us ++ [e]))
    (hss : Reads R system ss) (he : ¬ e.Names R (nameOf host port)) :
    (verify R host port key user' system).1 = (verify R host port key user system).1 := by
  have hplain : PlainText (nameOf host port) := nameOf_plain h
  have hmatch : matchesHost R e.hostPatterns (nameOf host port) = false := by
    apply eq_false_of_ne_true
    intro hmatch
    exact he ((matchesHost_iff hplain.asterisk_notMem).mp hmatch)
  have hany : ∀ f : Entry κ → Bool,
      (us ++ [e] ++ ss).any (fun e => matchesHost R e.hostPatterns (nameOf host port) && f e) =
        (us ++ ss).any fun e => matchesHost R e.hostPatterns (nameOf host port) && f e := by
    intro f
    simp [hmatch]
  rw [verify_eq hus' hss, verify_eq hus hss, revokedIn, revokedIn, trustedIn, trustedIn, foundIn,
    foundIn, hany, hany, hany]
  split
  · rfl
  · split
    · rfl
    · split
      · rfl
      · rfl

/-- **The check accepts a key where no file revokes it, and a file has it or no file knows the
    name.** Only where no file knows the name the user's file changes: by one line, behind
    which every entry is still there, which makes the key known, refuses any other for the
    name, and decides nothing for another host or port. -/
theorem host_key_decisions (hR : R.Lawful) {s : Profile.Server} (hs : s.validate A = .ok ())
    (port : UInt16) (key : κ) (hus : Reads R (some user) us) (hss : Reads R system ss) :
    (∀ pattern value, ∃ b, Glob.scan wildOne wildMany (Glob.enough pattern value)
      ⟨pattern, value, none⟩ = some b) ∧
    ((verify R s.sshHost port key user system).1 = .ok () ↔
      ¬ Revoked R (nameOf s.sshHost port) key (us ++ ss) ∧
        (Trusted R (nameOf s.sshHost port) key (us ++ ss) ∨
          FirstUse R (nameOf s.sshHost port) (us ++ ss))) ∧
    (¬ (¬ Revoked R (nameOf s.sshHost port) key (us ++ ss) ∧
        FirstUse R (nameOf s.sshHost port) (us ++ ss)) →
      (verify R s.sshHost port key user system).2 = user) ∧
    (¬ Revoked R (nameOf s.sshHost port) key (us ++ ss) →
      FirstUse R (nameOf s.sshHost port) (us ++ ss) →
      ∃ user', (verify R s.sshHost port key user system).2 = user' ∧
        user' = appended R user (nameOf s.sshHost port) key ∧
        Reads R (some user') (us ++ [writtenEntry (nameOf s.sshHost port) key]) ∧
        verify R s.sshHost port key user' system = (.ok (), user') ∧
        (∀ key', key' ≠ key →
          ∃ e, verify R s.sshHost port key' user' system = (.error e, user')) ∧
        ∀ {s' : Profile.Server} (port' key'), s'.validate A = .ok () →
          ¬ (s'.sshHost.toLower = s.sshHost.toLower ∧ port' = port) →
          (verify R s'.sshHost port' key' user' system).1 =
            (verify R s'.sshHost port' key' user system).1) := by
  have h := Profile.Server.hostValid_of_validate hs
  refine ⟨Glob.decides_ends, verify_accepts h hus hss, verify_unchanged h hus hss, ?_⟩
  intro hrevoked hfirst
  have hreads := @reads_appended _ _ key A s.sshHost port user us hR h hus
  refine ⟨_, rfl, ?_⟩
  rw [verify_first h hus hss hrevoked hfirst]
  have hafter := fun key' => after_first key' hR h hus hss hrevoked hfirst _ rfl
  refine ⟨rfl, hreads, ?_, ?_, ?_⟩
  · obtain ⟨hfile, hok⟩ := hafter key
    exact Prod.ext (hok.mpr rfl) hfile
  · intro key' hne
    obtain ⟨hfile, hok⟩ := hafter key'
    match hresult : verify R s.sshHost port key' (appended R user (nameOf s.sshHost port) key)
      system with
    | (.ok (), user') =>
      rw [hresult] at hok
      exact absurd (hok.mp rfl) hne
    | (.error e, user') =>
      rw [hresult] at hfile
      exact ⟨e, Prod.ext rfl hfile⟩
  · intro s' port' key' hs' hother
    have h' := Profile.Server.hostValid_of_validate hs'
    apply verify_frame h' hus hreads hss
    intro hnames
    obtain ⟨hhost, hport⟩ := (nameOf_injective h h').mp
      ((writtenEntry_names (nameOf_plain h) (nameOf_plain h')).mp hnames)
    exact hother ⟨hhost.symm, hport.symm⟩

end

/-! ## A reader -/

/-- Two keys, as they are written. -/
def sampleStart : List Char :=
  "ssh-ed25519 AAAAC3NzaC1lZDI1NTE5AAAAI".toList ++ List.replicate 42 'A'

def sampleLast (key : Bool) : Char := if key then 'B' else 'A'

def sampleKey (key : Bool) : List Char := sampleStart ++ [sampleLast key]

/-- Lines without a marker or a hashed name. -/
def sampleLine (line : List Char) : Option (Except Unit (Entry Bool)) :=
  let line := (line.reverse.dropWhile (· = '\r')).reverse
  if line = [] then none
  else
    let names := ((line.takeWhile (· ≠ ' ')).splitOn ',').map String.ofList
    let rest := (line.dropWhile (· ≠ ' ')).tail
    if rest = sampleKey false then some (.ok ⟨none, .patterns names, false⟩)
    else if rest = sampleKey true then some (.ok ⟨none, .patterns names, true⟩)
    else some (.error ())

def sampleReader : Reader Bool where
  line := sampleLine
  openssh := sampleKey
  verifies _ _ _ := false

theorem sampleKey_injective {k k' : Bool} (h : sampleKey k = sampleKey k') : k = k' := by
  have hlast : sampleLast k = sampleLast k' :=
    List.singleton_inj.mp (List.append_cancel_left h)
  revert hlast
  cases k <;> cases k' <;> decide

theorem sampleLast_ne (k : Bool) : sampleLast k ≠ '\r' ∧ sampleLast k ≠ '\n' := by
  cases k <;> decide

theorem sampleLine_written {names : List Char} {k : Bool} (hblank : ' ' ∉ names)
    (hcomma : ',' ∉ names) : sampleLine (names ++ ' ' :: sampleKey k) =
      some (.ok ⟨none, .patterns [String.ofList names], k⟩) := by
  have htrim : ((names ++ ' ' :: sampleKey k).reverse.dropWhile (· = '\r')).reverse =
      names ++ ' ' :: sampleKey k := by
    rw [sampleKey]
    simp [(sampleLast_ne k).1]
  have hpass : ∀ c ∈ names, decide (c ≠ ' ') = true := by
    intro c hc
    apply decide_eq_true
    rintro rfl
    exact hblank hc
  have htake : (names ++ ' ' :: sampleKey k).takeWhile (· ≠ ' ') = names := by
    rw [List.takeWhile_append_of_pos hpass]
    simp
  have hdrop : (names ++ ' ' :: sampleKey k).dropWhile (· ≠ ' ') = ' ' :: sampleKey k := by
    rw [List.dropWhile_append_of_pos hpass]
    simp
  rw [sampleLine]
  simp only [htrim, htake, hdrop, List.tail_cons, List.splitOn_eq_singleton hcomma]
  rw [if_neg (by simp)]
  cases k with
  | true =>
    have hne : sampleKey true ≠ sampleKey false := fun h => Bool.noConfusion (sampleKey_injective h)
    simp [hne]
  | false => simp

theorem sampleReader_lawful : sampleReader.Lawful where
  blank := rfl
  trailing l := by
    show sampleLine (l ++ ['\r']) = sampleLine l
    have htrim : ((l ++ ['\r']).reverse.dropWhile (· = '\r')) =
        l.reverse.dropWhile (· = '\r') := by
      rw [List.reverse_append]
      rfl
    rw [sampleLine, sampleLine]
    simp only [htrim]
  oneLine key := by
    show '\n' ∉ sampleKey key
    have hstart : '\n' ∉ sampleStart := by decide +kernel
    rw [sampleKey, List.mem_append, List.mem_singleton]
    exact not_or.mpr ⟨hstart, (sampleLast_ne key).2.symm⟩
  written name key _ hname := by
    have hsigns : ¬ nameChar ' ' ∧ ¬ nameChar ',' := by
      rw [nameChar, nameChar]
      decide
    show sampleLine (name.toList ++ ' ' :: sampleKey key) = _
    rw [sampleLine_written (fun hmem => hsigns.1 (hname ' ' hmem))
      (fun hmem => hsigns.2 (hname ',' hmem)), String.ofList_toList]

/-- A host the user's file excludes from a pattern. -/
def privateHost : Profile.Server where
  id := 0
  name := "private"
  sshUser := "dev"
  sshHost := "Private.example.com"
  sshPort := 22
  identityFile := none
  agentSource := none
  agentKeyFingerprint := none
  authMethod := .publicKey
  clipboardEnabled := false
  browserEnabled := false

def examplePatterns : String :=
  String.ofList ("*.example.com,!private.example.com ".toList ++ sampleKey false)

theorem private_host_decisions : ∃ user',
    (verify sampleReader privateHost.sshHost 22 true examplePatterns none).2 = user' ∧
      ∃ e, verify sampleReader privateHost.sshHost 22 false user' none = (.error e, user') := by
  have hus : Reads sampleReader (some examplePatterns)
      [⟨none, .patterns ["*.example.com", "!private.example.com"], false⟩] := by
    show entriesOf _ _ = _
    decide +kernel
  have hs : privateHost.validate ⟨fun _ => false, fun _ => none⟩ = .ok () := by decide +kernel
  have hname : (nameOf privateHost.sshHost 22) = "private.example.com" := by decide +kernel
  have hfirst : FirstUse sampleReader (nameOf privateHost.sshHost 22)
      ([⟨none, .patterns ["*.example.com", "!private.example.com"], false⟩] ++ []) := by
    rw [← foundIn_iff (nameOf_plain (Profile.Server.hostValid_of_validate hs))]
    decide +kernel
  have hrevoked : ¬ Revoked sampleReader (nameOf privateHost.sshHost 22) true
      ([⟨none, .patterns ["*.example.com", "!private.example.com"], false⟩] ++ []) := by
    rintro ⟨e, he, -, hmark, -⟩
    obtain rfl := List.mem_singleton.mp he
    cases hmark
  obtain ⟨-, -, -, hlast⟩ := host_key_decisions sampleReader_lawful hs 22 true hus
    (show Reads sampleReader none [] from rfl)
  obtain ⟨user', huser, -, -, -, hother, -⟩ := hlast hrevoked hfirst
  exact ⟨user', huser, hother false (by decide)⟩

end Porthop.Ssh
