import Porthop.Git.Journal
import Porthop.Lib.Base64

/- What the desktop checks of a response (`gitResponses.ts`): the primitives, a path, an
   object id, and a page of a listing and the next one put behind it.

   A decoder takes a value, or nothing where a member is not there, and gives what it read
   or the field its error names. -/
namespace Porthop.Git.Response

/-- A value, or the `undefined` of a member that is not there. -/
abbrev Field := Option Value

/-- What was read, or the field that is invalid. -/
abbrev Checked (α : Type) := Except String α

def object : Field → Checked (List (String × Value))
  | some (.obj fs) => .ok fs
  | _ => .error "object"

def prop (fs : List (String × Value)) (name : String) : Field := Json.field name fs

def text : Field → Checked String
  | some (.str s) => .ok s
  | _ => .error "text"

def flag : Field → Checked Bool
  | some (.bool b) => .ok b
  | _ => .error "boolean"

/-- The largest integer a double holds together with the next one. -/
def maxSafe : Int := 2 ^ 53 - 1

def integer : Field → Checked Int
  | some (.num n) => if -maxSafe ≤ n ∧ n ≤ maxSafe then .ok n else .error "integer"
  | _ => .error "integer"

def count (v : Field) : Checked Nat := do
  let n ← integer v
  if n < 0 then .error "count" else .ok n.toNat

section
variable {α : Type}

def nullable (decode : Field → Checked α) : Field → Checked (Option α)
  | some .null => .ok none
  | v => do
    let a ← decode v
    .ok (some a)

def array (decode : Field → Checked α) (max : Nat) : Field → Checked (List α)
  | some (.arr vs) => if max < vs.length then .error "array" else vs.mapM fun v => decode (some v)
  | _ => .error "array"

end

/-! ## Bytes -/

/-- How many signs fill up the last group. -/
def padding (b64 : List Char) : Nat :=
  match b64.reverse with
  | '=' :: '=' :: _ => 2
  | '=' :: _ => 1
  | _ => 0

/-- Base64 as the encoder writes it: full groups, no character of another alphabet (which
    is more than one of them where it is outside the basic plane), and the unused bits of
    the last group clear. -/
def canonical (b64 : List Char) : Bool :=
  b64.length % 4 = 0 ∧
    ((b64.take (b64.length - padding b64)).all fun c => c ∈ Base64.standard.alphabet.chars) ∧
    (padding b64 = 2 → b64.reverse[2]?.any fun c => c ∈ "AQgw".toList) ∧
    (padding b64 = 1 → b64.reverse[1]?.any fun c => c ∈ "AEIMQUYcgkosw048".toList)

def decodeGitBytes (value : Field) : Checked WirePath := do
  let v ← object value
  let bytesB64 ← text (prop v "bytesB64")
  if canonical bytesB64.toList then
    let display ← text (prop v "display")
    .ok ⟨bytesB64, display⟩
  else .error "bytesB64"

/-- The bytes a canonical text stands for. -/
def base64ByteLength (b64 : List Char) : Nat := b64.length / 4 * 3 - padding b64

/-! ## Object ids -/

inductive ObjectFormat where
  | sha1
  | sha256
  deriving DecidableEq

namespace ObjectFormat

def text : ObjectFormat → String
  | sha1 => "sha1"
  | sha256 => "sha256"

/-- The digits of an object id. -/
def oidLength : ObjectFormat → Nat
  | sha1 => 40
  | sha256 => 64

def ofText (s : String) : Option ObjectFormat :=
  if s = "sha1" then some sha1 else if s = "sha256" then some sha256 else none

end ObjectFormat

structure Oid where
  algorithm : ObjectFormat
  hex : String
  deriving DecidableEq

/-- The digits an object id is written with. -/
def lowerHex (c : Char) : Bool := ('0' ≤ c ∧ c ≤ '9') ∨ ('a' ≤ c ∧ c ≤ 'f')

/-- A text of so many digits and nothing else. -/
def hexText (n : Nat) (s : String) : Bool := s.toList.length = n ∧ s.toList.all lowerHex

def decodeGitOid (value : Field) : Checked Oid := do
  let v ← object value
  let hex ← text (prop v "hex")
  let named := match prop v "algorithm" with
    | none | some .null => prop v "format"
    | some a => some a
  let algorithm ← text named
  match ObjectFormat.ofText algorithm with
  | none => .error "object ID algorithm"
  | some algorithm =>
    if hexText algorithm.oidLength hex then .ok ⟨algorithm, hex⟩ else .error "object ID"

/-! ## Pages -/

structure GitPage (α μ : Type) where
  snapshot : String
  entries : List α
  nextCursor : Option String
  metadata : μ

/-- The most entries of one page. -/
def maxEntries : Nat := 200

section
variable {α μ : Type}

def page (value : Field) (entry : Field → Checked α) (metadata : Field → Checked μ) :
    Checked (GitPage α μ) := do
  let v ← object value
  let snapshot ← text (prop v "snapshot")
  let entries ← array entry maxEntries (prop v "entries")
  let nextCursor ← nullable text (prop v "nextCursor")
  let metadata ← metadata (prop v "metadata")
  .ok ⟨snapshot, entries, nextCursor, metadata⟩

variable [DecidableEq μ]

/-- Pages of different reads are never combined. -/
def validateGitPageContinuation (previous incoming : GitPage α μ) (requestedCursor : String) :
    Checked Unit :=
  if previous.nextCursor = none ∨ previous.nextCursor ≠ some requestedCursor ∨
      previous.snapshot ≠ incoming.snapshot ∨ previous.metadata ≠ incoming.metadata then
    .error "page snapshot"
  else if incoming.nextCursor = some requestedCursor then .error "page cursor"
  else .ok ()

def appendGitPage (previous incoming : GitPage α μ) (requestedCursor : String) :
    Checked (GitPage α μ) := do
  validateGitPageContinuation previous incoming requestedCursor
  .ok { incoming with entries := previous.entries ++ incoming.entries }

end

/-! ## What is accepted -/

section
variable {α β μ : Type}

@[simp] theorem object_obj (fs : List (String × Value)) : object (some (.obj fs)) = .ok fs := rfl

@[simp] theorem text_str (s : String) : text (some (.str s)) = .ok s := rfl

@[simp] theorem flag_bool (b : Bool) : flag (some (.bool b)) = .ok b := rfl

theorem integer_num {n : Int} (h : -maxSafe ≤ n ∧ n ≤ maxSafe) :
    integer (some (.num n)) = .ok n := by
  rw [integer, if_pos h]

/-- A count is accepted up to the largest safe integer. -/
theorem count_nat (n : Nat) :
    count (some (.num n)) = if (n : Int) ≤ maxSafe then .ok n else .error "integer" := by
  have hlow : -maxSafe ≤ (n : Int) := by
    have hmax : maxSafe = 9007199254740991 := rfl
    omega
  have hneg : ¬ (n : Int) < 0 := Int.not_lt.mpr (Int.natCast_nonneg n)
  by_cases h : (n : Int) ≤ maxSafe
  · rw [count, integer_num ⟨hlow, h⟩, if_pos h]
    simp only [bind, Except.bind, if_neg hneg, Int.toNat_natCast]
  · rw [count, integer, if_neg fun hboth => h hboth.2, if_neg h]
    rfl

theorem count_safe {n : Nat} (h : (n : Int) ≤ maxSafe) : count (some (.num n)) = .ok n := by
  rw [count_nat, if_pos h]

@[simp] theorem nullable_null (decode : Field → Checked α) :
    nullable decode (some .null) = .ok none := rfl

theorem nullable_of {decode : Field → Checked α} {v : Value} {a : α} (hv : v ≠ .null)
    (h : decode (some v) = .ok a) : nullable decode (some v) = .ok (some a) := by
  cases v with
  | null => exact absurd rfl hv
  | _ => simp only [nullable, h, bind, Except.bind]

@[simp] theorem nullable_str (s : String) : nullable text (some (.str s)) = .ok (some s) := rfl

/-- A list of rows is read row by row. -/
theorem mapM_ok {f : α → Checked β} {g : α → β} : ∀ {as : List α},
    (∀ a ∈ as, f a = .ok (g a)) → as.mapM f = .ok (as.map g)
  | [], _ => rfl
  | a :: as, h => by
    have ih := mapM_ok fun b hb => h b (List.mem_cons_of_mem a hb)
    rw [List.mapM_cons, h a List.mem_cons_self, ih]
    rfl

theorem array_ok {decode : Field → Checked β} {encode : α → Value} {g : α → β} {max : Nat}
    {as : List α} (hlen : as.length ≤ max) (h : ∀ a ∈ as, decode (some (encode a)) = .ok (g a)) :
    array decode max (some (.arr (as.map encode))) = .ok (as.map g) := by
  have hle : ¬ max < (as.map encode).length := by
    rw [List.length_map]
    exact Nat.not_lt.mpr hlen
  rw [array, if_neg hle, List.mapM_map]
  exact mapM_ok h

theorem page_ok {fs : List (String × Value)} {entry : Field → Checked α}
    {metadata : Field → Checked μ} {p : GitPage α μ}
    (hsnapshot : prop fs "snapshot" = some (.str p.snapshot))
    (hentries : array entry maxEntries (prop fs "entries") = .ok p.entries)
    (hnext : nullable text (prop fs "nextCursor") = .ok p.nextCursor)
    (hmetadata : metadata (prop fs "metadata") = .ok p.metadata) :
    page (some (.obj fs)) entry metadata = .ok p := by
  simp only [page, object_obj, hsnapshot, text_str, hentries, hnext, hmetadata, bind, Except.bind]

variable [DecidableEq μ]

/-- What makes the next page one. -/
theorem appendGitPage_ok {previous incoming : GitPage α μ} {cursor : String}
    (hcursor : previous.nextCursor = some cursor)
    (hsnapshot : previous.snapshot = incoming.snapshot)
    (hmetadata : previous.metadata = incoming.metadata)
    (hnext : incoming.nextCursor ≠ some cursor) :
    appendGitPage previous incoming cursor =
      .ok { incoming with entries := previous.entries ++ incoming.entries } := by
  have hsome : previous.nextCursor ≠ none := by
    rw [hcursor]
    exact Option.some_ne_none cursor
  have hall : ¬ (previous.nextCursor = none ∨ previous.nextCursor ≠ some cursor ∨
      previous.snapshot ≠ incoming.snapshot ∨ previous.metadata ≠ incoming.metadata) := by
    rintro (h | h | h | h)
    · exact hsome h
    · exact h hcursor
    · exact h hsnapshot
    · exact h hmetadata
  rw [appendGitPage, validateGitPageContinuation, if_neg hall, if_neg hnext]
  rfl

end

/-! ## Base64 of the agent -/

/-- A text of the encoder: full groups of digits and a last group that may be filled up. -/
theorem encode_groups (bs : List UInt8) : ∃ ds tail : List Char,
    Base64.standard.encode bs = ds ++ tail ∧ ds.length % 4 = 0 ∧
    (∀ c ∈ ds, c ∈ Base64.standard.alphabet.chars) ∧
    ((tail = [] ∧ bs.length = ds.length / 4 * 3) ∨
      (∃ m n, m < 64 ∧ n < 4 ∧ bs.length = ds.length / 4 * 3 + 1 ∧
        tail = [Base64.standard.alphabet.char m, Base64.standard.alphabet.char (n * 16),
          '=', '=']) ∨
      ∃ l m n, l < 64 ∧ m < 64 ∧ n < 16 ∧ bs.length = ds.length / 4 * 3 + 2 ∧
        tail = [Base64.standard.alphabet.char l, Base64.standard.alphabet.char m,
          Base64.standard.alphabet.char (n * 4), '=']) := by
  induction bs using Base64.Engine.encode.induct with
  | case1 => exact ⟨[], [], rfl, rfl, fun c hc => absurd hc List.not_mem_nil, .inl ⟨rfl, rfl⟩⟩
  | case2 a =>
    have ha := Base64.Engine.byte_lt a
    exact ⟨[], _, rfl, rfl, fun c hc => absurd hc List.not_mem_nil,
      .inr (.inl ⟨a.toNat / 4, a.toNat % 4, by omega, by omega, rfl, rfl⟩)⟩
  | case3 a b =>
    have ha := Base64.Engine.byte_lt a
    have hb := Base64.Engine.byte_lt b
    exact ⟨[], _, rfl, rfl, fun c hc => absurd hc List.not_mem_nil,
      .inr (.inr ⟨a.toNat / 4, a.toNat % 4 * 16 + b.toNat / 16, b.toNat % 16, by omega, by omega,
        by omega, rfl, rfl⟩)⟩
  | case4 a b c rest ih =>
    have ha := Base64.Engine.byte_lt a
    have hb := Base64.Engine.byte_lt b
    have hc := Base64.Engine.byte_lt c
    obtain ⟨ds, tail, henc, hmod, hmem, htail⟩ := ih
    refine ⟨_ :: _ :: _ :: _ :: ds, tail, by rw [Base64.Engine.encode, henc]; rfl, ?_, ?_, ?_⟩
    · simp only [List.length_cons]
      omega
    · intro x hx
      simp only [List.mem_cons] at hx
      rcases hx with rfl | rfl | rfl | rfl | hx
      · exact Base64.Alphabet.char_mem (by omega)
      · exact Base64.Alphabet.char_mem (by omega)
      · exact Base64.Alphabet.char_mem (by omega)
      · exact Base64.Alphabet.char_mem (by omega)
      · exact hmem x hx
    · simp only [List.length_cons]
      rcases htail with ⟨ht, hlen⟩ | ⟨m, n, hm, hn, hlen, ht⟩ | ⟨l, m, n, hl, hm, hn, hlen, ht⟩
      · exact .inl ⟨ht, by omega⟩
      · exact .inr (.inl ⟨m, n, hm, hn, by omega, ht⟩)
      · exact .inr (.inr ⟨l, m, n, hl, hm, hn, by omega, ht⟩)

theorem two_clear : ∀ n < 4, Base64.standard.alphabet.char (n * 16) ∈ "AQgw".toList := by
  decide +kernel

theorem four_clear : ∀ n < 16,
    Base64.standard.alphabet.char (n * 4) ∈ "AEIMQUYcgkosw048".toList := by
  decide +kernel

theorem padding_digits {ds : List Char} (h : ∀ c ∈ ds, c ∈ Base64.standard.alphabet.chars) :
    padding ds = 0 := by
  have hpad := Base64.standard.alphabet.unpadded
  have hrev : '=' ∉ ds.reverse := fun hc => hpad (h _ (List.mem_reverse.mp hc))
  unfold padding
  split
  · next heq => exact absurd (heq ▸ List.mem_cons_self) hrev
  · next heq => exact absurd (heq ▸ List.mem_cons_self) hrev
  · rfl

/-- Digits, the signs that fill them up and what the last group must look like. -/
theorem canonical_of {digits signs : List Char}
    (hmem : ∀ c ∈ digits, c ∈ Base64.standard.alphabet.chars)
    (hmod : (digits ++ signs).length % 4 = 0) (hpad : padding (digits ++ signs) = signs.length)
    (htwo : signs.length = 2 → (digits ++ signs).reverse[2]?.any fun c => c ∈ "AQgw".toList)
    (hone : signs.length = 1 →
      (digits ++ signs).reverse[1]?.any fun c => c ∈ "AEIMQUYcgkosw048".toList) :
    canonical (digits ++ signs) = true := by
  have htake : (digits ++ signs).take ((digits ++ signs).length - signs.length) = digits := by
    rw [List.length_append, Nat.add_sub_cancel, List.take_left]
  simp only [canonical, hpad, htake, decide_eq_true_eq]
  exact ⟨hmod, List.all_eq_true.mpr fun c hc => decide_eq_true (hmem c hc), htwo, hone⟩

theorem mem_digits {ds last : List Char} (hds : ∀ c ∈ ds, c ∈ Base64.standard.alphabet.chars)
    (hlast : ∀ c ∈ last, ∃ n < 64, c = Base64.standard.alphabet.char n) :
    ∀ c ∈ ds ++ last, c ∈ Base64.standard.alphabet.chars := by
  intro c hc
  rcases List.mem_append.mp hc with hc | hc
  · exact hds c hc
  · obtain ⟨n, hn, rfl⟩ := hlast c hc
    exact Base64.Alphabet.char_mem hn

/-- What the agent encodes is canonical, and its length is seen from the text. -/
theorem canonical_encode (bs : List UInt8) :
    canonical (Base64.standard.encode bs) = true ∧
      base64ByteLength (Base64.standard.encode bs) = bs.length := by
  obtain ⟨ds, tail, henc, hmod, hmem, htail⟩ := encode_groups bs
  rw [henc]
  rcases htail with ⟨rfl, hlen⟩ | ⟨m, n, hm, hn, hlen, rfl⟩ | ⟨l, m, n, hl, hm, hn, hlen, rfl⟩
  · have hpad := padding_digits hmem
    constructor
    · apply canonical_of hmem
      · simpa using hmod
      · simpa using hpad
      · intro h
        cases h
      · intro h
        cases h
    · rw [List.append_nil, base64ByteLength, hpad, hlen, Nat.sub_zero]
  · have hlow := two_clear n hn
    have hpad : padding (ds ++ [Base64.standard.alphabet.char m,
        Base64.standard.alphabet.char (n * 16), '=', '=']) = 2 := by
      simp [padding]
    constructor
    · have hdigits : ∀ c ∈ [Base64.standard.alphabet.char m,
          Base64.standard.alphabet.char (n * 16)],
          ∃ n < 64, c = Base64.standard.alphabet.char n := by
        intro c hc
        simp only [List.mem_cons, List.not_mem_nil, or_false] at hc
        rcases hc with rfl | rfl
        · exact ⟨m, hm, rfl⟩
        · exact ⟨n * 16, by omega, rfl⟩
      have h := @canonical_of (ds ++ [Base64.standard.alphabet.char m,
        Base64.standard.alphabet.char (n * 16)]) ['=', '='] (mem_digits hmem hdigits)
      rw [List.append_assoc] at h
      apply h
      · rw [List.length_append]
        simp only [List.length_append, List.length_cons, List.length_nil]
        omega
      · exact hpad
      · intro _
        simpa using hlow
      · intro h
        cases h
    · rw [base64ByteLength, hpad, List.length_append]
      simp only [List.length_cons, List.length_nil]
      omega
  · have hlow := four_clear n hn
    have hne : Base64.standard.alphabet.char (n * 4) ≠ '=' :=
      Base64.Alphabet.char_ne_pad (by omega)
    have hpad : padding (ds ++ [Base64.standard.alphabet.char l, Base64.standard.alphabet.char m,
        Base64.standard.alphabet.char (n * 4), '=']) = 1 := by
      unfold padding
      simp [hne]
    constructor
    · have hdigits : ∀ c ∈ [Base64.standard.alphabet.char l, Base64.standard.alphabet.char m,
          Base64.standard.alphabet.char (n * 4)],
          ∃ n < 64, c = Base64.standard.alphabet.char n := by
        intro c hc
        simp only [List.mem_cons, List.not_mem_nil, or_false] at hc
        rcases hc with rfl | rfl | rfl
        · exact ⟨l, hl, rfl⟩
        · exact ⟨m, hm, rfl⟩
        · exact ⟨n * 4, by omega, rfl⟩
      have h := @canonical_of (ds ++ [Base64.standard.alphabet.char l,
        Base64.standard.alphabet.char m, Base64.standard.alphabet.char (n * 4)]) ['=']
        (mem_digits hmem hdigits)
      rw [List.append_assoc] at h
      apply h
      · simp only [List.length_append, List.length_cons, List.length_nil]
        omega
      · exact hpad
      · intro h
        cases h
      · intro _
        simpa using hlow
    · rw [base64ByteLength, hpad, List.length_append]
      simp only [List.length_cons, List.length_nil]
      omega

/-- Bytes the agent writes, with any text to show for them. -/
theorem decodeGitBytes_ok {fs : List (String × Value)} {bs : List UInt8} {display : String}
    (hb64 : prop fs "bytesB64" = some (.str (String.ofList (Base64.standard.encode bs))))
    (hdisplay : prop fs "display" = some (.str display)) :
    decodeGitBytes (some (.obj fs)) =
      .ok ⟨String.ofList (Base64.standard.encode bs), display⟩ := by
  have hcanonical : canonical (String.ofList (Base64.standard.encode bs)).toList = true := by
    rw [String.toList_ofList]
    exact (canonical_encode bs).1
  simp only [decodeGitBytes, object_obj, hb64, hdisplay, text_str, bind, Except.bind,
    if_pos hcanonical]

end Porthop.Git.Response
