import Porthop.Git.Tokens

/- Whether an issued token comes back.

   A token is as long as base64 makes its JSON, so the limit on tokens is one on the JSON:
   a token is read as the record it was written for if its JSON has at most `maxJson`
   bytes, and refused if it has more. Repository and entry tokens stay below that for any
   path up to the path limit. A cursor of a working diff holds a snapshot and an entry in
   its query, each of them base64 of base64, and need not. -/
namespace Porthop.Git.Tokens

/-- The longest JSON whose token is read. -/
def maxJson : Nat := 12286

theorem utf8Size_alphabet : ∀ c ∈ Base64.urlSafeNoPad.alphabet.chars, c.utf8Size = 1 := by
  have hall : (Base64.urlSafeNoPad.alphabet.chars.all fun c => c.utf8Size == 1) = true := by
    decide +kernel
  simpa using hall

theorem escapeChar_standard : ∀ c ∈ '=' :: Base64.standard.alphabet.chars,
    Json.escapeChar c = [c] ∧ c.utf8Size = 1 := by
  have hall : (('=' :: Base64.standard.alphabet.chars).all fun c =>
      Json.escapeChar c == [c] && c.utf8Size == 1) = true := by
    decide +kernel
  intro c hc
  simpa using List.all_eq_true.mp hall c hc

theorem utf8Len_eq_length {cs : List Char} (h : ∀ c ∈ cs, c.utf8Size = 1) :
    String.utf8Len cs = cs.length := by
  induction cs with
  | nil => rfl
  | cons c cs ih =>
    rw [String.utf8Len_cons, ih fun d hd => h d (List.mem_cons_of_mem _ hd),
      h c List.mem_cons_self, List.length_cons]

theorem length_jsonBytes (v : Value) : (jsonBytes v).length = v.size := by
  rw [jsonBytes, MessagePack.length_utf8, String.utf8ByteSize_ofList]
  rfl

/-- A token is as long as base64 makes its JSON. -/
theorem size_encode (kind : Kind) (v : Value) :
    (encode kind v).utf8ByteSize = (4 * v.size + 2) / 3 + 2 := by
  have hkind : kind.letter.utf8Size = 1 := by cases kind <;> decide
  have hdot : ('.' : Char).utf8Size = 1 := by decide
  have hpad : Base64.urlSafeNoPad.padded = false := rfl
  have hchars : ∀ c ∈ Base64.urlSafeNoPad.encode (jsonBytes v), c.utf8Size = 1 := by
    intro c hc
    cases Base64.urlSafeNoPad.mem_encode hc with
    | inl hmem => exact utf8Size_alphabet c hmem
    | inr heq => rw [heq]; decide
  have hlen := Base64.urlSafeNoPad.length_encode (jsonBytes v)
  rw [hpad, if_neg Bool.false_ne_true, length_jsonBytes] at hlen
  rw [encode, String.utf8ByteSize_ofList, String.utf8Len_cons, String.utf8Len_cons,
    utf8Len_eq_length hchars, hlen, hkind, hdot]

theorem size_encode_le (kind : Kind) (v : Value) :
    (encode kind v).utf8ByteSize ≤ maxToken ↔ v.size ≤ maxJson := by
  have htoken : maxToken = 16384 := rfl
  have hjson : maxJson = 12286 := rfl
  rw [size_encode]
  omega

theorem body_encode (kind : Kind) (v : Value) :
    body kind (encode kind v) = some (Base64.urlSafeNoPad.encode (jsonBytes v)) := by
  rw [body, encode, String.toList_ofList]
  exact if_pos rfl

section
variable {α : Type} {ofJson : Value → Option α} {kind kind' : Kind} {v : Value}

/-- What reading an issued token comes to. -/
theorem decode_encode : decode kind ofJson (encode kind v) =
    if v.size ≤ maxJson then (ofJson v).elim (.error (invalid kind)) .ok
    else .error (invalid kind) := by
  have hsize := size_encode_le kind v
  unfold decode
  by_cases h : v.size ≤ maxJson
  · have hread : MessagePack.ofUtf8 (jsonBytes v) = some (String.ofList v.render) :=
      MessagePack.ofUtf8_utf8 _
    rw [if_neg (Nat.not_lt.mpr (hsize.mpr h)), if_pos h, body_encode]
    simp only [Option.bind_eq_bind, Option.bind_some, Base64.Engine.decode_encode, hread,
      String.toList_ofList, Json.read_render]
    cases ofJson v <;> rfl
  · rw [if_pos (Nat.not_le.mp fun hle => h (hsize.mp hle)), if_neg h]

/-- A record that is read back from its JSON is read back from its token if that is not
    too long. -/
theorem decode_encode_iff {a : α} (hjson : ofJson v = some a) :
    decode kind ofJson (encode kind v) = .ok a ↔ v.size ≤ maxJson := by
  rw [decode_encode, hjson]
  split
  · next h => exact ⟨fun _ => h, fun _ => rfl⟩
  · next h => exact ⟨nofun, fun hle => absurd hle h⟩

/-- **Another kind.** -/
theorem decode_kind (h : kind ≠ kind') :
    decode kind' ofJson (encode kind v) = .error (invalid kind') := by
  have hletter : kind.letter ≠ kind'.letter := by
    cases kind <;> cases kind' <;> first | exact absurd rfl h | decide
  have hbody : body kind' (encode kind v) = none := by
    rw [body, encode, String.toList_ofList]
    exact if_neg hletter
  unfold decode
  split
  · rfl
  · rw [hbody]
    rfl

/-- **Too long.** -/
theorem decode_long {token : String} (h : maxToken < token.utf8ByteSize) :
    decode kind ofJson token = .error (invalid kind) := if_pos h

/-- **A record that does not fit.** -/
theorem decode_malformed (h : ofJson v = none) :
    decode kind ofJson (encode kind v) = .error (invalid kind) := by
  rw [decode_encode, h]
  split <;> rfl

end

/-! ## Reading the records back -/

theorem toU64_u64 (n : UInt64) : toU64 (u64 n) = some n := by
  have hn := n.toNat_lt
  rw [u64, toU64, if_pos (by omega), Int.toNat_natCast, UInt64.ofNat_toNat]

namespace RepoRef

theorem fields_json (r : RepoRef) :
    Json.recordWith ["g", "d", "i"] [] r.json = some ([.str r.g, u64 r.d, u64 r.i], []) := by
  have hn : ["g", "d", "i"].Nodup := by decide
  have hl : ["g", "d", "i"].length = [(.str r.g : Value), u64 r.d, u64 r.i].length := rfl
  exact Json.recordWith_zip hn hl

theorem ofJson_json (r : RepoRef) : ofJson r.json = some r := by
  unfold ofJson
  rw [fields_json, Option.bind_eq_bind, Option.bind_some]
  simp only [toStr, toU64_u64, Option.bind_eq_bind, Option.bind_some]

end RepoRef

theorem sublist_optional (name : String) (s : Option String) :
    ((optional name s).map Prod.fst).Sublist [name] := by
  cases s with
  | none => exact List.nil_sublist _
  | some s => exact List.Sublist.refl _

theorem field_optional (name : String) (s : Option String) :
    toOptional (Json.field name (optional name s)) = some s := by
  cases s with
  | none => rfl
  | some s => simp [optional, Json.field, toOptional]

namespace SnapshotRef

theorem fields_json (s : SnapshotRef) : Json.recordWith ["r", "q", "f"] ["p"] s.json =
    some ([s.r.json, .str s.q, .str s.f], [Json.field "p" (optional "p" s.p)]) := by
  have hn : (["r", "q", "f"] ++ ["p"]).Nodup := by decide
  have hl : ["r", "q", "f"].length = [s.r.json, .str s.q, .str s.f].length := rfl
  exact Json.recordWith_obj hn hl (sublist_optional "p" s.p)

theorem ofJson_json (s : SnapshotRef) : ofJson s.json = some s := by
  unfold ofJson
  rw [fields_json, Option.bind_eq_bind, Option.bind_some]
  simp only [toStr, RepoRef.ofJson_json, field_optional, Option.bind_eq_bind, Option.bind_some]

end SnapshotRef

namespace CursorRef

theorem fields_json (c : CursorRef) : Json.recordWith ["s", "o"] ["k"] c.json =
    some ([c.s.json, u64 c.o], [Json.field "k" (optional "k" c.k)]) := by
  have hn : (["s", "o"] ++ ["k"]).Nodup := by decide
  have hl : ["s", "o"].length = [c.s.json, u64 c.o].length := rfl
  exact Json.recordWith_obj hn hl (sublist_optional "k" c.k)

theorem ofJson_json (c : CursorRef) : ofJson c.json = some c := by
  unfold ofJson
  rw [fields_json, Option.bind_eq_bind, Option.bind_some]
  simp only [toU64_u64, SnapshotRef.ofJson_json, field_optional, Option.bind_eq_bind,
    Option.bind_some]

end CursorRef

namespace EntryRef

theorem fields_json (e : EntryRef) :
    Json.recordWith ["p"] [] e.json = some ([.arr (e.p.map .str)], []) := by
  have hn : ["p"].Nodup := by decide
  have hl : ["p"].length = [(.arr (e.p.map .str) : Value)].length := rfl
  exact Json.recordWith_zip hn hl

theorem mapM_toStr (ps : List String) :
    ((ps.map Json.str : List Value).mapM toStr) = some ps := by
  induction ps with
  | nil => rfl
  | cons p ps ih =>
    rw [List.map_cons, List.mapM_cons, ih]
    rfl

theorem ofJson_json (e : EntryRef) : ofJson e.json = some e := by
  unfold ofJson
  rw [fields_json, Option.bind_eq_bind, Option.bind_some]
  simp only [mapM_toStr, Option.bind_eq_bind, Option.bind_some]

end EntryRef

/-! ## Paths -/

/-- The longest path the agent admits, in bytes. -/
def maxPath : Nat := 4096

theorem pathBytes_text (path : List UInt8) : pathBytes (text path) = .ok path := by
  rw [pathBytes, text, String.toList_ofList, Base64.Engine.decode_encode]

theorem mem_text {path : List UInt8} {c : Char} (h : c ∈ (text path).toList) :
    Json.escapeChar c = [c] ∧ c.utf8Size = 1 := by
  rw [text, String.toList_ofList] at h
  apply escapeChar_standard
  rcases Base64.standard.mem_encode h with hmem | rfl
  · exact List.mem_cons_of_mem _ hmem
  · exact List.mem_cons_self

/-- The JSON of a path. -/
theorem size_text (path : List UInt8) :
    (.str (text path) : Value).size = 4 * ((path.length + 2) / 3) + 2 := by
  have hpadded : Base64.standard.padded = true := rfl
  have hlen := Base64.standard.length_encode path
  rw [if_pos hpadded] at hlen
  rw [Json.size_str_plain fun c hc => (mem_text hc).1,
    utf8Len_eq_length fun c hc => (mem_text hc).2, text, String.toList_ofList, hlen]

theorem utf8Size_toDigits {n : Nat} {c : Char} (h : c ∈ Nat.toDigits 10 n) : c.utf8Size = 1 := by
  have hd := Nat.isDigit_of_mem_toDigits (by decide) (by decide) h
  have hle : c.val ≤ 57 := by
    simp only [Char.isDigit, Bool.and_eq_true, decide_eq_true_eq] at hd
    exact hd.2
  rw [Char.utf8Size, if_pos (UInt32.le_trans hle (by decide))]

/-- A number has at most twenty digits. -/
theorem size_u64 (n : UInt64) : (u64 n).size ≤ 20 := by
  have hn : n.toNat < 10 ^ 20 := Nat.lt_trans n.toNat_lt (by decide)
  have hlen : (Nat.toDigits 10 n.toNat).length ≤ 20 :=
    (Nat.length_toDigits_le_iff (by decide) (by decide)).mpr hn
  calc (u64 n).size = String.utf8Len (Nat.toDigits 10 n.toNat) := rfl
    _ = (Nat.toDigits 10 n.toNat).length := utf8Len_eq_length fun _ => utf8Size_toDigits
    _ ≤ 20 := hlen

namespace RepoRef
variable {path : List UInt8}

/-- The record of a repository is short if its path is. -/
theorem size_new (device inode : UInt64) (h : path.length ≤ maxPath) :
    (new path device inode).json.size ≤ maxJson := by
  have hg : (.str "g" : Value).size = 3 := by decide
  have hd : (.str "d" : Value).size = 3 := by decide
  have hi : (.str "i" : Value).size = 3 := by decide
  have hpath := size_text path
  have hdevice := size_u64 device
  have hinode := size_u64 inode
  have hlimit : maxPath = 4096 := rfl
  have hmax : maxJson = 12286 := rfl
  rw [new, json, Json.size_obj (List.cons_ne_nil _ _)]
  simp only [List.map_cons, List.map_nil, List.sum_cons, List.sum_nil, hg, hd, hi, hpath]
  omega

theorem gitDir_new (path : List UInt8) (device inode : UInt64) :
    (new path device inode).gitDir = .ok path := pathBytes_text path

/-- **Repositories.** -/
theorem decode_new (device inode : UInt64) (hadmits : admits path) (h : path.length ≤ maxPath) :
    decode (new path device inode).encode = .ok (new path device inode) := by
  have hread : Tokens.decode .repo ofJson (Tokens.encode .repo (new path device inode).json) =
      .ok (new path device inode) :=
    (decode_encode_iff (ofJson_json _)).mpr (size_new device inode h)
  unfold decode encode
  rw [hread]
  simp only [Bind.bind, Except.bind, gitDir_new]
  exact if_pos hadmits

end RepoRef

namespace EntryRef
variable {paths : List (List UInt8)}

theorem size_new (hlen : paths.length ≤ 2) (h : ∀ path ∈ paths, path.length ≤ maxPath) :
    (new paths).json.size ≤ maxJson := by
  have hp : (.str "p" : Value).size = 3 := by decide
  have hlimit : maxPath = 4096 := rfl
  have hmax : maxJson = 12286 := rfl
  have hpaths : (.arr ((new paths).p.map .str) : Value).size ≤ 2 * 5468 + 2 := by
    have hle : ∀ v ∈ ((new paths).p.map .str : List Value), v.size ≤ 5467 := by
      intro v hv
      obtain ⟨s, hs, rfl⟩ := List.mem_map.mp hv
      obtain ⟨path, hmem, rfl⟩ := List.mem_map.mp hs
      have htext := size_text path
      have hshort := h path hmem
      omega
    have hsize := Json.size_arr_le _ hle
    rw [List.length_map, new, List.length_map] at hsize
    calc _ ≤ paths.length * (5467 + 1) + 2 := hsize
      _ ≤ 2 * 5468 + 2 := Nat.add_le_add_right (Nat.mul_le_mul_right _ hlen) 2
  rw [json, Json.size_obj (List.cons_ne_nil _ _)]
  simp only [List.map_cons, List.map_nil, List.sum_cons, List.sum_nil, hp]
  omega

theorem paths_new (paths : List (List UInt8)) : (new paths).paths = .ok paths := by
  rw [EntryRef.paths, new]
  induction paths with
  | nil => rfl
  | cons path paths ih =>
    rw [List.map_cons, List.mapM_cons, pathBytes_text, ih]
    rfl

/-- **Entries.** -/
theorem decode_new (hne : paths ≠ []) (hlen : paths.length ≤ 2)
    (hadmits : ∀ path ∈ paths, admits path) (h : ∀ path ∈ paths, path.length ≤ maxPath) :
    decode (new paths).encode = .ok (new paths) := by
  have hread : Tokens.decode .entry ofJson (Tokens.encode .entry (new paths).json) =
      .ok (new paths) := (decode_encode_iff (ofJson_json _)).mpr (size_new hlen h)
  unfold decode encode
  rw [hread]
  simp only [Bind.bind, Except.bind, paths_new]
  exact if_pos ⟨hne, hlen, hadmits⟩

end EntryRef

/-! ## Refusals -/

/-- The fields of the records of a kind, and those that may be left out. -/
def Kind.fields : Kind → List String × List String
  | .repo => (["g", "d", "i"], [])
  | .snapshot => (["r", "q", "f"], ["p"])
  | .entry => (["p"], [])
  | .cursor => (["s", "o"], ["k"])

/-- The decoder of a kind refuses the token. -/
def Refused (token : String) : Kind → Prop
  | .repo => RepoRef.decode token = .error (invalid .repo)
  | .snapshot => SnapshotRef.decode token = .error (invalid .snapshot)
  | .entry => EntryRef.decode token = .error (invalid .entry)
  | .cursor => CursorRef.decode token = .error (invalid .cursor)

theorem RepoRef.refused {token : String}
    (h : Tokens.decode .repo ofJson token = .error (invalid .repo)) : Refused token .repo := by
  unfold Refused RepoRef.decode
  rw [h]
  rfl

theorem EntryRef.refused {token : String}
    (h : Tokens.decode .entry ofJson token = .error (invalid .entry)) :
    Refused token .entry := by
  unfold Refused EntryRef.decode
  rw [h]
  rfl

/-- A token is refused by the decoders of the other kinds. -/
theorem refused_kind {kind kind' : Kind} (h : kind ≠ kind') (v : Value) :
    Refused (encode kind v) kind' := by
  cases kind' with
  | repo => exact RepoRef.refused (decode_kind h)
  | snapshot => exact decode_kind h
  | entry => exact EntryRef.refused (decode_kind h)
  | cursor => exact decode_kind h

/-- A token that is too long is refused by every decoder. -/
theorem refused_long {token : String} (h : maxToken < token.utf8ByteSize) (kind : Kind) :
    Refused token kind := by
  cases kind with
  | repo => exact RepoRef.refused (decode_long h)
  | snapshot => exact decode_long h
  | entry => exact EntryRef.refused (decode_long h)
  | cursor => exact decode_long h

/-- A record without the fields of its kind is refused. -/
theorem refused_fields {kind : Kind} {v : Value}
    (h : Json.recordWith kind.fields.1 kind.fields.2 v = none) : Refused (encode kind v) kind := by
  cases kind with
  | repo =>
    apply RepoRef.refused
    apply decode_malformed
    unfold RepoRef.ofJson
    exact congrArg (Option.bind · _) h
  | snapshot =>
    apply decode_malformed
    unfold SnapshotRef.ofJson
    exact congrArg (Option.bind · _) h
  | entry =>
    apply EntryRef.refused
    apply decode_malformed
    unfold EntryRef.ofJson
    exact congrArg (Option.bind · _) h
  | cursor =>
    apply decode_malformed
    unfold CursorRef.ofJson
    exact congrArg (Option.bind · _) h

/-- The first of the fields a record must have. -/
theorem recordWith_head {n : String} {required optional : List String}
    {fs : List (String × Value)} {v : Value} (hv : Json.field n fs = some v)
    {vs : List Value} {os : List (Option Value)}
    (h : Json.recordWith (n :: required) optional (.obj fs) = some (vs, os)) :
    ∃ ws, vs = v :: ws := by
  rw [Json.recordWith] at h
  split at h
  · rw [List.mapM_cons, hv] at h
    cases hrest : required.mapM fun n => Json.field n fs with
    | none =>
      rw [hrest] at h
      cases h
    | some ws =>
      rw [hrest] at h
      obtain ⟨rfl, -⟩ := Prod.mk.inj (Option.some.inj h)
      exact ⟨ws, rfl⟩
  · cases h

theorem SnapshotRef.ofJson_nested {fs : List (String × Value)} {v : Value}
    (hv : Json.field "r" fs = some v) (h : RepoRef.ofJson v = none) :
    ofJson (.obj fs) = none := by
  unfold ofJson
  cases hrec : Json.recordWith ["r", "q", "f"] ["p"] (.obj fs) with
  | none => rfl
  | some r =>
    obtain ⟨vs, os⟩ := r
    obtain ⟨ws, rfl⟩ := recordWith_head hv hrec
    simp only [Option.bind_eq_bind, Option.bind_some]
    split
    · next heq =>
      obtain ⟨rfl, -⟩ := List.cons.inj (Prod.mk.inj heq).1
      rw [h]
      rfl
    · rfl

theorem CursorRef.ofJson_nested {fs : List (String × Value)} {v : Value}
    (hv : Json.field "s" fs = some v) (h : SnapshotRef.ofJson v = none) :
    ofJson (.obj fs) = none := by
  unfold ofJson
  cases hrec : Json.recordWith ["s", "o"] ["k"] (.obj fs) with
  | none => rfl
  | some r =>
    obtain ⟨vs, os⟩ := r
    obtain ⟨ws, rfl⟩ := recordWith_head hv hrec
    simp only [Option.bind_eq_bind, Option.bind_some]
    split
    · next heq =>
      obtain ⟨rfl, -⟩ := List.cons.inj (Prod.mk.inj heq).1
      rw [h]
      rfl
    · rfl

/-! ## What is issued -/

/-- A listing or a diff a snapshot or a cursor is issued for. -/
structure Listing where
  path : List UInt8
  device : UInt64
  inode : UInt64
  query : Query
  fingerprint : String
  tip : Option String

def Listing.ref (l : Listing) : SnapshotRef :=
  ⟨.new l.path l.device l.inode, l.query.text, l.fingerprint, l.tip⟩

/-- What the agent puts a token of in a response. -/
inductive Issued where
  | repo (path : List UInt8) (device inode : UInt64)
  | entry (paths : List (List UInt8))
  | snapshot (l : Listing)
  | cursor (l : Listing) (offset : UInt64)

/-- The number of digits of a number. -/
def digits (n : UInt64) : Nat := (u64 n).size

/-- The length of the base64 text of so many bytes. -/
def base64 (n : Nat) : Nat := 4 * ((n + 2) / 3)

/-- The length of a text in JSON, with its quotes and escapes. -/
def escaped (s : String) : Nat := (.str s : Value).size

/-- The length of a snapshot's record, from what is in it. -/
def Listing.length (l : Listing) : Nat :=
  34 + base64 l.path.length + digits l.device + digits l.inode + escaped l.query.text +
    escaped l.fingerprint + l.tip.elim 0 fun tip => 5 + escaped tip

namespace Issued

def kind : Issued → Kind
  | repo .. => .repo
  | entry .. => .entry
  | snapshot .. => .snapshot
  | cursor .. => .cursor

def json : Issued → Value
  | repo path device inode => (RepoRef.new path device inode).json
  | entry paths => (EntryRef.new paths).json
  | snapshot l => l.ref.json
  | cursor l offset => (⟨l.ref, offset, none⟩ : CursorRef).json

def token (t : Issued) : String := encode t.kind t.json

/-- The length of the record, from what is in it. -/
def length : Issued → Nat
  | repo path device inode => 18 + base64 path.length + digits device + digits inode
  | entry paths => 7 + (paths.map fun path => 3 + base64 path.length).sum
  | snapshot l => l.length
  | cursor l offset => 11 + l.length + digits offset

/-- The paths are ones the agent takes. -/
def Admitted : Issued → Prop
  | repo path _ _ => RepoRef.admits path ∧ path.length ≤ maxPath
  | entry paths => paths ≠ [] ∧ paths.length ≤ 2 ∧
      ∀ path ∈ paths, EntryRef.admits path ∧ path.length ≤ maxPath
  | snapshot l | cursor l _ => RepoRef.admits l.path ∧ l.path.length ≤ maxPath

/-- The token, sent back, is read as what it was issued for. -/
def AcceptedBack (t : Issued) : Prop :=
  match t with
  | repo path device inode => ∃ r, RepoRef.decode t.token = .ok r ∧ r.gitDir = .ok path ∧
      r.d = device ∧ r.i = inode
  | entry paths => ∃ e, EntryRef.decode t.token = .ok e ∧ e.paths = .ok paths
  | snapshot l => SnapshotRef.decode t.token = .ok l.ref
  | cursor l offset => CursorRef.decode t.token = .ok ⟨l.ref, offset, none⟩

/-! ### The length of a record -/

theorem size_repo (path : List UInt8) (device inode : UInt64) :
    (RepoRef.new path device inode).json.size =
      18 + base64 path.length + digits device + digits inode := by
  have hg : (.str "g" : Value).size = 3 := by decide
  have hd : (.str "d" : Value).size = 3 := by decide
  have hi : (.str "i" : Value).size = 3 := by decide
  rw [RepoRef.new, RepoRef.json, Json.size_obj (List.cons_ne_nil _ _)]
  simp only [List.map_cons, List.map_nil, List.sum_cons, List.sum_nil, hg, hd, hi, size_text,
    base64, digits]
  omega

theorem size_optional {name : String} (hn : (.str name : Value).size = 3) (s : Option String) :
    ((optional name s).map fun f => 2 + (.str f.1 : Value).size + f.2.size).sum =
      s.elim 0 fun s => 5 + escaped s := by
  cases s with
  | none => rfl
  | some s =>
    simp only [optional, List.map_cons, List.map_nil, List.sum_cons, List.sum_nil, hn,
      Option.elim_some, escaped]
    omega

theorem size_snapshot (l : Listing) : l.ref.json.size = l.length := by
  have hr : (.str "r" : Value).size = 3 := by decide
  have hq : (.str "q" : Value).size = 3 := by decide
  have hf : (.str "f" : Value).size = 3 := by decide
  have hp : (.str "p" : Value).size = 3 := by decide
  have htip := size_optional hp l.tip
  have hfields : l.ref.json = .obj (("r", (RepoRef.new l.path l.device l.inode).json) ::
      ("q", .str l.query.text) :: ("f", .str l.fingerprint) :: optional "p" l.tip) := rfl
  rw [hfields, Json.size_obj (List.cons_ne_nil _ _)]
  simp only [List.map_cons, List.sum_cons, htip, hr, hq, hf, size_repo,
    Listing.length, escaped]
  omega

theorem size_entry {paths : List (List UInt8)} (hne : paths ≠ []) :
    (EntryRef.new paths).json.size = (entry paths).length := by
  have hp : (.str "p" : Value).size = 3 := by decide
  have hlist : (EntryRef.new paths).p.map Json.str ≠ ([] : List Value) := by
    simpa [EntryRef.new] using hne
  have hsum : ((((EntryRef.new paths).p.map Json.str : List Value).map fun v => 1 + v.size).sum) =
      (paths.map fun path => 3 + base64 path.length).sum := by
    rw [EntryRef.new, List.map_map, List.map_map]
    congr 1
    apply List.map_congr_left
    intro path _
    simp only [Function.comp_apply, size_text, base64]
    omega
  rw [EntryRef.json, Json.size_obj (List.cons_ne_nil _ _)]
  simp only [List.map_cons, List.map_nil, List.sum_cons, List.sum_nil, hp, Json.size_arr hlist,
    hsum, length]
  omega

theorem size_cursor (l : Listing) (offset : UInt64) :
    (⟨l.ref, offset, none⟩ : CursorRef).json.size = (cursor l offset).length := by
  have hs : (.str "s" : Value).size = 3 := by decide
  have ho : (.str "o" : Value).size = 3 := by decide
  have hfields : (⟨l.ref, offset, none⟩ : CursorRef).json =
      .obj [("s", l.ref.json), ("o", u64 offset)] := rfl
  rw [hfields, Json.size_obj (List.cons_ne_nil _ _)]
  have hlen : (cursor l offset).length = 11 + l.length + digits offset := rfl
  simp only [List.map_cons, List.map_nil, List.sum_cons, List.sum_nil, hs, ho, size_snapshot,
    hlen, digits]
  omega

/-! ### Which are accepted back -/

theorem repo_acceptedBack {path : List UInt8} {device inode : UInt64}
    (h : (repo path device inode).Admitted) : (repo path device inode).AcceptedBack :=
  ⟨_, RepoRef.decode_new device inode h.1 h.2, RepoRef.gitDir_new path device inode, rfl, rfl⟩

theorem entry_acceptedBack {paths : List (List UInt8)} (h : (entry paths).Admitted) :
    (entry paths).AcceptedBack := by
  obtain ⟨hne, hlen, hpaths⟩ := h
  exact ⟨_, EntryRef.decode_new hne hlen (fun path hmem => (hpaths path hmem).1)
    fun path hmem => (hpaths path hmem).2, EntryRef.paths_new paths⟩

/-- The token of a snapshot or a cursor is read back exactly if its record is short, that of
    a repository or an entry always. -/
theorem acceptedBack_iff {t : Issued} (h : t.Admitted) :
    t.AcceptedBack ↔ t.length ≤ maxJson := by
  cases t with
  | repo path device inode =>
    refine iff_of_true (repo_acceptedBack h) ?_
    rw [length, ← size_repo]
    exact RepoRef.size_new device inode h.2
  | entry paths =>
    refine iff_of_true (entry_acceptedBack h) ?_
    rw [← size_entry h.1]
    exact EntryRef.size_new h.2.1 fun path hmem => (h.2.2 path hmem).2
  | snapshot l =>
    rw [length, ← size_snapshot]
    exact decode_encode_iff (SnapshotRef.ofJson_json l.ref)
  | cursor l offset =>
    rw [← size_cursor]
    exact decode_encode_iff (CursorRef.ofJson_json ⟨l.ref, offset, none⟩)

theorem refused_others (t : Issued) {kind : Kind} (h : t.kind ≠ kind) : Refused t.token kind :=
  refused_kind h t.json

/-- A query with a long text in it. -/
theorem lt_length_cursor {l : Listing} (offset : UInt64) :
    l.query.text.utf8ByteSize < (cursor l offset).length := by
  have hle := @Json.le_size_str Int _ l.query.text
  have htext : String.utf8Len l.query.text.toList = l.query.text.utf8ByteSize := by
    rw [← String.utf8ByteSize_ofList, String.ofList_toList]
  rw [length, Listing.length, escaped]
  omega

end Issued

theorem le_queryText (name : String) (v : Value) :
    v.size ≤ (queryText name v).utf8ByteSize := by
  rw [queryText, String.utf8ByteSize_append, String.utf8ByteSize_ofList, Json.size]
  exact Nat.le_add_left _ _

/-- A working diff query is longer than the token of its entry. -/
theorem size_diff_le (snapshot entryId : String) (side : Side) (contextLines : Nat)
    (lineEncoding : Option String) : entryId.utf8ByteSize ≤
      (Query.diff snapshot entryId side contextLines lineEncoding).text.utf8ByteSize := by
  have hmem : (.str entryId : Value) ∈ ([.str snapshot, .str entryId, .str side.text,
      .num contextLines, optionalText lineEncoding] : List Value) :=
    List.mem_cons_of_mem _ List.mem_cons_self
  calc entryId.utf8ByteSize = String.utf8Len entryId.toList := by
        rw [← String.utf8ByteSize_ofList, String.ofList_toList]
    _ ≤ (.str entryId : Value).size :=
        Nat.le_trans (Nat.le_add_right _ 2) (@Json.le_size_str Int _ entryId)
    _ ≤ (.arr [.str snapshot, .str entryId, .str side.text, .num contextLines,
          optionalText lineEncoding] : Value).size := Json.size_element_le hmem
    _ ≤ _ := le_queryText "cli.diff:" _

/-- **Tokens are accepted back.** The token of a repository or an entry the agent takes is read
    as what it was issued for, that of a snapshot or a cursor exactly if its record has at
    most `maxJson` bytes. A token is refused by the decoders of the other kinds, and so is
    one that is too long and one whose record, or a record in it, lacks a field or has one
    too many. -/
theorem tokens_acceptedBack (t : Issued) :
    (t.Admitted → (t.AcceptedBack ↔ t.length ≤ maxJson)) ∧
    (t.Admitted → t.kind = .repo ∨ t.kind = .entry → t.length ≤ maxJson) ∧
    (∀ kind : Kind, t.kind ≠ kind → Refused t.token kind) ∧
    (∀ (token : String) (kind : Kind), maxToken < token.utf8ByteSize → Refused token kind) ∧
    (∀ (kind : Kind) (fs : List (String × Value)),
      (∃ f ∈ fs, f.1 ∉ kind.fields.1 ++ kind.fields.2) ∨
        (∃ n ∈ kind.fields.1, n ∉ fs.map Prod.fst) →
      Refused (encode kind (.obj fs)) kind) ∧
    (∀ (fs : List (String × Value)) (v : Value), Json.field "r" fs = some v →
      RepoRef.ofJson v = none → Refused (encode .snapshot (.obj fs)) .snapshot) ∧
    (∀ (fs : List (String × Value)) (v : Value), Json.field "s" fs = some v →
      SnapshotRef.ofJson v = none → Refused (encode .cursor (.obj fs)) .cursor) := by
  refine ⟨fun h => Issued.acceptedBack_iff h, ?_, fun kind h => t.refused_others h,
    fun token kind h => refused_long h kind, ?_, ?_, ?_⟩
  · intro h hkind
    apply (Issued.acceptedBack_iff h).mp
    cases t with
    | repo path device inode => exact Issued.repo_acceptedBack h
    | entry paths => exact Issued.entry_acceptedBack h
    | snapshot l => rcases hkind with hk | hk <;> cases hk
    | cursor l offset => rcases hkind with hk | hk <;> cases hk
  · intro kind fs h
    apply refused_fields
    rcases h with ⟨f, hf, hn⟩ | ⟨n, hn, hfs⟩
    · exact Json.recordWith_unknown hf hn
    · exact Json.recordWith_missing hn hfs
  · exact fun fs v hv h => decode_malformed (SnapshotRef.ofJson_nested hv h)
  · exact fun fs v hv h => decode_malformed (CursorRef.ofJson_nested hv h)

/-! ## A cursor that is lost

A renamed file whose two paths have some 3600 bytes each. Its entry is accepted back, and
so are its repository and the snapshot of its status; the cursor of its working diff is
not. -/

def sampleListing (query : Query) : Listing :=
  ⟨"/r/.git".toUTF8.toList, 1, 2, query, String.ofList (List.replicate 64 'a'), none⟩

/-- A path of 18 directories whose names have 199 bytes. -/
def deepPath (last : UInt8) : List UInt8 :=
  (List.replicate 18 (List.replicate 199 97 ++ [slash])).flatten ++ [last]

def renamed : List (List UInt8) := [deepPath 98, deepPath 99]

/-- The renamed file's diff. -/
def renamedDiff : Listing :=
  sampleListing (.diff (Issued.snapshot (sampleListing .statusSnapshot)).token
    (Issued.entry renamed).token .headToIndex 3 (some tupleV1))

theorem renamed_admitted : (Issued.entry renamed).Admitted := by
  have hpaths : ∀ path ∈ renamed, EntryRef.admits path ∧ path.length ≤ maxPath := by
    decide +kernel
  exact ⟨List.cons_ne_nil _ _, Nat.le_refl 2, hpaths⟩

theorem sample_admitted (query : Query) : (Issued.snapshot (sampleListing query)).Admitted := by
  have hpath : RepoRef.admits (sampleListing .statusSnapshot).path ∧
      (sampleListing .statusSnapshot).path.length ≤ maxPath := by
    decide +kernel
  exact hpath

theorem sample_length : (Issued.snapshot (sampleListing .statusSnapshot)).length ≤ maxJson := by
  decide +kernel

/-- The token of the renamed file alone is longer than a cursor's record may be. -/
theorem maxJson_lt_renamed : maxJson < (Issued.entry renamed).token.utf8ByteSize := by
  have hlen : (Issued.entry renamed).length = 9621 := by decide +kernel
  rw [Issued.token, size_encode, Issued.json, Issued.size_entry renamed_admitted.1, hlen]
  decide

theorem renamedDiff_long (offset : UInt64) :
    ¬ (Issued.cursor renamedDiff offset).length ≤ maxJson := by
  have hquery := size_diff_le (Issued.snapshot (sampleListing .statusSnapshot)).token
    (Issued.entry renamed).token .headToIndex 3 (some tupleV1)
  apply Nat.not_le.mpr
  calc maxJson < (Issued.entry renamed).token.utf8ByteSize := maxJson_lt_renamed
    _ ≤ renamedDiff.query.text.utf8ByteSize := hquery
    _ < (Issued.cursor renamedDiff offset).length := Issued.lt_length_cursor offset

theorem renamedDiff_lost : (Issued.cursor renamedDiff 5000).Admitted ∧
    (Issued.entry renamed).AcceptedBack ∧
    (Issued.snapshot (sampleListing .statusSnapshot)).AcceptedBack ∧
    ¬ (Issued.cursor renamedDiff 5000).AcceptedBack := by
  refine ⟨sample_admitted _, Issued.entry_acceptedBack renamed_admitted, ?_, fun h => ?_⟩
  · exact (Issued.acceptedBack_iff (sample_admitted _)).mpr sample_length
  · exact renamedDiff_long 5000
      ((Issued.acceptedBack_iff (t := .cursor renamedDiff 5000) (sample_admitted _)).mp h)

theorem sample_acceptedBack : (Issued.snapshot (sampleListing .statusSnapshot)).AcceptedBack :=
  ((tokens_acceptedBack _).1 (sample_admitted _)).mpr sample_length

end Porthop.Git.Tokens
