import Porthop.Git.Cli
import Porthop.Git.Tokens
import Porthop.Lib.Source

/- The pages of a blob (`objects.rs`) and the window they are cut from (`command.rs`).

   What Git prints is an input: the header of the object, and the content as the reads of
   its pipe give it. A read that gives nothing is the end. -/
namespace Porthop.Git.Cli

open Tokens (RepoRef SnapshotRef CursorRef)
open MessagePack (utf8 ofUtf8)

/-! ## The window -/

/-- The part of a read that is in the window. -/
def overlap (position offset length : Nat) (buffer : List UInt8) : List UInt8 :=
  let start := min (offset - position) buffer.length
  let stop := min (saturatingAdd offset length - position) buffer.length
  if start < stop then (buffer.drop start).take (stop - start) else []

def drainFrom (position offset length : Nat) : Source UInt8 → List UInt8
  | [] => []
  | buffer :: reads =>
    if buffer = [] then []
    else overlap position offset length buffer ++
      drainFrom (saturatingAdd position buffer.length) offset length reads

def drainWindow (reads : Source UInt8) (offset length : Nat) : List UInt8 :=
  drainFrom 0 offset length reads

/-! ## The pages -/

/-- What Git answers about one object: its header and its content, each of which may fail to
    run, and whether it exits well. -/
structure Outputs where
  header : Except Error (Option (List UInt8))
  content : Except Error (Bool × Source UInt8)

/-- The size in the header of a blob. -/
def blobSize (header : List UInt8) : Except Error Nat :=
  match ofUtf8 (trimLine header) with
  | none => .error failure
  | some line =>
    match line.toList.splitOn ' ' with
    | [_, kind, size] =>
      if kind = "blob".toList then
        match parseUsize size with
        | some n => .ok n
        | none => .error failure
      else .error (.invalid "The object is not a file blob.")
    | _ => .error (.invalid "The object is not a file blob.")

def window (git : Outputs) (offset length : Nat) : Except Error (List UInt8) := do
  let (success, reads) ← git.content
  if success then .ok (drainWindow reads offset length) else .error failure

/-- Where a page starts. -/
def blobOffset (snapshot : SnapshotRef) : Option String → Except Error Nat
  | none => .ok 0
  | some cursor => do
    let c ← CursorRef.decode cursor
    if c.s ≠ snapshot ∨ c.k ≠ none then .error (.invalid "Cursor does not match this blob.")
    else .ok c.o.toNat

def blobSnapshot (repo : RepoRef) (id : String) : SnapshotRef :=
  ⟨repo, (Tokens.Query.blob id).text, id, none⟩

def base64 (data : List UInt8) : Value := .str (String.ofList (Base64.standard.encode data))

/-- A whole blob, or that it is too large for that. -/
def wholeBlob (object : Value) (size : Nat) (data : Option (List UInt8)) : Value :=
  .obj [("oid", object), ("size", .num size), ("bytesB64", (data.map base64).getD .null),
    ("truncated", .bool data.isNone)]

/-- A page: the part of the content from `offset` to `stop` and where to go on. -/
def blobPage (snapshot : SnapshotRef) (object : Value) (size offset stop : Nat)
    (data : List UInt8) : Value :=
  .obj [("snapshot", .str snapshot.encode),
    ("entries", .arr (if stop = offset then []
      else [.obj [("offset", .num offset), ("bytesB64", base64 data)]])),
    ("nextCursor", if stop < size then
      .str (⟨snapshot, UInt64.ofNat stop, none⟩ : CursorRef).encode else .null),
    ("metadata", .obj [("oid", object), ("size", .num size)])]

/-- Where a page of a budget ends: the base64 text and what is around it fit the budget. -/
def blobStop (budget offset size : Nat) : Nat :=
  min (saturatingAdd offset (max (budget - 4096) 1024 * 3 / 4)) size

def blob (repo : RepoRef) (id : String) (budget : Option Nat) (cursor : Option String)
    (paged : Bool) (git : Outputs) : Except Error Value := do
  let object ← (oid (utf8 id)).mapError fun _ => .invalid "A complete object ID is required."
  let header ← git.header
  let size ← match header with
    | none => .error failure
    | some header => blobSize header
  if !paged ∧ size > 512 * 1024 then .ok (wholeBlob object size none)
  else
    let budget := budget.getD (64 * 1024)
    if ¬ (4096 ≤ budget ∧ budget ≤ 524288) then .error (.invalid "maxBytes must be 4096–524288.")
    else
      let snapshot := blobSnapshot repo id
      let offset ← blobOffset snapshot cursor
      if offset > size then .error (.invalid "Cursor is past the end of this blob.")
      else
        let stop := if paged then blobStop budget offset size else size
        let data ← window git offset (stop - offset)
        if data.length ≠ stop - offset then .error failure
        else if !paged then .ok (wholeBlob object size (some data))
        else .ok (blobPage snapshot object size offset stop data)

/-! ## The window is the slice -/

/-- A slice of a read and of what comes after it. -/
theorem slice_append (a b : List UInt8) (start stop : Nat) :
    ((a ++ b).take stop).drop start =
      (a.take stop).drop start ++ (b.take (stop - a.length)).drop (start - a.length) := by
  rw [List.take_append, List.drop_append, List.length_take]
  by_cases hstop : stop ≤ a.length
  · rw [Nat.sub_eq_zero_of_le hstop, List.take_zero, List.drop_nil, List.drop_nil]
  · rw [Nat.min_eq_right (Nat.le_of_not_le hstop)]

theorem overlap_eq (position offset length : Nat) (buffer : List UInt8) :
    overlap position offset length buffer =
      (buffer.take (saturatingAdd offset length - position)).drop (offset - position) := by
  rw [overlap]
  split
  · next h =>
    rw [List.drop_take]
    by_cases hstart : offset - position ≤ buffer.length
    · rw [Nat.min_eq_left hstart]
      by_cases hstop : saturatingAdd offset length - position ≤ buffer.length
      · rw [Nat.min_eq_left hstop]
      · rw [Nat.min_eq_right (Nat.le_of_not_le hstop),
          List.take_of_length_le (Nat.le_of_eq List.length_drop),
          List.take_of_length_le (by rw [List.length_drop]; omega)]
    · omega
  · next h =>
    symm
    apply List.drop_eq_nil_of_le
    rw [List.length_take]
    omega

theorem le_saturatingAdd {offset : Nat} (length : Nat) (h : offset ≤ usizeMax) :
    offset ≤ saturatingAdd offset length := by
  unfold saturatingAdd
  omega

/-- What is drained from a position on, which stays at the largest integer once it is
    there. -/
theorem drainFrom_eq {offset : Nat} (length : Nat) (hoffset : offset ≤ usizeMax) :
    ∀ {reads : Source UInt8} (position : Nat), (∀ buffer ∈ reads, buffer ≠ []) →
      drainFrom (min position usizeMax) offset length reads =
        (reads.flatten.take (saturatingAdd offset length - position)).drop (offset - position)
  | [], position, _ => by
    rw [List.flatten_nil, List.take_nil, List.drop_nil]
    rfl
  | buffer :: reads, position, h => by
    have hle := le_saturatingAdd length hoffset
    have hmax : saturatingAdd offset length ≤ usizeMax := Nat.min_le_right _ _
    have hstop : saturatingAdd offset length - min position usizeMax =
        saturatingAdd offset length - position := by omega
    have hstart : offset - min position usizeMax = offset - position := by omega
    have hnext : saturatingAdd (min position usizeMax) buffer.length =
        min (position + buffer.length) usizeMax := by
      unfold saturatingAdd
      omega
    have ih := drainFrom_eq length hoffset (position + buffer.length)
      fun b hb => h b (List.mem_cons_of_mem _ hb)
    rw [drainFrom, if_neg (h buffer List.mem_cons_self), overlap_eq, hstop, hstart, hnext, ih,
      List.flatten_cons, slice_append, Nat.sub_sub, Nat.sub_sub]

/-- The window is the slice of the stream, however it is cut into reads. -/
theorem drainWindow_eq {reads : Source UInt8} {offset length : Nat}
    (hreads : ∀ buffer ∈ reads, buffer ≠ []) (h : offset + length ≤ usizeMax) :
    drainWindow reads offset length = (reads.flatten.drop offset).take length := by
  have hstop : saturatingAdd offset length = offset + length := Nat.min_eq_left h
  calc drainWindow reads offset length
      = drainFrom (min 0 usizeMax) offset length reads := by rw [drainWindow, Nat.zero_min]
    _ = (reads.flatten.take (offset + length)).drop offset := by
        rw [drainFrom_eq length (Nat.le_trans (Nat.le_add_right _ _) h) 0 hreads, hstop,
          Nat.sub_zero, Nat.sub_zero]
    _ = (reads.flatten.drop offset).take length := by
        rw [List.drop_take, Nat.add_sub_cancel_left]

/-! ## The header -/

/-- What Git prints about an object of a kind and a size. -/
def headerOf (id kind : String) (size : Nat) : List UInt8 :=
  utf8 (String.ofList (id.toList ++ ' ' :: kind.toList ++ ' ' :: Nat.toDigits 10 size)) ++ [newline]

theorem blank_not_digit (n : Nat) : ' ' ∉ Nat.toDigits 10 n := fun hc =>
  absurd (Nat.isDigit_of_mem_toDigits (by decide) (by decide) hc) (by decide)

theorem blobSize_headerOf {id : String} {size : Nat} (hid : ' ' ∉ id.toList)
    (hsize : size ≤ usizeMax) : blobSize (headerOf id "blob" size) = .ok size := by
  have hkind : ' ' ∉ "blob".toList := by decide
  rw [blobSize, headerOf, trimLine_append, MessagePack.ofUtf8_utf8]
  simp only [String.toList_ofList, List.append_assoc, List.cons_append,
    List.splitOn_append_cons_self_of_not_mem hid, List.splitOn_append_cons_self_of_not_mem hkind,
    List.splitOn_eq_singleton (blank_not_digit size), if_true, parseUsize_toDigits hsize]

end Porthop.Git.Cli
