import Porthop.Git.Uuid

/- The desktop's recovery ledger: one file of receipts, read whole and replaced whole by
   every call (`PendingOperations`).

   `read` and `save` are the file's two ends; the calls between them are functions of
   the receipts. A call meets at most one I/O fault. A fault before the file is replaced
   leaves it as it was; a fault of the last step, the sync of the directory, is reported
   although the file has been replaced. -/
namespace Porthop.Git.Pending

def maxRecords : Nat := 1000
def maxBytes : Nat := 1024 * 1024

inductive ReceiptState where
  | pending
  | succeeded
  | failed
  | rejected
  | needsResolution
  | outcomeUnknown
  | reviewedUnknown
  deriving DecidableEq

namespace ReceiptState

def complete : ReceiptState → Bool
  | succeeded | failed | rejected | needsResolution | reviewedUnknown => true
  | pending | outcomeUnknown => false

def text : ReceiptState → String
  | pending => "pending"
  | succeeded => "succeeded"
  | failed => "failed"
  | rejected => "rejected"
  | needsResolution => "needs_resolution"
  | outcomeUnknown => "outcome_unknown"
  | reviewedUnknown => "reviewed_unknown"

def parse (s : String) : Option ReceiptState :=
  [pending, succeeded, failed, rejected, needsResolution, outcomeUnknown,
    reviewedUnknown].find? fun r => r.text = s

theorem parse_text (r : ReceiptState) : parse r.text = some r := by
  cases r <;> decide

end ReceiptState

structure Receipt where
  operationId : Uuid
  serverId : Uuid
  action : String
  state : ReceiptState
  deriving DecidableEq

/-! ## The file -/

def Receipt.names : List String := ["operationId", "serverId", "action", "state"]

def Receipt.json (r : Receipt) : Json Int :=
  .obj (names.zip [.str (String.ofList r.operationId.text), .str (String.ofList r.serverId.text),
    .str r.action, .str r.state.text])

def Receipt.ofJson (v : Json Int) : Option Receipt := do
  match ← v.record names with
  | [.str op, .str server, .str action, .str state] =>
    some ⟨← Uuid.parse op, ← Uuid.parse server, action, ← ReceiptState.parse state⟩
  | _ => none

/-- The bytes `serde_json` writes for the rows. -/
def encode (rows : List Receipt) : ByteArray :=
  (String.ofList (Json.render (.arr (rows.map Receipt.json)))).toUTF8

def decode (bytes : ByteArray) : Option (List Receipt) := do
  let cs ← bytes.utf8Decode?
  match ← Json.read cs.toList with
  | .arr vs => vs.mapM Receipt.ofJson
  | _ => none

/-- Rows a ledger may hold. -/
def Valid (rows : List Receipt) : Prop :=
  rows.length ≤ maxRecords ∧ (rows.map Receipt.operationId).Nodup ∧
    ∀ r ∈ rows, r.action ≠ "" ∧ r.action.utf8ByteSize ≤ 80

instance (rows : List Receipt) : Decidable (Valid rows) :=
  inferInstanceAs (Decidable (_ ∧ _ ∧ _))

abbrev File := Option ByteArray

def read : File → Except String (List Receipt)
  | none => .ok []
  | some bytes =>
    if bytes.size > maxBytes then .error "Git recovery log exceeds its limit."
    else
      match decode bytes with
      | none => .error "Cannot read Git recovery log"
      | some rows => if Valid rows then .ok rows else .error "Git recovery log is invalid."

/-- The I/O fault a call meets: it cannot lock or read, cannot replace the file, or cannot
    sync the directory after it has. -/
inductive Fault where
  | none
  | read (e : String)
  | replace (e : String)
  | sync (e : String)

def save (fault : Fault) (file : File) (rows : List Receipt) : Except String Unit × File :=
  match fault with
  | .replace e => (.error e, file)
  | .sync e => (.error e, some (encode rows))
  | _ => (.ok (), some (encode rows))

/-- A call: read the rows, and save what it makes of them, if anything. -/
def call (f : List Receipt → Except String (Option (List Receipt))) (fault : Fault)
    (file : File) : Except String Unit × File :=
  match fault with
  | .read e => (.error e, file)
  | _ =>
    match read file with
    | .error e => (.error e, file)
    | .ok rows =>
      match f rows with
      | .error e => (.error e, file)
      | .ok none => (.ok (), file)
      | .ok (some rows) => save fault file rows

/-! ## The calls -/

def begin (server op : Uuid) (action : String) (rows : List Receipt) :
    Except String (Option (List Receipt)) :=
  if action = "" ∨ action.utf8ByteSize > 80 then .error "Invalid Git action name."
  else
    match rows.find? fun r => r.operationId = op with
    | some old =>
      if old.serverId ≠ server ∨ old.action ≠ action then
        .error "Operation ID belongs to another action."
      else
        .error "This operation is already recorded. Check its outcome before continuing."
    | none =>
      if rows.length ≥ maxRecords then
        .error "Review saved Git outcomes before starting more operations."
      else .ok (some (rows ++ [⟨op, server, action, .pending⟩]))

/-- Give the first row of the operation and server a state. -/
def setState (server op : Uuid) (state : ReceiptState) : List Receipt → List Receipt
  | [] => []
  | r :: rows =>
    if r.operationId = op ∧ r.serverId = server then { r with state := state } :: rows
    else r :: setState server op state rows

/-- Whether an observed state may replace a row's. -/
def admits (old new : ReceiptState) : Except String Bool :=
  if old = .reviewedUnknown then
    match new with
    | .outcomeUnknown | .reviewedUnknown => .ok false
    | .succeeded | .failed | .needsResolution => .ok true
    | _ => .error "A reviewed operation cannot return to an unconfirmed state."
  else if old.complete ∧ old ≠ new then
    .error "Git operation outcome changed unexpectedly."
  else .ok true

def observe (server op : Uuid) (state : ReceiptState) (rows : List Receipt) :
    Except String (Option (List Receipt)) :=
  match rows.find? fun r => r.operationId = op ∧ r.serverId = server with
  | none => .ok none
  | some row =>
    match admits row.state state with
    | .error e => .error e
    | .ok false => .ok none
    | .ok true => .ok (some (setState server op state rows))

def reviewReady (server op : Uuid) (rows : List Receipt) :
    Except String (Option (List Receipt)) :=
  match rows.find? fun r => r.serverId = server ∧ r.operationId = op with
  | none => .error "The saved operation does not belong to this server."
  | some row =>
    match row.state with
    | .outcomeUnknown | .reviewedUnknown => .ok none
    | _ => .error "Refresh this operation's outcome before reviewing it."

def review (server op : Uuid) (rows : List Receipt) : Except String (Option (List Receipt)) :=
  match rows.find? fun r => r.serverId = server ∧ r.operationId = op with
  | none => .error "The saved operation does not belong to this server."
  | some row =>
    match row.state with
    | .outcomeUnknown => .ok (some (setState server op .reviewedUnknown rows))
    | .reviewedUnknown => .ok none
    | _ => .error "The operation outcome changed. Refresh it before reviewing."

def acknowledge (server op : Uuid) (rows : List Receipt) :
    Except String (Option (List Receipt)) :=
  if rows.any fun r => r.serverId = server ∧ r.operationId = op ∧ r.state.complete = false then
    .error "This operation has no confirmed outcome yet."
  else .ok (some (rows.filter fun r => r.serverId ≠ server ∨ r.operationId ≠ op))

inductive Call where
  | begin (server op : Uuid) (action : String)
  | observe (server op : Uuid) (state : ReceiptState)
  | reviewReady (server op : Uuid)
  | review (server op : Uuid) (confirmed : Bool)
  | acknowledge (server op : Uuid)

def Call.server : Call → Uuid
  | begin server .. | observe server .. | reviewReady server _ | review server ..
  | acknowledge server _ => server

/-- What a call makes of the rows. -/
def Call.apply : Call → List Receipt → Except String (Option (List Receipt))
  | begin server op action => Pending.begin server op action
  | observe server op state => Pending.observe server op state
  | reviewReady server op => Pending.reviewReady server op
  | review server op _ => Pending.review server op
  | acknowledge server op => Pending.acknowledge server op

/-- A call on the file. An unconfirmed review is refused before it reads. -/
def Call.run (c : Call) (fault : Fault) (file : File) : Except String Unit × File :=
  match c with
  | .review _ _ false => (.error "Only a remotely confirmed review can be saved.", file)
  | _ => call c.apply fault file

/-! ## Rows through a call -/

/-- How a state may change: not at all, freely while it is open, and from reviewed to a
    confirmed outcome. -/
def Changes (s s' : ReceiptState) : Prop :=
  s' = s ∨ s.complete = false ∨
    (s = .reviewedUnknown ∧ s' ∈ [ReceiptState.succeeded, .failed, .needsResolution])

/-- What a call that succeeds may have done to the rows it saves. -/
structure Moves (c : Call) (rows rows' : List Receipt) : Prop where
  /-- A row is kept, with its state changed by a call for its server at most, or it is
      acknowledged. -/
  kept : ∀ r ∈ rows, (∃ r' ∈ rows', r'.operationId = r.operationId ∧
      r'.serverId = r.serverId ∧ r'.action = r.action ∧ Changes r.state r'.state ∧
      (r.serverId ≠ c.server → r' = r)) ∨
    (c = .acknowledge r.serverId r.operationId ∧ r.state.complete = true)
  /-- A row is an old one or that of the operation that begins. -/
  born : ∀ r' ∈ rows', (∃ r ∈ rows, r.operationId = r'.operationId) ∨
    (c = .begin r'.serverId r'.operationId r'.action ∧ r'.state = .pending)

theorem changes_refl (s : ReceiptState) : Changes s s := .inl rfl

theorem moves_refl (c : Call) (rows : List Receipt) : Moves c rows rows where
  kept r hr := .inl ⟨r, hr, rfl, rfl, rfl, changes_refl _, fun _ => rfl⟩
  born r hr := .inl ⟨r, hr, rfl⟩

section
variable {server op : Uuid} {state : ReceiptState} {rows rows' : List Receipt}

theorem admits_changes {old new : ReceiptState} (h : admits old new = .ok true) :
    Changes old new := by
  cases old <;> cases new <;> first | exact absurd h (by decide) | (simp [Changes, ReceiptState.complete])

theorem setState_map_id (server op : Uuid) (state : ReceiptState) (rows : List Receipt) :
    (setState server op state rows).map Receipt.operationId = rows.map Receipt.operationId := by
  induction rows with
  | nil => rfl
  | cons r rows ih =>
    rw [setState]
    split
    · rfl
    · rw [List.map_cons, List.map_cons, ih]

theorem setState_length (server op : Uuid) (state : ReceiptState) (rows : List Receipt) :
    (setState server op state rows).length = rows.length := by
  have h := congrArg List.length (setState_map_id server op state rows)
  simpa using h

theorem mem_setState {r' : Receipt} (h : r' ∈ setState server op state rows) :
    r' ∈ rows ∨ ∃ r ∈ rows, r.operationId = op ∧ r.serverId = server ∧
      r' = { r with state := state } := by
  induction rows with
  | nil => cases h
  | cons r rows ih =>
    rw [setState] at h
    split at h
    · next hr =>
      rcases List.mem_cons.mp h with rfl | h
      · exact .inr ⟨r, by simp, hr.1, hr.2, rfl⟩
      · exact .inl (by simp [h])
    · rcases List.mem_cons.mp h with rfl | h
      · exact .inl (by simp)
      · rcases ih h with h | ⟨q, hq, hop, hserver, rfl⟩
        · exact .inl (by simp [h])
        · exact .inr ⟨q, by simp [hq], hop, hserver, rfl⟩

/-- The row the search finds is the one that changes. -/
theorem setState_kept {row r : Receipt}
    (hfind : rows.find? (fun r => r.operationId = op ∧ r.serverId = server) = some row)
    (hr : r ∈ rows) :
    r ∈ setState server op state rows ∨
      (r = row ∧ { r with state := state } ∈ setState server op state rows) := by
  induction rows with
  | nil => cases hr
  | cons q rows ih =>
    rw [setState]
    by_cases hq : q.operationId = op ∧ q.serverId = server
    · rw [List.find?_cons_of_pos (by simpa using hq)] at hfind
      rw [if_pos hq]
      rcases List.mem_cons.mp hr with rfl | hr
      · exact .inr ⟨Option.some.inj hfind, by simp⟩
      · exact .inl (by simp [hr])
    · rw [List.find?_cons_of_neg (by simpa using hq)] at hfind
      rw [if_neg hq]
      rcases List.mem_cons.mp hr with rfl | hr
      · exact .inl (by simp)
      · rcases ih hfind hr with h | ⟨rfl, h⟩
        · exact .inl (by simp [h])
        · exact .inr ⟨rfl, by simp [h]⟩

/-! ## What each call does -/

theorem find?_comm (server op : Uuid) (rows : List Receipt) :
    (rows.find? fun r => r.serverId = server ∧ r.operationId = op) =
      rows.find? fun r => r.operationId = op ∧ r.serverId = server := by
  congr 1
  funext r
  simp [and_comm]

/-- A change of the found row's state is a move of the calls that make it. -/
theorem setState_moves {c : Call} {row : Receipt} (hc : c.server = server)
    (hfind : rows.find? (fun r => r.operationId = op ∧ r.serverId = server) = some row)
    (hchange : Changes row.state state) : Moves c rows (setState server op state rows) where
  kept r hr := by
    refine .inl ?_
    rcases setState_kept hfind hr with h | ⟨rfl, h⟩
    · exact ⟨r, h, rfl, rfl, rfl, changes_refl _, fun _ => rfl⟩
    · have hserver : r.operationId = op ∧ r.serverId = server := by
        simpa using List.find?_some hfind
      exact ⟨_, h, rfl, rfl, rfl, hchange, fun hne => absurd (hserver.2.trans hc.symm) hne⟩
  born r' hr' := by
    rcases mem_setState hr' with h | ⟨r, hr, -, -, rfl⟩
    · exact .inl ⟨r', h, rfl⟩
    · exact .inl ⟨r, hr, rfl⟩

theorem setState_valid (h : Valid rows) : Valid (setState server op state rows) := by
  obtain ⟨hlen, hnodup, hactions⟩ := h
  refine ⟨?_, ?_, ?_⟩
  · rw [setState_length]
    exact hlen
  · rw [setState_map_id]
    exact hnodup
  · intro r' hr'
    rcases mem_setState hr' with h | ⟨r, hr, -, -, rfl⟩
    · exact hactions r' h
    · exact hactions r hr

theorem begin_ok {action : String} (h : begin server op action rows = .ok (some rows')) :
    rows' = rows ++ [⟨op, server, action, .pending⟩] ∧ op ∉ rows.map Receipt.operationId ∧
      (action ≠ "" ∧ action.utf8ByteSize ≤ 80) ∧ rows.length < maxRecords := by
  unfold begin at h
  split at h
  · cases h
  next haction =>
  split at h
  · split at h <;> cases h
  next hfind =>
  split at h
  · cases h
  next hlen =>
  refine ⟨by simpa using h.symm, fun hop => ?_, ?_, by omega⟩
  · obtain ⟨r, hr, hid⟩ := List.mem_map.mp hop
    have hne := List.find?_eq_none.mp hfind r hr
    exact hne (by simpa using hid)
  · simpa only [not_or, Nat.not_lt] using haction

theorem begin_spec {action : String} (h : begin server op action rows = .ok (some rows'))
    (hv : Valid rows) : Moves (.begin server op action) rows rows' ∧ Valid rows' := by
  obtain ⟨rfl, hnew, haction, hlen⟩ := begin_ok h
  refine ⟨⟨fun r hr => ?_, fun r' hr' => ?_⟩, ?_, ?_, ?_⟩
  · exact .inl ⟨r, by simp [hr], rfl, rfl, rfl, changes_refl _, fun _ => rfl⟩
  · rcases List.mem_append.mp hr' with hr' | hr'
    · exact .inl ⟨r', hr', rfl⟩
    · obtain rfl := List.mem_singleton.mp hr'
      exact .inr ⟨rfl, rfl⟩
  · rw [List.length_append, List.length_singleton]
    omega
  · rw [List.map_append, List.map_singleton]
    refine List.nodup_append.mpr ⟨hv.2.1, by simp, fun id hid id' hop => ?_⟩
    obtain rfl := List.mem_singleton.mp hop
    intro heq
    exact hnew (heq ▸ hid)
  · intro r' hr'
    rcases List.mem_append.mp hr' with hr' | hr'
    · exact hv.2.2 r' hr'
    · obtain rfl := List.mem_singleton.mp hr'
      exact haction

theorem observe_ok (h : observe server op state rows = .ok (some rows')) :
    rows' = setState server op state rows := by
  unfold observe at h
  split at h
  · cases h
  · split at h
    · cases h
    · cases h
    · simpa using h.symm

theorem observe_spec (h : observe server op state rows = .ok (some rows')) (hv : Valid rows) :
    Moves (.observe server op state) rows rows' ∧ Valid rows' := by
  unfold observe at h
  split at h
  · cases h
  next row hfind =>
  split at h
  · cases h
  · cases h
  next hadmits =>
  obtain rfl : setState server op state rows = rows' := by simpa using h
  exact ⟨setState_moves rfl hfind (admits_changes hadmits), setState_valid hv⟩

theorem review_spec (h : review server op rows = .ok (some rows')) (hv : Valid rows)
    (confirmed : Bool) : Moves (.review server op confirmed) rows rows' ∧ Valid rows' := by
  unfold review at h
  rw [find?_comm] at h
  split at h
  · cases h
  next row hfind =>
  split at h
  · next hstate =>
    obtain rfl : setState server op .reviewedUnknown rows = rows' := by simpa using h
    exact ⟨setState_moves rfl hfind (.inr (.inl (by rw [hstate]; rfl))), setState_valid hv⟩
  · cases h
  · cases h

theorem acknowledge_spec (h : acknowledge server op rows = .ok (some rows')) (hv : Valid rows) :
    Moves (.acknowledge server op) rows rows' ∧ Valid rows' := by
  unfold acknowledge at h
  split at h
  · cases h
  next hopen =>
  obtain rfl : (rows.filter fun r => r.serverId ≠ server ∨ r.operationId ≠ op) = rows' := by
    simpa using h
  refine ⟨⟨fun r hr => ?_, fun r' hr' => ?_⟩, ?_, ?_, ?_⟩
  · by_cases hthis : r.serverId = server ∧ r.operationId = op
    · obtain ⟨rfl, rfl⟩ := hthis
      refine .inr ⟨rfl, ?_⟩
      simp only [List.any_eq_true, not_exists, not_and] at hopen
      have := hopen r hr
      simpa using this
    · refine .inl ⟨r, ?_, rfl, rfl, rfl, changes_refl _, fun _ => rfl⟩
      rw [List.mem_filter]
      refine ⟨hr, ?_⟩
      simp only [ne_eq, decide_eq_true_eq]
      exact not_and_or.mp hthis
  · exact .inl ⟨r', List.mem_of_mem_filter hr', rfl⟩
  · exact Nat.le_trans (List.length_filter_le ..) hv.1
  · exact hv.2.1.sublist (List.Sublist.map _ List.filter_sublist)
  · intro r' hr'
    exact hv.2.2 r' (List.mem_of_mem_filter hr')

theorem apply_spec {c : Call} (h : c.apply rows = .ok (some rows')) (hv : Valid rows) :
    Moves c rows rows' ∧ Valid rows' := by
  cases c with
  | begin server op action => exact begin_spec h hv
  | observe server op state => exact observe_spec h hv
  | reviewReady server op =>
    simp only [Call.apply, reviewReady] at h
    split at h
    · cases h
    · split at h <;> cases h
  | review server op confirmed => exact review_spec h hv confirmed
  | acknowledge server op => exact acknowledge_spec h hv

end

/-! ## What is saved is read -/

theorem ofJson_json (r : Receipt) : Receipt.ofJson r.json = some r := by
  have hrecord : r.json.record Receipt.names = some [.str (String.ofList r.operationId.text),
      .str (String.ofList r.serverId.text), .str r.action, .str r.state.text] :=
    Json.record_obj (by decide) rfl
  simp [Receipt.ofJson, hrecord, Uuid.parse_text, ReceiptState.parse_text]

theorem decode_encode (rows : List Receipt) : decode (encode rows) = some rows := by
  have hrows : (rows.map Receipt.json).mapM Receipt.ofJson = some rows := by
    induction rows with
    | nil => rfl
    | cons r rows ih => simp [List.mapM_cons, ofJson_json, ih]
  simp only [decode, encode, String.toUTF8_eq_toByteArray, String.toByteArray_ofList,
    List.utf8Decode?_utf8Encode, Option.bind_eq_bind, Option.bind_some, Json.read_render, hrows]

/-- A row's text is below a thousandth of the file's limit. -/
theorem json_size_le {r : Receipt} (h : r.action.utf8ByteSize ≤ 80) : r.json.size ≤ 1000 := by
  have hop := @Json.size_str_le Int _ (String.ofList r.operationId.text)
  have hserver := @Json.size_str_le Int _ (String.ofList r.serverId.text)
  have haction := @Json.size_str_le Int _ r.action
  have hstate : (Json.str r.state.text : Json Int).size ≤ 18 := by
    cases r.state <;> decide
  rw [String.toList_ofList, Uuid.utf8Len_text] at hop hserver
  rw [← String.utf8ByteSize_ofList, String.ofList_toList] at haction
  have hkeys : Json.size (.obj (Receipt.names.zip
      [.str "", .str "", .str "", .str ""]) : Json Int) = 55 := by decide
  have hempty : String.utf8Len (Json.renderString "") = 2 := by decide
  simp only [Json.size, Json.render] at hop hserver haction hstate
  simp only [Receipt.json, Receipt.names, Json.size, Json.render, Json.renderMembers,
    List.zip_cons_cons, List.zip_nil_right, List.cons_append, List.append_assoc,
    String.utf8Len_cons, String.utf8Len_append, hempty] at hkeys ⊢
  omega

/-- A file that is saved is within the limit. -/
theorem encode_size_le {rows : List Receipt} (h : Valid rows) :
    (encode rows).size ≤ maxBytes := by
  have hrow : ∀ v ∈ rows.map Receipt.json, v.size ≤ 1000 := by
    intro v hv
    obtain ⟨r, hr, rfl⟩ := List.mem_map.mp hv
    exact json_size_le (h.2.2 r hr).2
  have harr := Json.size_arr_le _ hrow
  have hlen : rows.length ≤ 1000 := h.1
  rw [List.length_map] at harr
  calc (encode rows).size
      = (Json.arr (rows.map Receipt.json)).size := by
        rw [encode, String.toUTF8_eq_toByteArray, String.size_toByteArray,
          String.utf8ByteSize_ofList]
        rfl
    _ ≤ rows.length * (1000 + 1) + 2 := harr
    _ ≤ maxBytes := by unfold maxBytes; omega

theorem read_encode {rows : List Receipt} (h : Valid rows) :
    read (some (encode rows)) = .ok rows := by
  have hsize := encode_size_le h
  simp only [read, decode_encode, if_pos h]
  rw [if_neg (by omega)]

theorem read_valid {file : File} {rows : List Receipt} (h : read file = .ok rows) :
    Valid rows := by
  unfold read at h
  split at h
  · obtain rfl : [] = rows := by simpa using h
    exact ⟨by decide, List.nodup_nil, by simp⟩
  · split at h
    · cases h
    split at h
    · cases h
    split at h
    · next hv =>
      obtain rfl := Except.ok.inj h
      exact hv
    · cases h

/-! ## Sequences of calls -/

/-- The file after a sequence of calls, each with the fault it meets. -/
def runAll : List (Call × Fault) → File → File
  | [], file => file
  | (c, fault) :: calls, file => runAll calls (c.run fault file).2

/-- What a call does to a readable ledger: it stays readable, and its rows move as they may;
    a recorded operation does not begin; and a call that fails leaves the file as it was,
    unless all that failed was the sync after the new rows were in place. -/
structure Sound (c : Call) (fault : Fault) (file : File) (rows : List Receipt) : Prop where
  readable : ∃ rows', read (c.run fault file).2 = .ok rows' ∧ Valid rows' ∧ Moves c rows rows'
  recorded : ∀ server op action, c = .begin server op action →
    op ∈ rows.map Receipt.operationId →
    (∃ e, (c.run fault file).1 = .error e) ∧ (c.run fault file).2 = file
  unchanged : ∀ e, (c.run fault file).1 = .error e → (c.run fault file).2 = file ∨
    ∃ rows', fault = .sync e ∧ c.apply rows = .ok (some rows') ∧
      read (c.run fault file).2 = .ok rows'

section
variable {c : Call} {fault : Fault} {file : File} {rows : List Receipt}

/-- What a call on a readable file comes to. -/
theorem call_cases {f : List Receipt → Except String (Option (List Receipt))}
    (h : read file = .ok rows) :
    (call f fault file).2 = file ∨
    ∃ rows', f rows = .ok (some rows') ∧ (call f fault file).2 = some (encode rows') ∧
      ∀ e, (call f fault file).1 = .error e → fault = .sync e := by
  have hsave : ∀ fault, (∀ e, fault ≠ .read e) → call f fault file =
      match f rows with
      | .error e => (.error e, file)
      | .ok none => (.ok (), file)
      | .ok (some rows) => save fault file rows := by
    intro fault hr
    cases fault with
    | read e => exact absurd rfl (hr e)
    | _ => simp only [call, h]
  cases fault with
  | read e => exact .inl rfl
  | none =>
    rw [hsave _ (by simp)]
    rcases f rows with e | _ | rows'
    · exact .inl rfl
    · exact .inl rfl
    · exact .inr ⟨rows', rfl, rfl, fun e he => by cases he⟩
  | replace e =>
    rw [hsave _ (by simp)]
    rcases f rows with e | _ | rows' <;> exact .inl rfl
  | sync e =>
    rw [hsave _ (by simp)]
    rcases f rows with e | _ | rows'
    · exact .inl rfl
    · exact .inl rfl
    · exact .inr ⟨rows', rfl, rfl, fun e he => by rw [Except.error.inj he]⟩

theorem run_cases (h : read file = .ok rows) :
    (c.run fault file).2 = file ∨
    ∃ rows', c.apply rows = .ok (some rows') ∧ (c.run fault file).2 = some (encode rows') ∧
      ∀ e, (c.run fault file).1 = .error e → fault = .sync e := by
  unfold Call.run
  split
  · exact .inl rfl
  · exact call_cases h

/-- The rows after a call: the old ones, or those it makes of them. -/
theorem run_rows (c : Call) (fault : Fault) (h : read file = .ok rows) :
    ∃ rows', read (c.run fault file).2 = .ok rows' ∧
      (rows' = rows ∨ c.apply rows = .ok (some rows')) := by
  rcases @run_cases c fault _ _ h with hfile | ⟨rows', happly, hfile, -⟩
  · exact ⟨rows, by rw [hfile, h], .inl rfl⟩
  · refine ⟨rows', ?_, .inr happly⟩
    rw [hfile, read_encode (apply_spec happly (read_valid h)).2]

/-- A `begin` that succeeds has saved its row, under an id no row had. -/
theorem begin_saved {server op : Uuid} {action : String} (h : read file = .ok rows)
    (hok : ((Call.begin server op action).run fault file).1 = .ok ()) :
    op ∉ rows.map Receipt.operationId ∧
      read ((Call.begin server op action).run fault file).2 =
        .ok (rows ++ [⟨op, server, action, .pending⟩]) := by
  have hdone : ∀ rows', begin server op action rows = .ok (some rows') →
      op ∉ rows.map Receipt.operationId ∧
        read (some (encode rows')) = .ok (rows ++ [⟨op, server, action, .pending⟩]) := by
    intro rows' happly
    obtain ⟨hrows, hnew, -⟩ := begin_ok happly
    refine ⟨hnew, ?_⟩
    rw [read_encode (begin_spec happly (read_valid h)).2, hrows]
  have hsome : begin server op action rows ≠ .ok none := by
    unfold begin
    split
    · simp
    split
    · split <;> simp
    split <;> simp
  cases fault with
  | read e => cases hok
  | none =>
    simp only [Call.run, call, h, Call.apply] at hok ⊢
    rcases happly : begin server op action rows with e | _ | rows'
    · rw [happly] at hok; cases hok
    · exact absurd happly hsome
    · exact hdone rows' happly
  | replace e =>
    simp only [Call.run, call, h, Call.apply] at hok
    rcases happly : begin server op action rows with e | _ | rows'
    · rw [happly] at hok; cases hok
    · exact absurd happly hsome
    · rw [happly] at hok; cases hok
  | sync e =>
    simp only [Call.run, call, h, Call.apply] at hok
    rcases happly : begin server op action rows with e | _ | rows'
    · rw [happly] at hok; cases hok
    · exact absurd happly hsome
    · rw [happly] at hok; cases hok

/-- A recorded operation does not begin, whoever asks. -/
theorem begin_recorded {server op : Uuid} (action : String)
    (h : op ∈ rows.map Receipt.operationId) : ∃ e, begin server op action rows = .error e := by
  obtain ⟨r, hr, rfl⟩ := List.mem_map.mp h
  unfold begin
  split
  · exact ⟨_, rfl⟩
  · split
    · split <;> exact ⟨_, rfl⟩
    · next hfind =>
      have := List.find?_eq_none.mp hfind r hr
      simp at this

theorem sound (c : Call) (fault : Fault) (h : read file = .ok rows) : Sound c fault file rows := by
  have hv := read_valid h
  refine ⟨?_, ?_, ?_⟩
  · rcases @run_cases c fault _ _ h with hfile | ⟨rows', happly, hfile, -⟩
    · exact ⟨rows, by rw [hfile, h], hv, moves_refl c rows⟩
    · obtain ⟨hmoves, hv'⟩ := apply_spec happly hv
      exact ⟨rows', by rw [hfile, read_encode hv'], hv', hmoves⟩
  · rintro server op action rfl hop
    obtain ⟨e, he⟩ := begin_recorded action hop
    have hcall : Call.apply (.begin server op action) rows = .error e := he
    cases fault with
    | read e' => exact ⟨⟨e', rfl⟩, rfl⟩
    | _ => simp only [Call.run, call, h, hcall]; exact ⟨⟨e, rfl⟩, trivial⟩
  · intro e he
    rcases @run_cases c fault _ _ h with hfile | ⟨rows', happly, hfile, hsync⟩
    · exact .inl hfile
    · refine .inr ⟨rows', hsync e he, happly, ?_⟩
      rw [hfile, read_encode (apply_spec happly hv).2]

end

/-- **The ledger.** Over every sequence of calls, with any faults, on a ledger that can be
    read: it can still be read, its operation ids are distinct and it is within its limits, and
    whatever call and fault comes next keeps all that, moves each row as it may, fails for a
    recorded operation, and leaves the file as it was when it fails, but for a failed sync of
    the directory after the file has been replaced. -/
theorem ledger_calls (file : File) (rows : List Receipt) (h : read file = .ok rows)
    (calls : List (Call × Fault)) :
    ∃ rows', read (runAll calls file) = .ok rows' ∧ Valid rows' ∧
      ∀ c fault, Sound c fault (runAll calls file) rows' := by
  induction calls generalizing file rows with
  | nil => exact ⟨rows, h, read_valid h, fun c fault => sound c fault h⟩
  | cons call calls ih =>
    obtain ⟨c, fault⟩ := call
    obtain ⟨rows', hread, -, -⟩ := (sound c fault h).readable
    exact ih (c.run fault file).2 rows' hread

/-- From no ledger at all. -/
theorem new_ledger_calls : ∃ rows', read (runAll [(.begin 1 2 "commit", .none),
      (.observe 1 2 .outcomeUnknown, .none), (.review 1 2 true, .none)] none) = .ok rows' ∧
    Valid rows' ∧ ∀ c fault, Sound c fault (runAll [(.begin 1 2 "commit", .none),
      (.observe 1 2 .outcomeUnknown, .none), (.review 1 2 true, .none)] none) rows' :=
  ledger_calls none [] rfl _

/-- A call whose last sync fails is an error, and its rows are there. -/
theorem failed_sync_changes_rows :
    ¬ ∀ (file : File) (rows : List Receipt) (c : Call) (fault : Fault) (e : String),
      read file = .ok rows → (c.run fault file).1 = .error e →
        read (c.run fault file).2 = .ok rows := by
  intro h
  have hread := h none [] (.begin 1 2 "commit") (.sync "Input/output error")
    "Input/output error" rfl rfl
  have hv : Valid [⟨2, 1, "commit", .pending⟩] := by decide
  have hrow : (Call.run (.begin 1 2 "commit") (.sync "Input/output error") none).2 =
      some (encode [⟨2, 1, "commit", .pending⟩]) := rfl
  rw [hrow, read_encode hv] at hread
  cases hread

end Porthop.Git.Pending
