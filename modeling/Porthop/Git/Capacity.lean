import Porthop.Git.Life

/- The journal's limits, from the `begin` of an operation to the save of its completion.

   `begin` tests the limits with the running record and reserves nothing: the record that
   closes the operation is longer, and is tested again. The number of files is no
   obstacle then, since the operation has its file; the length of the record and the
   bytes of the others are. `completion_fits_iff` says exactly when the save passes,
   whatever other operations wrote in between. -/
namespace Porthop.Git

/-- Other operations at work on the journal: each step is a `begin` or a save of a record
    of another client or operation. -/
inductive Others (uuid : String → Option Uuid) (k : Key) : Journal → Journal → Prop where
  | refl (j : Journal) : Others uuid k j j
  | begin {j j₁ j₂ : Journal} {client op : String} {payload repository : Digest} {r : Record}
    (h : Others uuid k j j₁) (hne : (⟨client, op⟩ : Key) ≠ k)
    (hb : Git.begin uuid j₁ client op payload repository = .ok (r, j₂)) : Others uuid k j j₂
  | save {j j₁ j₂ : Journal} {client : String} {r : Record}
    (h : Others uuid k j j₁) (hne : (⟨client, r.operationId⟩ : Key) ≠ k)
    (hs : persist uuid j₁ client r none = .ok j₂) : Others uuid k j j₂

/-- The bytes of every file but one. -/
def bytesExcept (j : Journal) (k : Key) : Nat :=
  ((j.entries.filter fun e => e.1 ≠ k).map fun e => e.2.bytes).sum

/-- The length of the state and of the result or error of a completion record. -/
def outcomeSize (start : Bool) (outcome : Except Error Value) : Nat :=
  let r := Record.complete (.fresh "" (.common [] 0 0) (.common [] 0 0)) start outcome
  (Json.str r.state.text : Value).size +
    match outcome with
    | .ok v => v.size
    | .error e => e.json.size

/-- The length of `"running"` and of `null`, whose place the outcome takes. -/
def pendingSize : Nat := 13

section
variable {uuid : String → Option Uuid} {j j' j₁ j₂ : Journal} {client op : String}
  {payload repository : Digest} {r : Record} {k : Key}

/-! ## The number of files -/

theorem length_insert (j : Journal) (k : Key) (f : Stored) :
    (j.insert k f).entries.length =
      if k ∈ j then j.entries.length else j.entries.length + 1 := by
  have hkeys : (j.insert k f).keys.length = (k :: j.keys.erase k).length := by
    rw [AList.keys_insert]
  simp only [AList.keys, List.keys, List.length_map, List.length_cons] at hkeys
  rw [hkeys]
  split
  · next h =>
    have hmem : k ∈ List.map Sigma.fst j.entries := h
    have hpos := List.length_pos_of_mem hmem
    rw [List.length_erase_of_mem hmem]
    rw [List.length_map] at hpos ⊢
    omega
  · next h =>
    have hmem : k ∉ List.map Sigma.fst j.entries := h
    rw [List.erase_of_not_mem hmem, List.length_map]

theorem filter_length_of_notMem (h : k ∉ j) :
    (j.entries.filter fun e => e.1 ≠ k).length = j.entries.length := by
  rw [List.filter_eq_self.mpr]
  intro e he
  have hne : e.1 ≠ k := by
    rintro rfl
    exact h (List.mem_map_of_mem he)
  simpa using hne

theorem filter_length_of_mem (h : k ∈ j) :
    (j.entries.filter fun e => e.1 ≠ k).length < j.entries.length := by
  rw [List.length_filter_lt_length_iff_exists]
  obtain ⟨e, he, rfl⟩ := List.mem_map.mp (show k ∈ List.map Sigma.fst j.entries from h)
  exact ⟨e, he, by simp⟩

/-- A save without known usage passes exactly within the limits. -/
theorem persist_none_iff :
    (∃ j', persist uuid j client r none = .ok j') ↔
      (uuid r.operationId).isSome = true ∧ r.size ≤ maxRecord ∧
        j.entries.length ≤ maxRecords ∧
        (j.entries.filter fun e => e.1 ≠ (⟨client, r.operationId⟩ : Key)).length < maxRecords ∧
        bytesExcept j ⟨client, r.operationId⟩ + r.size ≤ maxBytes := by
  unfold persist recordPath usageExcept recordPaths
  by_cases hu : (uuid r.operationId).isSome = true
  · by_cases hsize : r.size > maxRecord
    · simp [hu, hsize, bind, Except.bind]
    · by_cases hlen : j.entries.length > maxRecords
      · simp [hu, hsize, hlen, bind, Except.bind]
      · simp only [hu, hsize, hlen, if_true, if_false, bind, Except.bind, Option.elim_none,
          bytesExcept, true_and]
        have hsize : r.size ≤ maxRecord := by omega
        have hlen : j.entries.length ≤ maxRecords := by omega
        split
        · next hfull =>
          simp only [reduceCtorEq, exists_false, false_iff]
          omega
        · next hfits =>
          simp only [Except.ok.injEq, exists_eq', true_iff]
          omega
  · simp [hu, bind, Except.bind]

theorem persist_some_ok {u : Usage} (h : persist uuid j client r (some u) = .ok j') :
    (uuid r.operationId).isSome = true ∧ u.count < maxRecords := by
  unfold persist recordPath at h
  by_cases hu : (uuid r.operationId).isSome = true
  · refine ⟨hu, ?_⟩
    simp only [hu, if_true, bind, Except.bind, Option.elim_some] at h
    split at h
    · cases h
    · split at h
      · cases h
      · omega
  · simp [hu, bind, Except.bind] at h

/-- `begin` adds a file only where the directory has room for it. -/
theorem begin_room (h : begin uuid j client op payload repository = .ok (r, j'))
    (hnew : existing uuid j client op payload = .ok none) :
    (uuid op).isSome = true ∧ j.entries.length < maxRecords := by
  obtain ⟨o, ho, h⟩ := bind_ok h
  obtain rfl := Except.ok.inj (ho.symm.trans hnew)
  obtain ⟨paths, hpaths, h⟩ := bind_ok h
  obtain ⟨u, hu, h⟩ := bind_ok h
  obtain ⟨j₁, hj₁, h⟩ := bind_ok h
  obtain rfl : paths = j.entries := by
    unfold recordPaths at hpaths
    split at hpaths
    · cases hpaths
    · injection hpaths with hpaths; exact hpaths.symm
  obtain ⟨-, rfl⟩ := scan_ok hu
  obtain ⟨huuid, hcount⟩ := persist_some_ok hj₁
  simp only [Nat.zero_add] at hcount
  exact ⟨huuid, hcount⟩

/-- What `begin` returns where it accepts. -/
theorem begin_accepts (hnew : existing uuid j client op payload = .ok none)
    (hok : (begin uuid j client op payload repository).isOk = true) :
    begin uuid j client op payload repository = .ok (.fresh op payload repository,
      j.insert ⟨client, op⟩ ⟨.fresh op payload repository,
        (Record.fresh op payload repository).size⟩) := by
  cases hb : begin uuid j client op payload repository with
  | error e => rw [hb] at hok; cases hok
  | ok a =>
    rcases begin_ok hb with ⟨hhit, -⟩ | ⟨-, hr, hj, -⟩
    · rw [hnew] at hhit
      cases hhit
    · rw [← hr, ← hj]

/-! ## What the others leave -/

/-- The directory is no longer than it may be. -/
def Room (j : Journal) : Prop := j.entries.length ≤ maxRecords

theorem room_begin (h : begin uuid j client op payload repository = .ok (r, j'))
    (hroom : Room j) : Room j' := by
  rcases begin_ok h with ⟨-, rfl⟩ | ⟨hnew, -, rfl, -⟩
  · exact hroom
  · have hlt := (begin_room h hnew).2
    unfold Room
    rw [length_insert]
    split <;> omega

theorem room_persist (h : persist uuid j client r none = .ok j') : Room j' := by
  obtain ⟨-, -, hlen, hcount, -⟩ := persist_none_iff.mp ⟨j', h⟩
  obtain rfl := persist_ok h
  unfold Room
  rw [length_insert]
  split
  · exact hlen
  · next hk =>
    rw [filter_length_of_notMem hk] at hcount
    exact hcount

/-- Other operations keep the room and leave the file of an operation where it is. -/
theorem others_keep (h : Others uuid k j j') (hroom : Room j) (hk : k ∈ j) :
    Room j' ∧ k ∈ j' := by
  induction h with
  | refl => exact ⟨hroom, hk⟩
  | begin h hne hb ih =>
    refine ⟨room_begin hb ih.1, ?_⟩
    rcases begin_ok hb with ⟨-, rfl⟩ | ⟨-, -, rfl, -⟩
    · exact ih.2
    · exact (AList.mem_insert _).mpr (.inr ih.2)
  | save h hne hs ih =>
    refine ⟨room_persist hs, ?_⟩
    obtain rfl := persist_ok hs
    exact (AList.mem_insert _).mpr (.inr ih.2)

/-! ## The length of a completion -/

/-- The fields of a record that never change, as a JSON object of their own. -/
def frame (op : String) : Value :=
  .obj [("operationId", .str op), ("repository", .str digestText),
    ("payloadHash", .str digestText)]

theorem render_key_size : Json.size (.str "state" : Value) = 7 ∧
    Json.size (.str "seq" : Value) = 5 ∧ Json.size (.str "result" : Value) = 8 ∧
    Json.size (.str "error" : Value) = 7 := by
  decide

/-- The length of a record: that of its frame, of four more keys, and of their values. -/
theorem record_size (r : Record) :
    r.size = (frame r.operationId).size + 35 + (Json.str r.state.text : Value).size +
      (Json.num (r.seq : Int) : Value).size + (r.result.getD .null).size +
      ((r.error.map Error.json).getD .null).size := by
  obtain ⟨hstate, hseq, hresult, herror⟩ := render_key_size
  simp only [Json.size, Json.render] at hstate hseq hresult herror
  simp only [Record.size, Record.json, frame, Json.size, Json.render, Json.renderMembers,
    List.cons_append, List.append_assoc, String.utf8Len_cons, String.utf8Len_append, hstate,
    hseq, hresult, herror]
  have hcolon : (':' : Char).utf8Size = 1 := by decide
  have hcomma : (',' : Char).utf8Size = 1 := by decide
  omega

/-- The outcome takes the places of `"running"` and of `null`. -/
theorem complete_size (start : Bool) (outcome : Except Error Value) :
    ((Record.fresh op payload repository).complete start outcome).size + pendingSize =
      (Record.fresh op payload repository).size + outcomeSize start outcome := by
  have hrunning : (Json.str State.running.text : Value).size = 9 := by decide
  have hnull : (Json.null : Value).size = 4 := by decide
  have hseq : (Json.num ((1 : Nat) : Int) : Value).size =
      (Json.num ((1 + 1 : Nat) : Int) : Value).size := by decide
  rw [record_size, record_size]
  cases outcome with
  | ok v =>
    simp only [Record.complete, Record.fresh, outcomeSize, pendingSize, Option.getD_some,
      Option.getD_none, Option.map_none, hrunning, hnull, hseq]
    omega
  | error e =>
    simp only [Record.complete, Record.fresh, outcomeSize, pendingSize, Option.getD_some,
      Option.getD_none, Option.map_none, Option.map_some, hrunning, hnull, hseq]
    omega

end

/-! ## When a completion can be saved -/

/-- **A completion fits exactly when its outcome does.** For every journal at `begin` and
    whatever other operations write afterwards: the completion record of an operation that
    `begin` accepted passes the limits of the save if and only if the text of its outcome,
    in the place of the running record's, keeps the record within `maxRecord` and the
    journal within `maxBytes`. -/
theorem completion_fits_iff (uuid : String → Option Uuid) (j j₁ j₂ : Journal)
    (client op : String) (payload repository : Digest) (r : Record)
    (hbegin : begin uuid j client op payload repository = .ok (r, j₁))
    (hnew : existing uuid j client op payload = .ok none)
    (hothers : Others uuid ⟨client, op⟩ j₁ j₂) (start : Bool) (outcome : Except Error Value) :
    (∃ j₃, persist uuid j₂ client (r.complete start outcome) none = .ok j₃) ↔
      r.size + outcomeSize start outcome ≤ maxRecord + pendingSize ∧
        bytesExcept j₂ ⟨client, op⟩ + r.size + outcomeSize start outcome ≤
          maxBytes + pendingSize := by
  obtain ⟨huuid, hlt⟩ := begin_room hbegin hnew
  rcases begin_ok hbegin with ⟨hhit, -⟩ | ⟨-, rfl, rfl, -⟩
  · rw [hnew] at hhit
    cases hhit
  have habsent : (⟨client, op⟩ : Key) ∉ j := AList.lookup_eq_none.mp (existing_ok_none hnew)
  have hroom : Room (j.insert ⟨client, op⟩
      ⟨.fresh op payload repository, (Record.fresh op payload repository).size⟩) := by
    unfold Room
    rw [length_insert, if_neg habsent]
    exact hlt
  obtain ⟨hroom, hmem⟩ := others_keep hothers hroom ((AList.mem_insert _).mpr (.inl rfl))
  have hop : ((Record.fresh op payload repository).complete start outcome).operationId = op := by
    cases outcome <;> rfl
  have hcount := filter_length_of_mem hmem
  have hsize := @complete_size op payload repository start outcome
  rw [persist_none_iff, hop]
  constructor
  · rintro ⟨-, hrecord, -, -, hbytes⟩
    omega
  · rintro ⟨hrecord, hbytes⟩
    refine ⟨huuid, ?_, hroom, ?_, ?_⟩
    · omega
    · exact Nat.lt_of_lt_of_le hcount hroom
    · omega

/-! A creation whose path comes with a long text to show: the result repeats it. -/

/-- A display text of so many characters. -/
def longDisplay (n : Nat) : String := String.ofList (List.replicate n 'a')

/-- `repo.init` of `/a` with a text to show as long as a record may be. -/
def longRequest : Write :=
  .create operationId ⟨"L2E=", longDisplay maxRecord⟩ (some "main") none [47, 97] 1 7 [46, 103, 105, 116]

/-- The result of a `repo.init`. -/
def initialized (path : WirePath) (branch : String) : Value :=
  .obj [("bare", .bool false), ("initialBranch", .str branch), ("initialized", .bool true),
    ("openRequired", .bool true),
    ("path", .obj [("bytesB64", .str path.bytesB64), ("display", .str path.display)])]

theorem flatMap_escapeChar_replicate (n : Nat) :
    (List.replicate n 'a').flatMap Json.escapeChar = List.replicate n 'a' := by
  induction n with
  | zero => rfl
  | succ n ih =>
    rw [List.replicate_succ, List.flatMap_cons, ih]
    rfl

theorem utf8Len_replicate (n : Nat) : String.utf8Len (List.replicate n 'a') = n := by
  induction n with
  | zero => rfl
  | succ n ih =>
    rw [List.replicate_succ, String.utf8Len_cons, ih]
    rfl

theorem initialized_size (b64 branch : String) (n : Nat) :
    n ≤ (initialized ⟨b64, longDisplay n⟩ branch).size := by
  have hstr : String.utf8Len (Json.renderString (longDisplay n)) = n + 2 := by
    simp only [longDisplay, Json.renderString, String.toList_ofList,
      flatMap_escapeChar_replicate, List.cons_append, String.utf8Len_cons,
      String.utf8Len_append, utf8Len_replicate]
    rfl
  simp only [initialized, Json.size, Json.render, Json.renderMembers, List.cons_append,
    List.append_assoc, String.utf8Len_cons, String.utf8Len_append, hstr]
  omega

/-- A result as long as a record may be fits in none. -/
theorem unfit_of_long (r : Record) {v : Value} (h : maxRecord ≤ v.size) :
    ¬ r.size + outcomeSize false (.ok v) ≤ maxRecord + pendingSize := by
  have hstate : (Json.str State.succeeded.text : Value).size = 11 := by decide
  have hsize : outcomeSize false (.ok v) = 11 + v.size := by
    simp only [outcomeSize, Record.complete, Bool.false_and, Bool.false_eq_true, if_false, hstate]
  have := record_size r
  rw [hsize, pendingSize]
  omega

/-- `begin` accepts the creation in an empty journal, and its completion is refused. -/
theorem accepted_completion_too_large :
    ¬ ∀ (uuid : String → Option Uuid) (j j₁ j₂ : Journal) (client op : String)
      (payload repository : Digest) (r : Record),
      begin uuid j client op payload repository = .ok (r, j₁) →
      existing uuid j client op payload = .ok none → Others uuid ⟨client, op⟩ j₁ j₂ →
      ∀ (start : Bool) (outcome : Except Error Value),
        ∃ j₃, persist uuid j₂ client (r.complete start outcome) none = .ok j₃ := by
  intro h
  have hnew : existing sampleUuid ∅ clientId operationId longRequest.payload = .ok none := rfl
  have hbegin := @begin_accepts _ _ _ _ _ longRequest.identity hnew (by decide +kernel)
  have hfits := h sampleUuid ∅ _ _ clientId operationId _ _ _ hbegin hnew (.refl _) false
    (.ok (initialized ⟨"L2E=", longDisplay maxRecord⟩ "main"))
  rw [completion_fits_iff sampleUuid ∅ _ _ clientId operationId _ _ _ hbegin hnew (.refl _)]
    at hfits
  exact unfit_of_long _ (initialized_size "L2E=" "main" maxRecord) hfits.1

/-- The running record of `initRequest` and the journal with it. -/
def initRecord : Record :=
  .fresh operationId (initRequest 7).payload (initRequest 7).identity

def initJournal : Journal :=
  (∅ : Journal).insert ⟨clientId, operationId⟩ ⟨initRecord, initRecord.size⟩

/-- The running record of another client's write, and the journal with both. -/
def otherRecord : Record :=
  .fresh otherOperation (stageRequest otherOperation).payload
    (stageRequest otherOperation).identity

def otherJournal : Journal :=
  initJournal.insert ⟨otherClient, otherOperation⟩ ⟨otherRecord, otherRecord.size⟩

/-- The result of `initRequest` fits, also after another client has begun a write. -/
theorem short_completion_fits :
    ∃ j₃, persist sampleUuids otherJournal clientId
      (initRecord.complete false (.ok (initialized ⟨"L2E=", "/a"⟩ "main"))) none = .ok j₃ := by
  have hbegin : begin sampleUuids ∅ clientId operationId (initRequest 7).payload
      (initRequest 7).identity = .ok (initRecord, initJournal) :=
    begin_accepts rfl (by decide +kernel)
  have hother : begin sampleUuids initJournal otherClient otherOperation
      (stageRequest otherOperation).payload (stageRequest otherOperation).identity =
      .ok (otherRecord, otherJournal) :=
    begin_accepts rfl (by decide +kernel)
  rw [completion_fits_iff sampleUuids ∅ initJournal otherJournal clientId operationId _ _
    initRecord hbegin rfl (.begin (.refl _) (by decide) hother)]
  decide +kernel

end Porthop.Git
