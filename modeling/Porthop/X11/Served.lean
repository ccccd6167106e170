import Porthop.Lib.Run
import Porthop.X11.Protocol

/- A transfer is served chunk by chunk.

   What stands in the property of a transfer is a function of how often it was deleted: the
   size of the value, then its chunks one after the other, then an empty property. Requests
   of other clients and requests about other properties make no difference, which is shown
   request by request; the run rule gives the rest. -/
namespace Porthop.X11

/-! ## What a requestor sees -/

/-- The request deletes the property. -/
def Request.deletes (c : Client) (key : Key) : Request → Bool
  | .deleteProperty k => decide (k = key)
  | .getProperty k kind offset length delete =>
    decide (k = key) && (c.getProperty k kind offset length delete).2
  | _ => false

/-- Where the request reads the property, and what. -/
def Request.reads (c : Client) (key : Key) : Request → Option (Nat × Bytes)
  | .getProperty k kind offset length delete =>
    match (c.getProperty k kind offset length delete).1 with
    | .property _ _ _ bytes => if k = key then some (offset * 4, bytes) else none
    | _ => none
  | _ => none

/-- A requestor that puts together what it reads: how often it has deleted the property, how
    far it has read the one that is there, and the bytes of all since the first deletion. -/
structure Reader where
  deletes : Nat
  here : Nat
  got : Bytes

namespace Reader

def read (r : Reader) : Option (Nat × Bytes) → Reader
  | some (start, bytes) =>
    if start = r.here then
      { r with
        here := r.here + bytes.length
        got := if r.deletes = 0 then r.got else r.got ++ bytes }
    else r
  | none => r

def after (r : Reader) (c : Client) (key : Key) (q : Request) : Reader :=
  let r := r.read (q.reads c key)
  if q.deletes c key then ⟨r.deletes + 1, 0, r.got⟩ else r

/-- What client `i` asks for of its property. -/
def follow (r : Reader) (i : Nat) (key : Key) (s : Server) : Event → Reader
  | .request j q =>
    match s.clients[j]? with
    | some (some c) => if j = i then r.after c key q else r
    | _ => r
  | _ => r

end Reader

/-- The server and one of its clients' requestor of one property. -/
structure Watched where
  server : Server
  reader : Reader

section
variable (i : Nat) (key : Key)

def watch (w : Watched) (e : Event) : Option Watched :=
  (step w.server e).map fun s => ⟨s, w.reader.follow i key w.server e⟩

/-- A request that leaves the property to its transfer: the client writes nothing into it,
    keeps its window, and asks for no other value in it as long as the transfer is not over
    or its last property is there. -/
def Request.Leaves (c : Client) : Request → Prop
  | .changeProperty k _ => k ≠ key
  | .destroyWindow id => id ≠ key.1
  | .convertSelection window _ target property _ _ =>
    (window, if property = 0 then target else property) ≠ key ∨ c.transfer.isSome = true
  | _ => True

def Conforming (w : Watched) : Event → Prop
  | .close j => j ≠ i
  | .request j q => j = i → ∀ c, w.server.clients[i]? = some (some c) → q.Leaves key c
  | .connect _ _ => True

/-- A chunk is deleted only when it has been read to its end. -/
def Careful (w : Watched) (e : Event) : Prop :=
  ∀ q c p, e = .request i q → w.server.clients[i]? = some (some c) → q.deletes c key = true →
    0 < w.reader.deletes → c.properties.lookup key = some p →
      (w.reader.read (q.reads c key)).here = p.bytes.length

end

/-! ## The transfer as a function of the deletions -/

/-- The chunks of a value and the empty property behind them. -/
def servings (value : Bytes) : List Bytes := pieces chunk value ++ [[]]

/-- The property after a number of deletions. -/
def served (incr : Property) (kind : Nat) (value : Bytes) : Nat → Property
  | 0 => incr
  | d + 1 => ⟨kind, 8, ((servings value)[d]?).getD []⟩

def Client.running (c : Client) (key : Key) : Option Transfer := c.transfer.filter fun t => t.key = key

structure Serving (incr : Property) (kind : Nat) (value : Bytes) (key : Key) (c : Client)
    (d : Nat) : Prop where
  window : key.1 ∈ c.windows
  property : c.properties.lookup key = some (served incr kind value d)
  transfer : d < (servings value).length ∧ (∃ offset ≤ value.length,
      c.running key = some ⟨key, kind, value, offset⟩ ∧
      servings (value.drop offset) = (servings value).drop d) ∨
    d = (servings value).length ∧ c.running key = none

section
variable {incr : Property} {kind d : Nat} {value : Bytes} {key : Key} {c c' : Client}

theorem servings_nil : servings [] = [[]] := rfl

theorem servings_cons {value : Bytes} (h : value ≠ []) :
    servings value = value.take chunk :: servings (value.drop chunk) := by
  unfold servings
  rw [pieces_cons (by decide) h, List.cons_append]

/-- The client's window, property and transfer are what they were. -/
structure Keeps (key : Key) (c c' : Client) : Prop where
  window : key.1 ∈ c.windows → key.1 ∈ c'.windows
  property : c'.properties.lookup key = c.properties.lookup key
  running : c'.running key = c.running key

theorem Serving.keeps (h : Serving incr kind value key c d) (hk : Keeps key c c') :
    Serving incr kind value key c' d where
  window := hk.window h.window
  property := hk.property.trans h.property
  transfer := by
    rw [hk.running]
    exact h.transfer

theorem Keeps.refl (key : Key) (c : Client) : Keeps key c c := ⟨id, rfl, rfl⟩

theorem Keeps.select (key : Key) (c : Client) (id : Nat) (mask : Option Nat) :
    Keeps key c (c.select id mask) := by
  cases mask with
  | none => exact .refl key c
  | some mask => exact ⟨fun h => h, rfl, rfl⟩

theorem Keeps.place {k : Key} (hk : k ≠ key) (p : Property) : Keeps key c (c.place k p) :=
  ⟨fun h => h, AList.lookup_insert_ne (Ne.symm hk), rfl⟩

theorem Keeps.delete {k : Key} (hk : k ≠ key) : Keeps key c (c.delete k).1 := by
  have herase : (c.properties.erase k).lookup key = c.properties.lookup key :=
    AList.lookup_erase_ne (Ne.symm hk)
  unfold Client.delete
  dsimp only
  split
  · next t ht =>
    split
    · next hkey =>
      have hother : t.key ≠ key := hkey ▸ hk
      refine ⟨fun h => h, ?_, ?_⟩
      · exact (AList.lookup_insert_ne (Ne.symm hk)).trans herase
      · unfold Client.running
        rw [ht, Option.filter_some_neg (by simp [hother])]
        dsimp only
        split
        · rfl
        · exact Option.filter_some_neg (by simp [hother])
    · exact ⟨fun h => h, herase, rfl⟩
  · exact ⟨fun h => h, herase, rfl⟩

theorem lookup_filter (entries : List (Sigma fun _ : Key => Property)) {p : Key → Bool} {k : Key}
    (hk : p k = true) : (entries.filter fun e => p e.1).dlookup k = entries.dlookup k := by
  induction entries with
  | nil => rfl
  | cons e entries ih =>
    rw [List.filter_cons]
    by_cases he : k = e.1
    · obtain ⟨a, v⟩ := e
      obtain rfl : k = a := he
      rw [if_pos hk]
      have hcons : ∀ l : List (Sigma fun _ : Key => Property),
          List.dlookup k (⟨k, v⟩ :: l) = some v := fun l => List.dlookup_cons_eq l k v
      exact (hcons _).trans (hcons _).symm
    · rw [List.dlookup_cons_ne _ e he]
      split
      · rw [List.dlookup_cons_ne _ e he, ih]
      · exact ih

theorem Keeps.forget {id : Nat} (hid : id ≠ key.1) : Keeps key c (c.forget id) where
  window h := Finset.mem_erase.mpr ⟨Ne.symm hid, h⟩
  property := by
    have hfilter := @lookup_filter c.properties.entries
      (fun k : Key => decide (k.1 ≠ id)) key (by simp [Ne.symm hid])
    unfold Client.forget
    rw [AList.lookup_to_alist]
    exact hfilter
  running := by
    unfold Client.running Client.forget
    dsimp only
    rw [Option.filter_filter]
    congr 1
    funext t
    by_cases hkey : t.key = key
    · simp [hkey, Ne.symm hid]
    · simp [hkey]

theorem Keeps.deliver {k : Key} (hk : k ≠ key) (hidle : c.transfer = none) (atoms : Atoms)
    (v : Property) : Keeps key c (c.deliver atoms k v).2 := by
  unfold Client.deliver
  split
  · refine ⟨fun h => h, AList.lookup_insert_ne (Ne.symm hk), ?_⟩
    unfold Client.running
    dsimp only
    rw [hidle]
    simp [hk]
  · exact .place hk v

theorem Keeps.selection {window selection target property time : Nat} {clipboard : Clipboard}
    {atoms : Atoms}
    (h : (window, if property = 0 then target else property) ≠ key ∨ c.transfer.isSome = true) :
    Keeps key c (c.selection atoms window selection target property time clipboard).2.1 := by
  unfold Client.selection
  dsimp only
  split
  · exact .refl key c
  · split
    · exact .refl key c
    · next value =>
      split
      · exact .refl key c
      · next hbusy =>
        simp only [Client.busy, Bool.or_eq_true, not_or] at hbusy
        have hkey := h.resolve_right hbusy.1
        have hidle : c.transfer = none := by simpa using hbusy.1
        exact .deliver hkey hidle _ _

/-- The next chunk takes the place of the one that is deleted. -/
theorem Serving.delete (h : Serving incr kind value key c d) (hd : d < (servings value).length) :
    Serving incr kind value key (c.delete key).1 (d + 1) := by
  obtain ⟨-, offset, hle, hrun, hrest⟩ := h.transfer.resolve_right fun hend =>
    Nat.ne_of_lt hd hend.1
  obtain ⟨htransfer, -⟩ := Option.filter_eq_some_iff.mp hrun
  have hitem : (servings value)[d]? = (servings (value.drop offset)).head? := by
    rw [hrest, List.head?_drop]
  have hstop : (value.drop offset).take (min (offset + chunk) value.length - offset) =
      (value.drop offset).take chunk := by
    rw [List.take_eq_take_iff, List.length_drop]
    omega
  have hdelete : (c.delete key).1 = { c.place key ⟨kind, 8,
      (value.drop offset).take chunk⟩ with
        properties := (c.properties.erase key).insert key
          ⟨kind, 8, (value.drop offset).take chunk⟩
        transfer := if offset = value.length then none
          else some ⟨key, kind, value, min (offset + chunk) value.length⟩ } := by
    unfold Client.delete
    rw [htransfer]
    simp only [if_pos, hstop]
    rfl
  rw [hdelete]
  refine ⟨h.window, ?_, ?_⟩
  · refine (AList.lookup_insert _).trans ?_
    rw [served, hitem]
    by_cases hend : value.drop offset = []
    · rw [hend]
      rfl
    · rw [servings_cons hend]
      rfl
  · by_cases hend : offset = value.length
    · -- The last property is there, and the transfer is over.
      have hnil : value.drop offset = [] := List.drop_of_length_le (Nat.le_of_eq hend.symm)
      rw [hnil, servings_nil] at hrest
      have hlen := congrArg List.length hrest
      rw [List.length_drop, List.length_singleton] at hlen
      refine .inr ⟨by omega, ?_⟩
      unfold Client.running
      rw [if_pos hend]
      rfl
    · have hne : value.drop offset ≠ [] := by
        intro hnil
        have := List.drop_eq_nil_iff.mp hnil
        omega
      rw [servings_cons hne, List.drop_drop] at hrest
      have htail := congrArg List.tail hrest
      rw [List.tail_cons, List.tail_drop] at htail
      have hmin : value.drop (min (offset + chunk) value.length) = value.drop (offset + chunk) := by
        by_cases hlong : offset + chunk ≤ value.length
        · rw [Nat.min_eq_left hlong]
        · rw [Nat.min_eq_right (by omega), List.drop_length, List.drop_of_length_le (by omega)]
      have hlen := congrArg List.length htail
      have hpos : 0 < (servings (value.drop (offset + chunk))).length := by
        unfold servings
        rw [List.length_append, List.length_singleton]
        omega
      rw [List.length_drop] at hlen
      refine .inl ⟨by omega, min (offset + chunk) value.length, Nat.min_le_right _ _, ?_, ?_⟩
      · unfold Client.running
        rw [if_neg hend]
        exact Option.filter_some_pos (by simp)
      · rw [hmin]
        exact htail

/-! ## One request -/

theorem Keeps.request {atoms : Atoms} {q : Request} (hleaves : q.Leaves key c)
    (hdel : q.deletes c key = false) (h : (c.request atoms q).2.1 = some c') : Keeps key c c' := by
  have hrefl : ∀ {x : Client}, some c = some x → Keeps key c x := fun heq =>
    Option.some.inj heq ▸ .refl key c
  cases q with
  | createWindow id mask =>
    unfold Client.request at h
    dsimp only at h
    split at h
    · exact hrefl h
    · split at h
      · cases h
      · obtain rfl := Option.some.inj h
        have hselect := Keeps.select key { c with windows := insert id c.windows } id mask
        exact ⟨fun hw => hselect.window (Finset.mem_insert_of_mem hw), hselect.property,
          hselect.running⟩
  | changeAttributes id mask =>
    unfold Client.request at h
    dsimp only at h
    split at h
    · exact hrefl h
    · obtain rfl := Option.some.inj h
      exact .select key c id mask
  | destroyWindow id =>
    unfold Client.request at h
    dsimp only at h
    split at h
    · exact hrefl h
    · obtain rfl := Option.some.inj h
      exact .forget hleaves
  | changeProperty k p =>
    unfold Client.request at h
    dsimp only at h
    split at h
    · exact hrefl h
    · split at h
      · exact hrefl h
      · obtain rfl := Option.some.inj h
        exact .place hleaves p
  | deleteProperty k =>
    have hk : k ≠ key := by simpa [Request.deletes] using hdel
    obtain rfl := Option.some.inj h
    exact .delete hk
  | getProperty k kind offset length delete =>
    unfold Client.request at h
    dsimp only at h
    split at h
    · next hdeletes =>
      have hk : k ≠ key := by
        rintro rfl
        simp [Request.deletes, hdeletes] at hdel
      obtain rfl := Option.some.inj h
      exact .delete hk
    · exact hrefl h
  | convertSelection window selection target property time clipboard =>
    obtain rfl := Option.some.inj h
    exact .selection hleaves
  | getAtomName id =>
    unfold Client.request at h
    dsimp only at h
    split at h
    · exact hrefl h
    · exact hrefl h
  | createGC id drawable =>
    unfold Client.request at h
    dsimp only at h
    split at h
    · exact hrefl h
    split at h
    · exact hrefl h
    split at h
    · exact hrefl h
    · obtain rfl := Option.some.inj h
      exact ⟨fun hw => hw, rfl, rfl⟩
  | freeGC id =>
    unfold Client.request at h
    dsimp only at h
    split at h
    · exact hrefl h
    · obtain rfl := Option.some.inj h
      exact ⟨fun hw => hw, rfl, rfl⟩
  | _ => exact hrefl h

theorem delete_of_deletes {atoms : Atoms} {q : Request} (hdel : q.deletes c key = true)
    (h : (c.request atoms q).2.1 = some c') : c' = (c.delete key).1 := by
  cases q with
  | deleteProperty k =>
    obtain rfl : k = key := by simpa [Request.deletes] using hdel
    exact (Option.some.inj h).symm
  | getProperty k kind offset length delete =>
    simp only [Request.deletes, Bool.and_eq_true, decide_eq_true_eq] at hdel
    obtain ⟨rfl, hdel⟩ := hdel
    unfold Client.request at h
    dsimp only at h
    rw [if_pos hdel] at h
    exact (Option.some.inj h).symm
  | _ => cases hdel

/-! ## Reading -/

/-- What a requestor that reads every chunk to its end has put together. -/
def Together (value : Bytes) (r : Reader) : Prop :=
  match r.deletes with
  | 0 => r.got = []
  | d + 1 => ∀ piece, (servings value)[d]? = some piece → r.here ≤ piece.length ∧
      r.got = ((servings value).take d).flatten ++ piece.take r.here

/-- A part of a property is what stands there. -/
theorem reads_slice {p : Property} {q : Request} (hp : c.properties.lookup key = some p)
    {start : Nat} {bytes : Bytes} (h : q.reads c key = some (start, bytes)) :
    start + bytes.length ≤ p.bytes.length ∧
        bytes = (p.bytes.drop start).take bytes.length ∨ bytes = [] := by
  cases q with
  | getProperty k kind offset length delete =>
    unfold Request.reads at h
    dsimp only at h
    split at h
    · next hanswer =>
      split at h
      · next hk =>
        subst hk
        obtain ⟨rfl, rfl⟩ := Prod.mk.inj (Option.some.inj h)
        unfold Client.getProperty at hanswer
        split at hanswer
        · cases hanswer
        · rw [hp] at hanswer
          dsimp only at hanswer
          split at hanswer
          · injection hanswer with _ _ _ hbytes
            exact .inr hbytes.symm
          · split at hanswer
            · cases hanswer
            · injection hanswer with _ _ _ hbytes
              rw [← hbytes]
              left
              rw [List.length_take, List.length_drop]
              refine ⟨by omega, ?_⟩
              rw [List.take_eq_take_iff, List.length_drop]
              omega
      · cases h
    · cases h
  | _ => cases h

theorem Together.read {r : Reader} (h : Together value r) {p : Property}
    (hp : c.properties.lookup key = some p)
    (hserved : p = served incr kind value r.deletes) (q : Request) :
    Together value (r.read (q.reads c key)) := by
  cases hread : q.reads c key with
  | none => exact h
  | some part =>
    obtain ⟨start, bytes⟩ := part
    unfold Reader.read
    dsimp only
    split
    · next hstart =>
      unfold Together at h ⊢
      cases hd : r.deletes with
      | zero =>
        rw [hd] at h
        exact h
      | succ d =>
        rw [hd] at h hserved
        intro piece hpiece
        obtain ⟨hle, hgot⟩ := h piece hpiece
        have hbytes : p.bytes = piece := by
          rw [hserved, served, hpiece]
          rfl
        rw [if_neg (Nat.succ_ne_zero d), hgot]
        rcases reads_slice hp hread with ⟨hwithin, hslice⟩ | hnil
        · rw [hbytes, hstart] at hwithin hslice
          refine ⟨hwithin, ?_⟩
          rw [List.append_assoc, List.take_add, ← hslice]
        · rw [hnil, List.length_nil, Nat.add_zero, List.append_nil]
          exact ⟨hle, rfl⟩
    · exact h

theorem read_deletes (r : Reader) (part : Option (Nat × Bytes)) :
    (r.read part).deletes = r.deletes := by
  unfold Reader.read
  split
  · split <;> rfl
  · rfl

/-- A chunk that was read to its end is followed by the next. -/
theorem Together.delete {r : Reader} (h : Together value r)
    (hend : ∀ d, r.deletes = d + 1 → ∀ piece, (servings value)[d]? = some piece →
      r.here = piece.length) : Together value ⟨r.deletes + 1, 0, r.got⟩ := by
  intro piece hpiece
  refine ⟨Nat.zero_le _, ?_⟩
  dsimp only
  rw [List.take_zero, List.append_nil]
  unfold Together at h
  cases hd : r.deletes with
  | zero =>
    rw [hd] at h
    exact h
  | succ d =>
    rw [hd] at h hpiece
    have hlt : d < (servings value).length := by
      have := (List.getElem?_eq_some_iff.mp hpiece).1
      omega
    have hlast := List.getElem?_eq_getElem hlt
    obtain ⟨-, hgot⟩ := h _ hlast
    rw [hgot, hend d hd _ hlast, List.take_length, List.take_add_one, hlast, List.flatten_append]
    simp

/-! ## Runs -/

section
variable {i : Nat} {w w' : Watched} {e : Event}

/-- A step leaves the client alone, or is its request. -/
theorem watch_cases (hconforming : Conforming i key w e) (hi : i < w.server.clients.length)
    (h : watch i key w e = some w') : i < w'.server.clients.length ∧
      ((w'.server.clients[i]? = w.server.clients[i]? ∧ w'.reader = w.reader) ∨
        ∃ q c, e = .request i q ∧ w.server.clients[i]? = some (some c) ∧
          w'.server.clients[i]? = some ((c.request w.server.atoms q).2.1) ∧
          w'.reader = w.reader.after c key q) := by
  obtain ⟨s, hs, rfl⟩ := Option.map_eq_some_iff.mp h
  cases e with
  | connect little base =>
    obtain rfl := Option.some.inj hs
    refine ⟨?_, .inl ⟨List.getElem?_append_left hi, rfl⟩⟩
    dsimp only
    rw [List.length_append]
    omega
  | close j =>
    obtain rfl := Option.some.inj hs
    exact ⟨by simpa using hi, .inl ⟨List.getElem?_set_ne hconforming, rfl⟩⟩
  | request j q =>
    simp only [step] at hs
    split at hs
    · next c hc =>
      obtain rfl := Option.some.inj hs
      refine ⟨by simpa using hi, ?_⟩
      by_cases hj : j = i
      · subst hj
        refine .inr ⟨q, c, rfl, hc, ?_, ?_⟩
        · exact List.getElem?_set_self hi
        · simp only [Reader.follow, hc, if_pos]
      · refine .inl ⟨List.getElem?_set_ne hj, ?_⟩
        simp only [Reader.follow, hc, if_neg hj]
    · cases hs

theorem after_deletes (r : Reader) (c : Client) (key : Key) (q : Request) :
    (r.after c key q).deletes = if q.deletes c key then r.deletes + 1 else r.deletes := by
  unfold Reader.after
  split <;> simp [read_deletes]

/-- What stands in the property goes with how often it was deleted. -/
def Watching (incr : Property) (kind : Nat) (value : Bytes) (i : Nat) (key : Key) (w : Watched) :
    Prop :=
  i < w.server.clients.length ∧ ∀ c, w.server.clients[i]? = some (some c) →
    w.reader.deletes ≤ (servings value).length → Serving incr kind value key c w.reader.deletes

theorem Watching.step (h : Watching incr kind value i key w) (hconforming : Conforming i key w e)
    (hstep : watch i key w e = some w') : Watching incr kind value i key w' := by
  obtain ⟨hi', ⟨hclient, hreader⟩ | ⟨q, c, rfl, hc, hc', hreader⟩⟩ :=
    watch_cases hconforming h.1 hstep
  · refine ⟨hi', ?_⟩
    rw [hclient, hreader]
    exact h.2
  · refine ⟨hi', fun c' heq hle => ?_⟩
    have hrequest : (c.request w.server.atoms q).2.1 = some c' :=
      Option.some.inj (hc'.symm.trans heq)
    rw [hreader, after_deletes] at hle ⊢
    cases hdel : q.deletes c key with
    | true =>
      rw [hdel, if_pos rfl] at hle
      rw [if_pos rfl, delete_of_deletes hdel hrequest]
      exact (h.2 c hc (Nat.le_of_succ_le hle)).delete hle
    | false =>
      rw [hdel, if_neg Bool.false_ne_true] at hle
      rw [if_neg Bool.false_ne_true]
      exact (h.2 c hc hle).keeps (.request (hconforming rfl c hc) hdel hrequest)

/-- What was read is what was sent so far. -/
def Joined (incr : Property) (kind : Nat) (value : Bytes) (i : Nat) (key : Key) (w : Watched) :
    Prop :=
  Watching incr kind value i key w ∧
    ((∃ c, w.server.clients[i]? = some (some c)) → w.reader.deletes ≤ (servings value).length →
      Together value w.reader)

theorem Joined.step (h : Joined incr kind value i key w)
    (hok : Conforming i key w e ∧ Careful i key w e) (hstep : watch i key w e = some w') :
    Joined incr kind value i key w' := by
  refine ⟨h.1.step hok.1 hstep, ?_⟩
  obtain ⟨-, ⟨hclient, hreader⟩ | ⟨q, c, rfl, hc, -, hreader⟩⟩ :=
    watch_cases hok.1 h.1.1 hstep
  · rw [hclient, hreader]
    exact h.2
  · rintro - hle
    rw [hreader, after_deletes] at hle
    rw [hreader]
    have hle₀ : w.reader.deletes ≤ (servings value).length := by
      split at hle
      · exact Nat.le_of_succ_le hle
      · exact hle
    have hserving := h.1.2 c hc hle₀
    have hread := (h.2 ⟨c, hc⟩ hle₀).read hserving.property rfl q
    unfold Reader.after
    dsimp only
    cases hdel : q.deletes c key with
    | false => exact hread
    | true =>
      refine hread.delete fun d hd piece hpiece => ?_
      rw [read_deletes] at hd
      have hend := hok.2 q c _ rfl hc hdel (by omega) hserving.property
      rw [hend, hd, served, hpiece]
      rfl

end

end

/-! ## The transfer -/

/-- **Refused.** A selection is not converted while a transfer runs or there are too many
    properties: the client stays as it is, and the requestor is told that there is none. -/
theorem refused {c : Client} {atoms : Atoms} {window selection target property time : Nat}
    {clipboard : Clipboard} (hw : window ∈ c.windows) (hbusy : c.busy = true) :
    (c.request atoms (.convertSelection window selection target property time clipboard)).2 =
      (some c, [.selectionNotify time window selection target 0]) := by
  have hselection : (c.selection atoms window selection target property time clipboard).2 =
      (c, [.selectionNotify time window selection target 0]) := by
    unfold Client.selection
    dsimp only
    rw [if_neg (not_not.mpr hw)]
    split
    · rfl
    · rw [if_pos hbusy]
  exact congrArg (fun p : Client × List Packet => (some p.1, p.2)) hselection

theorem started {c c' : Client} {atoms : Atoms} {key : Key} {value : Property}
    (hw : key.1 ∈ c.windows) (hlong : value.bytes.length > chunk)
    (h : (c.deliver atoms key value).2 = c') :
    Serving ⟨(atoms.intern "INCR" false).2, 32, c.words [value.bytes.length]⟩ value.kind
      value.bytes key c' 0 := by
  subst h
  unfold Client.deliver
  rw [if_pos hlong]
  refine ⟨hw, AList.lookup_insert _, .inl ⟨?_, 0, Nat.zero_le _, ?_, rfl⟩⟩
  · unfold servings
    rw [List.length_append, List.length_singleton]
    omega
  · exact Option.filter_some_pos (by simp)

end Porthop.X11
