import Porthop.Clipboard.Sending

/- What holds of the store.

   An entry without a result has what the replies taken for its request decode to, and none of
   them was the last; a complete one has what its whole stream decodes to. Nothing was sent for
   a request that is not yet sent. The entries together hold no more than the limit. -/
namespace Porthop.Clipboard

namespace Store
variable {p : Entry → Bool} {f : Entry → Entry}

theorem modifyFirst_eq_map {es : List Entry}
    (h : es.Pairwise fun a b => p a = true → p b = false) :
    modifyFirst p f es = es.map fun e => if p e then f e else e := by
  induction es with
  | nil => rfl
  | cons e es ih =>
    obtain ⟨hhead, htail⟩ := List.pairwise_cons.mp h
    rw [modifyFirst, List.map_cons]
    by_cases hp : p e = true
    · rw [if_pos hp, if_pos hp]
      congr 1
      symm
      calc es.map (fun e => if p e then f e else e) = es.map id := by
            apply List.map_congr_left
            intro x hx
            rw [hhead x hx hp]
            rfl
        _ = es := List.map_id es
    · rw [if_neg hp, if_neg hp, ih htail]

theorem held_modifyFirst_le {n : Nat} (h : ∀ e, p e = true → (f e).held ≤ e.held + n)
    (es : List Entry) : held (modifyFirst p f es) ≤ held es + n := by
  unfold held
  induction es with
  | nil => simp [modifyFirst]
  | cons e es ih =>
    rw [modifyFirst]
    split
    · next hp =>
      have hle := h e hp
      simp only [List.map_cons, List.sum_cons]
      omega
    · simp only [List.map_cons, List.sum_cons]
      omega

theorem held_filter_le (q : Entry → Bool) (es : List Entry) : held (es.filter q) ≤ held es := by
  unfold held
  induction es with
  | nil => simp
  | cons e es ih =>
    rw [List.filter_cons]
    split
    · simp only [List.map_cons, List.sum_cons]
      omega
    · simp only [List.map_cons, List.sum_cons]
      omega

theorem held_map_le (h : ∀ e, (f e).held ≤ e.held) (es : List Entry) :
    held (es.map f) ≤ held es := by
  unfold held
  induction es with
  | nil => simp
  | cons e es ih =>
    have hle := h e
    simp only [List.map_cons, List.sum_cons]
    omega

end Store

section
variable {Z : Zlib} {store : Store} {issued requests reading : List Request} {jobs : List Job}
  {values : List (Request × Bytes)} {log taken : List Reply}

structure Storing (Z : Zlib) (store : Store) (issued atSender : List Request)
    (log taken : List Reply) : Prop where
  formats_nodup : (store.entries.map fun e => e.request.format).Nodup
  ids_nodup : (store.entries.map fun e => e.request.id).Nodup
  issued : ∀ e ∈ store.entries, e.request ∈ issued
  current : ∀ e ∈ store.entries, e.request.revision = store.offer.revision
  unsent : ∀ e ∈ store.entries, Store.wanted e = true →
    (∀ q ∈ atSender, q.id ≠ e.request.id) ∧ streamOf log e.request.id = []
  filling : ∀ e ∈ store.entries, e.pending = true →
    decoded Z (payload (streamOf taken e.request.id)) = some e.bytes ∧
      ¬ Over (streamOf taken e.request.id)
  answered : ∀ e ∈ store.entries, ∀ v, e.answer = some v →
    Over (streamOf taken e.request.id) ∧ decoded Z (payload (streamOf log e.request.id)) = some v
  room : Store.held store.entries ≤ limit

variable {atSender : List Request}

/-- Entries are dropped, or lose their bytes. -/
theorem Storing.refine (h : Storing Z store issued atSender log taken) {store' : Store}
    (hoffer : store'.offer.revision = store.offer.revision)
    (hsub : (store'.entries.map Entry.request).Sublist (store.entries.map Entry.request))
    (hof : ∀ e' ∈ store'.entries, ∃ e ∈ store.entries, e.request = e'.request ∧
      (Store.wanted e' = true → Store.wanted e = true) ∧
      (e'.pending = true → e.pending = true ∧ e.bytes = e'.bytes) ∧
      ∀ v, e'.answer = some v → e.answer = some v)
    (hroom : Store.held store'.entries ≤ Store.held store.entries) :
    Storing Z store' issued atSender log taken where
  formats_nodup := by
    have hmap := (hsub.map Request.format).nodup (by
      rw [List.map_map]
      exact h.formats_nodup)
    rwa [List.map_map] at hmap
  ids_nodup := by
    have hmap := (hsub.map Request.id).nodup (by
      rw [List.map_map]
      exact h.ids_nodup)
    rwa [List.map_map] at hmap
  issued e' he' := by
    obtain ⟨e, he, hreq, -⟩ := hof e' he'
    rw [← hreq]
    exact h.issued e he
  current e' he' := by
    obtain ⟨e, he, hreq, -⟩ := hof e' he'
    rw [← hreq, hoffer]
    exact h.current e he
  unsent e' he' hwanted := by
    obtain ⟨e, he, hreq, hw, -⟩ := hof e' he'
    rw [← hreq]
    exact h.unsent e he (hw hwanted)
  filling e' he' hpending := by
    obtain ⟨e, he, hreq, -, hp, -⟩ := hof e' he'
    obtain ⟨hpe, hbytes⟩ := hp hpending
    rw [← hreq, ← hbytes]
    exact h.filling e he hpe
  answered e' he' v hv := by
    obtain ⟨e, he, hreq, -, -, ha⟩ := hof e' he'
    rw [← hreq]
    exact h.answered e he v (ha v hv)
  room := Nat.le_trans hroom h.room

theorem Storing.empty {store' : Store} (h : store'.entries = []) :
    Storing Z store' issued atSender log taken := by
  refine ⟨?_, ?_, ?_, ?_, ?_, ?_, ?_, ?_⟩ <;> rw [h]
  · exact List.nodup_nil
  · exact List.nodup_nil
  · exact nofun
  · exact nofun
  · exact nofun
  · exact nofun
  · exact nofun
  · exact Nat.zero_le _

/-- The sender has less to do, and it sends replies to requests it had. -/
theorem Storing.push (h : Storing Z store issued atSender log taken) {atSender' : List Request}
    {r : Reply} {q : Request} (hq : q ∈ atSender) (hid : r.id = q.id)
    (hsub : ∀ x ∈ atSender', x ∈ atSender)
    (hover : ∀ x ∈ taken, x.id = q.id → x.done = false) :
    Storing Z store issued atSender' (log ++ [r]) taken where
  formats_nodup := h.formats_nodup
  ids_nodup := h.ids_nodup
  issued := h.issued
  current := h.current
  unsent e he hwanted := by
    obtain ⟨hne, hstream⟩ := h.unsent e he hwanted
    refine ⟨fun x hx => hne x (hsub x hx), ?_⟩
    rw [streamOf_push_of_ne fun heq => hne q hq (hid.symm.trans heq)]
    exact hstream
  filling := h.filling
  answered e he v hv := by
    obtain ⟨hov, hdec⟩ := h.answered e he v hv
    refine ⟨hov, ?_⟩
    have hne : r.id ≠ e.request.id := by
      intro heq
      obtain ⟨x, hx, hxdone⟩ := hov
      obtain ⟨hxt, hxid⟩ := mem_streamOf.mp hx
      rw [hover x hxt (hxid.trans (heq.symm.trans hid))] at hxdone
      cases hxdone
    rw [streamOf_push_of_ne hne]
    exact hdec
  room := h.room

theorem Storing.work_sub (h : Storing Z store issued atSender log taken)
    {atSender' : List Request} (hsub : ∀ x ∈ atSender', x ∈ atSender) :
    Storing Z store issued atSender' log taken where
  formats_nodup := h.formats_nodup
  ids_nodup := h.ids_nodup
  issued := h.issued
  current := h.current
  unsent e he hwanted :=
    ⟨fun x hx => (h.unsent e he hwanted).1 x (hsub x hx), (h.unsent e he hwanted).2⟩
  filling := h.filling
  answered := h.answered
  room := h.room

/-! ## A new request -/

theorem Storing.ask (h : Storing Z store issued atSender log taken) {revision : Int}
    {format : String} {now : Nat} (hrevision : store.offer.revision = revision)
    (hnone : store.find format = none)
    (hfresh : ∀ q ∈ issued, q.id ≤ store.next) (hsender : ∀ q ∈ atSender, q ∈ issued)
    (hlog : ∀ r ∈ log, ∃ q ∈ issued, q.id = r.id) (htaken : ∀ r ∈ taken, r ∈ log) :
    Storing Z (store.ask revision format now) (issued ++ [⟨store.next + 1, revision, format⟩])
      atSender log taken := by
  have hstream : streamOf log (store.next + 1) = [] := by
    apply List.filter_eq_nil_iff.mpr
    intro r hr
    obtain ⟨q, hq, hid⟩ := hlog r hr
    have hle := hfresh q hq
    simp only [decide_eq_true_eq]
    omega
  have hstream' : streamOf taken (store.next + 1) = [] := by
    apply List.filter_eq_nil_iff.mpr
    intro r hr
    exact List.filter_eq_nil_iff.mp hstream r (htaken r hr)
  have hmem : ∀ e ∈ (store.ask revision format now).entries, e ∈ store.entries ∨
      e = ⟨⟨store.next + 1, revision, format⟩, false, now, [], none⟩ := by
    intro e he
    rcases List.mem_append.mp he with he | he
    · exact .inl he
    · exact .inr (List.mem_singleton.mp he)
  refine ⟨?_, ?_, ?_, ?_, ?_, ?_, ?_, ?_⟩
  · show ((store.entries ++ [_]).map _).Nodup
    rw [List.map_append]
    refine List.nodup_append.mpr ⟨h.formats_nodup, List.nodup_singleton _, ?_⟩
    intro a ha b hb heq
    obtain ⟨e, he, rfl⟩ := List.mem_map.mp ha
    rw [List.mem_singleton.mp hb] at heq
    exact absurd heq (by simpa using List.find?_eq_none.mp hnone e he)
  · show ((store.entries ++ [_]).map _).Nodup
    rw [List.map_append]
    refine List.nodup_append.mpr ⟨h.ids_nodup, List.nodup_singleton _, ?_⟩
    intro a ha b hb heq
    obtain ⟨e, he, rfl⟩ := List.mem_map.mp ha
    rw [List.mem_singleton.mp hb] at heq
    have hle := hfresh _ (h.issued e he)
    simp only at heq
    omega
  · intro e he
    rcases hmem e he with he | rfl
    · exact List.mem_append_left _ (h.issued e he)
    · exact List.mem_append_right _ List.mem_cons_self
  · intro e he
    rcases hmem e he with he | rfl
    · exact h.current e he
    · exact hrevision.symm
  · intro e he hwanted
    rcases hmem e he with he | rfl
    · exact h.unsent e he hwanted
    · refine ⟨fun q hq heq => ?_, hstream⟩
      have hle := hfresh q (hsender q hq)
      simp only at heq
      omega
  · intro e he hpending
    rcases hmem e he with he | rfl
    · exact h.filling e he hpending
    · rw [hstream']
      refine ⟨rfl, ?_⟩
      rintro ⟨x, hx, -⟩
      cases hx
  · intro e he v hv
    rcases hmem e he with he | rfl
    · exact h.answered e he v hv
    · cases hv
  · have hheld : Store.held (store.ask revision format now).entries =
        Store.held store.entries := by
      simp [Store.ask, Store.held, Entry.held, Entry.answer]
    rw [hheld]
    exact h.room

/-! ## Polling -/

theorem age_cases (now : Nat) (e : Entry) :
    (Store.age now e).request = e.request ∧ (Store.age now e).sent = e.sent ∧
      (Store.age now e = e ∨ (Store.age now e).pending = false ∧ (Store.age now e).answer = none ∧
        (Store.age now e).held = 0 ∧ Store.late now e = true) := by
  unfold Store.age
  split
  · next hlate => exact ⟨rfl, rfl, .inr ⟨rfl, rfl, rfl, hlate⟩⟩
  · exact ⟨rfl, rfl, .inl rfl⟩

theorem markSent_fields (e : Entry) : (Store.markSent e).request = e.request ∧
    (Store.markSent e).pending = e.pending ∧ (Store.markSent e).bytes = e.bytes ∧
    (Store.markSent e).answer = e.answer ∧ Store.wanted (Store.markSent e) = false := by
  unfold Store.markSent
  split
  · exact ⟨rfl, rfl, rfl, rfl, rfl⟩
  · next h => exact ⟨rfl, rfl, rfl, rfl, by simpa using h⟩

theorem polled_of_mem {now : Nat} {e' : Entry} (h : e' ∈ (store.poll now).1.entries) :
    ∃ e ∈ store.entries, e' = Store.markSent (Store.age now e) := by
  obtain ⟨a, ha, rfl⟩ := List.mem_map.mp h
  obtain ⟨e, he, rfl⟩ := List.mem_map.mp ha
  exact ⟨e, (List.mem_filter.mp he).1, rfl⟩

theorem Storing.poll (h : Storing Z store issued atSender log taken) (now : Nat) :
    Storing Z (store.poll now).1 issued (atSender ++ (store.poll now).2.1) log taken := by
  have hrequests : (store.poll now).1.entries.map Entry.request =
      (store.entries.filter fun e => !Store.forgotten now e).map Entry.request := by
    unfold Store.poll
    rw [List.map_map, List.map_map]
    apply List.map_congr_left
    intro e _
    simp only [Function.comp_apply, (markSent_fields _).1, (age_cases now e).1]
  have hstored : Storing Z (store.poll now).1 issued atSender log taken := by
    refine h.refine rfl ?_ ?_ ?_
    · rw [hrequests]
      exact List.filter_sublist.map _
    · intro e' he'
      obtain ⟨e, he, rfl⟩ := polled_of_mem he'
      obtain ⟨hreq, hpend, hbytes, hans, hwant⟩ := markSent_fields (Store.age now e)
      obtain ⟨hreq', -, hage⟩ := age_cases now e
      refine ⟨e, he, (hreq.trans hreq').symm, ?_, ?_, ?_⟩
      · rw [hwant]
        exact nofun
      · rw [hpend, hbytes]
        rcases hage with heq | ⟨hnot, -⟩
        · rw [heq]
          exact fun hp => ⟨hp, rfl⟩
        · rw [hnot]
          exact nofun
      · rw [hans]
        rcases hage with heq | ⟨-, hnone, -⟩
        · rw [heq]
          exact fun v hv => hv
        · rw [hnone]
          exact nofun
    · have hage : ∀ e, (Store.age now e).held ≤ e.held := by
        intro e
        rcases (age_cases now e).2.2 with heq | ⟨-, -, hzero, -⟩
        · exact Nat.le_of_eq (congrArg Entry.held heq)
        · rw [hzero]
          exact Nat.zero_le _
      have hmark : ∀ e, (Store.markSent e).held ≤ e.held := by
        intro e
        obtain ⟨-, -, hbytes, hans, -⟩ := markSent_fields e
        exact Nat.le_of_eq (by rw [Entry.held, Entry.held, hbytes, hans])
      exact Nat.le_trans (Store.held_map_le hmark _)
        (Nat.le_trans (Store.held_map_le hage _) (Store.held_filter_le _ _))
  -- No entry is wanted any more, so what is now at the sender does not matter.
  refine ⟨hstored.formats_nodup, hstored.ids_nodup, hstored.issued, hstored.current, ?_,
    hstored.filling, hstored.answered, hstored.room⟩
  intro e' he' hwanted
  obtain ⟨e, -, rfl⟩ := polled_of_mem he'
  rw [(markSent_fields _).2.2.2.2] at hwanted
  cases hwanted

/-- What a poll sends: requests nothing was sent for. -/
theorem Storing.polled (h : Storing Z store issued atSender log taken) (now : Nat) :
    (((store.poll now).2.1).map Request.id).Nodup ∧
      ∀ q ∈ (store.poll now).2.1, q ∈ issued ∧ (∀ x ∈ atSender, x.id ≠ q.id) ∧
        streamOf log q.id = [] := by
  have hrequests : (((store.entries.filter fun e => !Store.forgotten now e).map
      (Store.age now)).map Entry.request).Sublist (store.entries.map Entry.request) := by
    rw [List.map_map]
    have heq : (store.entries.filter fun e => !Store.forgotten now e).map
        (Entry.request ∘ Store.age now) =
        (store.entries.filter fun e => !Store.forgotten now e).map Entry.request :=
      List.map_congr_left fun e _ => (age_cases now e).1
    rw [heq]
    exact List.filter_sublist.map _
  constructor
  · have hsub : (store.poll now).2.1.Sublist (store.entries.map Entry.request) :=
      List.Sublist.trans (List.filter_sublist.map Entry.request) hrequests
    apply (hsub.map Request.id).nodup
    rw [List.map_map]
    exact h.ids_nodup
  · intro q hq
    obtain ⟨a, ha, rfl⟩ := List.mem_map.mp hq
    obtain ⟨hmem, hwanted⟩ := List.mem_filter.mp ha
    obtain ⟨e, he, rfl⟩ := List.mem_map.mp hmem
    have he := (List.mem_filter.mp he).1
    obtain ⟨hreq, hsent, hage⟩ := age_cases now e
    have hwant : Store.wanted e = true := by
      rcases hage with heq | ⟨hnot, -⟩
      · rwa [heq] at hwanted
      · rw [Store.wanted, hnot, Bool.and_false] at hwanted
        cases hwanted
    rw [hreq]
    exact ⟨h.issued e he, h.unsent e he hwant⟩

/-! ## A reply -/

theorem awaits_iff {id : Nat} {e : Entry} :
    Store.awaits id e = true ↔ e.request.id = id ∧ e.pending = true := by
  rw [Store.awaits, Bool.and_eq_true, decide_eq_true_iff]

theorem streamOf_taken {r : Reply} {id : Nat} :
    streamOf (taken ++ [r]) id = streamOf taken id ++ streamOf [r] id := streamOf_append _ _ _

theorem Over.append {stream more : List Reply} (h : Over stream) : Over (stream ++ more) := by
  obtain ⟨x, hx, hdone⟩ := h
  exact ⟨x, List.mem_append_left _ hx, hdone⟩

/-- A reply that no entry awaits. -/
theorem Storing.skip (h : Storing Z store issued atSender log taken) {r : Reply}
    (hnone : ∀ e ∈ store.entries, Store.awaits r.id e = false) :
    Storing Z store issued atSender log (taken ++ [r]) where
  formats_nodup := h.formats_nodup
  ids_nodup := h.ids_nodup
  issued := h.issued
  current := h.current
  unsent := h.unsent
  filling e he hpending := by
    have hne : r.id ≠ e.request.id := by
      intro heq
      have hawaits := awaits_iff.mpr ⟨heq.symm, hpending⟩
      rw [hnone e he] at hawaits
      cases hawaits
    rw [streamOf_push_of_ne hne]
    exact h.filling e he hpending
  answered e he v hv := by
    obtain ⟨hover, hdec⟩ := h.answered e he v hv
    rw [streamOf_taken]
    exact ⟨hover.append, hdec⟩
  room := h.room

theorem pending_of_answer {e : Entry} {v : Bytes} (h : e.answer = some v) : e.pending = false := by
  unfold Entry.answer at h
  split at h
  · next hres =>
    rw [Entry.pending, hres]
    rfl
  · cases h

theorem answer_of_pending {e : Entry} (h : e.pending = true) : e.answer = none := by
  cases hv : e.answer with
  | none => rfl
  | some v =>
    rw [pending_of_answer hv] at h
    cases h

theorem Storing.awaits_pairwise (h : Storing Z store issued atSender log taken) (id : Nat) :
    store.entries.Pairwise fun a b => Store.awaits id a = true → Store.awaits id b = false := by
  have hids : store.entries.Pairwise fun a b => a.request.id ≠ b.request.id :=
    List.pairwise_map.mp h.ids_nodup
  refine hids.imp fun {a b} hne ha => ?_
  rw [← Bool.not_eq_true, awaits_iff]
  rintro ⟨hb, -⟩
  exact hne ((awaits_iff.mp ha).1.trans hb.symm)

/-- The first entry that awaits a reply, as a map. -/
theorem Storing.modify (h : Storing Z store issued atSender log taken) (id : Nat)
    (f : Entry → Entry) : Store.modifyFirst (Store.awaits id) f store.entries =
      store.entries.map fun e => if Store.awaits id e then f e else e :=
  Store.modifyFirst_eq_map (h.awaits_pairwise id)

theorem Storing.room_filter (h : Storing Z store issued atSender log taken) (size : Nat) :
    Storing Z { store with entries := Store.room store.entries size } issued atSender log
      taken := by
  have hsub : (Store.room store.entries size).Sublist store.entries := by
    unfold Store.room
    split
    · exact List.filter_sublist
    · exact List.Sublist.refl _
  refine h.refine rfl (hsub.map _) ?_ ?_
  · intro e he
    exact ⟨e, hsub.subset he, rfl, id, fun hp => ⟨hp, rfl⟩, fun v hv => hv⟩
  · show Store.held (Store.room store.entries size) ≤ _
    unfold Store.room
    split
    · exact Store.held_filter_le _ _
    · exact Nat.le_refl _

/-- The request of a reply fails. -/
theorem Storing.failed (h : Storing Z store issued atSender log taken) (r : Reply) (now : Nat) :
    Storing Z { store with
      entries := Store.modifyFirst (Store.awaits r.id) (Entry.fail now) store.entries }
      issued atSender log (taken ++ [r]) := by
  have hmap := h.modify r.id (Entry.fail now)
  apply Storing.skip
  · refine h.refine rfl ?_ ?_ ?_
    · show (List.map Entry.request (Store.modifyFirst _ _ _)).Sublist _
      have hsame : (Store.modifyFirst (Store.awaits r.id) (Entry.fail now) store.entries).map
          Entry.request = store.entries.map Entry.request := by
        rw [hmap, List.map_map]
        apply List.map_congr_left
        intro e _
        simp only [Function.comp_apply]
        split <;> rfl
      rw [hsame]
    · intro e' he'
      rw [hmap] at he'
      obtain ⟨e, he, rfl⟩ := List.mem_map.mp he'
      refine ⟨e, he, ?_⟩
      split
      · refine ⟨rfl, fun hw => ?_, nofun, nofun⟩
        simp [Store.wanted, Entry.fail, Entry.pending] at hw
      · exact ⟨rfl, id, fun hp => ⟨hp, rfl⟩, fun v hv => hv⟩
    · have hzero : ∀ e : Entry, (e.fail now).held = 0 := fun e => rfl
      have hle := Store.held_modifyFirst_le (p := Store.awaits r.id) (f := Entry.fail now) (n := 0)
        (fun e _ => by rw [hzero]; exact Nat.zero_le _) store.entries
      exact hle
  · intro e' he'
    rw [hmap] at he'
    obtain ⟨e, -, rfl⟩ := List.mem_map.mp he'
    split
    · rw [← Bool.not_eq_true, awaits_iff]
      rintro ⟨-, hp⟩
      cases hp
    · next hnot => simpa using hnot

/-- A chunk is taken; if it is the last, the stream was that of the whole reply. -/
theorem Storing.took (h : Storing Z store issued atSender log taken) {r : Reply}
    {rest : List Reply} (hlog : log = taken ++ r :: rest)
    (hlast : ∀ before x after, streamOf log r.id = before ++ x :: after → x.done = true →
      after = []) {bytes : Bytes} (hdec : decompressChunk Z r.status r.bytes = some bytes)
    (hroom : Store.held store.entries + bytes.length ≤ limit) :
    Storing Z { store with
      entries := Store.modifyFirst (Store.awaits r.id) (Store.take bytes r.done) store.entries }
      issued atSender log (taken ++ [r]) := by
  have hmap := h.modify r.id (Store.take bytes r.done)
  have hmem : ∀ e' ∈ Store.modifyFirst (Store.awaits r.id) (Store.take bytes r.done)
      store.entries, ∃ e ∈ store.entries,
      (e.request.id = r.id ∧ e.pending = true ∧ e' = Store.take bytes r.done e) ∨
      (Store.awaits r.id e = false ∧ e' = e) := by
    intro e' he'
    rw [hmap] at he'
    obtain ⟨e, he, rfl⟩ := List.mem_map.mp he'
    refine ⟨e, he, ?_⟩
    split
    · next haw =>
      obtain ⟨hid, hp⟩ := awaits_iff.mp haw
      exact .inl ⟨hid, hp, rfl⟩
    · next hnot => exact .inr ⟨by simpa using hnot, rfl⟩
  have hreq : ∀ e, (Store.take bytes r.done e).request = e.request := by
    intro e
    unfold Store.take
    split <;> rfl
  have hrequests : (Store.modifyFirst (Store.awaits r.id) (Store.take bytes r.done)
      store.entries).map Entry.request = store.entries.map Entry.request := by
    rw [hmap, List.map_map]
    apply List.map_congr_left
    intro e _
    simp only [Function.comp_apply]
    split
    · exact hreq e
    · rfl
  have hstream : ∀ e ∈ store.entries, e.request.id = r.id → e.pending = true →
      decoded Z (payload (streamOf (taken ++ [r]) e.request.id)) = some (e.bytes ++ bytes) := by
    intro e he hid hp
    rw [hid, streamOf_push_self, payload, List.map_append, decoded_append, ← hid]
    have hfill := (h.filling e he hp).1
    rw [payload] at hfill
    rw [hfill]
    show ((decoded Z [(r.status, r.bytes)]).map (e.bytes ++ ·)) = _
    rw [decoded_singleton, hdec]
    rfl
  refine ⟨?_, ?_, ?_, ?_, ?_, ?_, ?_, ?_⟩
  · show (List.map (fun e : Entry => e.request.format) (Store.modifyFirst _ _ _)).Nodup
    have heq := congrArg (List.map Request.format) hrequests
    rw [List.map_map, List.map_map] at heq
    exact heq ▸ h.formats_nodup
  · show (List.map (fun e : Entry => e.request.id) (Store.modifyFirst _ _ _)).Nodup
    have heq := congrArg (List.map Request.id) hrequests
    rw [List.map_map, List.map_map] at heq
    exact heq ▸ h.ids_nodup
  · intro e' he'
    obtain ⟨e, he, ⟨-, -, rfl⟩ | ⟨-, rfl⟩⟩ := hmem e' he'
    · rw [hreq]
      exact h.issued e he
    · exact h.issued e' he
  · intro e' he'
    obtain ⟨e, he, ⟨-, -, rfl⟩ | ⟨-, rfl⟩⟩ := hmem e' he'
    · rw [hreq]
      exact h.current e he
    · exact h.current e' he
  · intro e' he' hwanted
    obtain ⟨e, he, ⟨-, hp, rfl⟩ | ⟨-, rfl⟩⟩ := hmem e' he'
    · have hwant : Store.wanted e = true := by
        unfold Store.wanted Store.take at *
        split at hwanted
        · simp [Entry.pending] at hwanted
        · exact hwanted
      rw [hreq]
      exact h.unsent e he hwant
    · exact h.unsent e' he hwanted
  · intro e' he' hpending
    obtain ⟨e, he, ⟨hid, hp, rfl⟩ | ⟨hnot, rfl⟩⟩ := hmem e' he'
    · unfold Store.take at hpending ⊢
      split at hpending
      · cases hpending
      · next hdone =>
        rw [if_neg hdone]
        refine ⟨hstream e he hid hp, ?_⟩
        rintro ⟨x, hx, hxdone⟩
        rw [streamOf_taken] at hx
        rcases List.mem_append.mp hx with hx | hx
        · exact (h.filling e he hp).2 ⟨x, hx, hxdone⟩
        · obtain rfl := List.mem_singleton.mp (mem_streamOf.mp hx).1
          exact hdone hxdone
    · have hne : r.id ≠ e'.request.id := by
        intro heq
        rw [awaits_iff.mpr ⟨heq.symm, hpending⟩] at hnot
        cases hnot
      rw [streamOf_push_of_ne hne]
      exact h.filling e' he hpending
  · intro e' he' v hv
    obtain ⟨e, he, ⟨hid, hp, rfl⟩ | ⟨-, rfl⟩⟩ := hmem e' he'
    · unfold Store.take at hv ⊢
      split at hv
      · next hdone =>
        rw [if_pos hdone]
        obtain rfl := Option.some.inj hv
        refine ⟨⟨r, ?_, hdone⟩, ?_⟩
        · rw [streamOf_taken]
          exact List.mem_append_right _ (mem_streamOf.mpr ⟨List.mem_singleton_self r, hid.symm⟩)
        · -- Nothing follows the last reply of a stream.
          have hwhole : streamOf log e.request.id = streamOf (taken ++ [r]) e.request.id := by
            have hsplit : streamOf log r.id =
                streamOf taken r.id ++ r :: streamOf rest r.id := by
              rw [hlog, streamOf_append, streamOf_cons_self]
            rw [hid, hsplit, hlast _ _ _ hsplit hdone, streamOf_push_self]
          show decoded Z (payload (streamOf log e.request.id)) = _
          rw [hwhole]
          exact hstream e he hid hp
      · have hnone := answer_of_pending hp
        have hv : e.answer = some v := hv
        rw [hnone] at hv
        cases hv
    · obtain ⟨hover, hd⟩ := h.answered e' he v hv
      rw [streamOf_taken]
      exact ⟨hover.append, hd⟩
  · refine Nat.le_trans (Store.held_modifyFirst_le (n := bytes.length) ?_ _) hroom
    intro e haw
    have hnone := answer_of_pending (awaits_iff.mp haw).2
    unfold Store.take
    split
    · simp [Entry.held, Entry.answer]
    · have hans : Entry.answer { e with bytes := e.bytes ++ bytes } = none := hnone
      rw [Entry.held, Entry.held, hans, hnone]
      simp

/-- **A reply is taken.** -/
theorem Storing.reply (h : Storing Z store issued atSender log taken) {r : Reply}
    {rest : List Reply} (hlog : log = taken ++ r :: rest)
    (hlast : ∀ before x after, streamOf log r.id = before ++ x :: after → x.done = true →
      after = [])
    (hrevision : ∀ q ∈ issued, q.id = r.id → q.revision = r.revision) (now : Nat) :
    Storing Z (store.reply (decompressChunk Z) r now).1 issued atSender log (taken ++ [r]) := by
  unfold Store.reply
  split
  · next hne =>
    apply h.skip
    intro e he
    rw [← Bool.not_eq_true, awaits_iff]
    rintro ⟨hid, -⟩
    have hrev := hrevision _ (h.issued e he) hid
    exact hne (hrev.symm.trans (h.current e he))
  · split
    · have hroom := h.room_filter ((decompressChunk Z r.status r.bytes).getD []).length
      dsimp only
      split
      · exact hroom.failed r now
      · next hok =>
        cases hdec : decompressChunk Z r.status r.bytes with
        | none => simp [hdec] at hok
        | some bytes =>
          rw [hdec] at hroom hok
          apply hroom.took hlog hlast hdec
          simp only [Option.isNone_some, Bool.false_eq_true, false_or, Option.getD_some,
            gt_iff_lt, Nat.not_lt] at hok
          exact hok
    · next hnone =>
      apply h.skip
      intro e he
      have hall := List.any_eq_false.mp (by simpa using hnone) e he
      simpa using hall

end

end Porthop.Clipboard
