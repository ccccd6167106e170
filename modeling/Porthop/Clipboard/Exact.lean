import Mathlib.Data.List.Perm.Basic
import Porthop.Clipboard.Storing

/- What a reader gets is what the sender sent for its request.

   The invariant joins those of the sender and the store with two facts about readers: one
   that sleeps has a request without a result, for its format and the revision on offer; one
   that returned a value has a request whose replies decode to it. Every run keeps it. -/
namespace Porthop.Clipboard

section
variable {Z : Zlib} {s s' : Sys}

/-- A request of the reader's format and revision is without a result. -/
def Awaited (store : Store) (r : Reader) : Prop :=
  store.closed = false ∧ store.offer.revision = r.revision ∧ r.format ∈ store.offer.formats ∧
    ∃ e ∈ store.entries, e.request.format = r.format ∧ e.pending = true

/-- The value was read for a request of that revision and format, and the replies to the
    request, the last of which was sent, decode to it. -/
def Answered (Z : Zlib) (issued : List Request) (values : List (Request × Bytes))
    (log : List Reply) (r : Reader) (v : Bytes) : Prop :=
  ∃ q ∈ issued, q.revision = r.revision ∧ q.format = r.format ∧ (q, v) ∈ values ∧
    Over (streamOf log q.id) ∧ decoded Z (payload (streamOf log q.id)) = some v

structure Inv (Z : Zlib) (s : Sys) : Prop where
  sending : Sending Z s.issued s.store.next s.requests s.reading s.jobs s.values
    (s.taken ++ s.replies)
  storing : Storing Z s.store s.issued (work s.requests s.reading s.jobs) (s.taken ++ s.replies)
    s.taken
  asleep : ∀ r ∈ s.readers, r.phase = .asleep → Awaited s.store r
  returned : ∀ r ∈ s.readers, ∀ v, r.phase = .returned (.ok v) →
    Answered Z s.issued s.values (s.taken ++ s.replies) r v

theorem Inv.new (Z : Zlib) : Inv Z .new where
  sending := Sending.new Z
  storing := Storing.empty rfl
  asleep := nofun
  returned := nofun

/-! ## Readers -/

theorem wake_phase (r : Reader) : r.wake.phase ≠ .asleep ∧ r.wake.revision = r.revision ∧
    r.wake.format = r.format ∧ ∀ result, r.wake.phase = .returned result →
      r.phase = .returned result := by
  unfold Reader.wake
  split
  · exact ⟨nofun, rfl, rfl, nofun⟩
  · next h => exact ⟨fun heq => h heq, rfl, rfl, fun _ heq => heq⟩

theorem asleep_woken {readers : List Reader} {store : Store} :
    ∀ r ∈ readers.map Reader.wake, r.phase = .asleep → Awaited store r := by
  intro r hr hphase
  obtain ⟨r', -, rfl⟩ := List.mem_map.mp hr
  exact absurd hphase (wake_phase r').1

theorem returned_woken {issued : List Request} {values : List (Request × Bytes)}
    {log : List Reply} {readers : List Reader}
    (h : ∀ r ∈ readers, ∀ v, r.phase = .returned (.ok v) → Answered Z issued values log r v) :
    ∀ r ∈ readers.map Reader.wake, ∀ v, r.phase = .returned (.ok v) →
      Answered Z issued values log r v := by
  intro r hr v hphase
  obtain ⟨r', hr', rfl⟩ := List.mem_map.mp hr
  obtain ⟨-, hrev, hformat, hret⟩ := wake_phase r'
  have hans := h r' hr' v (hret _ hphase)
  unfold Answered at hans ⊢
  rw [hrev, hformat]
  exact hans

theorem returned_wakeIf {issued : List Request} {values : List (Request × Bytes)}
    {log : List Reply} {readers : List Reader} (woken : Bool)
    (h : ∀ r ∈ readers, ∀ v, r.phase = .returned (.ok v) → Answered Z issued values log r v) :
    ∀ r ∈ wakeIf woken readers, ∀ v, r.phase = .returned (.ok v) →
      Answered Z issued values log r v := by
  cases woken with
  | false => exact h
  | true => exact returned_woken h

theorem Answered.mono {issued issued' : List Request} {values values' : List (Request × Bytes)}
    {log : List Reply} {r : Reader} {v : Bytes} (h : Answered Z issued values log r v)
    (hissued : ∀ q ∈ issued, q ∈ issued') (hvalues : ∀ x ∈ values, x ∈ values') :
    Answered Z issued' values' log r v := by
  obtain ⟨q, hq, hrev, hformat, hv, hrest⟩ := h
  exact ⟨q, hissued q hq, hrev, hformat, hvalues _ hv, hrest⟩

/-- Replies to requests at the sender are not to ones that are over. -/
theorem Answered.push {issued requests reading : List Request} {next : Nat} {jobs : List Job}
    {values : List (Request × Bytes)} {log : List Reply} {r : Reader} {v : Bytes}
    (h : Answered Z issued values log r v)
    (hs : Sending Z issued next requests reading jobs values log) {q : Request}
    (hq : q ∈ work requests reading jobs) {x : Reply} (hid : x.id = q.id) :
    Answered Z issued values (log ++ [x]) r v := by
  obtain ⟨q', hq', hrev, hformat, hv, hover, hdec⟩ := h
  have hne : x.id ≠ q'.id := by
    intro heq
    obtain ⟨y, hy, hdone⟩ := hover
    rw [← heq, hid] at hy
    rw [hs.not_over hq y hy] at hdone
    cases hdone
  refine ⟨q', hq', hrev, hformat, hv, ?_⟩
  rw [streamOf_push_of_ne hne]
  exact ⟨hover, hdec⟩

/-! ## A turn of a reader -/

/-- What one turn of `get` does. -/
inductive Turn (store : Store) (revision : Int) (format : String) (now : Nat) :
    Store → Option (Except String Bytes) → Prop
  | refused (e : String) : Turn store revision format now store (some (.error e))
  | answered {e : Entry} {v : Bytes} (he : e ∈ store.entries) (hf : e.request.format = format)
      (hr : store.offer.revision = revision) (hv : e.answer = some v) :
      Turn store revision format now store (some (.ok v))
  | waits (h : Awaited store ⟨revision, format, .asleep⟩) : Turn store revision format now store none
  | asked (hc : store.closed = false) (hr : store.offer.revision = revision)
      (hf : format ∈ store.offer.formats) (hnone : store.find format = none)
      {result : Option (Except String Bytes)} (hres : ∀ v, result ≠ some (.ok v)) :
      Turn store revision format now (store.ask revision format now) result

theorem get_turn (store : Store) (revision : Int) (format : String) (now : Nat)
    (expired : Bool) : Turn store revision format now
      (store.get revision format now expired).1 (store.get revision format now expired).2 := by
  unfold Store.get
  dsimp only
  split
  · exact .refused _
  · next hopen =>
    simp only [not_or, Bool.not_eq_true, Ne, not_not] at hopen
    obtain ⟨hc, hr, hf⟩ := hopen
    split
    · next e he =>
      have hmem := List.mem_of_find?_eq_some he
      have hformat : e.request.format = format := by simpa using List.find?_some he
      split
      · next v hres =>
        exact .answered hmem hformat hr (by rw [Entry.answer, hres])
      · exact .refused _
      · next hres =>
        cases expired with
        | true => exact .refused _
        | false => exact .waits ⟨hc, hr, hf, e, hmem, hformat, by rw [Entry.pending, hres]; rfl⟩
    · next hnone =>
      split
      · exact .refused _
      · refine .asked hc hr hf hnone ?_
        intro entry hreply
        cases expired <;> cases hreply

/-- A reader whose request is closed, superseded or answered does not sleep again on it. -/
theorem get_released (store : Store) (revision : Int) (format : String) (now : Nat)
    (expired : Bool) :
    (store.closed = true ∨ store.offer.revision ≠ revision ∨ format ∉ store.offer.formats →
      ∃ e, (store.get revision format now expired).2 = some (.error e)) ∧
    (∀ e, store.find format = some e → e.pending = false →
      (store.get revision format now expired).2 ≠ none) := by
  constructor
  · intro h
    exact ⟨_, congrArg Prod.snd (if_pos h)⟩
  · intro e he hp
    unfold Store.get
    dsimp only
    split
    · exact nofun
    · rw [he]
      dsimp only
      split
      · exact nofun
      · exact nofun
      · next hres =>
        rw [Entry.pending, hres] at hp
        cases hp

theorem awaited_ask {store : Store} {r : Reader} (h : Awaited store r) (revision : Int)
    (format : String) (now : Nat) : Awaited (store.ask revision format now) r := by
  obtain ⟨hc, hr, hf, e, he, hrest⟩ := h
  exact ⟨hc, hr, hf, e, List.mem_append_left _ he, hrest⟩

/-! ## Steps -/

theorem Inv.get (h : Inv Z s) {i now : Nat} {expired : Bool}
    (hstep : step Z s (.get i now expired) = some s') : Inv Z s' := by
  simp only [step] at hstep
  split at hstep
  · next revision format hr =>
    have hturn := get_turn s.store revision format now expired
    generalize s.store.get revision format now expired = p at hturn hstep
    obtain ⟨store, result⟩ := p
    obtain rfl := Option.some.inj hstep
    -- Another reader is where it was, so only the reader that took its turn is to be shown.
    have hset : ∀ phase, ∀ r ∈ s.readers.set i ⟨revision, format, phase⟩,
        r ∈ s.readers ∨ r = ⟨revision, format, phase⟩ := fun phase r hr =>
      List.mem_or_eq_of_mem_set hr
    cases hturn with
    | refused e =>
      simp only [if_pos, List.append_nil]
      refine ⟨h.sending, h.storing, ?_, ?_⟩
      · intro r hr hphase
        rcases hset _ r hr with hr | rfl
        · exact h.asleep r hr hphase
        · cases hphase
      · intro r hr v hphase
        rcases hset _ r hr with hr | rfl
        · exact h.returned r hr v hphase
        · cases hphase
    | @answered e v he hf hrev hv =>
      simp only [if_pos, List.append_nil]
      refine ⟨h.sending, h.storing, ?_, ?_⟩
      · intro r hr hphase
        rcases hset _ r hr with hr | rfl
        · exact h.asleep r hr hphase
        · cases hphase
      · intro r hr w hphase
        rcases hset _ r hr with hr | rfl
        · exact h.returned r hr w hphase
        · obtain rfl : v = w := by
            injection hphase with hphase
            exact Except.ok.inj hphase
          obtain ⟨hover, hdec⟩ := h.storing.answered e he v hv
          have hover : Over (streamOf (s.taken ++ s.replies) e.request.id) := by
            rw [streamOf_append]
            exact hover.append
          obtain ⟨q, hq, hid, hval⟩ := h.sending.complete _ v hover hdec
          obtain rfl := h.sending.issued_inj hq (h.storing.issued e he) hid
          exact ⟨_, hq, (h.storing.current e he).trans hrev, hf, hval, hover, hdec⟩
    | waits haw =>
      simp only [if_pos, List.append_nil]
      refine ⟨h.sending, h.storing, ?_, ?_⟩
      · intro r hr hphase
        rcases hset _ r hr with hr | rfl
        · exact h.asleep r hr hphase
        · exact haw
      · intro r hr v hphase
        rcases hset _ r hr with hr | rfl
        · exact h.returned r hr v hphase
        · cases hphase
    | asked hc hrev hf hnone hres =>
      have hnew : s.store.next + 1 ≠ s.store.next := Nat.succ_ne_self _
      simp only [if_neg hnew]
      refine ⟨h.sending.issue revision format, ?_, ?_, ?_⟩
      · apply h.storing.ask hrev hnone h.sending.issued_le h.sending.work_issued
        · intro r hr
          obtain ⟨q, hq, hid, -⟩ := h.sending.replies_issued r hr
          exact ⟨q, hq, hid⟩
        · exact fun r hr => List.mem_append_left _ hr
      · intro r hr hphase
        rcases hset _ r hr with hr | rfl
        · exact awaited_ask (h.asleep r hr hphase) revision format now
        · exact ⟨hc, hrev, hf, _, List.mem_append_right _ List.mem_cons_self, rfl, rfl⟩
      · intro r hr v hphase
        rcases hset _ r hr with hr | rfl
        · exact (h.returned r hr v hphase).mono (fun q hq => List.mem_append_left _ hq)
            fun x hx => hx
        · cases result with
          | none => cases hphase
          | some result =>
            injection hphase with hphase
            exact absurd (congrArg some hphase) (hres v)
  · cases hstep

theorem Inv.poll (h : Inv Z s) {now : Nat} (hstep : step Z s (.poll now) = some s') :
    Inv Z s' := by
  obtain rfl := Option.some.inj hstep
  obtain ⟨hnodup, hsent⟩ := h.storing.polled now
  have hwork : (work (s.requests ++ (s.store.poll now).2.1) s.reading s.jobs).Perm
      (work s.requests s.reading s.jobs ++ (s.store.poll now).2.1) := by
    unfold work
    rw [List.append_assoc, List.append_assoc, List.append_assoc, List.append_assoc]
    apply List.Perm.append_left
    rw [← List.append_assoc s.reading]
    exact List.perm_append_comm
  refine ⟨?_, ?_, ?_, ?_⟩
  · refine h.sending.move ?_ ?_ ?_
    · intro q hq
      rcases List.mem_append.mp (hwork.mem_iff.mp hq) with hq | hq
      · exact h.sending.work_issued q hq
      · exact (hsent q hq).1
    · show ((work (s.requests ++ (s.store.poll now).2.1) s.reading s.jobs).map _).Nodup
      rw [(hwork.map _).nodup_iff, List.map_append]
      refine List.nodup_append.mpr ⟨h.sending.work_nodup, hnodup, ?_⟩
      intro a ha b hb heq
      obtain ⟨q, hq, rfl⟩ := List.mem_map.mp hb
      obtain ⟨x, hx, rfl⟩ := List.mem_map.mp ha
      exact (hsent q hq).2.1 x hx heq
    · intro q hq
      rcases List.mem_append.mp hq with hq | hq
      · rcases List.mem_append.mp hq with hq | hq
        · exact h.sending.waiting q (List.mem_append_left _ hq)
        · exact (hsent q hq).2.2
      · exact h.sending.waiting q (List.mem_append_right _ hq)
  · exact (h.storing.poll now).work_sub fun x hx => hwork.mem_iff.mp hx
  · -- Readers are woken if a request is too late; else every request without a result stays.
    show ∀ r ∈ wakeIf (s.store.poll now).2.2 s.readers, r.phase = .asleep →
      Awaited (s.store.poll now).1 r
    cases hwoken : (s.store.poll now).2.2 with
    | true => exact asleep_woken
    | false =>
      intro r hr hphase
      obtain ⟨hc, hrev, hf, e, he, hformat, hp⟩ := h.asleep r hr hphase
      have hkept : e ∈ s.store.entries.filter fun e => !Store.forgotten now e := by
        refine List.mem_filter.mpr ⟨he, ?_⟩
        have hfailed : e.failed = false := by
          unfold Entry.pending at hp
          unfold Entry.failed
          rw [Option.isNone_iff_eq_none.mp hp]
        rw [Store.forgotten, hfailed]
        rfl
      have hlate : Store.late now e = false := by
        have hany := List.any_eq_false.mp hwoken e hkept
        simpa using hany
      have hage : Store.age now e = e := by
        rw [Store.age, if_neg (by rw [hlate]; exact Bool.false_ne_true)]
      obtain ⟨hreq, hpend, -⟩ := markSent_fields e
      refine ⟨hc, hrev, hf, Store.markSent e, ?_, by rw [hreq]; exact hformat,
        by rw [hpend]; exact hp⟩
      have hmem := List.mem_map_of_mem (f := Store.markSent)
        (List.mem_map_of_mem (f := Store.age now) hkept)
      rwa [hage] at hmem
  · exact returned_wakeIf _ h.returned

/-- A reply that changes an entry wakes the readers. -/
theorem reply_woken (decode : Nat → Bytes → Option Bytes) (store : Store) (r : Reply) (now : Nat) :
    (store.reply decode r now).1 = store ∨ (store.reply decode r now).2 = true := by
  unfold Store.reply
  split
  · exact .inl rfl
  · split
    · exact .inr rfl
    · exact .inl rfl

theorem Inv.deliver (h : Inv Z s) {now : Nat} (hstep : step Z s (.deliver now) = some s') :
    Inv Z s' := by
  simp only [step] at hstep
  split at hstep
  · next r replies hr =>
    obtain rfl := Option.some.inj hstep
    have hlog : (s.taken ++ [r]) ++ replies = s.taken ++ s.replies := by
      rw [hr, List.append_assoc]
      rfl
    have hnext : (s.store.reply (decompressChunk Z) r now).1.next = s.store.next := by
      unfold Store.reply
      split
      · rfl
      · split <;> rfl
    refine ⟨?_, ?_, ?_, ?_⟩
    · show Sending Z s.issued (s.store.reply (decompressChunk Z) r now).1.next _ _ _ _ _
      rw [hnext, hlog]
      exact h.sending
    · show Storing Z (s.store.reply (decompressChunk Z) r now).1 _ _ _ _
      rw [hlog]
      refine h.storing.reply (by rw [hr]) (fun before x after hs hd => ?_) ?_ now
      · exact h.sending.last r.id before x after hs hd
      · intro q hq hid
        have hmem : r ∈ s.taken ++ s.replies := by
          rw [hr]
          exact List.mem_append_right _ List.mem_cons_self
        obtain ⟨q', hq', hid', hrev⟩ := h.sending.replies_issued r hmem
        rw [h.sending.issued_inj hq hq' (hid.trans hid'.symm)]
        exact hrev
    · show ∀ x ∈ wakeIf (s.store.reply (decompressChunk Z) r now).2 s.readers, _ → Awaited _ x
      rcases reply_woken (decompressChunk Z) s.store r now with heq | hwoken
      · intro x hx hphase
        have hx : x ∈ s.readers := by
          cases hw : (s.store.reply (decompressChunk Z) r now).2 with
          | false =>
            rw [hw] at hx
            exact hx
          | true =>
            rw [hw] at hx
            obtain ⟨y, -, rfl⟩ := List.mem_map.mp hx
            exact absurd hphase (wake_phase y).1
        show Awaited (s.store.reply (decompressChunk Z) r now).1 x
        rw [heq]
        exact h.asleep x hx hphase
      · rw [hwoken]
        exact asleep_woken
    · show ∀ x ∈ wakeIf _ s.readers, _
      intro x hx v hphase
      have hans := returned_wakeIf _ h.returned x hx v hphase
      show Answered Z s.issued s.values ((s.taken ++ [r]) ++ replies) x v
      rw [hlog]
      exact hans
  · cases hstep

theorem Inv.accept (h : Inv Z s) (hstep : step Z s .accept = some s') : Inv Z s' := by
  simp only [step] at hstep
  split at hstep
  · next q requests hq =>
    have hwork : q ∈ work s.requests s.reading s.jobs := by
      unfold work
      rw [hq]
      exact List.mem_append_left _ (List.mem_append_left _ List.mem_cons_self)
    have hnodup := h.sending.work_nodup
    have hsplit : work s.requests s.reading s.jobs = q :: work requests s.reading s.jobs := by
      unfold work
      rw [hq]
      rfl
    rw [hsplit, List.map_cons, List.nodup_cons] at hnodup
    have hne : ∀ x ∈ work requests s.reading s.jobs, x.id ≠ q.id := fun x hx heq =>
      hnodup.1 (heq ▸ List.mem_map_of_mem hx)
    have hsub : ∀ x ∈ work requests s.reading s.jobs, x ∈ work s.requests s.reading s.jobs := by
      intro x hx
      rw [hsplit]
      exact List.mem_cons_of_mem _ hx
    split at hstep
    · obtain rfl := Option.some.inj hstep
      have hassoc : s.taken ++ (s.replies ++ [busy q]) = (s.taken ++ s.replies) ++ [busy q] :=
        (List.append_assoc _ _ _).symm
      refine ⟨?_, ?_, h.asleep, ?_⟩
      · show Sending Z _ _ _ _ _ _ (s.taken ++ (s.replies ++ [busy q]))
        rw [hassoc]
        refine h.sending.push hwork rfl rfl hsub hnodup.2 (fun _ => hne) ?_ ?_ ?_
        · intro x hx
          refine ⟨?_, hne x (List.mem_append_left _ hx)⟩
          rw [hq]
          exact List.mem_cons_of_mem _ hx
        · intro j hj
          exact .inl ⟨hj, hne _ (List.mem_append_right _ (List.mem_map_of_mem hj))⟩
        · intro v _ hdec
          rw [decoded_append, decoded_singleton, busy, decompress_refused] at hdec
          cases hd : decoded Z (payload (streamOf (s.taken ++ s.replies) q.id)) with
          | none =>
            rw [hd] at hdec
            cases hdec
          | some w =>
            rw [hd] at hdec
            cases hdec
      · show Storing Z _ _ _ (s.taken ++ (s.replies ++ [busy q])) _
        rw [hassoc]
        refine h.storing.push hwork rfl hsub fun x hx hid => ?_
        exact h.sending.not_over hwork x
          (mem_streamOf.mpr ⟨List.mem_append_left _ hx, hid⟩)
      · intro r hr v hphase
        show Answered Z _ _ (s.taken ++ (s.replies ++ [busy q])) r v
        rw [hassoc]
        exact (h.returned r hr v hphase).push h.sending hwork rfl
    · obtain rfl := Option.some.inj hstep
      have hperm : (work requests (s.reading ++ [q]) s.jobs).Perm
          (work s.requests s.reading s.jobs) := by
        rw [hsplit]
        unfold work
        rw [← List.append_assoc requests, List.append_assoc _ [q]]
        exact List.perm_middle
      refine ⟨?_, ?_, h.asleep, h.returned⟩
      · refine h.sending.move (fun x hx => h.sending.work_issued x (hperm.mem_iff.mp hx)) ?_ ?_
        · rw [(hperm.map _).nodup_iff]
          exact h.sending.work_nodup
        · intro x hx
          apply h.sending.waiting
          rw [hq]
          rcases List.mem_append.mp hx with hx | hx
          · exact List.mem_append_left _ (List.mem_cons_of_mem _ hx)
          · rcases List.mem_append.mp hx with hx | hx
            · exact List.mem_append_right _ hx
            · rw [List.mem_singleton.mp hx]
              exact List.mem_append_left _ List.mem_cons_self
      · exact h.storing.work_sub fun x hx => hperm.mem_iff.mp hx
  · cases hstep

/-- What a read gives: the value of the clipboard that was on offer. -/
theorem readFormat_some {platform : Platform} {content : Option Bytes} {q : Request} {v : Bytes}
    (h : readFormat platform content q = some v) :
    ∃ formats, platform = some (q.revision, formats) ∧ q.format ∈ formats ∧ content = some v ∧
      v.length ≤ maxData := by
  unfold readFormat at h
  split at h
  · next current formats =>
    split at h
    · cases h
    · next hcur =>
      simp only [not_or, not_not] at hcur
      obtain ⟨rfl, hmem⟩ := hcur
      obtain ⟨hcontent, hle⟩ := Option.filter_eq_some_iff.mp h
      exact ⟨formats, rfl, hmem, hcontent, by simpa using hle⟩
  · cases h

theorem Inv.read (hZ : Z.Lossless) (h : Inv Z s) {i : Nat} {platform : Platform}
    {content : Option Bytes} (hstep : step Z s (.read i platform content) = some s') :
    Inv Z s' := by
  simp only [step] at hstep
  split at hstep
  · next q hq =>
    obtain rfl := Option.some.inj hstep
    have hlt := (List.getElem?_eq_some_iff.mp hq).1
    have hperm : s.reading.Perm (q :: s.reading.eraseIdx i) := by
      have hget : s.reading[i] = q := (List.getElem?_eq_some_iff.mp hq).2
      rw [← hget]
      exact (List.getElem_cons_eraseIdx_perm hlt).symm
    have hsub : ∀ x ∈ work s.requests (s.reading.eraseIdx i)
        (s.jobs ++ [readRequested Z platform content q]),
        x ∈ work s.requests s.reading s.jobs := by
      intro x hx
      unfold work at hx ⊢
      rw [List.map_append, List.mem_append, List.mem_append, List.mem_append] at hx
      rw [List.mem_append, List.mem_append]
      rcases hx with (hx | hx) | hx | hx
      · exact .inl (.inl hx)
      · exact .inl (.inr (List.mem_of_mem_eraseIdx hx))
      · exact .inr hx
      · rw [List.mem_singleton.mp hx]
        exact .inl (.inr (List.mem_of_getElem? hq))
    refine ⟨?_, h.storing.work_sub hsub, h.asleep, ?_⟩
    · refine h.sending.read hperm ?_ ?_
      · intro v hv
        cases hread : readFormat platform content q with
        | none =>
          rw [hread] at hv
          cases hv
        | some w =>
          rw [hread] at hv
          rw [List.mem_singleton.mp hv]
      · intro cs hcs
        obtain ⟨v, hv, hcs⟩ := Option.bind_eq_some_iff.mp hcs
        obtain ⟨chunks, hchunks, hne, hdec⟩ := compressed_decoded hZ v
        rw [hchunks] at hcs
        obtain rfl := Option.some.inj hcs
        refine ⟨hne, v, ?_, hdec⟩
        rw [hv]
        exact List.mem_cons_self
    · intro r hr v hphase
      exact (h.returned r hr v hphase).mono (fun q hq => hq) fun x hx => List.mem_append_left _ hx
  · cases hstep

/-- A turn of the sender ends a reply, with its last chunk or with a failure, or leaves the
    rest of it. -/
theorem turn_cases (j : Job) (current : Option Int) :
    (∃ status bytes, j.turn current = (⟨j.request.id, j.request.revision, status, true, bytes⟩,
      none) ∧ (j.chunks = some [(status, bytes)] ∨ status = 1)) ∨
    ∃ status bytes rest, j.chunks = some ((status, bytes) :: rest) ∧ rest ≠ [] ∧
      j.turn current = (⟨j.request.id, j.request.revision, status, false, bytes⟩,
        some ⟨j.request, some rest⟩) := by
  unfold Job.turn
  by_cases hcurrent : current = some j.request.revision
  · rw [if_pos hcurrent]
    match hchunks : j.chunks with
    | none => exact .inl ⟨1, [], rfl, .inr rfl⟩
    | some [] => exact .inl ⟨1, [], rfl, .inr rfl⟩
    | some [(status, bytes)] => exact .inl ⟨status, bytes, rfl, .inl rfl⟩
    | some ((status, bytes) :: c :: rest) =>
      exact .inr ⟨status, bytes, c :: rest, rfl, List.cons_ne_nil _ _, rfl⟩
  · rw [if_neg hcurrent]
    exact .inl ⟨1, [], rfl, .inr rfl⟩

theorem Inv.turn (h : Inv Z s) {current : Option Int}
    (hstep : step Z s (.turn current) = some s') : Inv Z s' := by
  simp only [step] at hstep
  split at hstep
  · next j jobs hj =>
    have hjmem : j ∈ s.jobs := by
      rw [hj]
      exact List.mem_cons_self
    have hwork : j.request ∈ work s.requests s.reading s.jobs :=
      List.mem_append_right _ (List.mem_map_of_mem hjmem)
    -- The reply that is served, and the others.
    have hperm : (work s.requests s.reading s.jobs).Perm
        (j.request :: work s.requests s.reading jobs) := by
      unfold work
      rw [hj, List.map_cons]
      exact List.perm_middle
    have hsub : ∀ x ∈ work s.requests s.reading jobs, x ∈ work s.requests s.reading s.jobs :=
      fun x hx => hperm.mem_iff.mpr (List.mem_cons_of_mem _ hx)
    have hnodup := (hperm.map Request.id).nodup_iff.mp h.sending.work_nodup
    rw [List.map_cons, List.nodup_cons] at hnodup
    have hne : ∀ x ∈ work s.requests s.reading jobs, x.id ≠ j.request.id := fun x hx heq =>
      hnodup.1 (heq ▸ List.mem_map_of_mem hx)
    have hwaiting : ∀ x ∈ s.requests ++ s.reading,
        x ∈ s.requests ++ s.reading ∧ x.id ≠ j.request.id := fun x hx =>
      ⟨hx, hne x (List.mem_append_left _ hx)⟩
    have hothers : ∀ k ∈ jobs, k ∈ s.jobs ∧ k.request.id ≠ j.request.id := fun k hk =>
      ⟨hj ▸ List.mem_cons_of_mem _ hk, hne _ (List.mem_append_right _ (List.mem_map_of_mem hk))⟩
    have hopen : ∀ x ∈ s.taken, x.id = j.request.id → x.done = false := fun x hx hid =>
      h.sending.not_over hwork x (mem_streamOf.mpr ⟨List.mem_append_left _ hx, hid⟩)
    obtain ⟨status, bytes, hturn, hlast⟩ | ⟨status, bytes, rest, hchunks, hrest, hturn⟩ :=
      turn_cases j current
    · rw [hturn] at hstep
      obtain rfl := Option.some.inj hstep
      simp only [Option.toList_none, List.append_nil]
      refine ⟨?_, ?_, h.asleep, ?_⟩
      · dsimp only
        rw [← List.append_assoc]
        refine h.sending.push hwork rfl rfl hsub hnodup.2 (fun _ => hne) hwaiting
          (fun k hk => .inl (hothers k hk)) ?_
        intro v _ hdec
        rcases hlast with hchunks | rfl
        · obtain ⟨-, w, hw, hdecw⟩ := h.sending.left j hjmem _ hchunks
          rw [hdecw] at hdec
          rwa [← Option.some.inj hdec]
        · rw [decoded_append, decoded_singleton, decompress_refused] at hdec
          obtain ⟨a, -, ha⟩ := Option.bind_eq_some_iff.mp hdec
          cases ha
      · dsimp only
        rw [← List.append_assoc]
        exact h.storing.push hwork rfl hsub hopen
      · dsimp only
        rw [← List.append_assoc]
        intro r hr v hphase
        exact (h.returned r hr v hphase).push h.sending hwork rfl
    · rw [hturn] at hstep
      obtain rfl := Option.some.inj hstep
      simp only [Option.toList_some]
      have hback : (work s.requests s.reading (jobs ++ [⟨j.request, some rest⟩])).Perm
          (work s.requests s.reading s.jobs) := by
        refine List.Perm.trans ?_ hperm.symm
        unfold work
        rw [List.map_append, ← List.append_assoc]
        exact List.perm_append_singleton _ _
      refine ⟨?_, ?_, h.asleep, ?_⟩
      · dsimp only
        rw [← List.append_assoc]
        refine h.sending.push hwork rfl rfl (fun x hx => hback.mem_iff.mp hx)
          ((hback.map Request.id).nodup_iff.mpr h.sending.work_nodup) nofun hwaiting ?_ nofun
        intro k hk
        rcases List.mem_append.mp hk with hk | hk
        · exact .inl (hothers k hk)
        · obtain rfl := List.mem_singleton.mp hk
          refine .inr ⟨rfl, fun chunks heq => ?_⟩
          obtain rfl := Option.some.inj heq
          obtain ⟨-, w, hw, hdecw⟩ := h.sending.left j hjmem _ hchunks
          exact ⟨hrest, w, hw, hdecw⟩
      · dsimp only
        rw [← List.append_assoc]
        exact h.storing.push hwork rfl (fun x hx => hback.mem_iff.mp hx) hopen
      · dsimp only
        rw [← List.append_assoc]
        intro r hr v hphase
        exact (h.returned r hr v hphase).push h.sending hwork rfl
  · cases hstep

theorem Inv.call (h : Inv Z s) (revision : Int) (format : String) :
    Inv Z { s with readers := s.readers ++ [⟨revision, format, .awake⟩] } := by
  refine ⟨h.sending, h.storing, ?_, ?_⟩
  · intro r hr hphase
    rcases List.mem_append.mp hr with hr | hr
    · exact h.asleep r hr hphase
    · rw [List.mem_singleton.mp hr] at hphase
      cases hphase
  · intro r hr v hphase
    rcases List.mem_append.mp hr with hr | hr
    · exact h.returned r hr v hphase
    · rw [List.mem_singleton.mp hr] at hphase
      cases hphase

theorem Inv.wake (h : Inv Z s) {i : Nat} (hstep : step Z s (.wake i) = some s') : Inv Z s' := by
  simp only [step] at hstep
  split at hstep
  · next r₀ hr₀ =>
    obtain rfl := Option.some.inj hstep
    have hmem := List.mem_of_getElem? hr₀
    obtain ⟨hawake, hrev, hformat, hret⟩ := wake_phase r₀
    refine ⟨h.sending, h.storing, ?_, ?_⟩
    · intro r hr hphase
      rcases List.mem_or_eq_of_mem_set hr with hr | rfl
      · exact h.asleep r hr hphase
      · exact absurd hphase hawake
    · intro r hr v hphase
      rcases List.mem_or_eq_of_mem_set hr with hr | rfl
      · exact h.returned r hr v hphase
      · have hans := h.returned r₀ hmem v (hret _ hphase)
        unfold Answered at hans ⊢
        rw [hrev, hformat]
        exact hans
  · cases hstep

/-- A store that has no more entries, or had an offer with the same revision, is sound. -/
theorem Storing.update (h : Storing Z s.store s.issued (work s.requests s.reading s.jobs)
    (s.taken ++ s.replies) s.taken) (offer : Offer) :
    Storing Z (s.store.update offer) s.issued (work s.requests s.reading s.jobs)
      (s.taken ++ s.replies) s.taken := by
  by_cases hchanged : s.store.offer.revision ≠ offer.revision ∨
      s.store.offer.formats ≠ offer.formats
  · exact Storing.empty (if_pos hchanged)
  · have hentries : (s.store.update offer).entries = s.store.entries := if_neg hchanged
    simp only [not_or, Ne, not_not] at hchanged
    refine h.refine hchanged.1.symm ?_ ?_ ?_
    · rw [hentries]
    · rw [hentries]
      exact fun e he => ⟨e, he, rfl, id, fun hp => ⟨hp, rfl⟩, fun _ => id⟩
    · exact Nat.le_of_eq (congrArg Store.held hentries)

/-- Every step keeps the invariant. -/
theorem inv_step (hZ : Z.Lossless) (s : Sys) (e : Event) (s' : Sys) (h : Inv Z s)
    (hstep : step Z s e = some s') : Inv Z s' := by
  cases e with
  | call revision format =>
    obtain rfl := Option.some.inj hstep
    exact h.call revision format
  | get i now expired => exact h.get hstep
  | wake i => exact h.wake hstep
  | update offer =>
    obtain rfl := Option.some.inj hstep
    exact ⟨h.sending, h.storing.update offer, asleep_woken, returned_woken h.returned⟩
  | close =>
    obtain rfl := Option.some.inj hstep
    exact ⟨h.sending, Storing.empty rfl, asleep_woken, returned_woken h.returned⟩
  | poll now => exact h.poll hstep
  | deliver now => exact h.deliver hstep
  | accept => exact h.accept hstep
  | read i platform content => exact h.read hZ hstep
  | turn current => exact h.turn hstep

theorem inv_run (hZ : Z.Lossless) {events : List Event} {t : Sys}
    (hrun : Run.exec (step Z) events .new = some t) : Inv Z t :=
  Run.exec_invariant (inv_step hZ) (Inv.new Z) hrun

/-! ## What was read -/

theorem step_values {e : Event} (hstep : step Z s e = some s') :
    ∀ x ∈ s'.values, x ∈ s.values ∨ ∃ i platform content, e = .read i platform content ∧
      readFormat platform content x.1 = some x.2 := by
  intro x hx
  cases e with
  | read i platform content =>
    simp only [step] at hstep
    split at hstep
    · next q hq =>
      obtain rfl := Option.some.inj hstep
      rcases List.mem_append.mp hx with hx | hx
      · exact .inl hx
      · rw [Option.mem_toList] at hx
        obtain ⟨v, hv, rfl⟩ := Option.map_eq_some_iff.mp hx
        exact .inr ⟨i, platform, content, rfl, hv⟩
    · cases hstep
  | call revision format =>
    obtain rfl := Option.some.inj hstep
    exact .inl hx
  | update offer =>
    obtain rfl := Option.some.inj hstep
    exact .inl hx
  | close =>
    obtain rfl := Option.some.inj hstep
    exact .inl hx
  | poll now =>
    obtain rfl := Option.some.inj hstep
    exact .inl hx
  | get i now expired =>
    simp only [step] at hstep
    split at hstep
    · obtain rfl := Option.some.inj hstep
      exact .inl hx
    · cases hstep
  | wake i =>
    simp only [step] at hstep
    split at hstep
    · obtain rfl := Option.some.inj hstep
      exact .inl hx
    · cases hstep
  | deliver now =>
    simp only [step] at hstep
    split at hstep
    · obtain rfl := Option.some.inj hstep
      exact .inl hx
    · cases hstep
  | accept =>
    simp only [step] at hstep
    split at hstep
    · split at hstep
      · obtain rfl := Option.some.inj hstep
        exact .inl hx
      · obtain rfl := Option.some.inj hstep
        exact .inl hx
    · cases hstep
  | turn current =>
    simp only [step] at hstep
    split at hstep
    · obtain rfl := Option.some.inj hstep
      exact .inl hx
    · cases hstep

/-- What the sender sent it read from the platform in the run. -/
theorem values_run {events : List Event} {t : Sys}
    (hrun : Run.exec (step Z) events s = some t) : ∀ x ∈ t.values, x ∈ s.values ∨
      ∃ i platform content, Event.read i platform content ∈ events ∧
        readFormat platform content x.1 = some x.2 := by
  induction events generalizing s with
  | nil =>
    obtain rfl := Option.some.inj hrun
    exact fun x hx => .inl hx
  | cons e events ih =>
    obtain ⟨m, hm, hrun⟩ := Run.exec_cons.mp hrun
    intro x hx
    obtain hx | ⟨i, platform, content, hmem, hread⟩ := ih hrun x hx
    · obtain hx | ⟨i, platform, content, rfl, hread⟩ := step_values hm x hx
      · exact .inl hx
      · exact .inr ⟨i, platform, content, List.mem_cons_self, hread⟩
    · exact .inr ⟨i, platform, content, List.mem_cons_of_mem _ hmem, hread⟩

end

/-- The replies that were sent. -/
def Sys.log (s : Sys) : List Reply := s.taken ++ s.replies

/-- What a reader was given is the value that the sender read for one request with the
    reader's revision and format, and what the replies to that request decode to. -/
def Exact (Z : Zlib) (events : List Event) (s : Sys) (r : Reader) (v : Bytes) : Prop :=
  ∃ q ∈ s.issued, q.revision = r.revision ∧ q.format = r.format ∧
    (∀ q' ∈ s.issued, q'.id = q.id → q' = q) ∧
    Over (streamOf s.log q.id) ∧ decoded Z (payload (streamOf s.log q.id)) = some v ∧
    ∃ i formats, Event.read i (some (q.revision, formats)) (some v) ∈ events ∧ q.format ∈ formats

/-- The request of a reader is not there to wait for: the store is closed, the offer is
    another one, or the request has a result. -/
def Released (store : Store) (r : Reader) : Prop :=
  store.closed = true ∨ store.offer.revision ≠ r.revision ∨ r.format ∉ store.offer.formats ∨
    ∃ e, store.find r.format = some e ∧ e.pending = false

theorem released_returns {store : Store} {r : Reader} (h : Released store r) (now : Nat)
    (expired : Bool) : ∃ result,
      (store.get r.revision r.format now expired).2 = some result := by
  obtain ⟨hgone, hresult⟩ := get_released store r.revision r.format now expired
  apply Option.ne_none_iff_exists'.mp
  have herr : (store.closed = true ∨ store.offer.revision ≠ r.revision ∨
      r.format ∉ store.offer.formats) →
      (store.get r.revision r.format now expired).2 ≠ none := by
    intro h
    obtain ⟨e, he⟩ := hgone h
    rw [he]
    exact nofun
  rcases h with h | h | h | ⟨e, he, hp⟩
  · exact herr (.inl h)
  · exact herr (.inr (.inl h))
  · exact herr (.inr (.inr h))
  · exact hresult e he hp

/-- **The clipboard on demand.** After any run: what a reader returned is exact; no two
    entries have one format; a reader sleeps only on a request that waits for its reply, and
    the turn of one that was released returns; the store holds no more than its limit. -/
theorem clipboard_exact {Z : Zlib} (hZ : Z.Lossless) {events : List Event} {t : Sys}
    (hrun : Run.exec (step Z) events .new = some t) :
    (∀ r ∈ t.readers, ∀ v, r.phase = .returned (.ok v) → Exact Z events t r v) ∧
    (t.store.entries.map fun e => e.request.format).Nodup ∧
    (∀ r ∈ t.readers, (r.phase = .asleep → Awaited t.store r) ∧
      (Released t.store r → r.phase ≠ .asleep ∧ ∀ now expired, ∃ result,
        (t.store.get r.revision r.format now expired).2 = some result)) ∧
    Store.held t.store.entries ≤ limit := by
  have hinv := inv_run hZ hrun
  refine ⟨?_, hinv.storing.formats_nodup, ?_, hinv.storing.room⟩
  · intro r hr v hphase
    obtain ⟨q, hq, hrev, hformat, hv, hover, hdec⟩ := hinv.returned r hr v hphase
    refine ⟨q, hq, hrev, hformat, fun q' hq' hid => hinv.sending.issued_inj hq' hq hid, hover,
      hdec, ?_⟩
    obtain hnil | ⟨i, platform, content, hmem, hread⟩ := values_run hrun _ hv
    · cases hnil
    · obtain ⟨formats, rfl, hin, rfl, -⟩ := readFormat_some hread
      exact ⟨i, formats, hmem, hin⟩
  · intro r hr
    refine ⟨hinv.asleep r hr, fun hreleased => ?_⟩
    refine ⟨fun hasleep => ?_, fun now expired => released_returns hreleased now expired⟩
    obtain ⟨hc, hrev, hf, e, he, hformat, hp⟩ := hinv.asleep r hr hasleep
    rcases hreleased with h | h | h | ⟨e', he', hp'⟩
    · rw [hc] at h
      cases h
    · exact h hrev
    · exact h hf
    · -- The formats of entries are distinct, so the released entry is the awaited one.
      have hmem' := List.mem_of_find?_eq_some he'
      have hformat' : e'.request.format = r.format := by simpa using List.find?_some he'
      have heq := List.inj_on_of_nodup_map hinv.storing.formats_nodup he hmem'
        (hformat.trans hformat'.symm)
      rw [heq, hp'] at hp
      cases hp

/-- A compressor that stores. -/
def stored : Zlib := ⟨id, fun bytes => some (bytes.length, bytes)⟩

/-- Two readers share one request. -/
def twoReaders : List Event :=
  [.update ⟨1, ["text"]⟩, .call 1 "text", .call 1 "text", .get 0 0 false, .poll 0, .accept,
    .read 0 (some (1, ["text"])) (some [1, 2, 3]), .get 1 0 false, .turn (some 1), .deliver 0,
    .get 0 0 false, .get 1 0 false]

theorem twoReaders_exact : ∃ t, Run.exec (step stored) twoReaders .new = some t ∧
    t.readers = [⟨1, "text", .returned (.ok [1, 2, 3])⟩, ⟨1, "text", .returned (.ok [1, 2, 3])⟩] ∧
    (∀ r ∈ t.readers, ∀ v, r.phase = .returned (.ok v) → Exact stored twoReaders t r v) :=
  ⟨_, rfl, rfl, (@clipboard_exact stored (fun _ _ => rfl) twoReaders _ rfl).1⟩

end Porthop.Clipboard
