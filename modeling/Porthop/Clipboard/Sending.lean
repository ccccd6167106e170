import Mathlib.Data.List.Nodup
import Porthop.Clipboard.Demand
import Porthop.Lib.Run

/- Readers, store and sender together.

   A step is one stretch of code under the store's lock, one branch of the sender's loop, or
   a reader that calls or is woken. The two directions of the connection keep their order.
   Readers are many and are never removed; one that is not woken does nothing. What was asked
   for, read and sent is kept (`issued`, `values`, `taken`) for the statements. -/
namespace Porthop.Clipboard

/-- A caller of `get`. -/
inductive Phase where
  | awake
  | asleep
  | returned (result : Except String Bytes)

structure Reader where
  revision : Int
  format : String
  phase : Phase

def Reader.wake (r : Reader) : Reader :=
  match r.phase with
  | .asleep => { r with phase := .awake }
  | _ => r

structure Sys where
  store : Store
  readers : List Reader
  /-- Requests on the way to the sender. -/
  requests : List Request
  /-- Requests the sender is reading the value of. -/
  reading : List Request
  jobs : List Job
  /-- Replies on the way to the store. -/
  replies : List Reply
  /-- Every request of the store. -/
  issued : List Request
  /-- What the sender read. -/
  values : List (Request × Bytes)
  /-- The replies the store has taken. -/
  taken : List Reply

def Sys.new : Sys := ⟨.new, [], [], [], [], [], [], [], []⟩

inductive Event where
  | call (revision : Int) (format : String)
  | get (i now : Nat) (expired : Bool)
  /-- A wait that ends on its own. -/
  | wake (i : Nat)
  | update (offer : Offer)
  | close
  | poll (now : Nat)
  | deliver (now : Nat)
  /-- The sender takes a request. -/
  | accept
  /-- A read is over. -/
  | read (i : Nat) (platform : Platform) (content : Option Bytes)
  /-- The sender sends one chunk. -/
  | turn (current : Option Int)

def wakeIf (woken : Bool) (readers : List Reader) : List Reader :=
  if woken then readers.map Reader.wake else readers

section
variable (Z : Zlib)

def step (s : Sys) : Event → Option Sys
  | .call revision format => some { s with readers := s.readers ++ [⟨revision, format, .awake⟩] }
  | .get i now expired =>
    match s.readers[i]? with
    | some ⟨revision, format, .awake⟩ =>
      let (store, result) := s.store.get revision format now expired
      let phase := match result with
        | some result => .returned result
        | none => .asleep
      some { s with
        store
        readers := s.readers.set i ⟨revision, format, phase⟩
        issued := s.issued ++
          if store.next = s.store.next then [] else [⟨store.next, revision, format⟩] }
    | _ => none
  | .wake i =>
    match s.readers[i]? with
    | some r => some { s with readers := s.readers.set i r.wake }
    | none => none
  | .update offer =>
    some { s with store := s.store.update offer, readers := s.readers.map Reader.wake }
  | .close => some { s with store := s.store.close, readers := s.readers.map Reader.wake }
  | .poll now =>
    let (store, requests, woken) := s.store.poll now
    some { s with
      store
      requests := s.requests ++ requests
      readers := wakeIf woken s.readers }
  | .deliver now =>
    match s.replies with
    | r :: replies =>
      let (store, woken) := s.store.reply (decompressChunk Z) r now
      some { s with
        store
        replies
        taken := s.taken ++ [r]
        readers := wakeIf woken s.readers }
    | [] => none
  | .accept =>
    match s.requests with
    | q :: requests =>
      if s.reading.length + s.jobs.length ≥ maxReads then
        some { s with requests, replies := s.replies ++ [busy q] }
      else some { s with requests, reading := s.reading ++ [q] }
    | [] => none
  | .read i platform content =>
    match s.reading[i]? with
    | some q =>
      some { s with
        reading := s.reading.eraseIdx i
        jobs := s.jobs ++ [readRequested Z platform content q]
        values := s.values ++ ((readFormat platform content q).map (q, ·)).toList }
    | none => none
  | .turn current =>
    match s.jobs with
    | j :: jobs =>
      let (reply, rest) := j.turn current
      some { s with jobs := jobs ++ rest.toList, replies := s.replies ++ [reply] }
    | [] => none

end

end Porthop.Clipboard

/- What holds of the sender and of the replies it has sent.

   The replies with one request's id are its stream. Requests at the sender have distinct
   ids; the stream of one that is not yet read is empty, that of one that is being answered
   and the chunks that are left decode to its value, and a stream that is over decodes to a
   value that was read for that very request, or not at all. -/
namespace Porthop.Clipboard

/-- The replies to one request. -/
def streamOf (log : List Reply) (id : Nat) : List Reply := log.filter fun r => r.id = id

def payload (replies : List Reply) : List (Nat × Bytes) := replies.map fun r => (r.status, r.bytes)

/-- The requests at the sender. -/
def work (requests reading : List Request) (jobs : List Job) : List Request :=
  requests ++ reading ++ jobs.map Job.request

theorem streamOf_append (log more : List Reply) (id : Nat) :
    streamOf (log ++ more) id = streamOf log id ++ streamOf more id := List.filter_append _ _

theorem streamOf_push_self (log : List Reply) (r : Reply) :
    streamOf (log ++ [r]) r.id = streamOf log r.id ++ [r] := by
  simp [streamOf]

theorem streamOf_push_of_ne {log : List Reply} {r : Reply} {id : Nat} (h : r.id ≠ id) :
    streamOf (log ++ [r]) id = streamOf log id := by
  simp [streamOf, h]

theorem streamOf_cons_self (r : Reply) (log : List Reply) :
    streamOf (r :: log) r.id = r :: streamOf log r.id :=
  List.filter_cons_of_pos (decide_eq_true rfl)

theorem mem_streamOf {log : List Reply} {id : Nat} {r : Reply} :
    r ∈ streamOf log id ↔ r ∈ log ∧ r.id = id := by
  simp [streamOf]

/-- A stream whose last reply is sent. -/
def Over (stream : List Reply) : Prop := ∃ r ∈ stream, r.done = true

section
variable {Z : Zlib} {issued requests reading : List Request} {next : Nat} {jobs : List Job}
  {values : List (Request × Bytes)} {log : List Reply}

structure Sending (Z : Zlib) (issued : List Request) (next : Nat)
    (requests reading : List Request) (jobs : List Job) (values : List (Request × Bytes))
    (log : List Reply) : Prop where
  issued_nodup : (issued.map Request.id).Nodup
  issued_le : ∀ q ∈ issued, q.id ≤ next
  work_issued : ∀ q ∈ work requests reading jobs, q ∈ issued
  work_nodup : ((work requests reading jobs).map Request.id).Nodup
  values_issued : ∀ v ∈ values, v.1 ∈ issued
  waiting : ∀ q ∈ requests ++ reading, streamOf log q.id = []
  left : ∀ j ∈ jobs, ∀ chunks, j.chunks = some chunks → chunks ≠ [] ∧
    ∃ v, (j.request, v) ∈ values ∧
      decoded Z (payload (streamOf log j.request.id) ++ chunks) = some v
  replies_issued : ∀ r ∈ log, ∃ q ∈ issued, q.id = r.id ∧ q.revision = r.revision
  finished : ∀ r ∈ log, r.done = true → ∀ q ∈ work requests reading jobs, q.id ≠ r.id
  last : ∀ id before r after, streamOf log id = before ++ r :: after → r.done = true → after = []
  complete : ∀ id v, Over (streamOf log id) → decoded Z (payload (streamOf log id)) = some v →
    ∃ q ∈ issued, q.id = id ∧ (q, v) ∈ values

theorem Sending.new (Z : Zlib) : Sending Z [] 0 [] [] [] [] [] where
  issued_nodup := List.nodup_nil
  issued_le := nofun
  work_issued := nofun
  work_nodup := List.nodup_nil
  values_issued := nofun
  waiting := nofun
  left := nofun
  replies_issued := nofun
  finished := nofun
  last id before r after h := by cases before <;> cases h
  complete id v h := by
    obtain ⟨r, hr, -⟩ := h
    cases hr

/-- The stream of a request at the sender is not over. -/
theorem Sending.not_over (h : Sending Z issued next requests reading jobs values log)
    {q : Request} (hq : q ∈ work requests reading jobs) : ∀ r ∈ streamOf log q.id,
      r.done = false := by
  intro r hr
  obtain ⟨hlog, hid⟩ := mem_streamOf.mp hr
  by_contra hdone
  exact h.finished r hlog (by simpa using hdone) q hq hid.symm

theorem Sending.issued_inj (h : Sending Z issued next requests reading jobs values log)
    {q q' : Request} (hq : q ∈ issued) (hq' : q' ∈ issued) (hid : q.id = q'.id) : q = q' :=
  List.inj_on_of_nodup_map h.issued_nodup hq hq' hid

/-- A new request has a new id. -/
theorem Sending.issue (h : Sending Z issued next requests reading jobs values log)
    (revision : Int) (format : String) :
    Sending Z (issued ++ [⟨next + 1, revision, format⟩]) (next + 1) requests reading jobs values
      log where
  issued_nodup := by
    rw [List.map_append]
    refine List.nodup_append.mpr ⟨h.issued_nodup, List.nodup_singleton _, ?_⟩
    intro a ha b hb
    obtain ⟨q, hq, rfl⟩ := List.mem_map.mp ha
    have hle := h.issued_le q hq
    rw [List.mem_singleton.mp hb]
    exact Nat.ne_of_lt (Nat.lt_succ_of_le hle)
  issued_le q hq := by
    rcases List.mem_append.mp hq with hq | hq
    · exact Nat.le_succ_of_le (h.issued_le q hq)
    · exact Nat.le_of_eq (congrArg Request.id (List.mem_singleton.mp hq))
  work_issued q hq := List.mem_append_left _ (h.work_issued q hq)
  work_nodup := h.work_nodup
  values_issued v hv := List.mem_append_left _ (h.values_issued v hv)
  waiting := h.waiting
  left := h.left
  replies_issued r hr := by
    obtain ⟨q, hq, heq⟩ := h.replies_issued r hr
    exact ⟨q, List.mem_append_left _ hq, heq⟩
  finished := h.finished
  last := h.last
  complete id v hover hdec := by
    obtain ⟨q, hq, heq⟩ := h.complete id v hover hdec
    exact ⟨q, List.mem_append_left _ hq, heq⟩

/-- Requests move on to the sender, or within it. -/
theorem Sending.move (h : Sending Z issued next requests reading jobs values log)
    {requests' reading' : List Request}
    (hissued : ∀ q ∈ work requests' reading' jobs, q ∈ issued)
    (hnodup : ((work requests' reading' jobs).map Request.id).Nodup)
    (hwaiting : ∀ q ∈ requests' ++ reading', streamOf log q.id = []) :
    Sending Z issued next requests' reading' jobs values log where
  issued_nodup := h.issued_nodup
  issued_le := h.issued_le
  work_issued := hissued
  work_nodup := hnodup
  values_issued := h.values_issued
  waiting := hwaiting
  left := h.left
  replies_issued := h.replies_issued
  finished r hr hdone q hq hid := by
    rcases List.mem_append.mp hq with hq | hq
    · have hnil := hwaiting q hq
      have hmem : r ∈ streamOf log q.id := mem_streamOf.mpr ⟨hr, hid.symm⟩
      rw [hnil] at hmem
      cases hmem
    · exact h.finished r hr hdone q (List.mem_append_right _ hq) hid
  last := h.last
  complete := h.complete

/-- A read is over: its request becomes a reply. -/
theorem Sending.read (h : Sending Z issued next requests reading jobs values log)
    {reading' : List Request} {q : Request} (hperm : reading.Perm (q :: reading'))
    {chunks : Option (List (Nat × Bytes))} {more : List (Request × Bytes)}
    (hmore : ∀ v ∈ more, v.1 = q)
    (hchunks : ∀ cs, chunks = some cs → cs ≠ [] ∧ ∃ v, (q, v) ∈ more ∧ decoded Z cs = some v) :
    Sending Z issued next requests reading' (jobs ++ [⟨q, chunks⟩]) (values ++ more) log := by
  have hwork : (work requests reading jobs).Perm
      (work requests reading' (jobs ++ [⟨q, chunks⟩])) := by
    unfold work
    rw [List.map_append, List.append_assoc, List.append_assoc]
    apply List.Perm.append_left
    apply (hperm.append_right _).trans
    rw [← List.append_assoc]
    exact (List.perm_append_singleton q _).symm
  have hq : q ∈ reading := hperm.mem_iff.mpr List.mem_cons_self
  refine ⟨h.issued_nodup, h.issued_le, fun x hx => h.work_issued x (hwork.mem_iff.mpr hx),
    (hwork.map _).nodup_iff.mp h.work_nodup, ?_, ?_, ?_, h.replies_issued,
    fun r hr hdone x hx => h.finished r hr hdone x (hwork.mem_iff.mpr hx), h.last, ?_⟩
  · intro v hv
    rcases List.mem_append.mp hv with hv | hv
    · exact h.values_issued v hv
    · rw [hmore v hv]
      exact h.work_issued q (List.mem_append_left _ (List.mem_append_right _ hq))
  · intro x hx
    apply h.waiting
    rcases List.mem_append.mp hx with hx | hx
    · exact List.mem_append_left _ hx
    · exact List.mem_append_right _ (hperm.mem_iff.mpr (List.mem_cons_of_mem _ hx))
  · intro j hj cs hcs
    rcases List.mem_append.mp hj with hj | hj
    · obtain ⟨hne, v, hv, hdec⟩ := h.left j hj cs hcs
      exact ⟨hne, v, List.mem_append_left _ hv, hdec⟩
    · obtain rfl := List.mem_singleton.mp hj
      obtain ⟨hne, v, hv, hdec⟩ := hchunks cs hcs
      refine ⟨hne, v, List.mem_append_right _ hv, ?_⟩
      rw [h.waiting q (List.mem_append_right _ hq)]
      exact hdec
  · intro id v hover hdec
    obtain ⟨x, hx, hid, hv⟩ := h.complete id v hover hdec
    exact ⟨x, hx, hid, List.mem_append_left _ hv⟩

/-- A reply to a request at the sender is sent; `q` is that request. -/
theorem Sending.push (h : Sending Z issued next requests reading jobs values log)
    {requests' reading' : List Request} {jobs' : List Job} {q : Request} {r : Reply}
    (hq : q ∈ work requests reading jobs) (hid : r.id = q.id) (hrevision : r.revision = q.revision)
    (hsub : ∀ x ∈ work requests' reading' jobs', x ∈ work requests reading jobs)
    (hnodup : ((work requests' reading' jobs').map Request.id).Nodup)
    (hdone : r.done = true → ∀ x ∈ work requests' reading' jobs', x.id ≠ q.id)
    (hwaiting : ∀ x ∈ requests' ++ reading', x ∈ requests ++ reading ∧ x.id ≠ q.id)
    (hjobs : ∀ j ∈ jobs', j ∈ jobs ∧ j.request.id ≠ q.id ∨ j.request.id = q.id ∧
      ∀ chunks, j.chunks = some chunks → chunks ≠ [] ∧ ∃ v, (j.request, v) ∈ values ∧
        decoded Z (payload (streamOf log q.id) ++ (r.status, r.bytes) :: chunks) = some v)
    (hcomplete : ∀ v, r.done = true →
      decoded Z (payload (streamOf log q.id) ++ [(r.status, r.bytes)]) = some v →
      (q, v) ∈ values) :
    Sending Z issued next requests' reading' jobs' values (log ++ [r]) := by
  have hself : streamOf (log ++ [r]) q.id = streamOf log q.id ++ [r] := by
    rw [← hid]
    exact streamOf_push_self log r
  have hother : ∀ id, id ≠ q.id → streamOf (log ++ [r]) id = streamOf log id :=
    fun id hne => streamOf_push_of_ne fun heq => hne (heq.symm.trans hid)
  refine ⟨h.issued_nodup, h.issued_le, fun x hx => h.work_issued x (hsub x hx), hnodup,
    h.values_issued, ?_, ?_, ?_, ?_, ?_, ?_⟩
  · intro x hx
    obtain ⟨hmem, hne⟩ := hwaiting x hx
    rw [hother _ hne]
    exact h.waiting x hmem
  · intro j hj chunks hchunks
    rcases hjobs j hj with ⟨hmem, hne⟩ | ⟨heq, hrest⟩
    · rw [hother _ hne]
      exact h.left j hmem chunks hchunks
    · obtain ⟨hne, v, hv, hdec⟩ := hrest chunks hchunks
      refine ⟨hne, v, hv, ?_⟩
      rw [heq, hself, payload, List.map_append, List.append_assoc]
      exact hdec
  · intro x hx
    rcases List.mem_append.mp hx with hx | hx
    · exact h.replies_issued x hx
    · obtain rfl := List.mem_singleton.mp hx
      exact ⟨q, h.work_issued q hq, hid.symm, hrevision.symm⟩
  · intro x hx hxdone y hy
    rcases List.mem_append.mp hx with hx | hx
    · exact h.finished x hx hxdone y (hsub y hy)
    · obtain rfl := List.mem_singleton.mp hx
      rw [hid]
      exact hdone hxdone y hy
  · intro id before x after hstream hxdone
    by_cases hne : id = q.id
    · -- Nothing in the stream was done before, so what is done is the new reply.
      rw [hne, hself] at hstream
      rcases List.eq_nil_or_concat after with rfl | ⟨after', y, rfl⟩
      · rfl
      · rw [List.concat_eq_append, ← List.cons_append, ← List.append_assoc] at hstream
        obtain ⟨hpre, -⟩ := List.append_inj' hstream rfl
        have hmem : x ∈ streamOf log q.id := by
          rw [hpre]
          simp
        rw [h.not_over hq x hmem] at hxdone
        cases hxdone
    · rw [hother _ hne] at hstream
      exact h.last id before x after hstream hxdone
  · intro id v hover hdec
    by_cases hne : id = q.id
    · obtain ⟨x, hx, hxdone⟩ := hover
      rw [hne, hself] at hx hdec
      rw [payload, List.map_append] at hdec
      rcases List.mem_append.mp hx with hx | hx
      · rw [h.not_over hq x hx] at hxdone
        cases hxdone
      · obtain rfl := List.mem_singleton.mp hx
        exact ⟨q, h.work_issued q hq, hne.symm, hcomplete v hxdone hdec⟩
    · rw [hother _ hne] at hover hdec
      exact h.complete id v hover hdec

end

end Porthop.Clipboard
