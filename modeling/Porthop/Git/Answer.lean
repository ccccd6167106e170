import Porthop.Git.Desktop

/- What an agent's answer says of the action, step by step.

   A process never comes to act on a write it was not asked for, and once it has acted
   every answer left to it is a record or an unknown outcome, never one of the errors the
   desktop takes for a refusal. An action starts only after its record is written, and no
   record goes away. `step_steps` shows all of it for every step, with no condition on
   what `begin` finds. -/
namespace Porthop.Git

/-- An answer a write may give once its action has started. -/
def acted : Reply → Bool
  | .ok _ => true
  | .error e => !(rejectedBeforeMutation e.code || bootstrapRejectedBeforeMutation e.code)

namespace Phase

def busy : Phase → Bool
  | idle => false
  | _ => true

/-- The write whose action the phase can still start. -/
def may : Phase → Option Write
  | lookup w | lock w | recheck w | preflight w | begin w | claim w | claimed w (.ok _)
  | ready w _ => some w
  | _ => none

/-- The write whose record is written and whose action is next. -/
def granted : Phase → Option Write
  | claimed w (.ok _) | ready w _ => some w
  | _ => none

/-- The action has started. -/
def acted : Phase → Bool
  | acting .. | save (.complete _) .. | persist (.complete _) .. | persisted (.complete _) .. =>
    true
  | unwind _ reply | done reply => Git.acted reply
  | _ => false

/-- From phase to phase of one request. -/
structure Leads (ph ph' : Phase) : Prop where
  busy : ph.busy = true
  busy' : ph'.busy = true
  may : ∀ w ∈ ph'.may, w ∈ ph.may
  acted : ph.acted = true → ph'.acted = true

end Phase

theorem complete_reply_acted (w : Write) (reply : Reply) :
    acted ((Saver.complete w).reply reply) = true := by
  cases reply with
  | ok r => cases w <;> rfl
  | error e => cases w <;> rfl

/-- The answer after a save keeps the phase's account of the action. -/
theorem saver_reply_acted {sv : Saver} {i : Digest} {r : Record} {reply : Reply}
    (h : (Phase.save sv i r).acted = true) : acted (sv.reply reply) = true := by
  cases sv with
  | complete w => exact complete_reply_acted w reply
  | mark => cases h
  | review => cases h

/-- A step of the agents, as the desktop can tell it. -/
inductive Steps (s : Sys) (l : Label) : Sys → Prop where
  | born {p : Pid} (c : String) (h : s.procs p = none) : Steps s l (s.goto p c .idle)
  | died {p : Pid} (h : l = .crash p) : Steps s l (s.drop p)
  | arrived {p : Pid} {c : String} {req : Request} (h : l = .arrive p req)
    (hp : s.procs p = some ⟨c, .idle⟩) : Steps s l (s.goto p c req.phase)
  | replied {p : Pid} {c : String} {reply : Reply} (h : l = .reply p)
    (hp : s.procs p = some ⟨c, .done reply⟩) : Steps s l (s.goto p c .idle)
  | went {p : Pid} {c : String} {ph ph' : Phase} {j : Journal} {locks : Digest → Option Pid}
    {catalog : Option Pid} {ended : List (Key × Record)}
    (hp : s.procs p = some ⟨c, ph⟩) (hph : ph.Leads ph')
    (hj : ∀ k ∈ s.journal, k ∈ j) (hgr : ∀ w ∈ ph'.granted, w ∈ ph.granted ∨ ⟨c, w.op⟩ ∈ j) :
    Steps s l ⟨j, locks, catalog, Function.update s.procs p (some ⟨c, ph'⟩), s.started, ended⟩
  | started {p : Pid} {c : String} {w : Write} {r : Record} {locks : Digest → Option Pid}
    {catalog : Option Pid} {ended : List (Key × Record)}
    (hp : s.procs p = some ⟨c, .ready w r⟩) :
    Steps s l ⟨s.journal, locks, catalog,
      Function.update s.procs p (some ⟨c, .acting w r⟩), ⟨c, w.op⟩ :: s.started, ended⟩

section
variable {uuid : String → Option Uuid} {s s' : Sys} {l : Label} {p : Pid} {c : String}
  {ph ph' : Phase}

/-- A step that leaves the journal alone. -/
theorem Steps.kept {locks : Digest → Option Pid} {catalog : Option Pid}
    {ended : List (Key × Record)} (hp : s.procs p = some ⟨c, ph⟩) (hph : ph.Leads ph')
    (hgr : ∀ w ∈ ph'.granted, w ∈ ph.granted) :
    Steps s l ⟨s.journal, locks, catalog, Function.update s.procs p (some ⟨c, ph'⟩),
      s.started, ended⟩ :=
  .went hp hph (fun _ hk => hk) fun w hw => .inl (hgr w hw)

theorem begin_keeps {j j' : Journal} {op : String} {payload repository : Digest} {r : Record}
    (h : Git.begin uuid j c op payload repository = .ok (r, j')) :
    (∀ k ∈ j, k ∈ j') ∧ ⟨c, op⟩ ∈ j' := by
  rcases begin_ok h with ⟨hhit, rfl⟩ | ⟨-, -, rfl, -⟩
  · obtain ⟨f, hf, -⟩ := existing_ok_some hhit
    exact ⟨fun _ hk => hk, AList.lookup_isSome.mp (by rw [hf]; rfl)⟩
  · exact ⟨fun k hk => (AList.mem_insert _).mpr (.inr hk), (AList.mem_insert _).mpr (.inl rfl)⟩

theorem persist_keeps {j j' : Journal} {r : Record} {u : Option Usage}
    (h : persist uuid j c r u = .ok j') : ∀ k ∈ j, k ∈ j' := by
  intro k hk
  rw [persist_ok h]
  exact (AList.mem_insert _).mpr (.inr hk)

theorem advance_steps (hp : s.procs p = some ⟨c, ph⟩) (h : advance uuid s p c ph = some s') :
    Steps s l s' := by
  have quiet : ∀ {ph' : Phase} {locks : Digest → Option Pid} {catalog : Option Pid},
      ph.busy = true → ph.acted = false → ph'.busy = true → ph'.may = none →
      ph'.granted = none →
      Steps s l ⟨s.journal, locks, catalog, Function.update s.procs p (some ⟨c, ph'⟩),
        s.started, s.ended⟩ := by
    intro ph' locks catalog hbusy hacted hbusy' hmay hgr
    exact .kept hp ⟨hbusy, hbusy', by simp [hmay], by simp [hacted]⟩ (by simp [hgr])
  have onward : ∀ {ph' : Phase} {locks : Digest → Option Pid} {catalog : Option Pid},
      ph.busy = true → ph.acted = false → ph'.busy = true → ph'.may = ph.may →
      ph'.granted = ph.granted →
      Steps s l ⟨s.journal, locks, catalog, Function.update s.procs p (some ⟨c, ph'⟩),
        s.started, s.ended⟩ := by
    intro ph' locks catalog hbusy hacted hbusy' hmay hgr
    exact .kept hp ⟨hbusy, hbusy', by simp [hmay], by simp [hacted]⟩ (by simp [hgr])
  cases ph with
  | idle => cases h
  | acting w r => cases h
  | done reply => cases h
  | lookup w =>
    simp only [advance] at h
    split at h <;> cases h
    · exact quiet rfl rfl rfl rfl rfl
    · exact quiet rfl rfl rfl rfl rfl
    · exact onward rfl rfl rfl rfl rfl
  | lock w =>
    simp only [advance] at h
    split at h <;> cases h
    · exact quiet rfl rfl rfl rfl rfl
    · exact onward rfl rfl rfl rfl rfl
  | recheck w =>
    simp only [advance] at h
    split at h <;> cases h
    · exact quiet rfl rfl rfl rfl rfl
    · exact quiet rfl rfl rfl rfl rfl
    · exact onward rfl rfl rfl rfl rfl
  | preflight w =>
    cases h
    exact onward rfl rfl rfl rfl rfl
  | begin w =>
    simp only [advance] at h
    split at h <;> cases h
    · exact quiet rfl rfl rfl rfl rfl
    · exact onward rfl rfl rfl rfl rfl
  | claim w =>
    simp only [advance] at h
    split at h <;> cases h
    · exact quiet rfl rfl rfl rfl rfl
    · next r j hb =>
      obtain ⟨hj, hkey⟩ := begin_keeps hb
      refine .went hp ⟨rfl, rfl, fun _ hw => hw, by simp [Phase.acted]⟩ hj fun w' hw' => .inr ?_
      obtain rfl := Option.some.inj hw'
      exact hkey
  | claimed w reply =>
    cases reply with
    | error e => cases h; exact quiet rfl rfl rfl rfl rfl
    | ok r => cases h; exact onward rfl rfl rfl rfl rfl
  | ready w r =>
    cases h
    exact .started hp
  | save sv i r =>
    simp only [advance] at h
    split at h <;> cases h
    · exact .kept hp ⟨rfl, rfl, by simp [Phase.may], saver_reply_acted⟩ (by simp [Phase.granted])
    · refine .kept hp ⟨rfl, rfl, by simp [Phase.may], ?_⟩ (by simp [Phase.granted])
      cases sv <;> exact id
  | persist sv i r =>
    have hacted : ∀ reply, (Phase.persist sv i r).acted = true →
        (Phase.persisted sv i reply).acted = true := by
      intro reply
      cases sv <;> exact id
    simp only [advance] at h
    split at h <;> cases h
    · exact .kept hp ⟨rfl, rfl, by simp [Phase.may], hacted _⟩ (by simp [Phase.granted])
    · next j hj =>
      exact .went hp ⟨rfl, rfl, by simp [Phase.may], hacted _⟩ (persist_keeps hj)
        (by simp [Phase.granted])
  | persisted sv i reply =>
    cases h
    refine .kept hp ⟨rfl, rfl, by simp [Phase.may], ?_⟩ (by simp [Phase.granted])
    cases sv with
    | complete w => exact fun _ => complete_reply_acted w reply
    | mark => intro h; cases h
    | review => intro h; cases h
  | load op =>
    simp only [advance] at h
    split at h
    · cases h; exact quiet rfl rfl rfl rfl rfl
    · cases h; exact quiet rfl rfl rfl rfl rfl
    · split at h <;> cases h <;> exact quiet rfl rfl rfl rfl rfl
  | probe op r =>
    simp only [advance] at h
    split at h <;> cases h <;> exact quiet rfl rfl rfl rfl rfl
  | mark op r =>
    simp only [advance] at h
    split at h
    · cases h; exact quiet rfl rfl rfl rfl rfl
    · cases h; exact quiet rfl rfl rfl rfl rfl
    · split at h <;> cases h <;> exact quiet rfl rfl rfl rfl rfl
  | reviewLoad op =>
    simp only [advance] at h
    split at h <;> cases h <;> exact quiet rfl rfl rfl rfl rfl
  | reviewLock op r =>
    simp only [advance] at h
    split at h <;> cases h <;> exact quiet rfl rfl rfl rfl rfl
  | confirm op r =>
    simp only [advance] at h
    split at h
    · cases h; exact quiet rfl rfl rfl rfl rfl
    · cases h; exact quiet rfl rfl rfl rfl rfl
    · split at h
      · cases h; exact quiet rfl rfl rfl rfl rfl
      split at h
      · cases h; exact quiet rfl rfl rfl rfl rfl
      · split at h <;> cases h <;> exact quiet rfl rfl rfl rfl rfl
      · cases h; exact quiet rfl rfl rfl rfl rfl
  | unwind i reply =>
    cases h
    exact .kept hp ⟨rfl, rfl, by simp [Phase.may], id⟩ (by simp [Phase.granted])

theorem abort_leads (h : ph.abort = some ph') :
    ph.Leads ph' ∧ ∀ w ∈ ph'.granted, w ∈ ph.granted := by
  cases ph with
  | save sv i r =>
    cases h
    exact ⟨⟨rfl, rfl, by simp [Phase.may], saver_reply_acted⟩, by simp [Phase.granted]⟩
  | persist sv i r =>
    cases h
    refine ⟨⟨rfl, rfl, by simp [Phase.may], ?_⟩, by simp [Phase.granted]⟩
    cases sv <;> exact id
  | _ =>
    cases h <;> exact ⟨⟨rfl, rfl, by simp [Phase.may], by simp [Phase.acted]⟩,
      by simp [Phase.granted]⟩

theorem refuse_leads {e : Error} (h : ph.refuse e = some ph') :
    ph.Leads ph' ∧ ∀ w ∈ ph'.granted, w ∈ ph.granted := by
  cases ph <;> cases h <;>
    exact ⟨⟨rfl, rfl, by simp [Phase.may], by simp [Phase.acted]⟩, by simp [Phase.granted]⟩

/-- **Inversion.** Every step of the agents is one of these. -/
theorem step_steps (h : step uuid s l = some s') : Steps s l s' := by
  cases l with
  | spawn p c =>
    simp only [step] at h
    split at h
    · cases h
    next hp =>
    split at h <;> cases h
    exact .born c hp
  | arrive p req =>
    simp only [step] at h
    split at h <;> cases h
    next hp => exact .arrived rfl hp
  | step p =>
    obtain ⟨⟨c, ph⟩, hp, h⟩ := Option.bind_eq_some_iff.mp h
    exact advance_steps hp h
  | fail p e =>
    obtain ⟨⟨c, ph⟩, hp, h⟩ := Option.bind_eq_some_iff.mp h
    obtain ⟨ph', href, rfl⟩ := Option.map_eq_some_iff.mp h
    obtain ⟨hph, hgr⟩ := refuse_leads href
    exact .kept hp hph hgr
  | finish p outcome =>
    simp only [step] at h
    split at h <;> cases h
    next hp =>
    exact .kept hp ⟨rfl, rfl, by simp [Phase.may], fun _ => rfl⟩ (by simp [Phase.granted])
  | io p =>
    obtain ⟨⟨c, ph⟩, hp, h⟩ := Option.bind_eq_some_iff.mp h
    obtain ⟨ph', hab, rfl⟩ := Option.map_eq_some_iff.mp h
    obtain ⟨hph, hgr⟩ := abort_leads hab
    exact .kept hp hph hgr
  | sync p =>
    obtain ⟨⟨c, ph⟩, hp, h⟩ := Option.bind_eq_some_iff.mp h
    cases ph with
    | claim w =>
      simp only [syncFailed] at h
      split at h <;> cases h
      next hb =>
      exact .went hp ⟨rfl, rfl, by simp [Phase.may], by simp [Phase.acted]⟩ (begin_keeps hb).1
        (by simp [Phase.granted])
    | persist sv i r =>
      simp only [syncFailed] at h
      split at h <;> cases h
      next j hj =>
      refine .went hp ⟨rfl, rfl, by simp [Phase.may], ?_⟩ (persist_keeps hj)
        (by simp [Phase.granted])
      cases sv <;> exact id
    | _ => cases h
  | reply p =>
    simp only [step] at h
    split at h <;> cases h
    next hp => exact .replied rfl hp
  | crash p =>
    obtain ⟨pr, -, rfl⟩ := Option.map_eq_some_iff.mp h
    exact .died rfl

end

end Porthop.Git
