import Porthop.Agent.ShellMerged

/- What is at the path of a start-up file while it is patched and others edit it too. -/
namespace Porthop.Agent.ShellSetup

open Dialogue

/-! ## The file system -/

/-- What is at a path. The text is what reading it gives, behind a link too. -/
structure Entry where
  metadata : Metadata
  text : Text

/-- As far as it concerns the start-up file. -/
structure World where
  /-- What is at the path. -/
  target : Option Entry
  /-- The texts of the backups beside it. -/
  backups : List Text
  /-- The backup that is being written. -/
  backup : Text
  /-- The file that is to replace it. -/
  file : Text
  mode : Nat

def World.text (w : World) : Option Text := w.target.map fun entry => entry.text

/-- Other programs do as they like with the start-up file; the backups stay, and the files that
    are being written are left alone. -/
structure Moves (w w' : World) : Prop where
  backups : ∀ text ∈ w.backups, text ∈ w'.backups
  backup : w'.backup = w.backup
  file : w'.file = w.file

/-- The request is about the file at the path, and changes nothing. -/
def Ask.looks : Ask → Bool
  | .symlinkMetadata => true
  | .readToString => true
  | _ => false

/-- Each request may fail, and only moves the new file to the path as a whole. -/
inductive Does : World → (q : Ask) → q.Reply → World → Prop where
  | fails {w w' : World} (q : Ask) (e : IoError) (htarget : w'.target = w.target)
      (hbackups : w'.backups = w.backups) (hlooks : q.looks = true → w' = w)
      (hnone : q = .symlinkMetadata → e.kind = .notFound → w.target = none) :
      Does w q (.error e) w'
  | found {w : World} (entry : Entry) (h : w.target = some entry) :
      Does w .symlinkMetadata (.ok entry.metadata) w
  | opened (w : World) : Does w .openToWrite (.ok ()) w
  | read {w : World} (entry : Entry) (h : w.target = some entry) :
      Does w .readToString (.ok entry.text) w
  | created (w : World) (dir : String) : Does w (.createDirAll dir) (.ok ()) w
  | backupMade (w : World) (dir before : String) :
      Does w (.backupIn dir before) (.ok ()) { w with backup := [] }
  | backupWritten (w : World) (text : Text) :
      Does w (.backupWrite text) (.ok ()) { w with backup := w.backup ++ text }
  | backupSynced (w : World) : Does w .backupSync (.ok ()) w
  | backupKept (w : World) : Does w .backupKeep (.ok ()) { w with backups := w.backup :: w.backups }
  | fileMade (w : World) (dir : String) : Does w (.fileIn dir) (.ok ()) { w with file := [] }
  | permitted (w : World) (mode : Nat) :
      Does w (.filePermissions mode) (.ok ()) { w with mode := mode }
  | fileWritten (w : World) (text : Text) :
      Does w (.fileWrite text) (.ok ()) { w with file := w.file ++ text }
  | fileSynced (w : World) : Does w .fileSync (.ok ()) w
  | persisted (w : World) (uid ino : Nat) :
      Does w .persist (.ok ()) { w with target := some ⟨⟨true, uid, ino, w.mode⟩, w.file⟩ }

abbrev PatchStep := Dialogue.Step World Ask Ask.Reply

/-- The step does not change what is at the path. -/
def Untouched (s : PatchStep) : Prop := s.after.target = s.before.target

section Steps
variable {w w' : World} {q : Ask} {r : q.Reply}

theorem Does.target (h : Does w q r w') (hq : q ≠ .persist) : w'.target = w.target := by
  cases h with
  | fails _ _ htarget => exact htarget
  | persisted => exact absurd rfl hq
  | _ => rfl

theorem Does.target_error {e : IoError} (h : Does w q (.error e) w') : w'.target = w.target := by
  cases h with
  | fails _ _ htarget => exact htarget

theorem Does.backups (h : Does w q r w') : ∀ text ∈ w.backups, text ∈ w'.backups := by
  intro text htext
  cases h with
  | fails _ _ _ hbackups =>
    rw [hbackups]
    exact htext
  | backupKept => exact List.mem_cons_of_mem _ htext
  | _ => exact htext

end Steps

section Runs
variable {w w' : World} {log : List PatchStep}

theorem linked_untouched (h : Linked Moves Does w log w') (hlog : ∀ s ∈ log, s.asked ≠ .persist) :
    ∀ s ∈ log, Untouched s := by
  induction h with
  | nil w =>
    intro s hs
    cases hs
  | cons hmoves hdoes h ih =>
    obtain ⟨hs, hrest⟩ := List.forall_mem_cons.mp hlog
    exact List.forall_mem_cons.mpr ⟨hdoes.target hs, ih hrest⟩

/-- A backup that is kept stays. -/
theorem linked_backups (h : Linked Moves Does w log w') :
    ∀ text ∈ w.backups, text ∈ w'.backups := by
  induction h with
  | nil w => exact fun text htext => htext
  | cons hmoves hdoes h ih =>
    exact fun text htext => ih text (hdoes.backups text (hmoves.backups text htext))

variable {α : Type}

/-- It never asks for the file to be replaced. -/
def Harmless (p : Action α) : Prop := Asks (fun q => q ≠ .persist) p.run

theorem Harmless.untouched {p : Action α} {a : Except IoError α} (hp : Harmless p)
    (h : Plays Moves Does w p.run log a w') : ∀ s ∈ log, Untouched s := by
  refine linked_untouched h.linked ?_
  intro s hs
  exact hp _ _ h.runs s.exchange (List.mem_map_of_mem hs)

theorem plays_request {q : Ask} {v : q.Value} :
    Plays Moves Does w (ask q).run log (.ok v) w' ↔
      ∃ before, log = [⟨before, q, .ok v, w'⟩] ∧ Moves w before ∧ Does before q (.ok v) w' :=
  plays_question

end Runs

/-! ## What is asked -/

section Harmless
variable {α β : Type}

theorem harmless_ask {q : Ask} (h : q ≠ .persist) : Harmless (ask q) :=
  @Asks.question Ask Ask.Reply _ (fun q => q ≠ .persist) q h _ fun r => Asks.pure r

theorem harmless_attempt {q : Ask} (h : q ≠ .persist) : Harmless (attempt q) :=
  @Asks.question Ask Ask.Reply _ (fun q => q ≠ .persist) q h _ fun r => Asks.pure (Except.ok r)

theorem harmless_pure (a : α) : Harmless (pure a) := Asks.pure (Except.ok a)

theorem harmless_throw (e : IoError) : Harmless (throw e : Action α) := Asks.pure (Except.error e)

theorem harmless_bind {p : Action α} {f : α → Action β} (hp : Harmless p)
    (hf : ∀ a, Harmless (f a)) : Harmless (p >>= f) :=
  Asks.bindExcept hp hf

theorem harmless_ite {c : Prop} [Decidable c] {p p' : Action α} (hp : Harmless p)
    (hp' : Harmless p') : Harmless (if c then p else p') := by
  split
  · exact hp
  · exact hp'

end Harmless

theorem harmless_find (path : Path) (euid : Nat) : Harmless (find path euid) := by
  refine harmless_bind (harmless_attempt (by simp)) ?_
  intro answer
  cases answer with
  | ok m => exact harmless_ite (harmless_pure _) (harmless_throw _)
  | error e => exact harmless_ite (harmless_pure _) (harmless_throw _)

theorem harmless_writable (path : Path) (metadata : Option Metadata) :
    Harmless (writable path metadata) := by
  cases metadata with
  | none => exact harmless_pure ()
  | some m => exact harmless_ite (harmless_throw _) (harmless_ask (by simp))

theorem harmless_content (metadata : Option Metadata) : Harmless (content metadata) := by
  cases metadata with
  | none => exact harmless_pure _
  | some m => exact harmless_ask (by simp)

theorem harmless_ofExcept {α : Type} (r : Except IoError α) : Harmless (ofExcept r) := by
  cases r with
  | ok a => exact harmless_pure a
  | error e => exact harmless_throw e

theorem harmless_backUp (path : Path) (parent : String) (original : Text)
    (metadata : Option Metadata) : Harmless (backUp path parent original metadata) := by
  cases metadata with
  | none => exact harmless_pure ()
  | some m =>
    refine harmless_bind (harmless_ask (by simp)) fun _ => ?_
    refine harmless_bind (harmless_ask (by simp)) fun _ => ?_
    exact harmless_bind (harmless_ask (by simp)) fun _ => harmless_ask (by simp)

theorem harmless_prepare (parent : String) (metadata : Option Metadata) (updated : Text) :
    Harmless (prepare parent metadata updated) := by
  refine harmless_bind (harmless_ask (by simp)) fun _ => ?_
  refine harmless_bind (harmless_ask (by simp)) fun _ => ?_
  exact harmless_bind (harmless_ask (by simp)) fun _ => harmless_ask (by simp)

theorem harmless_recheck (metadata : Option Metadata) (original : Text) :
    Harmless (recheck metadata original) := by
  refine harmless_bind (harmless_attempt (by simp)) ?_
  intro answer
  cases metadata with
  | none =>
    cases answer with
    | ok after => exact harmless_throw _
    | error e => exact harmless_ite (harmless_pure ()) (harmless_throw _)
  | some m =>
    cases answer with
    | ok after =>
      refine harmless_ite ?_ (harmless_throw _)
      refine harmless_bind (harmless_ask (by simp)) fun now => ?_
      exact harmless_ite (harmless_ask (by simp)) (harmless_throw _)
    | error e => exact harmless_throw _

theorem harmless_stage (path : Path) (parent : String) (metadata : Option Metadata)
    (original updated : Text) : Harmless (stage path parent metadata original updated) := by
  refine harmless_bind (harmless_ask (by simp)) fun _ => ?_
  refine harmless_bind (harmless_backUp path parent original metadata) fun _ => ?_
  refine harmless_bind (harmless_prepare parent metadata updated) fun _ => ?_
  exact harmless_recheck metadata original

/-! ## A run that fails -/

/-- Where it fails the file is left as it is. -/
def Careful (p : Action Unit) : Prop :=
  ∀ (w : World) (log : List PatchStep) (e : IoError) (w' : World),
    Plays Moves Does w p.run log (.error e) w' → ∀ s ∈ log, Untouched s

theorem Harmless.careful {p : Action Unit} (h : Harmless p) : Careful p := by
  intro w log e w' run
  exact h.untouched run

theorem careful_bind {α : Type} {p : Action α} {f : α → Action Unit} (hp : Harmless p)
    (hf : ∀ a, Careful (f a)) : Careful (p >>= f) := by
  intro w log e w' run
  rcases plays_bindExcept.mp run with ⟨e', -, hfirst⟩ | ⟨first, rest, a, w₁, rfl, hfirst, hrest⟩
  · exact hp.untouched hfirst
  · exact List.forall_mem_append.mpr ⟨hp.untouched hfirst, hf a w₁ rest e w' hrest⟩

theorem careful_persist : Careful (ask .persist) := by
  intro w log e w' run
  obtain ⟨before, rfl, -, hdoes⟩ := plays_question.mp run
  intro s hs
  rw [List.mem_singleton.mp hs]
  exact hdoes.target_error

theorem careful_patch (path : Path) (euid : Nat) (fish : Bool) :
    Careful (patch path euid fish) := by
  refine careful_bind (harmless_find path euid) fun metadata => ?_
  refine careful_bind (harmless_writable path metadata) fun _ => ?_
  refine careful_bind (harmless_content metadata) fun original => ?_
  refine careful_bind (harmless_ofExcept _) fun updated => ?_
  split
  · exact (harmless_pure ()).careful
  · unfold replace
    split
    · exact (harmless_throw _).careful
    · exact careful_bind (harmless_stage _ _ _ _ _) fun _ => careful_persist

/-! ## A run that ends well -/

section Runs
variable {w w' : World} {log : List PatchStep} {path : Path} {parent : String}
  {metadata : Option Metadata} {original updated : Text}

theorem backUp_ok {m : Metadata} {u : Unit}
    (run : Plays Moves Does w (backUp path parent original (some m)).run log (.ok u) w') :
    original ∈ w'.backups := by
  obtain ⟨_, rest, v, w₁, -, hmade, run⟩ := plays_bindOk.mp run
  obtain ⟨_, rest, v, w₂, -, hwritten, run⟩ := plays_bindOk.mp run
  obtain ⟨_, rest, v, w₃, -, hsynced, hkept⟩ := plays_bindOk.mp run
  obtain ⟨b₁, -, -, d₁⟩ := plays_request.mp hmade
  obtain ⟨b₂, -, m₂, d₂⟩ := plays_request.mp hwritten
  obtain ⟨b₃, -, m₃, d₃⟩ := plays_request.mp hsynced
  obtain ⟨b₄, -, m₄, d₄⟩ := plays_request.mp hkept
  have h₁ : w₁.backup = [] := by
    cases d₁
    rfl
  have h₂ : w₂.backup = b₂.backup ++ original := by
    cases d₂
    rfl
  have h₃ : w₃.backup = b₃.backup := by
    cases d₃
    rfl
  have h₄ : w'.backups = b₄.backup :: b₄.backups := by
    cases d₄
    rfl
  have hbackup : b₄.backup = original := by
    rw [m₄.backup, h₃, m₃.backup, h₂, m₂.backup, h₁, List.nil_append]
  rw [h₄, hbackup]
  exact List.mem_cons_self

theorem prepare_ok {u : Unit}
    (run : Plays Moves Does w (prepare parent metadata updated).run log (.ok u) w') :
    w'.file = updated := by
  obtain ⟨_, rest, v, w₁, -, hmade, run⟩ := plays_bindOk.mp run
  obtain ⟨_, rest, v, w₂, -, hpermitted, run⟩ := plays_bindOk.mp run
  obtain ⟨_, rest, v, w₃, -, hwritten, hsynced⟩ := plays_bindOk.mp run
  obtain ⟨b₁, -, -, d₁⟩ := plays_request.mp hmade
  obtain ⟨b₂, -, m₂, d₂⟩ := plays_request.mp hpermitted
  obtain ⟨b₃, -, m₃, d₃⟩ := plays_request.mp hwritten
  obtain ⟨b₄, -, m₄, d₄⟩ := plays_request.mp hsynced
  have h₁ : w₁.file = [] := by
    cases d₁
    rfl
  have h₂ : w₂.file = b₂.file := by
    cases d₂
    rfl
  have h₃ : w₃.file = b₃.file ++ updated := by
    cases d₃
    rfl
  have h₄ : w'.file = b₄.file := by
    cases d₄
    rfl
  rw [h₄, m₄.file, h₃, m₃.file, h₂, m₂.file, h₁, List.nil_append]

/-- The last look at the file found what was read, and nothing else was looked at after it. -/
def Checked (read : Option Text) (log : List PatchStep) : Prop :=
  ∃ earlier check between, log = earlier ++ check :: between ∧ check.asked.looks = true ∧
    (∀ s ∈ between, s.asked.looks = false) ∧ check.after.text = read

theorem recheck_ok {u : Unit}
    (run : Plays Moves Does w (recheck metadata original).run log (.ok u) w') :
    w'.file = w.file ∧ Checked (metadata.map fun _ => original) log := by
  obtain ⟨first, rest, answer, w₁, rfl, hlook, hrest⟩ := plays_bindOk.mp run
  obtain ⟨b, r, after, tail, rfl, hmoves, hdoes, hdone⟩ := plays_ask.mp hlook
  obtain ⟨rfl, hr, rfl⟩ := plays_done.mp hdone
  rw [Except.ok.injEq] at hr
  subst hr
  cases metadata with
  | none =>
    cases answer with
    | ok after => cases (plays_throwExcept.mp hrest).2.1
    | error e =>
      change Plays _ _ _ (if _ then _ else _ : Action Unit).run _ _ _ at hrest
      split at hrest
      · rename_i hkind
        obtain ⟨rfl, -, rfl⟩ := plays_pureExcept.mp hrest
        cases hdoes with
        | fails _ _ _ _ hlooks hnone =>
          have hw := hlooks rfl
          have htext : b.text = none := by
            unfold World.text
            rw [hnone rfl hkind]
            rfl
          refine ⟨?_, [], _, [], rfl, rfl, by simp, ?_⟩
          · rw [hw]
            exact hmoves.file
          · rw [hw]
            exact htext
      · cases (plays_throwExcept.mp hrest).2.1
  | some m =>
    cases answer with
    | error e => cases (plays_throwExcept.mp hrest).2.1
    | ok seen =>
      have hfile : w₁.file = b.file := by
        cases hdoes
        rfl
      change Plays _ _ _ (if _ then _ else _ : Action Unit).run _ _ _ at hrest
      split at hrest
      · obtain ⟨read, rest, now, w₂, rfl, hread, hlast⟩ := plays_bindOk.mp hrest
        obtain ⟨b₂, rfl, m₂, d₂⟩ := plays_request.mp hread
        by_cases hnow : now = original
        · rw [if_pos hnow] at hlast
          obtain ⟨b₃, rfl, m₃, d₃⟩ := plays_request.mp hlast
          have h₂ : w₂ = b₂ ∧ w₂.text = some original := by
            cases d₂ with
            | read entry hentry =>
              refine ⟨rfl, ?_⟩
              unfold World.text
              rw [hentry, ← hnow]
              rfl
          have h₃ : w' = b₃ := by
            cases d₃
            rfl
          refine ⟨?_, [_], ⟨b₂, .readToString, .ok now, w₂⟩, [_], rfl, rfl, ?_, h₂.2⟩
          · rw [h₃, m₃.file, h₂.1, m₂.file, hfile, hmoves.file]
          · intro s hs
            rw [List.mem_singleton.mp hs]
            rfl
        · rw [if_neg hnow] at hlast
          cases (plays_throwExcept.mp hlast).2.1
      · cases (plays_throwExcept.mp hrest).2.1

theorem stage_ok {u : Unit}
    (run : Plays Moves Does w (stage path parent metadata original updated).run log (.ok u) w') :
    w'.file = updated ∧ (∀ text, (metadata.map fun _ => original) = some text → text ∈ w'.backups) ∧
      Checked (metadata.map fun _ => original) log := by
  obtain ⟨created, rest, v, w₁, rfl, -, hrest⟩ := plays_bindOk.mp run
  obtain ⟨backed, rest, v, w₂, rfl, hbackUp, hrest⟩ := plays_bindOk.mp hrest
  obtain ⟨prepared, rest, v, w₃, rfl, hprepare, hrecheck⟩ := plays_bindOk.mp hrest
  obtain ⟨hfile, earlier, check, between, rfl, hlooks, hbetween, htext⟩ := recheck_ok hrecheck
  refine ⟨?_, ?_, created ++ (backed ++ (prepared ++ earlier)), check, between, ?_, hlooks,
    hbetween, htext⟩
  · rw [hfile, prepare_ok hprepare]
  · intro text htext
    cases metadata with
    | none => cases htext
    | some m =>
      rw [Option.map_some, Option.some.injEq] at htext
      rw [← htext]
      have hkept := linked_backups hprepare.linked original (backUp_ok hbackUp)
      exact linked_backups hrecheck.linked original hkept
  · simp [List.append_assoc]

/-- The file was replaced by its text with the block.

    What was read of it (nothing, when there was none) is what the last look at it found, and is
    kept in a backup. Only the last step changed the file, and it is this text that it replaced,
    unless others edited the file after that look. -/
def Replaced (fish : Bool) (log : List PatchStep) : Prop :=
  ∃ (earlier : List PatchStep) (check : PatchStep) (between : List PatchStep) (last : PatchStep)
    (read : Option Text) (updated : Text),
    log = earlier ++ check :: between ++ [last] ∧ last.asked = .persist ∧
      (∀ s ∈ earlier ++ check :: between, Untouched s) ∧
      (check.asked.looks = true ∧ (∀ s ∈ between, s.asked.looks = false) ∧
        check.after.text = read) ∧
      (last.before.target = check.after.target → last.before.text = read) ∧
      (∀ text, read = some text →
        ⟨.readToString, .ok text⟩ ∈ earlier.map Step.exchange ∧ text ∈ last.before.backups) ∧
      merge (read.getD []) (block fish) = .ok updated ∧ last.after.text = some updated

theorem persist_ok {u : Unit} (run : Plays Moves Does w (ask .persist).run log (.ok u) w') :
    ∃ last, log = [last] ∧ last.asked = .persist ∧ last.after.text = some w.file ∧
      ∀ text ∈ w.backups, text ∈ last.before.backups := by
  obtain ⟨before, rfl, hmoves, hdoes⟩ := plays_request.mp run
  refine ⟨_, rfl, rfl, ?_, hmoves.backups⟩
  rw [← hmoves.file]
  cases hdoes
  rfl

theorem content_ok {text : Text}
    (run : Plays Moves Does w (content metadata).run log (.ok text) w') :
    (metadata.map fun _ => text).getD [] = text ∧
      ∀ t, (metadata.map fun _ => text) = some t →
        ⟨.readToString, .ok t⟩ ∈ log.map Step.exchange := by
  cases metadata with
  | none =>
    obtain ⟨-, htext, -⟩ := plays_pureExcept.mp run
    rw [Except.ok.injEq] at htext
    refine ⟨htext.symm, ?_⟩
    intro t ht
    cases ht
  | some m =>
    obtain ⟨before, rfl, -⟩ := plays_request.mp run
    refine ⟨rfl, ?_⟩
    intro t ht
    rw [Option.map_some, Option.some.injEq] at ht
    rw [← ht]
    exact List.mem_singleton.mpr rfl

theorem ofExcept_ok {α : Type} {r : Except IoError α} {a : α}
    (run : Plays Moves Does w (ofExcept r).run log (.ok a) w') : r = .ok a ∧ log = [] := by
  cases r with
  | ok b =>
    obtain ⟨rfl, hb, -⟩ := plays_pureExcept.mp run
    exact ⟨hb.symm, rfl⟩
  | error e => cases (plays_throwExcept.mp run).2.1

theorem patch_ok {euid : Nat} {fish : Bool} {u : Unit}
    (run : Plays Moves Does w (patch path euid fish).run log (.ok u) w') :
    (∀ s ∈ log, Untouched s) ∨ Replaced fish log := by
  obtain ⟨found, rest₁, metadata, w₁, rfl, hfind, h₁⟩ := plays_bindOk.mp run
  obtain ⟨opened, rest₂, v, w₂, rfl, hwritable, h₂⟩ := plays_bindOk.mp h₁
  obtain ⟨reading, rest₃, original, w₃, rfl, hcontent, h₃⟩ := plays_bindOk.mp h₂
  obtain ⟨merged, rest₄, updated, w₄, rfl, hmerged, h₄⟩ := plays_bindOk.mp h₃
  obtain ⟨hmerge, rfl⟩ := ofExcept_ok hmerged
  obtain ⟨hread, hreading⟩ := content_ok hcontent
  have hfirst : ∀ s ∈ found ++ (opened ++ reading), Untouched s :=
    List.forall_mem_append.mpr ⟨(harmless_find path euid).untouched hfind,
      List.forall_mem_append.mpr ⟨(harmless_writable path metadata).untouched hwritable,
        (harmless_content metadata).untouched hcontent⟩⟩
  by_cases hsame : updated = original
  · rw [if_pos hsame] at h₄
    obtain ⟨rfl, -, -⟩ := plays_pureExcept.mp h₄
    left
    simpa using hfirst
  · rw [if_neg hsame] at h₄
    unfold replace at h₄
    cases hparent : path.parent with
    | none =>
      rw [hparent] at h₄
      cases (plays_throwExcept.mp h₄).2.1
    | some parent =>
      rw [hparent] at h₄
      obtain ⟨staged, rest₅, v, w₅, rfl, hstage, hpersist⟩ := plays_bindOk.mp h₄
      obtain ⟨last, rfl, hlast, htext, hkept⟩ := persist_ok hpersist
      have hstaged := (harmless_stage path parent metadata original updated).untouched hstage
      obtain ⟨hfile, hbackups, earlier, check, between, rfl, hlooks, hbetween, hfound⟩ :=
        stage_ok hstage
      right
      refine ⟨found ++ (opened ++ (reading ++ earlier)), check, between, last,
        metadata.map fun _ => original, updated, ?_, hlast, ?_, ⟨hlooks, hbetween, hfound⟩, ?_,
        ?_, ?_, ?_⟩
      · simp [List.append_assoc]
      · have hall := List.forall_mem_append.mpr ⟨hfirst, hstaged⟩
        simpa [List.append_assoc] using hall
      · intro htarget
        rw [← hfound]
        unfold World.text
        rw [htarget]
      · intro text hsome
        refine ⟨?_, hkept text (hbackups text hsome)⟩
        have hmem := hreading text hsome
        simp only [List.map_append, List.mem_append]
        exact Or.inr (Or.inr (Or.inl hmem))
      · rw [hread]
        exact hmerge
      · rw [htext, hfile]

end Runs

/-! ## A run that nobody disturbs -/

/-- It can end so in this world, with nothing failing and no edits. -/
def Can {α : Type} (w : World) (p : Action α) (a : α) (w' : World) : Prop :=
  ∃ log : List PatchStep, Plays Moves Does w p.run log (.ok a) w'

section Can
variable {α β : Type} {w w' w₁ : World}

theorem Moves.refl (w : World) : Moves w w := ⟨fun _ h => h, rfl, rfl⟩

theorem can_ask {q : Ask} {v : q.Value} (h : Does w q (.ok v) w') : Can w (ask q) v w' :=
  ⟨_, plays_request.mpr ⟨w, rfl, .refl w, h⟩⟩

theorem can_attempt {q : Ask} {r : q.Reply} (h : Does w q r w') : Can w (attempt q) r w' :=
  ⟨_, plays_ask.mpr ⟨w, r, w', [], rfl, .refl w, h, plays_done.mpr ⟨rfl, rfl, rfl⟩⟩⟩

theorem can_pure (a : α) (w : World) : Can w (pure a) a w :=
  ⟨[], plays_pureExcept.mpr ⟨rfl, rfl, rfl⟩⟩

theorem can_bind {p : Action α} {f : α → Action β} {a : α} {b : β} (hp : Can w p a w₁)
    (hf : Can w₁ (f a) b w') : Can w (p >>= f) b w' := by
  obtain ⟨first, hfirst⟩ := hp
  obtain ⟨rest, hrest⟩ := hf
  exact ⟨first ++ rest, plays_bindOk.mpr ⟨first, rest, a, w₁, rfl, hfirst, hrest⟩⟩

/-- The file of an account that it may write is replaced by its text with the block. -/
theorem can_patch {path : Path} {parent : String} {fish : Bool} {entry : Entry} {updated : Text}
    (hparent : path.parent = some parent) (htarget : w.target = some entry)
    (hfile : entry.metadata.isFile = true) (hmode : entry.metadata.mode &&& 0o200 ≠ 0)
    (hmerge : merge entry.text (block fish) = .ok updated) (hne : updated ≠ entry.text) :
    ∃ w', Can w (patch path entry.metadata.uid fish) () w' ∧ w'.text = some updated := by
  -- the worlds after the backup, and after the new file is written
  let kept : World :=
    { w with backup := [] ++ entry.text, backups := ([] ++ entry.text) :: w.backups }
  let written : World := { kept with mode := entry.metadata.mode, file := [] ++ updated }
  let replaced : Entry := ⟨⟨true, entry.metadata.uid, 0, written.mode⟩, written.file⟩
  refine ⟨{ written with target := some replaced }, ?_, rfl⟩
  have hfind : Can w (find path entry.metadata.uid) (some entry.metadata) w := by
    refine can_bind (can_attempt (.found entry htarget)) ?_
    show Can w (if _ then _ else _) _ w
    rw [hfile, beq_self_eq_true, Bool.and_self, if_pos rfl]
    exact can_pure _ w
  have hwritable : Can w (writable path (some entry.metadata)) () w := by
    show Can w (if _ then _ else _) _ w
    rw [if_neg hmode]
    exact can_ask (.opened w)
  have hbackUp : Can w (backUp path parent entry.text (some entry.metadata)) () kept :=
    can_bind (can_ask (.backupMade w _ _)) (can_bind (can_ask (.backupWritten _ _))
      (can_bind (can_ask (.backupSynced _)) (can_ask (.backupKept _))))
  have hprepare : Can kept (prepare parent (some entry.metadata) updated) () written :=
    can_bind (can_ask (.fileMade _ _)) (can_bind (can_ask (.permitted _ _))
      (can_bind (can_ask (.fileWritten _ _)) (can_ask (.fileSynced _))))
  have hrecheck : Can written (recheck (some entry.metadata) entry.text) () written := by
    refine can_bind (can_attempt (.found entry htarget)) ?_
    show Can written (if _ then _ else _) _ written
    rw [hfile, beq_self_eq_true, beq_self_eq_true, beq_self_eq_true, Bool.and_self, Bool.and_self,
      Bool.and_self, if_pos rfl]
    refine can_bind (can_ask (.read entry htarget)) ?_
    rw [if_pos rfl]
    exact can_ask (.opened written)
  refine can_bind hfind (can_bind hwritable (can_bind (can_ask (.read entry htarget)) ?_))
  rw [hmerge]
  refine can_bind (can_pure updated w) ?_
  rw [if_neg hne]
  unfold replace
  rw [hparent]
  have hstage : Can w (stage path parent (some entry.metadata) entry.text updated) () written :=
    can_bind (can_ask (.created w parent)) (can_bind hbackUp (can_bind hprepare hrecheck))
  exact can_bind hstage (can_ask (.persisted written entry.metadata.uid 0))

end Can

/-! ## The start-up file -/

/-- Merging gives a text with one block and all lines around it as they were, fails exactly on
    markers that are not one block, and gives the same again. Patching leaves the file as it is
    when it fails. When it ends well, it has not changed the file or has replaced it by its text
    with the block: the text that it had read is in a backup, the last look at the file found
    just this text, and so it is what is replaced, unless another program edited the file after
    that look. -/
theorem startup_file_kept {fish : Bool} {text : Text} {path : Path} {euid : Nat} {w w' : World}
    {log : List PatchStep} {result : Except IoError Unit}
    (run : Plays Moves Does w (patch path euid fish).run log result w') :
    ((∃ e, merge text (block fish) = .error e) ↔
      ¬ (NoMarkers text ∨ ∃ before old after, Around text before old after)) ∧
    (∀ updated, merge text (block fish) = .ok updated →
      Replaces text (block fish) updated ∧ merge updated (block fish) = .ok updated) ∧
    IsBlock (lines (block fish)) ∧
    (∀ e, result = .error e → ∀ s ∈ log, Untouched s) ∧
    (result = .ok () → (∀ s ∈ log, Untouched s) ∨ Replaced fish log) := by
  refine ⟨merge_fails_iff text (block fish), ?_, block_isBlock fish, ?_, ?_⟩
  · intro updated h
    exact ⟨merge_replaces h, (merge_replaces h).merge_again⟩
  · rintro e rfl
    exact careful_patch path euid fish w log e w' run
  · rintro rfl
    exact patch_ok run

theorem empty_file_replaced : ∃ (log : List PatchStep) (w' : World),
    Plays Moves Does ⟨some ⟨⟨true, 1000, 7, 0o644⟩, []⟩, [], [], [], 0⟩
      (patch ⟨"/home/u/.bashrc", ".bashrc", some "/home/u"⟩ 1000 false).run log (.ok ()) w' ∧
    w'.text = some (block false) ∧ ((∀ s ∈ log, Untouched s) ∨ Replaced false log) := by
  have hnone : NoMarkers [] := by
    intro line hline
    cases hline
  have hne : block false ≠ [] := by decide +kernel
  obtain ⟨w', ⟨log, run⟩, htext⟩ := @can_patch ⟨some ⟨⟨true, 1000, 7, 0o644⟩, []⟩, [], [], [], 0⟩
    ⟨"/home/u/.bashrc", ".bashrc", some "/home/u"⟩ "/home/u" false ⟨⟨true, 1000, 7, 0o644⟩, []⟩
    (block false) rfl rfl rfl (by decide) (merge_plain hnone (block false)) hne
  exact ⟨log, w', run, htext, (@startup_file_kept false [] _ _ _ _ _ _ run).2.2.2.2 rfl⟩

end Porthop.Agent.ShellSetup
