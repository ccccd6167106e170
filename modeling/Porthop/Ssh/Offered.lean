import Porthop.Ssh.Auth

/- What the server is offered while the user authenticates, whatever it answers
   (`ssh/auth.rs`). -/
namespace Porthop.Ssh

open Profile (Server)
open Dialogue (Runs Exchange runs_done runs_ask runs_bindExcept runs_pureExcept runs_throwExcept)

section
variable {κ : Type}

abbrev AuthLog (κ : Type) := List (Exchange (Ask κ) Ask.Reply)

namespace Ask

def credential : Ask κ → Option (Credential κ)
  | publickey _ credential => some credential
  | _ => none

def isPassword : Ask κ → Bool
  | password _ _ => true
  | _ => false

def isResponse : Ask κ → Bool
  | keyboardInteractiveRespond _ => true
  | _ => false

/-- The request offers a key, the password or an answer to a challenge. -/
def offers (q : Ask κ) : Bool := q.credential.isSome || q.isPassword || q.isResponse

end Ask

/-- The server took what it was sent. -/
def accepted : Exchange (Ask κ) Ask.Reply → Bool
  | ⟨.bestSupportedRsaHash, _⟩ => false
  | ⟨.publickey _ _, r⟩ => match (r : Except AuthError AuthResult) with
    | .ok result => result.isSuccess
    | .error _ => false
  | ⟨.password _ _, r⟩ => match (r : Except AuthError AuthResult) with
    | .ok result => result.isSuccess
    | .error _ => false
  | ⟨.keyboardInteractiveStart _, r⟩ =>
    match (r : Except AuthError KeyboardInteractiveAuthResponse) with
    | .ok reply => reply = .success
    | .error _ => false
  | ⟨.keyboardInteractiveRespond _, r⟩ =>
    match (r : Except AuthError KeyboardInteractiveAuthResponse) with
    | .ok reply => reply = .success
    | .error _ => false

/-- The prompts of the challenge that the server answered with. -/
def challenge : Exchange (Ask κ) Ask.Reply → Option (List Prompt)
  | ⟨.keyboardInteractiveStart _, r⟩ =>
    match (r : Except AuthError KeyboardInteractiveAuthResponse) with
    | .ok (.infoRequest _ _ prompts) => some prompts
    | _ => none
  | ⟨.keyboardInteractiveRespond _, r⟩ =>
    match (r : Except AuthError KeyboardInteractiveAuthResponse) with
    | .ok (.infoRequest _ _ prompts) => some prompts
    | _ => none
  | _ => none

/-- The last thing sent was taken. -/
def EndsAccepted (log : AuthLog κ) : Prop := ∃ before x, log = before ++ [x] ∧ accepted x = true

theorem EndsAccepted.append {log : AuthLog κ} (h : EndsAccepted log) (before : AuthLog κ) :
    EndsAccepted (before ++ log) := by
  obtain ⟨before', x, rfl, hx⟩ := h
  exact ⟨before ++ before', x, (List.append_assoc before before' [x]).symm, hx⟩

/-! ## Keys -/

/-- Nothing but keys was offered, each of them an allowed one, and the last was taken if the
    result says so. -/
structure Offered (P : Credential κ → Prop) (log : AuthLog κ) (b : Except AuthError Bool) :
    Prop where
  only : ∀ x ∈ log, ∃ user c, x.1 = .publickey user c ∧ P c
  success : b = .ok true → EndsAccepted log

theorem Offered.nil {P : Credential κ → Prop} {b : Except AuthError Bool} (h : b ≠ .ok true) :
    Offered P [] b :=
  ⟨fun _ hx => absurd hx List.not_mem_nil, fun heq => absurd heq h⟩

theorem Offered.append {P : Credential κ → Prop} {first rest : AuthLog κ}
    {a b : Except AuthError Bool} (ha : Offered P first a) (hb : Offered P rest b) :
    Offered P (first ++ rest) b := by
  refine ⟨fun x hx => ?_, fun heq => (hb.success heq).append first⟩
  rcases List.mem_append.mp hx with hx | hx
  · exact ha.only x hx
  · exact hb.only x hx

theorem Offered.weaken {P P' : Credential κ → Prop} {log : AuthLog κ} {b : Except AuthError Bool}
    (h : Offered P log b) (himp : ∀ c, P c → P' c) : Offered P' log b := by
  refine ⟨fun x hx => ?_, h.success⟩
  obtain ⟨user, c, hc, hP⟩ := h.only x hx
  exact ⟨user, c, hc, himp c hP⟩

variable {log : AuthLog κ} {user : String} {hash : Option HashAlg} {b : Except AuthError Bool}

theorem runs_local {α : Type} {x a : Except AuthError α} :
    Runs (Attempt.local (κ := κ) x).run log a ↔ log = [] ∧ a = x := runs_done

theorem runs_askPublickey {c : Credential κ} {a : Except AuthError AuthResult} :
    Runs (askPublickey user c).run log a ↔ log = [⟨.publickey user c, a⟩] :=
  Dialogue.runs_question (R := Ask.Reply) (q := .publickey user c)

theorem runs_askRsaHash {a : Except AuthError (Option (Option HashAlg))} :
    Runs (askRsaHash (κ := κ)).run log a ↔ log = [⟨.bestSupportedRsaHash, a⟩] :=
  Dialogue.runs_question (R := Ask.Reply) (q := .bestSupportedRsaHash)

/-- One offer, whatever comes of it. -/
theorem offered_one (c : Credential κ) (a : Except AuthError AuthResult)
    (h : b = .ok true → a = .ok .success) :
    Offered (· = c) [⟨.publickey user c, a⟩] b := by
  constructor
  · intro x hx
    obtain rfl := List.mem_singleton.mp hx
    exact ⟨user, c, rfl, rfl⟩
  · intro heq
    refine ⟨[], ⟨.publickey user c, a⟩, rfl, ?_⟩
    rw [h heq]
    rfl

theorem offerFile_offered {key : PrivateKey κ} (h : Runs (offerFile user key hash).run log b) :
    Offered (· = .file key hash) log b := by
  rw [offerFile] at h
  obtain ⟨e, rfl, hask⟩ | ⟨first, rest, result, rfl, hask, hrest⟩ := runs_bindExcept.mp h
  · rw [runs_askPublickey.mp hask]
    exact offered_one _ _ (fun heq => by cases heq)
  · obtain ⟨rfl, rfl⟩ := runs_pureExcept.mp hrest
    rw [runs_askPublickey.mp hask, List.append_nil]
    refine offered_one _ _ fun heq => ?_
    cases result with
    | success => rfl
    | failure closed => cases heq

/-- An identity of the agent is offered once, and a selected one that is turned down ends the
    attempt. -/
theorem authenticateIdentity_offered {identity : AgentIdentity κ} {selected : Bool}
    (h : Runs (authenticateIdentity user identity hash selected).run log b) :
    Offered (· = identity.credential hash) log b ∧ log.length = 1 ∧
      (selected = true → b ≠ .ok false) := by
  rw [authenticateIdentity] at h
  obtain ⟨e, rfl, hask⟩ | ⟨first, rest, result, rfl, hask, hrest⟩ := runs_bindExcept.mp h
  · rw [runs_askPublickey.mp hask]
    exact ⟨offered_one _ _ (fun heq => by cases heq), rfl, fun _ heq => by cases heq⟩
  · rw [runs_askPublickey.mp hask]
    cases result with
    | success =>
      obtain ⟨rfl, rfl⟩ := runs_pureExcept.mp hrest
      exact ⟨offered_one _ _ (fun _ => rfl), rfl, fun _ heq => by cases heq⟩
    | failure closed =>
      change Runs (ExceptT.run (if closed = true then _ else if selected = true then _ else _))
        rest b at hrest
      split at hrest
      · obtain ⟨rfl, rfl⟩ := runs_throwExcept.mp hrest
        exact ⟨offered_one _ _ (fun heq => by cases heq), rfl, fun _ heq => by cases heq⟩
      · split at hrest
        · obtain ⟨rfl, rfl⟩ := runs_throwExcept.mp hrest
          exact ⟨offered_one _ _ (fun heq => by cases heq), rfl, fun _ heq => by cases heq⟩
        · next hselected =>
          obtain ⟨rfl, rfl⟩ := runs_pureExcept.mp hrest
          exact ⟨offered_one _ _ (fun heq => by cases heq), rfl,
            fun heq => absurd heq hselected⟩

section
variable {M : Machine κ}

theorem offerDefaults_offered {home : String} {names : List String}
    (h : Runs (offerDefaults M user home hash names).run log b) :
    Offered (fun _ => True) log b := by
  induction names generalizing log b with
  | nil =>
    obtain ⟨rfl, rfl⟩ := runs_pureExcept.mp h
    exact Offered.nil (fun heq => by cases heq)
  | cons name names ih =>
    rw [offerDefaults] at h
    split at h
    · exact ih h
    · split at h
      · exact ih h
      · obtain ⟨e, rfl, hask⟩ | ⟨first, rest, taken, rfl, hask, hrest⟩ := runs_bindExcept.mp h
        · exact (offerFile_offered hask).weaken fun _ _ => trivial
        · have hfirst : Offered (fun _ => True) first (.ok taken) :=
            (offerFile_offered hask).weaken fun _ _ => trivial
          cases taken with
          | true =>
            obtain ⟨rfl, rfl⟩ := runs_pureExcept.mp hrest
            rwa [List.append_nil]
          | false => exact hfirst.append (ih hrest)

end

section
variable [DecidableEq κ] {M : Machine κ} {server : Server} {selected : Option (PrivateKey κ)}

/-- The identities that are not passed over, in order until one is taken. With a selected
    fingerprint there is one offer at most. -/
theorem offerIdentities_offered {identities : List (AgentIdentity κ)}
    (h : Runs (offerIdentities M server selected hash identities).run log b) :
    Offered (fun c => ∃ identity ∈ identities, c = identity.credential hash ∧
      skips M server selected identity = false) log b ∧
    (server.agentKeyFingerprint.isSome = true →
      log.length ≤ 1 ∧ (b = .ok false → log = [])) := by
  induction identities generalizing log b with
  | nil =>
    obtain ⟨rfl, rfl⟩ := runs_pureExcept.mp h
    exact ⟨Offered.nil (fun heq => by cases heq), fun _ => ⟨Nat.zero_le 1, fun _ => rfl⟩⟩
  | cons identity identities ih =>
    rw [offerIdentities] at h
    have htail : ∀ c, (∃ i ∈ identities, c = i.credential hash ∧
        skips M server selected i = false) → ∃ i ∈ identity :: identities,
          c = i.credential hash ∧ skips M server selected i = false :=
      fun c ⟨i, hi, hc⟩ => ⟨i, List.mem_cons_of_mem identity hi, hc⟩
    split at h
    · obtain ⟨hoffered, hone⟩ := ih h
      exact ⟨hoffered.weaken htail, hone⟩
    · next hskips =>
      have hhead : ∀ c, c = identity.credential hash → ∃ i ∈ identity :: identities,
          c = i.credential hash ∧ skips M server selected i = false :=
        fun c hc => ⟨identity, List.mem_cons_self, hc, eq_false_of_ne_true hskips⟩
      obtain ⟨e, rfl, hask⟩ | ⟨first, rest, taken, rfl, hask, hrest⟩ := runs_bindExcept.mp h
      · obtain ⟨hoffered, hlength, -⟩ := authenticateIdentity_offered hask
        exact ⟨hoffered.weaken hhead, fun _ => ⟨Nat.le_of_eq hlength, fun heq => by cases heq⟩⟩
      · obtain ⟨hoffered, hlength, hselected⟩ := authenticateIdentity_offered hask
        cases taken with
        | true =>
          obtain ⟨rfl, rfl⟩ := runs_pureExcept.mp hrest
          rw [List.append_nil]
          exact ⟨hoffered.weaken hhead, fun _ => ⟨Nat.le_of_eq hlength, fun heq => by cases heq⟩⟩
        | false =>
          obtain ⟨hoffered', -⟩ := ih hrest
          exact ⟨(hoffered.weaken hhead).append (hoffered'.weaken htail),
            fun hsome => absurd rfl (hselected hsome)⟩

end

/-! ## The selection -/

section
variable {M : Machine κ} {server : Server} {selected : Option (PrivateKey κ)}

/-- The key is that of the selected file, where there is one, and it comes from the agent under
    the selected fingerprint, where there is one. -/
structure Allowed (M : Machine κ) (server : Server) (c : Credential κ) : Prop where
  file : ∀ file : String, server.identityFile = some file → file ≠ "" →
    ∃ path key, identityPath M file = .ok path ∧ M.keyFile path = some key ∧
      c.keyData = key.keyData
  identity : ∀ fingerprint : String, server.agentKeyFingerprint = some fingerprint →
    M.fingerprint c.keyData = fingerprint ∧ ∃ identities identity hash,
      M.agent server.agentSource = .ok (.ok identities) ∧ identity ∈ identities ∧
        c = identity.credential hash

theorem keyData_credential (identity : AgentIdentity κ) (hash : Option HashAlg) :
    (identity.credential hash).keyData = identity.keyData := by
  cases identity with
  | publicKey key comment => rfl
  | certificate cert comment => rfl

theorem readIdentity_ok {path : String} {key : PrivateKey κ}
    (h : readIdentity M path = .ok key) : M.keyFile path = some key := by
  rw [readIdentity] at h
  cases hfile : M.keyFile path with
  | none =>
    rw [hfile] at h
    cases h
  | some key' =>
    rw [hfile] at h
    rw [Except.ok.inj h]

theorem selectedKey_ok (h : selectedKey M server = .ok selected) :
    (∀ file : String, server.identityFile = some file → file ≠ "" → ∃ path key,
      identityPath M file = .ok path ∧ M.keyFile path = some key ∧ selected = some key) ∧
    (server.identityFile.any (· ≠ "") = false → selected = none) := by
  rw [selectedKey] at h
  cases hfile : server.identityFile with
  | none =>
    rw [hfile] at h
    exact ⟨fun file heq => (by cases heq), fun _ => (Except.ok.inj h).symm⟩
  | some file =>
    rw [hfile] at h
    by_cases hempty : file = ""
    · have hfilter : (some file).filter (fun s => decide (s ≠ "")) = none := by
        rw [hempty]
        rfl
      rw [hfilter] at h
      refine ⟨fun file' heq hne => ?_, fun _ => (Except.ok.inj h).symm⟩
      rw [← Option.some.inj heq] at hne
      exact absurd hempty hne
    · have hfilter : (some file).filter (fun s => decide (s ≠ "")) = some file := by
        rw [Option.filter_some, if_pos (decide_eq_true hempty)]
      rw [hfilter] at h
      refine ⟨fun file' heq _ => ?_, fun hany => ?_⟩
      · obtain rfl := Option.some.inj heq
        change (identityPath M file >>= fun path => readIdentity M path >>= fun key =>
          pure (some key)) = _ at h
        cases hpath : identityPath M file with
        | error e =>
          rw [hpath] at h
          cases h
        | ok path =>
          rw [hpath] at h
          change (readIdentity M path >>= fun key => pure (some key)) = _ at h
          cases hkey : readIdentity M path with
          | error e =>
            rw [hkey] at h
            cases h
          | ok key =>
            rw [hkey] at h
            exact ⟨path, key, rfl, readIdentity_ok hkey, (Except.ok.inj h).symm⟩
      · rw [Option.any_some, decide_eq_false_iff_not] at hany
        exact absurd hempty hany

/-- A profile with a fingerprint has no key file. -/
theorem file_of_fingerprint {A : Profile.Addresses} (h : server.validate A = .ok ())
    (hsome : server.agentKeyFingerprint.isSome = true) :
    server.identityFile.any (· ≠ "") = false := by
  by_contra hfile
  rw [Server.validate] at h
  split at h
  · cases h
  · split at h
    · cases h
    · split at h
      · cases h
      · next hboth => exact hboth ⟨hsome, by simpa using hfile⟩

/-- What is tried last is tried only where neither a file nor a fingerprint is selected. -/
theorem fallBack_offered {b : Except AuthError Unit}
    (h : Runs (fallBack M server selected hash).run log b) :
    (∀ x ∈ log, server.agentKeyFingerprint = none ∧ selected = none ∧
      ∃ user c, x.1 = .publickey user c) ∧ (b = .ok () → EndsAccepted log) ∧
      (server.agentKeyFingerprint.isSome = true → log = []) := by
  rw [fallBack] at h
  split at h
  · obtain ⟨rfl, rfl⟩ := runs_throwExcept.mp h
    exact ⟨fun _ hx => absurd hx List.not_mem_nil, fun heq => (by cases heq), fun _ => rfl⟩
  · next hfp =>
    split at h
    · obtain ⟨rfl, rfl⟩ := runs_throwExcept.mp h
      exact ⟨fun _ hx => absurd hx List.not_mem_nil, fun heq => (by cases heq), fun _ => rfl⟩
    · next hselected =>
      split at h
      · obtain ⟨rfl, rfl⟩ := runs_throwExcept.mp h
        exact ⟨fun _ hx => absurd hx List.not_mem_nil, fun heq => (by cases heq), fun _ => rfl⟩
      · have hnone := Option.not_isSome_iff_eq_none.mp hfp
        have hnoFile := Option.not_isSome_iff_eq_none.mp hselected
        obtain ⟨e, rfl, hask⟩ | ⟨first, rest, taken, rfl, hask, hrest⟩ := runs_bindExcept.mp h
        · have hoffered := offerDefaults_offered hask
          refine ⟨fun x hx => ?_, fun heq => (by cases heq), fun hsome => absurd hsome hfp⟩
          obtain ⟨user, c, hc, -⟩ := hoffered.only x hx
          exact ⟨hnone, hnoFile, user, c, hc⟩
        · have hoffered := offerDefaults_offered hask
          have hb : rest = [] ∧ (b = .ok () → taken = true) := by
            cases taken with
            | true => exact ⟨(runs_pureExcept.mp hrest).1, fun _ => rfl⟩
            | false =>
              obtain ⟨hnil, hthrow⟩ := runs_throwExcept.mp hrest
              exact ⟨hnil, fun heq => (by rw [hthrow] at heq; cases heq)⟩
          rw [hb.1, List.append_nil]
          refine ⟨fun x hx => ?_, fun heq => hoffered.success (by rw [hb.2 heq]),
            fun hsome => absurd hsome hfp⟩
          obtain ⟨user, c, hc, -⟩ := hoffered.only x hx
          exact ⟨hnone, hnoFile, user, c, hc⟩

theorem offerSelected_offered {b : Except AuthError Bool}
    (h : Runs (offerSelected user selected hash).run log b) :
    Offered (fun c => ∃ key, selected = some key ∧ c = .file key hash) log b ∧
      (selected = none → log = []) := by
  rw [offerSelected] at h
  split at h
  · obtain ⟨rfl, rfl⟩ := runs_pureExcept.mp h
    exact ⟨Offered.nil (fun heq => by cases heq), fun _ => rfl⟩
  · next key hkey =>
    have hselected : selected = some key := (Option.filter_eq_some_iff.mp hkey).1
    refine ⟨(offerFile_offered h).weaken fun c hc => ⟨key, hselected, hc⟩, fun hnone => ?_⟩
    rw [hnone] at hselected
    cases hselected

theorem agentIdentities_ok {identities : List (AgentIdentity κ)}
    (h : agentIdentities M server = .ok identities) :
    (identities = [] ∧ server.agentKeyFingerprint = none) ∨
      M.agent server.agentSource = .ok (.ok identities) := by
  rw [agentIdentities] at h
  split at h
  · split at h
    · cases h
    · next hfp =>
      exact Or.inl ⟨(Except.ok.inj h).symm, Option.not_isSome_iff_eq_none.mp hfp⟩
  · cases h
  · next identities' hagent => exact Or.inr (by rw [hagent, Except.ok.inj h])

/-- Nothing is sent but the wait for the server's hashes and allowed keys. -/
def OnlyKeys (M : Machine κ) (server : Server) (log : AuthLog κ) : Prop :=
  ∀ x ∈ log, x.1 = .bestSupportedRsaHash ∨
    ∃ user c, x.1 = .publickey user c ∧ Allowed M server c

theorem OnlyKeys.append {first rest : AuthLog κ} (h : OnlyKeys M server first)
    (h' : OnlyKeys M server rest) : OnlyKeys M server (first ++ rest) := by
  intro x hx
  exact (List.mem_append.mp hx).elim (h x) (h' x)

theorem onlyKeys_nil : OnlyKeys M server [] := fun _ hx => absurd hx List.not_mem_nil

theorem Offered.onlyKeys {P : Credential κ → Prop} {b : Except AuthError Bool}
    (h : Offered P log b) (himp : ∀ c, P c → Allowed M server c) : OnlyKeys M server log := by
  intro x hx
  obtain ⟨user, c, hc, hP⟩ := h.only x hx
  exact Or.inr ⟨user, c, hc, himp c hP⟩

/-- The key of the selected file. -/
theorem allowed_file {A : Profile.Addresses} (hvalid : server.validate A = .ok ())
    (hkey : selectedKey M server = .ok selected) (c : Credential κ)
    (h : ∃ key, selected = some key ∧ c = .file key hash) : Allowed M server c := by
  obtain ⟨key, rfl, rfl⟩ := h
  obtain ⟨hfile, hnone⟩ := selectedKey_ok hkey
  constructor
  · intro file hsome hne
    obtain ⟨path, key', hpath, hread, heq⟩ := hfile file hsome hne
    exact ⟨path, key', hpath, hread, congrArg PrivateKey.keyData (Option.some.inj heq)⟩
  · intro fingerprint hfp
    have hsome : server.agentKeyFingerprint.isSome = true := by
      rw [hfp]
      rfl
    have hnokey := hnone (file_of_fingerprint hvalid hsome)
    cases hnokey

/-- An identity of the agent that is not passed over. -/
theorem allowed_identity [DecidableEq κ] {identities : List (AgentIdentity κ)}
    (hkey : selectedKey M server = .ok selected)
    (hids : agentIdentities M server = .ok identities) (c : Credential κ)
    (h : ∃ identity ∈ identities, c = identity.credential hash ∧
      skips M server selected identity = false) : Allowed M server c := by
  obtain ⟨identity, hmem, rfl, hskips⟩ := h
  rw [skips, Bool.or_eq_false_iff] at hskips
  constructor
  · intro file hsome hne
    obtain ⟨path, key, hpath, hread, rfl⟩ := (selectedKey_ok hkey).1 file hsome hne
    have heq : key.keyData = identity.keyData := by simpa using hskips.2
    exact ⟨path, key, hpath, hread, (keyData_credential identity hash).trans heq.symm⟩
  · intro fingerprint hfp
    have hname := hskips.1
    rw [hfp, Option.any_some] at hname
    have heq : M.fingerprint identity.keyData = fingerprint := by simpa using hname
    rcases agentIdentities_ok hids with ⟨rfl, -⟩ | hagent
    · cases hmem
    · exact ⟨by rw [keyData_credential, heq], identities, identity, hash, hagent, hmem, rfl⟩

/-- What is sent where the server's method is a key. -/
structure KeysSent (M : Machine κ) (server : Server) (log : AuthLog κ)
    (result : Except AuthError Unit) : Prop where
  only : OnlyKeys M server log
  success : result = .ok () → EndsAccepted log
  once : server.agentKeyFingerprint.isSome = true → ∃ before rest, log = before ++ rest ∧
    (∀ x ∈ before, x.1 = .bestSupportedRsaHash) ∧ rest.length ≤ 1 ∧
    ((∀ identities, M.agent server.agentSource ≠ .ok (.ok identities)) → rest = [])

/-- With a fingerprint nothing is offered before the agent gave its identities, and then one of
    them at most. -/
theorem KeysSent.append {before rest : AuthLog κ} {result : Except AuthError Unit}
    (hbefore : OnlyKeys M server before)
    (hwait : server.agentKeyFingerprint.isSome = true → ∀ x ∈ before, x.1 = .bestSupportedRsaHash)
    (honly : OnlyKeys M server rest) (hsuccess : result = .ok () → EndsAccepted rest)
    (honce : server.agentKeyFingerprint.isSome = true → rest.length ≤ 1 ∧
      ((∀ identities, M.agent server.agentSource ≠ .ok (.ok identities)) → rest = [])) :
    KeysSent M server (before ++ rest) result :=
  ⟨hbefore.append honly, fun heq => (hsuccess heq).append before, fun hsome =>
    ⟨before, rest, rfl, hwait hsome, honce hsome⟩⟩

theorem KeysSent.stop {before : AuthLog κ} {e : AuthError} (hbefore : OnlyKeys M server before)
    (hwait : server.agentKeyFingerprint.isSome = true →
      ∀ x ∈ before, x.1 = .bestSupportedRsaHash) : KeysSent M server before (.error e) := by
  have hsent : KeysSent M server (before ++ []) (.error e) :=
    KeysSent.append hbefore hwait onlyKeys_nil
      (fun heq => by cases heq) fun _ => ⟨Nat.zero_le 1, fun _ => rfl⟩
  rwa [List.append_nil] at hsent

theorem keyAuth_keysSent [DecidableEq κ] {A : Profile.Addresses} {result : Except AuthError Unit}
    (hvalid : server.validate A = .ok ()) (h : Runs (keyAuth M server).run log result) :
    KeysSent M server log result := by
  rw [keyAuth] at h
  obtain ⟨e, rfl, hlocal⟩ | ⟨first, log, selected, rfl, hlocal, h₁⟩ := runs_bindExcept.mp h
  · rw [(runs_local.mp hlocal).1]
    exact KeysSent.stop onlyKeys_nil fun _ _ hx => absurd hx List.not_mem_nil
  obtain ⟨rfl, hkey⟩ := runs_local.mp hlocal
  rw [List.nil_append]
  have hnokey : server.agentKeyFingerprint.isSome = true → selected = none := fun hsome =>
    (selectedKey_ok hkey.symm).2 (file_of_fingerprint hvalid hsome)
  have hrsa : ∀ a x, x ∈ ([⟨.bestSupportedRsaHash, a⟩] : AuthLog κ) →
      x.1 = .bestSupportedRsaHash := by
    intro a x hx
    rw [List.mem_singleton.mp hx]
  obtain ⟨e, rfl, hask⟩ | ⟨waited, log, hash, rfl, hask, h₂⟩ := runs_bindExcept.mp h₁
  · rw [runs_askRsaHash.mp hask]
    exact KeysSent.stop (fun x hx => Or.inl (hrsa _ x hx)) fun _ => hrsa _
  rw [runs_askRsaHash.mp hask]
  have hfile : ∀ c, (∃ key, selected = some key ∧ c = .file key hash.join) → Allowed M server c :=
    allowed_file hvalid hkey.symm
  obtain ⟨e, rfl, hfirst⟩ | ⟨offered, log, taken, rfl, hfirst, h₃⟩ := runs_bindExcept.mp h₂
  · obtain ⟨hoffered, hnone⟩ := offerSelected_offered hfirst
    refine KeysSent.append (fun x hx => Or.inl (hrsa _ x hx)) (fun _ => hrsa _)
      (hoffered.onlyKeys hfile) (fun heq => by cases heq) fun hsome => ?_
    rw [hnone (hnokey hsome)]
    exact ⟨Nat.zero_le 1, fun _ => rfl⟩
  obtain ⟨hoffered, hnone⟩ := offerSelected_offered hfirst
  cases taken with
  | true =>
    obtain ⟨rfl, rfl⟩ := runs_pureExcept.mp h₃
    rw [List.append_nil]
    refine KeysSent.append (fun x hx => Or.inl (hrsa _ x hx)) (fun _ => hrsa _)
      (hoffered.onlyKeys hfile) (fun _ => hoffered.success rfl) fun hsome => ?_
    rw [hnone (hnokey hsome)]
    exact ⟨Nat.zero_le 1, fun _ => rfl⟩
  | false =>
    rw [← List.append_assoc]
    have hbefore : OnlyKeys M server ([⟨.bestSupportedRsaHash, .ok hash⟩] ++ offered) :=
      OnlyKeys.append (fun x hx => Or.inl (hrsa _ x hx)) (hoffered.onlyKeys hfile)
    have hwait : server.agentKeyFingerprint.isSome = true →
        ∀ x ∈ [⟨.bestSupportedRsaHash, .ok hash⟩] ++ offered, x.1 = .bestSupportedRsaHash := by
      intro hsome
      rw [hnone (hnokey hsome), List.append_nil]
      exact hrsa _
    obtain ⟨e, rfl, hids⟩ | ⟨none', log, identities, rfl, hids, h₄⟩ := runs_bindExcept.mp h₃
    · rw [(runs_local.mp hids).1, List.append_nil]
      exact KeysSent.stop hbefore hwait
    obtain ⟨rfl, hids'⟩ := runs_local.mp hids
    rw [List.nil_append]
    have hagent : server.agentKeyFingerprint.isSome = true →
        ¬∀ identities, M.agent server.agentSource ≠ .ok (.ok identities) := by
      intro hsome hmissing
      rcases agentIdentities_ok hids'.symm with ⟨-, hfp⟩ | hok
      · rw [hfp] at hsome
        cases hsome
      · exact hmissing identities hok
    have hidentity : ∀ c, (∃ identity ∈ identities, c = identity.credential hash.join ∧
        skips M server selected identity = false) → Allowed M server c :=
      allowed_identity hkey.symm hids'.symm
    obtain ⟨e, rfl, hoffer⟩ | ⟨tried, log, taken, rfl, hoffer, h₅⟩ := runs_bindExcept.mp h₄
    · obtain ⟨htried, hone⟩ := offerIdentities_offered hoffer
      exact KeysSent.append hbefore hwait (htried.onlyKeys hidentity) (fun heq => by cases heq)
        fun hsome => ⟨(hone hsome).1, fun hmissing => absurd hmissing (hagent hsome)⟩
    obtain ⟨htried, hone⟩ := offerIdentities_offered hoffer
    cases taken with
    | true =>
      obtain ⟨rfl, rfl⟩ := runs_pureExcept.mp h₅
      rw [List.append_nil]
      exact KeysSent.append hbefore hwait (htried.onlyKeys hidentity)
        (fun _ => htried.success rfl)
        fun hsome => ⟨(hone hsome).1, fun hmissing => absurd hmissing (hagent hsome)⟩
    | false =>
      obtain ⟨hlast, hsuccess, hnothing⟩ := fallBack_offered h₅
      have honly : OnlyKeys M server log := by
        intro x hx
        obtain ⟨hfp, hselected, user, c, hc⟩ := hlast x hx
        refine Or.inr ⟨user, c, hc, ?_, fun fingerprint heq => ?_⟩
        · intro file hsome hne
          obtain ⟨path, key, -, -, heq⟩ := (selectedKey_ok hkey.symm).1 file hsome hne
          rw [hselected] at heq
          cases heq
        · rw [hfp] at heq
          cases heq
      refine KeysSent.append hbefore hwait ((htried.onlyKeys hidentity).append honly)
        (fun heq => (hsuccess heq).append tried) fun hsome => ?_
      rw [(hone hsome).2 rfl, hnothing hsome]
      exact ⟨Nat.zero_le 1, fun _ => rfl⟩

end

/-! ## The password -/

/-- The server asked for a password: one prompt that is not echoed. -/
def Asked (x : Exchange (Ask κ) Ask.Reply) : Prop :=
  ∃ prompt, challenge x = some [prompt] ∧ prompt.echo = false ∧
    containsText "password" prompt.prompt.toLower = true

theorem asked_of_prompts {x : Exchange (Ask κ) Ask.Reply} {prompts : List Prompt}
    (hx : challenge x = some prompts) (h : asksPassword prompts = true) : Asked x := by
  cases prompts with
  | nil => cases h
  | cons prompt prompts =>
    cases prompts with
    | cons prompt' prompts => cases h
    | nil =>
      rw [asksPassword, Bool.and_eq_true] at h
      exact ⟨prompt, hx, by simpa using h.1, h.2⟩

theorem runs_askPassword {password : String} {a : Except AuthError AuthResult} :
    Runs (askPassword (κ := κ) user password).run log a ↔ log = [⟨.password user password, a⟩] :=
  Dialogue.runs_question (R := Ask.Reply) (q := .password user password)

theorem runs_askInteractiveStart {a : Except AuthError KeyboardInteractiveAuthResponse} :
    Runs (askInteractiveStart (κ := κ) user).run log a ↔
      log = [⟨.keyboardInteractiveStart user, a⟩] :=
  Dialogue.runs_question (R := Ask.Reply) (q := .keyboardInteractiveStart user)

theorem runs_askInteractiveRespond {responses : List String}
    {a : Except AuthError KeyboardInteractiveAuthResponse} :
    Runs (askInteractiveRespond (κ := κ) responses).run log a ↔
      log = [⟨.keyboardInteractiveRespond responses, a⟩] :=
  Dialogue.runs_question (R := Ask.Reply) (q := .keyboardInteractiveRespond responses)

/-- What is sent in answer to the reply of a request. -/
structure Answers (y : Exchange (Ask κ) Ask.Reply) (n : Nat) (log : AuthLog κ) : Prop where
  few : log.length ≤ n
  only : ∀ x ∈ log, ∃ responses, x.1 = .keyboardInteractiveRespond responses
  asked : ∀ before x after, log = before ++ x :: after →
    ∃ before' z, y :: before = before' ++ [z] ∧ Asked z

theorem Answers.nil {y : Exchange (Ask κ) Ask.Reply} {n : Nat} : Answers y n [] := by
  refine ⟨Nat.zero_le n, fun _ hx => absurd hx List.not_mem_nil, fun before x after h => ?_⟩
  exact absurd h.symm (by simp)

theorem Answers.cons {y x : Exchange (Ask κ) Ask.Reply} {n : Nat} {responses : List String}
    (hx : x.1 = .keyboardInteractiveRespond responses) (hy : Asked y) (h : Answers x n log) :
    Answers y (n + 1) (x :: log) := by
  refine ⟨Nat.succ_le_succ h.few, fun z hz => ?_, fun before z after hlog => ?_⟩
  · rcases List.mem_cons.mp hz with rfl | hz
    · exact ⟨responses, hx⟩
    · exact h.only z hz
  · cases before with
    | nil => exact ⟨[], y, rfl, hy⟩
    | cons w before =>
      obtain ⟨rfl, htail⟩ := List.cons.inj hlog
      obtain ⟨before', z', heq, hz'⟩ := h.asked before z after htail
      exact ⟨y :: before', z', by rw [heq, List.cons_append], hz'⟩

/-- The answers go on from one reply to the next; the induction is on the answers left. -/
theorem answerChallenges_answers {password : String} {n : Nat}
    {reply : KeyboardInteractiveAuthResponse} {b : Except AuthError Unit}
    {y : Exchange (Ask κ) Ask.Reply}
    (hprompts : ∀ name instructions prompts, reply = .infoRequest name instructions prompts →
      challenge y = some prompts)
    (haccepted : reply = .success → accepted y = true)
    (h : Runs (answerChallenges password n reply).run log b) :
    Answers y n log ∧ (b = .ok () → EndsAccepted (y :: log)) := by
  induction n generalizing reply y log with
  | zero =>
    rw [answerChallenges] at h
    split at h
    · next hreply =>
      obtain ⟨rfl, rfl⟩ := runs_pureExcept.mp h
      exact ⟨Answers.nil, fun _ => ⟨[], y, rfl, haccepted hreply⟩⟩
    · obtain ⟨rfl, rfl⟩ := runs_throwExcept.mp h
      exact ⟨Answers.nil, fun heq => by cases heq⟩
  | succ n ih =>
    cases reply with
    | success =>
      obtain ⟨rfl, rfl⟩ := runs_pureExcept.mp h
      exact ⟨Answers.nil, fun _ => ⟨[], y, rfl, haccepted rfl⟩⟩
    | failure =>
      obtain ⟨rfl, rfl⟩ := runs_throwExcept.mp h
      exact ⟨Answers.nil, fun heq => by cases heq⟩
    | infoRequest name instructions prompts =>
      rw [answerChallenges] at h
      split at h
      · next hasks =>
        have hy := asked_of_prompts (hprompts name instructions prompts rfl) hasks
        obtain ⟨e, rfl, hask⟩ | ⟨first, rest, reply, rfl, hask, hrest⟩ := runs_bindExcept.mp h
        · rw [runs_askInteractiveRespond.mp hask]
          exact ⟨Answers.cons rfl hy (Answers.nil (n := n)), fun heq => by cases heq⟩
        · rw [runs_askInteractiveRespond.mp hask]
          obtain ⟨hanswers, hends⟩ := ih (y := ⟨.keyboardInteractiveRespond [password], .ok reply⟩)
            (fun name instructions prompts heq => by rw [heq]; rfl)
            (fun heq => by rw [heq]; rfl) hrest
          exact ⟨hanswers.cons rfl hy, fun heq => (hends heq).append [y]⟩
      · obtain ⟨rfl, rfl⟩ := runs_throwExcept.mp h
        exact ⟨Answers.nil, fun heq => by cases heq⟩

/-- Every answer follows a request for the password directly. -/
def AnswersAsked (log : AuthLog κ) : Prop :=
  ∀ before x after, log = before ++ x :: after → x.1.isResponse = true →
    ∃ before' y, before = before' ++ [y] ∧ Asked y

theorem answersAsked_nil : AnswersAsked ([] : AuthLog κ) := by
  intro before x after h
  exact absurd h.symm (by simp)

theorem AnswersAsked.cons {y : Exchange (Ask κ) Ask.Reply} (hy : y.1.isResponse = false)
    (h : AnswersAsked log) : AnswersAsked (y :: log) := by
  intro before x after heq hx
  cases before with
  | nil =>
    rw [← (List.cons.inj heq).1, hy] at hx
    cases hx
  | cons w before =>
    obtain ⟨rfl, htail⟩ := List.cons.inj heq
    obtain ⟨before', z, rfl, hz⟩ := h before x after htail hx
    exact ⟨y :: before', z, rfl, hz⟩

theorem Answers.answersAsked {y : Exchange (Ask κ) Ask.Reply} {n : Nat}
    (hy : y.1.isResponse = false) (h : Answers y n log) : AnswersAsked (y :: log) := by
  intro before x after heq hx
  cases before with
  | nil =>
    rw [← (List.cons.inj heq).1, hy] at hx
    cases hx
  | cons w before =>
    obtain ⟨rfl, htail⟩ := List.cons.inj heq
    exact h.asked before x after htail

/-- What is sent where the server's method is the password. -/
structure PasswordSent (log : AuthLog κ) (result : Except AuthError Unit) : Prop where
  noKeys : ∀ x ∈ log, x.1.credential = none
  once : (log.filter (·.1.isPassword)).length ≤ 1
  twice : (log.filter (·.1.isResponse)).length ≤ 2
  /-- The password itself was turned down before anything else is sent. -/
  first : ∀ before x after, log = before ++ x :: after → x.1.isPassword = false →
    ∃ y ∈ before, y.1.isPassword = true ∧ accepted y = false
  answers : AnswersAsked log
  success : result = .ok () → EndsAccepted log

/-- A password is followed by no other one, and by two answers at most. -/
theorem passwordSent_cons {password : String} {a : Except AuthError AuthResult}
    {rest : AuthLog κ} {result : Except AuthError Unit}
    (hrejected : rest ≠ [] → a = .ok (.failure false) ∨ a = .ok (.failure true))
    (honly : ∀ x ∈ rest, x.1.credential = none ∧ x.1.isPassword = false)
    (htwice : (rest.filter (·.1.isResponse)).length ≤ 2) (hanswers : AnswersAsked rest)
    (hsuccess : result = .ok () → EndsAccepted (⟨.password user password, a⟩ :: rest)) :
    PasswordSent (⟨.password user password, a⟩ :: rest) result := by
  refine ⟨fun x hx => ?_, ?_, htwice, fun before x after heq hx => ?_,
    AnswersAsked.cons rfl hanswers, hsuccess⟩
  · rcases List.mem_cons.mp hx with rfl | hx
    · rfl
    · exact (honly x hx).1
  · have hnone : rest.filter (·.1.isPassword) = [] :=
      List.filter_eq_nil_iff.mpr fun x hx => by
        rw [(honly x hx).2]
        exact Bool.false_ne_true
    rw [List.filter_cons, hnone]
    exact Nat.le_refl 1
  · cases before with
    | nil =>
      rw [← (List.cons.inj heq).1] at hx
      cases hx
    | cons w before =>
      obtain ⟨rfl, rfl⟩ := List.cons.inj heq
      refine ⟨_, List.mem_cons_self, rfl, ?_⟩
      rcases hrejected (by simp) with rfl | rfl
      · rfl
      · rfl

theorem passwordAuth_sent {password : String} {result : Except AuthError Unit}
    (h : Runs (passwordAuth (κ := κ) user password).run log result) :
    PasswordSent log result := by
  rw [passwordAuth] at h
  have hone : ∀ a, (result = .ok () → a = .ok .success) →
      PasswordSent ([⟨.password user password, a⟩] : AuthLog κ) result := by
    intro a ha
    refine passwordSent_cons (fun hne => absurd rfl hne) (fun _ hx => absurd hx List.not_mem_nil)
      (Nat.zero_le 2) answersAsked_nil fun heq => ⟨[], _, rfl, ?_⟩
    rw [ha heq]
    rfl
  obtain ⟨e, rfl, hask⟩ | ⟨first, log, taken, rfl, hask, h₁⟩ := runs_bindExcept.mp h
  · rw [runs_askPassword.mp hask]
    exact hone _ fun heq => by cases heq
  rw [runs_askPassword.mp hask]
  cases taken with
  | success =>
    obtain ⟨rfl, rfl⟩ := runs_pureExcept.mp h₁
    exact hone _ fun _ => rfl
  | failure closed =>
    have hrejected : (Except.ok (.failure closed) : Except AuthError AuthResult) =
        .ok (.failure false) ∨ (Except.ok (.failure closed) : Except AuthError AuthResult) =
        .ok (.failure true) := by
      cases closed with
      | false => exact Or.inl rfl
      | true => exact Or.inr rfl
    obtain ⟨e, rfl, hstart⟩ | ⟨started, log, reply, rfl, hstart, h₂⟩ := runs_bindExcept.mp h₁
    · rw [runs_askInteractiveStart.mp hstart]
      refine passwordSent_cons (fun _ => hrejected) (fun x hx => ?_) (Nat.zero_le 2)
        (AnswersAsked.cons rfl answersAsked_nil) fun heq => by cases heq
      rw [List.mem_singleton.mp hx]
      exact ⟨rfl, rfl⟩
    · rw [runs_askInteractiveStart.mp hstart]
      obtain ⟨hanswers, hends⟩ := answerChallenges_answers
        (y := ⟨.keyboardInteractiveStart user, .ok reply⟩)
        (fun name instructions prompts heq => by rw [heq]; rfl) (fun heq => by rw [heq]; rfl) h₂
      refine passwordSent_cons (fun _ => hrejected) (fun x hx => ?_) ?_
        (hanswers.answersAsked rfl) fun heq => (hends heq).append [⟨.password user password, _⟩]
      · rcases List.mem_cons.mp hx with rfl | hx
        · exact ⟨rfl, rfl⟩
        · obtain ⟨responses, heq⟩ := hanswers.only x hx
          rw [heq]
          exact ⟨rfl, rfl⟩
      · exact Nat.le_trans (List.length_filter_le _ log) hanswers.few

/-! ## The whole attempt -/

/-- No more is offered than what the profile selects, and success needs the server's consent. -/
structure Guarded (M : Machine κ) (server : Server) (log : AuthLog κ)
    (result : Except AuthError Unit) : Prop where
  keyFile : ∀ file : String, server.identityFile = some file → file ≠ "" →
    ∀ x ∈ log, ∀ c, x.1.credential = some c → ∃ path key, identityPath M file = .ok path ∧
      M.keyFile path = some key ∧ c.keyData = key.keyData
  fingerprint : ∀ fingerprint : String, server.agentKeyFingerprint = some fingerprint →
    ∀ x ∈ log, ∀ c, x.1.credential = some c → M.fingerprint c.keyData = fingerprint ∧
      ∃ identities identity hash, M.agent server.agentSource = .ok (.ok identities) ∧
        identity ∈ identities ∧ c = identity.credential hash
  rejected : server.agentKeyFingerprint.isSome = true → ∀ before x after,
    log = before ++ x :: after → x.1.credential.isSome = true →
      after = [] ∧ (accepted x = false → result ≠ .ok ())
  missing : server.agentKeyFingerprint.isSome = true → server.authMethod = .publicKey →
    (∀ identities, M.agent server.agentSource ≠ .ok (.ok identities)) →
      (∀ x ∈ log, x.1.offers = false) ∧ result ≠ .ok ()
  noPassword : server.authMethod ≠ .password →
    ∀ x ∈ log, x.1.isPassword = false ∧ x.1.isResponse = false
  once : (log.filter (·.1.isPassword)).length ≤ 1
  twice : (log.filter (·.1.isResponse)).length ≤ 2
  answers : ∀ before x after, log = before ++ x :: after → x.1.isResponse = true →
    (∃ y ∈ before, y.1.isPassword = true ∧ accepted y = false) ∧
      ∃ before' y, before = before' ++ [y] ∧ Asked y
  success : result = .ok () → ∃ before x, log = before ++ [x] ∧ accepted x = true ∧
    (x.1.offers = true ∨ (∃ user, x.1 = .keyboardInteractiveStart user) ∧
      ∃ y ∈ before, y.1.isPassword = true ∧ accepted y = false)

section
variable {M : Machine κ} {server : Server} {result : Except AuthError Unit}

theorem accepted_offers {x : Exchange (Ask κ) Ask.Reply} (h : accepted x = true) :
    x.1.offers = true ∨ ∃ user, x.1 = .keyboardInteractiveStart user := by
  obtain ⟨q, r⟩ := x
  cases q with
  | bestSupportedRsaHash => cases h
  | publickey user c => exact Or.inl rfl
  | password user password => exact Or.inl rfl
  | keyboardInteractiveStart user => exact Or.inr ⟨user, rfl⟩
  | keyboardInteractiveRespond responses => exact Or.inl rfl

theorem PasswordSent.guarded (h : PasswordSent log result)
    (hmethod : server.authMethod = .password) : Guarded M server log result := by
  have hnone : ∀ x ∈ log, ∀ c, x.1.credential = some c → False := by
    intro x hx c hc
    rw [h.noKeys x hx] at hc
    cases hc
  refine ⟨?_, ?_, ?_, ?_, ?_, h.once, h.twice, ?_, ?_⟩
  · exact fun _ _ _ x hx c hc => (hnone x hx c hc).elim
  · exact fun _ _ x hx c hc => (hnone x hx c hc).elim
  · intro _ before x after heq hx
    have hmem : x ∈ log := by
      rw [heq]
      simp
    rw [h.noKeys x hmem] at hx
    cases hx
  · intro _ hkey
    rw [hmethod] at hkey
    cases hkey
  · exact fun hne => absurd hmethod hne
  · intro before x after heq hx
    refine ⟨h.first before x after heq ?_, h.answers before x after heq hx⟩
    obtain ⟨q, r⟩ := x
    cases q with
    | keyboardInteractiveRespond responses => rfl
    | bestSupportedRsaHash => rfl
    | publickey user c => rfl
    | keyboardInteractiveStart user => rfl
    | password user password => cases hx
  · intro hok
    obtain ⟨before, x, heq, hx⟩ := h.success hok
    refine ⟨before, x, heq, hx, ?_⟩
    rcases accepted_offers hx with hoffers | ⟨user, hstart⟩
    · exact Or.inl hoffers
    · refine Or.inr ⟨⟨user, hstart⟩, h.first before x [] heq ?_⟩
      rw [hstart]
      rfl

theorem KeysSent.guarded (h : KeysSent M server log result) : Guarded M server log result := by
  have hkeys : ∀ x ∈ log, x.1.isPassword = false ∧ x.1.isResponse = false := by
    intro x hx
    rcases h.only x hx with heq | ⟨user, c, heq, -⟩
    · rw [heq]
      exact ⟨rfl, rfl⟩
    · rw [heq]
      exact ⟨rfl, rfl⟩
  have hallowed : ∀ x ∈ log, ∀ c, x.1.credential = some c → Allowed M server c := by
    intro x hx c hc
    rcases h.only x hx with heq | ⟨user, c', heq, hc'⟩
    · rw [heq] at hc
      cases hc
    · rw [heq] at hc
      obtain rfl := Option.some.inj hc
      exact hc'
  have hno : log.filter (·.1.isPassword) = [] ∧ log.filter (·.1.isResponse) = [] := by
    constructor
    · exact List.filter_eq_nil_iff.mpr fun x hx => by simp [(hkeys x hx).1]
    · exact List.filter_eq_nil_iff.mpr fun x hx => by simp [(hkeys x hx).2]
  have hends : result = .ok () → ∃ before x, log = before ++ [x] ∧ accepted x = true ∧
      x.1.offers = true := by
    intro hok
    obtain ⟨before, x, heq, hx⟩ := h.success hok
    refine ⟨before, x, heq, hx, ?_⟩
    rcases h.only x (by rw [heq]; simp) with hrsa | ⟨user, c, hc, -⟩
    · obtain ⟨q, r⟩ := x
      cases hrsa
      cases hx
    · rw [hc]
      rfl
  refine ⟨?_, ?_, ?_, ?_, fun _ => hkeys, ?_, ?_, ?_, ?_⟩
  · exact fun file hfile hne x hx c hc => (hallowed x hx c hc).file file hfile hne
  · exact fun fingerprint hfp x hx c hc => (hallowed x hx c hc).identity fingerprint hfp
  · intro hsome before x after heq hx
    obtain ⟨waited, rest, hlog, hwait, hone, -⟩ := h.once hsome
    have hnotWaited : x ∉ waited := by
      intro hmem
      rw [hwait x hmem] at hx
      cases hx
    have hafter : after = [] := by
      rw [heq] at hlog
      rcases List.append_eq_append_iff.mp hlog with ⟨l, hl, hrest⟩ | ⟨l, hl, hrest⟩
      · cases l with
        | nil =>
          rw [List.nil_append] at hrest
          rw [← hrest, List.length_cons] at hone
          exact List.eq_nil_of_length_eq_zero (by omega)
        | cons w l =>
          obtain ⟨rfl, -⟩ := List.cons.inj hrest
          exact absurd (by rw [hl]; simp) hnotWaited
      · rw [hrest, List.length_append, List.length_cons] at hone
        exact List.eq_nil_of_length_eq_zero (by omega)
    refine ⟨hafter, fun hrejected hok => ?_⟩
    obtain ⟨before', z, heq', hz, -⟩ := hends hok
    rw [heq, hafter] at heq'
    obtain ⟨-, hxz⟩ := List.append_inj' heq' rfl
    rw [List.singleton_inj.mp hxz, hz] at hrejected
    cases hrejected
  · intro hsome _ hmissing
    obtain ⟨waited, rest, hlog, hwait, -, hnil⟩ := h.once hsome
    have hnothing : ∀ x ∈ log, x.1.offers = false := by
      intro x hx
      rw [hlog, hnil hmissing, List.append_nil] at hx
      rw [hwait x hx]
      rfl
    refine ⟨hnothing, fun hok => ?_⟩
    obtain ⟨before, x, heq, -, hoffers⟩ := hends hok
    rw [hnothing x (by rw [heq]; simp)] at hoffers
    cases hoffers
  · rw [hno.1]
    exact Nat.zero_le 1
  · rw [hno.2]
    exact Nat.zero_le 2
  · intro before x after heq hx
    rw [(hkeys x (by rw [heq]; simp)).2] at hx
    cases hx
  · intro hok
    obtain ⟨before, x, heq, hx, hoffers⟩ := hends hok
    exact ⟨before, x, heq, hx, Or.inl hoffers⟩

/-- Whatever the server answers and the machine holds. -/
theorem authenticate_guarded [DecidableEq κ] {A : Profile.Addresses}
    (hvalid : server.validate A = .ok ()) (h : Runs (authenticate M server).run log result) :
    Guarded M server log result := by
  rw [authenticate] at h
  split at h
  · next hmethod =>
    obtain ⟨e, rfl, hlocal⟩ | ⟨first, log, password, rfl, hlocal, h₁⟩ := runs_bindExcept.mp h
    · rw [(runs_local.mp hlocal).1]
      have hnil : PasswordSent ([] : AuthLog κ) (.error e) := by
        refine ⟨fun _ hx => absurd hx List.not_mem_nil, Nat.zero_le 1, Nat.zero_le 2, ?_,
          answersAsked_nil, fun heq => by cases heq⟩
        intro before x after heq
        exact absurd heq.symm (by simp)
      exact hnil.guarded hmethod
    · rw [(runs_local.mp hlocal).1]
      exact (passwordAuth_sent h₁).guarded hmethod
  · exact (keyAuth_keysSent hvalid h).guarded

end

end

/-! ## Two profiles -/

def profile (method : Profile.AuthMethod) (fingerprint : Option String) : Server :=
  { id := 1, name := "build", sshUser := "ann", sshHost := "build.example", sshPort := 22,
    identityFile := none, agentSource := none, agentKeyFingerprint := fingerprint,
    authMethod := method, clipboardEnabled := false, browserEnabled := false }

/-- Keys are numbers here, and an agent holds two of them. -/
def twoKeys : Machine Nat where
  home := some "/home/ann"
  keyFile _ := none
  agent _ := .ok (.ok [.publicKey 1 "old", .publicKey 2 "new"])
  password _ := .ok "secret"
  fingerprint key := "SHA256:" ++ String.ofList (List.replicate (42 + key) 'A')

def noAddresses : Profile.Addresses := ⟨fun _ => false, fun _ => none⟩

def selectedFingerprint : String := twoKeys.fingerprint 1

/-- The other identity of the agent is not offered after the selected one was turned down. -/
theorem selected_rejected : Guarded twoKeys (profile .publicKey (some selectedFingerprint))
    [⟨.bestSupportedRsaHash, .ok none⟩,
      ⟨.publickey "ann" (.publicKey 1 none), .ok (.failure false)⟩]
    (.error (bail "The server rejected the selected SSH key. Check the username and authorized keys.")) :=
  authenticate_guarded (A := noAddresses) (by decide) (.ask (.ask (.done _)))

/-- The server turns the password down and takes the request that follows it, before any
    challenge. -/
theorem unchallenged_success : (profile .password none).validate noAddresses = .ok () ∧
    ∃ log : AuthLog Nat, Runs (authenticate twoKeys (profile .password none)).run log (.ok ()) ∧
      ∀ x ∈ log, x.1.offers = true → accepted x = false := by
  refine ⟨by decide, [⟨.password "ann" "secret", .ok (.failure false)⟩,
    ⟨.keyboardInteractiveStart "ann", .ok .success⟩], .ask (.ask (.done _)), ?_⟩
  intro x hx hoffers
  rcases List.mem_cons.mp hx with rfl | hx
  · rfl
  · rw [List.mem_singleton.mp hx] at hoffers
    cases hoffers

end Porthop.Ssh
