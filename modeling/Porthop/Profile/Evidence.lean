import Mathlib.Data.List.Chain
import Porthop.Profile.Connectivity

/- What a snapshot says of a server rests on attempts that began after the last change of its
   connection.

   Beside the manager a history is kept, of what the surroundings see: when the connection of
   each server was last changed, what was delivered since then, and the snapshots. The
   revisions and the times the manager keeps are no part of it. -/
namespace Porthop.Profile

open Porthop.Run
open Manager (update nonempty fields update_same update_other sameConnection_iff)

/-- The connection of the server that is saved under an id. -/
def profile (c : Config) (id : Uuid) : Option (String × UInt16 × String × Option String ×
    Option String × Option String × AuthMethod) :=
  (c.servers.find? fun s => s.id = id).map fields

structure History (ρ : Type) where
  changed : Uuid → Option Nat
  delivered : Uuid → List Observation
  snapshots : List (Snapshot ρ)

namespace Connections

variable {ρ V : Type} {A : Addresses}

/-- The command stores a password of the server. -/
def storesPassword (A : Addresses) (m : Connections ρ V) : Happening ρ → Uuid → Bool
  | .saveServer server password stored, id =>
    nonempty password && server.id = id && (m.saveServer A server password stored).isOk
  | _, _ => false

/-- The step changes the connection of the server, or removes or creates it. -/
def changes (A : Addresses) (m : Connections ρ V) (e : Happening ρ) (m' : Connections ρ V)
    (id : Uuid) : Bool :=
  (profile m'.config id != profile m.config id) || m.storesPassword A e id

/-- The result of an attempt that the step delivers, by either way. -/
def delivery (m : Connections ρ V) : Happening ρ → Option Observation
  | .observe n wall result => m.attempts[n]?.map fun a => ⟨a.server, a.started, m.now, wall, result⟩
  | .receive => m.channel.head?
  | _ => none

def deliveryOf (m : Connections ρ V) (e : Happening ρ) (id : Uuid) : List Observation :=
  (m.delivery e).toList.filter fun o => o.server.id = id

section
variable [DecidableEq V] (toValue : Content ρ → V)

def record (A : Addresses) (m : Connections ρ V) (e : Happening ρ) (m' : Connections ρ V)
    (h : History ρ) : History ρ where
  changed id := if m.changes A e m' id then some m'.now else h.changed id
  delivered id := if m.changes A e m' id then [] else h.delivered id ++ m.deliveryOf e id
  snapshots :=
    match e with
    | .snapshot clocks => h.snapshots ++ [(m.snapshot toValue clocks).1]
    | _ => h.snapshots

/-- A step with what the history takes from it. -/
def track (A : Addresses) (s : Connections ρ V × History ρ) (e : Happening ρ) :
    Option (Connections ρ V × History ρ) :=
  (s.1.step A toValue e).map fun m' => (m', s.1.record toValue A e m' s.2)

end

/-! ## The invariant -/

/-- The observation counts for the server as it is saved. -/
def Fresh (h : History ρ) (s : Server) (o : Observation) : Prop :=
  o.server.id = s.id ∧ fields o.server = fields s ∧ ∀ t, h.changed s.id = some t → t ≤ o.started

/-- What is known of the server is what some of the fresh observations say. -/
def Evidence (m : Connections ρ V) (h : History ρ) (s : Server) : Prop :=
  ∃ heard : List Observation, heard.Sublist (h.delivered s.id) ∧ (∀ o ∈ heard, Fresh h s o) ∧
    (m.connectivity s.id).getD Connectivity.default =
      heard.foldl Connectivity.observeAt Connectivity.default

variable {m m' : Connections ρ V} {h h' : History ρ}

theorem Evidence.grows {s : Server} (he : Evidence m h s) (hchanged : h'.changed = h.changed)
    (hdelivered : (h.delivered s.id).Sublist (h'.delivered s.id))
    (hknown : m'.connectivity s.id = m.connectivity s.id) : Evidence m' h' s := by
  obtain ⟨heard, hsub, hfresh, hfold⟩ := he
  refine ⟨heard, hsub.trans hdelivered, fun o ho => ?_, ?_⟩
  · rw [Fresh, hchanged]
    exact hfresh o ho
  · rw [hknown]
    exact hfold

theorem server_unique {servers : List Server} {s s' : Server}
    (hids : (servers.map Server.id).Nodup) (hs : s ∈ servers) (hs' : s' ∈ servers)
    (hid : s.id = s'.id) : s = s' :=
  List.inj_on_of_nodup_map hids hs hs' hid

theorem hear_same (m : Connections ρ V) (o : Observation) :
    (m.hear o).connectivity o.server.id =
      some (((m.connectivity o.server.id).getD Connectivity.default).observeAt o) :=
  update_same _ _ _

theorem hear_other {o : Observation} {id : Uuid} (hid : id ≠ o.server.id) :
    (m.hear o).connectivity id = m.connectivity id :=
  update_other hid

/-- An observation is known only for the server that is saved. -/
theorem matchesConnection_iff {o : Observation} {revision : Nat} :
    m.matchesConnection o.server revision = true ↔ m.connectionRevision o.server.id = revision ∧
      ∃ s ∈ m.config.servers, s.id = o.server.id ∧ fields s = fields o.server := by
  rw [matchesConnection, Bool.and_eq_true_iff, decide_eq_true_eq, List.any_eq_true]
  apply and_congr_right
  intro _
  apply exists_congr
  intro s
  rw [Bool.and_eq_true_iff, decide_eq_true_eq, sameConnection_iff]

theorem retained_of_mem {s : Server} (hs : s ∈ m.config.servers) :
    m.retained s.id = some ((m.connectivity s.id).getD Connectivity.default) := by
  have hany : (m.config.servers.any fun s' => s'.id = s.id) = true :=
    List.any_eq_true.mpr ⟨s, hs, decide_eq_true rfl⟩
  rw [retained, if_pos hany]

/-- A later snapshot has another number if and only if it shows something else. -/
def Later [DecidableEq V] (toValue : Content ρ → V) (a b : Snapshot ρ) : Prop :=
  if toValue b.content = toValue a.content then b.revision = a.revision else a.revision < b.revision

structure Inv [DecidableEq V] (toValue : Content ρ → V) (m : Connections ρ V) (h : History ρ) :
    Prop where
  ids : (m.config.servers.map Server.id).Nodup
  changed : ∀ s ∈ m.config.servers, h.changed s.id = m.connectionChangedAt s.id
  past : ∀ id t, h.changed id = some t → t ≤ m.now
  revisions : ∀ id, m.connectionRevision id ≤ m.nextConnectionRevision
  captured : ∀ c ∈ m.captured, c.2 ≤ m.nextConnectionRevision
  attempts : ∀ a ∈ m.attempts, a.revision ≤ m.nextConnectionRevision ∧
    ∀ s ∈ m.config.servers, s.id = a.server.id → m.connectionRevision s.id = a.revision →
      ∀ t, h.changed s.id = some t → t ≤ a.started
  evidence : ∀ s ∈ m.config.servers, Evidence m h s
  later : h.snapshots.IsChain (Later toValue)
  last : ∀ a ∈ h.snapshots.getLast?, m.version = (a.revision, toValue a.content)

variable [DecidableEq V] {toValue : Content ρ → V}

/-! ## The clock, the attempts and the channel -/

/-- A step that leaves the manager as it is, but for the time and what is under way. -/
theorem Inv.still (hi : Inv toValue m h) (hchanged : h'.changed = h.changed)
    (hdelivered : ∀ id, (h.delivered id).Sublist (h'.delivered id))
    (hsnapshots : h'.snapshots = h.snapshots) {now : Nat} (hnow : m.now ≤ now)
    {captured : List (Server × Nat)} (hcaptured : ∀ c ∈ captured, c.2 ≤ m.nextConnectionRevision)
    {attempts : List Attempt} (hattempts : ∀ a ∈ attempts, a ∈ m.attempts ∨
      a.revision ≤ m.nextConnectionRevision ∧ a.started = m.now)
    (channel : List Observation) (other : ρ) :
    Inv toValue { m with
      now := now, captured := captured, attempts := attempts, channel := channel, other := other } h' where
  ids := hi.ids
  changed := by
    rw [hchanged]
    exact hi.changed
  past id t ht := by
    rw [hchanged] at ht
    exact (hi.past id t ht).trans hnow
  revisions := hi.revisions
  captured := hcaptured
  attempts a ha := by
    rw [hchanged]
    rcases hattempts a ha with ha | ⟨hrevision, hstarted⟩
    · exact hi.attempts a ha
    · refine ⟨hrevision, fun s _ _ _ t ht => ?_⟩
      rw [hstarted]
      exact hi.past s.id t ht
  evidence s hs := (hi.evidence s hs).grows hchanged (hdelivered s.id) rfl
  later := by
    rw [hsnapshots]
    exact hi.later
  last := by
    rw [hsnapshots]
    exact hi.last

/-! ## Results -/

/-- A fresh observation is one more that is known. -/
theorem Inv.hear {o : Observation} {s : Server} (hi : Inv toValue m h) (hs : s ∈ m.config.servers)
    (hfresh : Fresh h s o) (hchanged : h'.changed = h.changed)
    (hdelivered : ∀ id, h'.delivered id = h.delivered id ++ [o].filter fun o => o.server.id = id)
    (hsnapshots : h'.snapshots = h.snapshots) : Inv toValue (m.hear o) h' := by
  have hsub : ∀ id, (h.delivered id).Sublist (h'.delivered id) := by
    intro id
    rw [hdelivered]
    exact List.sublist_append_left _ _
  have hstill := hi.still hchanged hsub hsnapshots (le_refl m.now) hi.captured
    (fun a ha => .inl ha) m.channel m.other
  refine { hstill with evidence := fun s' hs' => ?_ }
  by_cases hid : s'.id = o.server.id
  · obtain rfl := server_unique hi.ids hs' hs (hid.trans hfresh.1)
    obtain ⟨heard, hheard, hall, hfold⟩ := hi.evidence s' hs'
    refine ⟨heard ++ [o], ?_, ?_, ?_⟩
    · have hkept : [o].filter (fun o => o.server.id = s'.id) = [o] :=
        List.filter_cons_of_pos (decide_eq_true hid.symm)
      rw [hdelivered, hkept]
      exact hheard.append (List.Sublist.refl _)
    · intro o' ho'
      rw [Fresh, hchanged]
      rcases List.mem_append.mp ho' with ho' | ho'
      · exact hall o' ho'
      · rw [List.mem_singleton.mp ho']
        exact hfresh
    · rw [List.foldl_append, ← hfold, hid, hear_same]
      rfl
  · exact (hi.evidence s' hs').grows hchanged (hsub s'.id) (hear_other hid)

/-- What is delivered by who made the attempt counts where the revision is still the same. -/
theorem Inv.observeConnection {a : Attempt} {o : Observation} (hi : Inv toValue m h)
    (hattempt : ∀ s ∈ m.config.servers, s.id = a.server.id →
      m.connectionRevision s.id = a.revision → ∀ t, h.changed s.id = some t → t ≤ a.started)
    (hserver : o.server = a.server) (hstarted : o.started = a.started)
    (hchanged : h'.changed = h.changed)
    (hdelivered : ∀ id, h'.delivered id = h.delivered id ++ [o].filter fun o => o.server.id = id)
    (hsnapshots : h'.snapshots = h.snapshots) :
    Inv toValue (m.observeConnection a.revision o) h' := by
  rw [Connections.observeConnection]
  split
  · next hmatch =>
    obtain ⟨hrevision, s, hs, hid, hfields⟩ := matchesConnection_iff.mp hmatch
    refine hi.hear hs ⟨hid.symm, hfields.symm, fun t ht => ?_⟩ hchanged hdelivered hsnapshots
    rw [hstarted]
    rw [hserver] at hid
    rw [hserver, ← hid] at hrevision
    exact hattempt s hs hid hrevision t ht
  · refine hi.still hchanged (fun id => ?_) hsnapshots (le_refl m.now) hi.captured
      (fun a ha => .inl ha) m.channel m.other
    rw [hdelivered]
    exact List.sublist_append_left _ _

/-- What comes through the channel counts where the attempt began after the last change. -/
theorem Inv.connectionEvent {o : Observation} (hi : Inv toValue m h)
    (hchanged : h'.changed = h.changed)
    (hdelivered : ∀ id, h'.delivered id = h.delivered id ++ [o].filter fun o => o.server.id = id)
    (hsnapshots : h'.snapshots = h.snapshots) : Inv toValue (m.connectionEvent o) h' := by
  have hdropped : Inv toValue m h' := by
    refine hi.still hchanged (fun id => ?_) hsnapshots (le_refl m.now) hi.captured
      (fun a ha => .inl ha) m.channel m.other
    rw [hdelivered]
    exact List.sublist_append_left _ _
  rw [Connections.connectionEvent]
  split
  · exact hdropped
  · next hnew =>
    split
    · next hmatch =>
      obtain ⟨-, s, hs, hid, hfields⟩ := matchesConnection_iff.mp hmatch
      refine hi.hear hs ⟨hid.symm, hfields.symm, fun t ht => ?_⟩ hchanged hdelivered hsnapshots
      rw [hi.changed s hs, hid] at ht
      rw [ht] at hnew
      simpa using hnew
    · exact hdropped

/-! ## Snapshots -/

theorem Inv.snapshot {clocks : Uuid → Nat × Nat} (hi : Inv toValue m h)
    (hchanged : h'.changed = h.changed)
    (hdelivered : ∀ id, (h.delivered id).Sublist (h'.delivered id))
    (hsnapshots : h'.snapshots = h.snapshots ++ [(m.snapshot toValue clocks).1]) :
    Inv toValue (m.snapshot toValue clocks).2 h' := by
  let b := (m.snapshot toValue clocks).1
  have hversion : (m.snapshot toValue clocks).2.version = (b.revision, toValue b.content) := by
    show (if _ then _ else _) = ((if _ then _ else _ : Nat × V).1, toValue (m.content clocks))
    split
    · rfl
    · next hsame => rw [← Decidable.not_not.mp hsame]
  have hlater : ∀ a ∈ h.snapshots.getLast?, Later toValue a b := by
    intro a ha
    have hlast := hi.last a ha
    show if toValue (m.content clocks) = toValue a.content then
      (if _ then _ else _ : Nat × V).1 = a.revision else a.revision < (if _ then _ else _ : Nat × V).1
    rw [hlast]
    split
    · next heq => rw [if_neg (not_not.mpr heq.symm)]
    · next hne =>
      rw [if_pos (Ne.symm hne)]
      exact Nat.lt_succ_self _
  refine ⟨hi.ids, ?_, ?_, hi.revisions, hi.captured, ?_, ?_, ?_, ?_⟩
  · rw [hchanged]
    exact hi.changed
  · rw [hchanged]
    exact hi.past
  · rw [hchanged]
    exact hi.attempts
  · intro s hs
    obtain ⟨heard, hsub, hfresh, hfold⟩ := hi.evidence s hs
    refine ⟨heard, hsub.trans (hdelivered s.id), fun o ho => ?_, ?_⟩
    · rw [Fresh, hchanged]
      exact hfresh o ho
    · change s ∈ m.config.servers at hs
      show (m.retained s.id).getD _ = _
      rw [retained_of_mem hs]
      exact hfold
  · rw [hsnapshots, List.isChain_append]
    refine ⟨hi.later, List.isChain_singleton _, fun a ha x hx => ?_⟩
    obtain rfl := Option.some.inj hx
    exact hlater a ha
  · rw [hsnapshots]
    intro a ha
    rw [List.getLast?_concat] at ha
    obtain rfl := Option.some.inj ha
    exact hversion

/-! ## Another configuration -/

theorem profile_of_mem {c : Config} {s : Server} (hids : (c.servers.map Server.id).Nodup)
    (hs : s ∈ c.servers) : profile c s.id = some (fields s) := by
  rw [profile, Manager.find_of_mem hids hs]
  rfl

/-- A configuration in which the saved servers have the connections they had. -/
theorem Inv.edit {c : Config} (hi : Inv toValue m h) (hids : (c.servers.map Server.id).Nodup)
    (hkept : ∀ s ∈ c.servers, ∃ old ∈ m.config.servers, old.id = s.id ∧ fields old = fields s)
    (hchanged : ∀ s ∈ c.servers, h'.changed s.id = h.changed s.id)
    (hpast : ∀ id t, h'.changed id = some t → t ≤ m.now)
    (hdelivered : ∀ s ∈ c.servers, (h.delivered s.id).Sublist (h'.delivered s.id))
    (hsnapshots : h'.snapshots = h.snapshots) : Inv toValue { m with config := c } h' where
  ids := hids
  changed s hs := by
    obtain ⟨old, hold, hid, -⟩ := hkept s hs
    rw [hchanged s hs, ← hid]
    exact hi.changed old hold
  past := hpast
  revisions := hi.revisions
  captured := hi.captured
  attempts a ha := by
    refine ⟨(hi.attempts a ha).1, fun s hs hserver hrevision t ht => ?_⟩
    obtain ⟨old, hold, hid, -⟩ := hkept s hs
    rw [hchanged s hs, ← hid] at ht
    rw [← hid] at hserver hrevision
    exact (hi.attempts a ha).2 old hold hserver hrevision t ht
  evidence s hs := by
    obtain ⟨old, hold, hid, hfields⟩ := hkept s hs
    obtain ⟨heard, hsub, hfresh, hfold⟩ := hi.evidence old hold
    rw [hid] at hsub hfold
    refine ⟨heard, hsub.trans (hdelivered s hs), fun o ho => ?_, hfold⟩
    obtain ⟨hserver, hsame, hstarted⟩ := hfresh o ho
    rw [hid] at hserver hstarted
    refine ⟨hserver, hsame.trans hfields, ?_⟩
    rw [hchanged s hs]
    exact hstarted
  later := by
    rw [hsnapshots]
    exact hi.later
  last := by
    rw [hsnapshots]
    exact hi.last

/-- Nothing is known of a server whose connection has changed, and no attempt under way counts
    for it. -/
theorem Inv.advance {c : Config} {id : Uuid} (hi : Inv toValue m h)
    (hids : (c.servers.map Server.id).Nodup)
    (hkept : ∀ s ∈ c.servers, s.id ≠ id → s ∈ m.config.servers)
    (hnow : h'.changed id = some m.now) (hothers : ∀ i, i ≠ id → h'.changed i = h.changed i)
    (hdelivered : ∀ i, i ≠ id → (h.delivered i).Sublist (h'.delivered i))
    (hsnapshots : h'.snapshots = h.snapshots) :
    Inv toValue ({ m with config := c }.advanceConnectionRevision id) h' where
  ids := hids
  changed s hs := by
    show h'.changed s.id = update m.connectionChangedAt id (some m.now) s.id
    by_cases hid : s.id = id
    · rw [hid, update_same, hnow]
    · rw [update_other hid, hothers s.id hid]
      exact hi.changed s (hkept s hs hid)
  past i t ht := by
    by_cases hid : i = id
    · rw [hid, hnow] at ht
      exact le_of_eq (Option.some.inj ht).symm
    · rw [hothers i hid] at ht
      exact hi.past i t ht
  revisions i := by
    show (update m.connectionRevisions id (some (m.nextConnectionRevision + 1)) i).getD 0 ≤ _
    by_cases hid : i = id
    · rw [hid, update_same]
      exact le_refl _
    · rw [update_other hid]
      exact (hi.revisions i).trans (Nat.le_succ _)
  captured c hc := (hi.captured c hc).trans (Nat.le_succ _)
  attempts a ha := by
    refine ⟨(hi.attempts a ha).1.trans (Nat.le_succ _), fun s hs hserver hrevision t ht => ?_⟩
    change (update m.connectionRevisions id (some (m.nextConnectionRevision + 1)) s.id).getD 0 =
      a.revision at hrevision
    by_cases hid : s.id = id
    · -- The new revision is larger than any an attempt can hold.
      have hle := (hi.attempts a ha).1
      rw [hid, update_same] at hrevision
      change m.nextConnectionRevision + 1 = a.revision at hrevision
      omega
    · rw [update_other hid] at hrevision
      rw [hothers s.id hid] at ht
      exact (hi.attempts a ha).2 s (hkept s hs hid) hserver hrevision t ht
  evidence s hs := by
    by_cases hid : s.id = id
    · refine ⟨[], List.nil_sublist _, fun o ho => absurd ho List.not_mem_nil, ?_⟩
      show (update m.connectivity id none s.id).getD _ = _
      rw [hid, update_same]
      rfl
    · obtain ⟨heard, hsub, hfresh, hfold⟩ := hi.evidence s (hkept s hs hid)
      refine ⟨heard, hsub.trans (hdelivered s.id hid), fun o ho => ?_, ?_⟩
      · rw [Fresh, hothers s.id hid]
        exact hfresh o ho
      · show (update m.connectivity id none s.id).getD _ = _
        rw [update_other hid]
        exact hfold
  later := by
    rw [hsnapshots]
    exact hi.later
  last := by
    rw [hsnapshots]
    exact hi.last

end Connections

end Porthop.Profile
