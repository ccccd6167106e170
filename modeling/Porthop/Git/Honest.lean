import Porthop.Git.Answer
import Porthop.Lib.Lists

/- What every world of the desktop and its agents has, whatever is recorded.

   Each write is sent once, under an id the ledger holds; a process of the desktop serves
   one exchange and acts on nothing else; an action that has started has a record, and
   belongs to a write that has got past every refusal. -/
namespace Porthop.Git
open Pending (Fault File Receipt)
open Porthop.Lists (getElem?_set_cases getElem?_set_some getElem?_concat)

/-- A started action's exchange: the process has acted, or the answer may be given after. -/
def Spoke (s : Sys) (x : Exchange) : Prop :=
  match x.stage with
  | .queued => False
  | .working => ∃ c ph, s.procs x.pid = some ⟨c, ph⟩ ∧ ph.acted = true
  | .answered reply | .received reply => acted reply = true
  | .over => True

/-- A started action has a record, and so does one about to start. -/
structure Kept (s : Sys) : Prop where
  started : ∀ k ∈ s.started, k ∈ s.journal
  granted : ∀ p c ph v, s.procs p = some ⟨c, ph⟩ → v ∈ ph.granted → ⟨c, v.op⟩ ∈ s.journal

/-- The ledger can be read and holds the id. -/
def World.Known (w : World) (u : Uuid) : Prop :=
  ∃ rows, Pending.read w.ledger = .ok rows ∧ u ∈ rows.map Receipt.operationId

/-- Each write is sent once, under an id of the ledger's. -/
structure Sent (uuid : String → Option Uuid) (w : World) : Prop where
  known : ∀ (n : Nat) (x : Exchange) (v : Write), w.calls[n]? = some x → x.req = .write v →
    ∃ u, uuid v.op = some u ∧ w.Known u
  unique : ∀ (m n : Nat) (x y : Exchange) (v v' : Write), w.calls[m]? = some x →
    w.calls[n]? = some y → x.req = .write v → y.req = .write v' →
    uuid v.op = uuid v'.op → m = n

structure Honest (uuid : String → Option Uuid) (me : String) (w : World) : Prop where
  readable : ∃ rows, Pending.read w.ledger = .ok rows
  sent : Sent uuid w
  served : ∀ (n : Nat) (x : Exchange), w.calls[n]? = some x → x.stage = .working →
    ∃ ph, w.sys.procs x.pid = some ⟨me, ph⟩ ∧ ph.busy = true
  alone : ∀ (m n : Nat) (x y : Exchange), w.calls[m]? = some x → w.calls[n]? = some y →
    x.stage = .working → y.stage = .working → x.pid = y.pid → m = n
  serving : ∀ p ph, w.sys.procs p = some ⟨me, ph⟩ → ph.busy = true →
    ∃ (n : Nat) (x : Exchange), w.calls[n]? = some x ∧ x.pid = p ∧ x.stage = .working ∧
      ∀ v ∈ ph.may, x.req = .write v
  begun : ∀ op, ⟨me, op⟩ ∈ w.sys.started → ∃ (n : Nat) (x : Exchange) (v : Write),
    w.calls[n]? = some x ∧ x.req = .write v ∧ v.op = op ∧ Spoke w.sys x
  kept : Kept w.sys

/-! ## Steps of the agents -/

section
variable {uuid : String → Option Uuid} {me : String} {s s' : Sys} {l : Label}

/-- Every busy process of the desktop goes on with its request. -/
structure Forward (me : String) (s s' : Sys) : Prop where
  ahead : ∀ q ph, s.procs q = some ⟨me, ph⟩ → ph.busy = true →
    ∃ ph', s'.procs q = some ⟨me, ph'⟩ ∧ ph.Leads ph'
  back : ∀ q ph', s'.procs q = some ⟨me, ph'⟩ → ph'.busy = true →
    ∃ ph, s.procs q = some ⟨me, ph⟩ ∧ ph.Leads ph'

theorem Phase.Leads.refl {ph : Phase} (h : ph.busy = true) : ph.Leads ph :=
  ⟨h, h, fun _ hw => hw, id⟩

theorem Sys.not_mine {p : Pid} {pr : Proc} (h : s.mine me p = false)
    (hp : s.procs p = some pr) : pr.client ≠ me := by
  simpa [Sys.mine, hp] using h

theorem Sys.mine_idle {p : Pid} {c : String} {ph : Phase} (h : s.mine me p = true)
    (hp : s.procs p = some ⟨c, ph⟩) : c = me := by
  simpa [Sys.mine, hp] using h

/-- One process moves and it is not a busy one of the desktop, before or after. -/
theorem Forward.other {p : Pid} (hrest : ∀ q, q ≠ p → s'.procs q = s.procs q)
    (h : ∀ ph, s.procs p = some ⟨me, ph⟩ → ph.busy = false)
    (h' : ∀ ph, s'.procs p = some ⟨me, ph⟩ → ph.busy = false) : Forward me s s' := by
  refine ⟨fun q ph hq hbusy => ?_, fun q ph hq hbusy => ?_⟩
  · have hqp : q ≠ p := by
      rintro rfl
      rw [h ph hq] at hbusy
      cases hbusy
    exact ⟨ph, by rw [hrest q hqp, hq], .refl hbusy⟩
  · have hqp : q ≠ p := by
      rintro rfl
      rw [h' ph hq] at hbusy
      cases hbusy
    exact ⟨ph, by rw [← hrest q hqp, hq], .refl hbusy⟩

/-- One process moves on within its request. -/
theorem Forward.leads {p : Pid} {c : String} {ph ph' : Phase}
    (hrest : ∀ q, q ≠ p → s'.procs q = s.procs q) (hp : s.procs p = some ⟨c, ph⟩)
    (hp' : s'.procs p = some ⟨c, ph'⟩) (hph : ph.Leads ph') : Forward me s s' := by
  refine ⟨fun q ph₁ hq hbusy => ?_, fun q ph₁ hq hbusy => ?_⟩
  · by_cases hqp : q = p
    · subst hqp
      obtain ⟨rfl, rfl⟩ : c = me ∧ ph = ph₁ := by simpa using hp.symm.trans hq
      exact ⟨ph', hp', hph⟩
    · exact ⟨ph₁, by rw [hrest q hqp, hq], .refl hbusy⟩
  · by_cases hqp : q = p
    · subst hqp
      obtain ⟨rfl, rfl⟩ : c = me ∧ ph' = ph₁ := by simpa using hp'.symm.trans hq
      exact ⟨ph, hp, hph⟩
    · exact ⟨ph₁, by rw [← hrest q hqp, hq], .refl hbusy⟩

theorem Steps.forward (hs : Steps s l s') (hl : l.exchanged = true → s.mine me l.pid = false) :
    Forward me s s' := by
  cases hs with
  | @born p c h =>
    refine Forward.other (p := p) (fun q hq => by simp [Sys.goto, hq]) (by simp [h]) ?_
    intro ph hph
    obtain ⟨-, rfl⟩ : c = me ∧ Phase.idle = ph := by simpa [Sys.goto] using hph
    rfl
  | @died p h =>
    subst h
    refine Forward.other (p := p) (fun q hq => by simp [Sys.drop, hq]) ?_ (by simp [Sys.drop])
    intro ph hph
    exact absurd rfl (Sys.not_mine (hl rfl) hph)
  | @arrived p c req h hp =>
    subst h
    refine Forward.other (p := p) (fun q hq => by simp [Sys.goto, hq]) ?_ ?_
    · intro ph hph
      exact absurd rfl (Sys.not_mine (hl rfl) hph)
    · intro ph hph
      obtain ⟨rfl, -⟩ : c = me ∧ req.phase = ph := by simpa [Sys.goto] using hph
      exact absurd rfl (Sys.not_mine (hl rfl) hp)
  | @replied p c reply h hp =>
    subst h
    refine Forward.other (p := p) (fun q hq => by simp [Sys.goto, hq]) ?_ ?_
    · intro ph hph
      exact absurd rfl (Sys.not_mine (hl rfl) hph)
    · intro ph hph
      obtain ⟨-, rfl⟩ : c = me ∧ Phase.idle = ph := by simpa [Sys.goto] using hph
      rfl
  | @went p c ph ph' j locks catalog ended hp hph hj hgr =>
    exact Forward.leads (p := p) (fun q hq => by simp [hq]) hp (by simp) hph
  | @started p c w r locks catalog ended hp =>
    refine Forward.leads (p := p) (fun q hq => by simp [hq]) hp
      (Function.update_self ..) ⟨rfl, rfl, ?_, fun _ => rfl⟩
    simp [Phase.may]

/-- What starts, if anything. -/
theorem Steps.begins (hs : Steps s l s') : s'.started = s.started ∨
    ∃ p c w r, s.procs p = some ⟨c, .ready w r⟩ ∧ s'.procs p = some ⟨c, .acting w r⟩ ∧
      s'.started = ⟨c, w.op⟩ :: s.started := by
  cases hs with
  | @started p c w r locks catalog ended hp => exact .inr ⟨p, c, w, r, hp, by simp, rfl⟩
  | _ => exact .inl rfl

theorem kept_steps (hk : Kept s) (hs : Steps s l s') : Kept s' := by
  have moved : ∀ (p : Pid) (c : String) (ph : Phase) (procs : Pid → Option Proc),
      (∀ q, q ≠ p → procs q = s.procs q) → procs p = some ⟨c, ph⟩ → ph.granted = none →
      ∀ q c ph v, procs q = some ⟨c, ph⟩ → v ∈ ph.granted → ⟨c, v.op⟩ ∈ s.journal := by
    intro p c ph procs hrest hp hgr q c' ph' v hq hv
    by_cases hqp : q = p
    · subst hqp
      obtain ⟨-, rfl⟩ : c = c' ∧ ph = ph' := by simpa using hp.symm.trans hq
      simp [hgr] at hv
    · exact hk.granted q c' ph' v (by rw [← hrest q hqp, hq]) hv
  cases hs with
  | @born p c h =>
    exact ⟨hk.started, moved p c .idle _
      (fun q hq => by simp [Sys.goto, hq]) (by simp [Sys.goto]) rfl⟩
  | @died p h =>
    refine ⟨hk.started, fun q c ph v hq hv => ?_⟩
    by_cases hqp : q = p
    · subst hqp; simp [Sys.drop] at hq
    · exact hk.granted q c ph v (by simpa [Sys.drop, hqp] using hq) hv
  | @arrived p c req h hp =>
    refine ⟨hk.started, moved p c req.phase _
      (fun q hq => by simp [Sys.goto, hq]) (by simp [Sys.goto]) ?_⟩
    cases req <;> rfl
  | @replied p c reply h hp =>
    exact ⟨hk.started, moved p c .idle _
      (fun q hq => by simp [Sys.goto, hq]) (by simp [Sys.goto]) rfl⟩
  | @went p c ph ph' j locks catalog ended hp hph hj hgr =>
    refine ⟨fun k hmem => hj k (hk.started k hmem), fun q c' ph₁ v hq hv => ?_⟩
    by_cases hqp : q = p
    · subst hqp
      obtain ⟨rfl, rfl⟩ : c = c' ∧ ph' = ph₁ := by simpa using hq
      rcases hgr v hv with hv | hv
      · exact hj _ (hk.granted q c ph v hp hv)
      · exact hv
    · exact hj _ (hk.granted q c' ph₁ v (by simpa [hqp] using hq) hv)
  | @started p c w r locks catalog ended hp =>
    refine ⟨fun k hmem => ?_, moved p c (.acting w r) _
      (fun q hq => by simp [hq]) (by simp) rfl⟩
    rcases List.mem_cons.mp hmem with rfl | hmem
    · exact hk.granted p c _ w hp rfl
    · exact hk.started k hmem

end

/-! ## Steps of the world -/

section
variable {uuid : String → Option Uuid} {server : Uuid} {me : String} {w w' : World} {n : Nat}
  {x y : Exchange}

theorem getElem?_concat_old {α : Type} {xs : List α} {m : Nat} {z : α} (y : α)
    (h : xs[m]? = some z) : (xs ++ [y])[m]? = some z := by
  obtain ⟨hlt, -⟩ := List.getElem?_eq_some_iff.mp h
  rw [List.getElem?_append_left hlt, h]

theorem honest_init : Honest uuid me World.init where
  readable := ⟨[], rfl⟩
  sent := ⟨fun n x v h => by simp [World.init] at h,
    fun m n x y v v' h => by simp [World.init] at h⟩
  served n x h := by simp [World.init] at h
  alone m n x y h := by simp [World.init] at h
  serving p ph h := by simp [World.init, Sys.init] at h
  begun op h := by simp [World.init, Sys.init] at h
  kept := ⟨fun k h => by simp [World.init, Sys.init] at h,
    fun p c ph v h => by simp [World.init, Sys.init] at h⟩

/-- The ids of a ledger stay through a call that is no acknowledgement. -/
theorem known_run {rows : List Receipt} (c : Pending.Call) (fault : Fault)
    (hrows : Pending.read w.ledger = .ok rows)
    (hc : ∀ server op, c ≠ .acknowledge server op) {u : Uuid} (hu : w.Known u) :
    World.Known { w with ledger := (c.run fault w.ledger).2 } u := by
  obtain ⟨rows₁, hrows₁, hmem⟩ := hu
  obtain rfl := Except.ok.inj (hrows.symm.trans hrows₁)
  obtain ⟨rows', hread, -, hmoves⟩ := (Pending.sound c fault hrows).readable
  refine ⟨rows', hread, ?_⟩
  obtain ⟨r, hr, rfl⟩ := List.mem_map.mp hmem
  rcases hmoves.kept r hr with ⟨r', hr', hid, -⟩ | ⟨hack, -⟩
  · exact List.mem_map.mpr ⟨r', hr', hid⟩
  · exact absurd hack (hc _ _)

theorem Sent.frame (h : Sent uuid w) (hknown : ∀ u, w.Known u → w'.Known u)
    (hcalls : ∀ (m : Nat) (z : Exchange), w'.calls[m]? = some z →
      ∃ z₀, w.calls[m]? = some z₀ ∧ z₀.req = z.req) : Sent uuid w' := by
  refine ⟨fun n x v hx hv => ?_, fun m n x y v v' hx hy hv hv' heq => ?_⟩
  · obtain ⟨x₀, hx₀, hreq⟩ := hcalls n x hx
    obtain ⟨u, hu, hmem⟩ := h.known n x₀ v hx₀ (hreq.trans hv)
    exact ⟨u, hu, hknown u hmem⟩
  · obtain ⟨x₀, hx₀, hreq⟩ := hcalls m x hx
    obtain ⟨y₀, hy₀, hreq'⟩ := hcalls n y hy
    exact h.unique m n x₀ y₀ v v' hx₀ hy₀ (hreq.trans hv) (hreq'.trans hv') heq

/-- An exchange put in another's place, with its request. -/
theorem Sent.set (h : Sent uuid w) {s : Sys} (hx : w.calls[n]? = some x) (hreq : x.req = y.req) :
    Sent uuid { w with sys := s, calls := w.calls.set n y } := by
  refine h.frame (fun u hu => hu) fun m z hz => ?_
  rcases getElem?_set_cases hz with ⟨rfl, rfl⟩ | ⟨-, hz⟩
  · exact ⟨x, hx, hreq⟩
  · exact ⟨z, hz, rfl⟩

theorem Spoke.frame {s s' : Sys} (h : Spoke s x)
    (hproc : x.stage = .working → s'.procs x.pid = s.procs x.pid) : Spoke s' x := by
  unfold Spoke at h ⊢
  split
  · next hstage => rw [hstage] at h; exact h
  · next hstage =>
    rw [hstage] at h
    rw [hproc hstage]
    exact h
  · next hstage => rw [hstage] at h; exact h
  · next hstage => rw [hstage] at h; exact h
  · trivial

/-- A ledger that is still readable and keeps its ids. -/
theorem Honest.ledger (h : Honest uuid me w) {file : File}
    (hread : ∃ rows, Pending.read file = .ok rows)
    (hknown : ∀ u, w.Known u → World.Known { w with ledger := file } u) :
    Honest uuid me { w with ledger := file } := by
  exact ⟨hread, h.sent.frame hknown fun _ z hz => ⟨z, hz, rfl⟩, h.served, h.alone, h.serving,
    h.begun, h.kept⟩

/-- An exchange moves on, away from the agents. -/
theorem Honest.restage (h : Honest uuid me w) (hx : w.calls[n]? = some x)
    (hpid : y.pid = x.pid) (hreq : y.req = x.req)
    (hwork : y.stage = .working ↔ x.stage = .working)
    (hspoke : Spoke w.sys x → Spoke w.sys y) :
    Honest uuid me { w with calls := w.calls.set n y } := by
  have old : ∀ {m : Nat} {z : Exchange}, (w.calls.set n y)[m]? = some z →
      ∃ z₀, w.calls[m]? = some z₀ ∧ z.pid = z₀.pid ∧
        (z.stage = .working ↔ z₀.stage = .working) := by
    intro m z hz
    rcases getElem?_set_cases hz with ⟨rfl, rfl⟩ | ⟨-, hz⟩
    · exact ⟨x, hx, hpid, hwork⟩
    · exact ⟨z, hz, rfl, Iff.rfl⟩
  refine ⟨h.readable, h.sent.set hx hreq.symm, ?_, ?_, ?_, ?_, h.kept⟩
  · intro m z hz hw
    obtain ⟨z₀, hz₀, hzpid, hzwork⟩ := old hz
    rw [hzpid]
    exact h.served m z₀ hz₀ (hzwork.mp hw)
  · intro m k z z' hz hz' hw hw' heq
    obtain ⟨z₀, hz₀, hzpid, hzwork⟩ := old hz
    obtain ⟨z₁, hz₁, hzpid', hzwork'⟩ := old hz'
    exact h.alone m k z₀ z₁ hz₀ hz₁ (hzwork.mp hw) (hzwork'.mp hw')
      (hzpid.symm.trans (heq.trans hzpid'))
  · intro p ph hp hbusy
    obtain ⟨m, z, hz, hzp, hzw, hmay⟩ := h.serving p ph hp hbusy
    by_cases hmn : m = n
    · subst hmn
      obtain rfl := Option.some.inj (hx.symm.trans hz)
      exact ⟨m, y, getElem?_set_some y hx, hpid.trans hzp, hwork.mpr hzw,
        fun v hv => hreq.trans (hmay v hv)⟩
    · exact ⟨m, z, by rw [List.getElem?_set_ne (Ne.symm hmn), hz], hzp, hzw, hmay⟩
  · intro op hop
    obtain ⟨m, z, v, hz, hzreq, hv, hzs⟩ := h.begun op hop
    by_cases hmn : m = n
    · subst hmn
      obtain rfl := Option.some.inj (hx.symm.trans hz)
      exact ⟨m, y, v, getElem?_set_some y hx, hreq.trans hzreq, hv, hspoke hzs⟩
    · exact ⟨m, z, v, by rw [List.getElem?_set_ne (Ne.symm hmn), hz], hzreq, hv, hzs⟩

/-- What is said of an exchange outlasts its process's steps within the request. -/
theorem Honest.spoke (h : Honest uuid me w) {s' : Sys} (hf : Forward me w.sys s')
    (hx : w.calls[n]? = some x) (hs : Spoke w.sys x) : Spoke s' x := by
  unfold Spoke at hs ⊢
  split
  · next hstage => rw [hstage] at hs; exact hs
  · next hstage =>
    rw [hstage] at hs
    obtain ⟨c, ph, hp, hacted⟩ := hs
    obtain ⟨ph₁, hp₁, hbusy⟩ := h.served n x hx hstage
    obtain ⟨rfl, rfl⟩ : c = me ∧ ph = ph₁ := by simpa using hp.symm.trans hp₁
    obtain ⟨ph', hp', hleads⟩ := hf.ahead x.pid ph hp hbusy
    exact ⟨_, ph', hp', hleads.acted hacted⟩
  · next hstage => rw [hstage] at hs; exact hs
  · next hstage => rw [hstage] at hs; exact hs
  · trivial

/-- A step of the agents that needs no exchange of the desktop's. -/
theorem Honest.agent (h : Honest uuid me w) {l : Label} {s' : Sys}
    (hl : l.exchanged = true → w.sys.mine me l.pid = false) (hs : Steps w.sys l s') :
    Honest uuid me { w with sys := s' } := by
  have hf := hs.forward hl
  refine ⟨h.readable, h.sent.frame (fun _ hu => hu) fun _ z hz => ⟨z, hz, rfl⟩, ?_, h.alone,
    ?_, ?_, kept_steps h.kept hs⟩
  · intro n x hx hw
    obtain ⟨ph, hp, hbusy⟩ := h.served n x hx hw
    obtain ⟨ph', hp', hleads⟩ := hf.ahead x.pid ph hp hbusy
    exact ⟨ph', hp', hleads.busy'⟩
  · intro p ph' hp' hbusy'
    obtain ⟨ph, hp, hleads⟩ := hf.back p ph' hp' hbusy'
    obtain ⟨n, x, hx, hxp, hw, hmay⟩ := h.serving p ph hp hleads.busy
    exact ⟨n, x, hx, hxp, hw, fun v hv => hmay v (hleads.may v hv)⟩
  · intro op hop
    have hold : ⟨me, op⟩ ∈ w.sys.started → ∃ (n : Nat) (x : Exchange) (v : Write),
        w.calls[n]? = some x ∧ x.req = .write v ∧ v.op = op ∧ Spoke s' x := by
      intro hop
      obtain ⟨n, x, v, hx, hreq, hv, hspoke⟩ := h.begun op hop
      exact ⟨n, x, v, hx, hreq, hv, h.spoke hf hx hspoke⟩
    rcases hs.begins with hst | ⟨p, c, v, r, hp, hp', hst⟩
    · exact hold (hst ▸ hop)
    · rw [hst] at hop
      rcases List.mem_cons.mp hop with heq | hop
      · obtain ⟨rfl, rfl⟩ : me = c ∧ op = v.op := by simpa using heq
        obtain ⟨n, x, hx, hxp, hw, hmay⟩ := h.serving p _ hp rfl
        refine ⟨n, x, v, hx, hmay v rfl, rfl, ?_⟩
        unfold Spoke
        rw [hw]
        exact ⟨_, _, by rw [hxp]; exact hp', rfl⟩
      · exact hold hop

/-- A new exchange, of a lookup or review, or of a write under an id no other has. -/
theorem Honest.dispatch (h : Honest uuid me w) (p : Pid) (req : Request) (supported : Bool)
    (hnew : ∀ v, req = .write v → ∃ u, uuid v.op = some u ∧ w.Known u ∧
      ∀ (n : Nat) (x : Exchange) (v' : Write), w.calls[n]? = some x → x.req = .write v' →
        uuid v'.op ≠ some u) :
    Honest uuid me (w.dispatch p req supported) := by
  have idle : ∀ {z : Exchange}, z = ⟨p, req, if supported then .queued else
      .received (.error unsupported), true⟩ → z.stage ≠ .working := by
    rintro z rfl
    cases supported <;> simp
  refine ⟨h.readable, ⟨?_, ?_⟩, ?_, ?_, ?_, ?_, h.kept⟩
  · intro m z v hz hv
    rcases (getElem?_concat hz).symm with ⟨-, rfl⟩ | hz
    · obtain ⟨u, hu, hknown, -⟩ := hnew v hv
      exact ⟨u, hu, hknown⟩
    · exact h.sent.known m z v hz hv
  · intro m k z z' v v' hz hz' hv hv' heq
    rcases (getElem?_concat hz).symm with ⟨rfl, rfl⟩ | hz <;>
      rcases (getElem?_concat hz').symm with ⟨rfl, rfl⟩ | hz'
    · rfl
    · obtain ⟨u, hu, -, hfresh⟩ := hnew v hv
      exact absurd (heq.symm.trans hu) (hfresh k z' v' hz' hv')
    · obtain ⟨u, hu, -, hfresh⟩ := hnew v' hv'
      exact absurd (heq.trans hu) (hfresh m z v hz hv)
    · exact h.sent.unique m k z z' v v' hz hz' hv hv' heq
  · intro m z hz hw
    rcases (getElem?_concat hz).symm with ⟨-, hz⟩ | hz
    · exact absurd hw (idle hz)
    · exact h.served m z hz hw
  · intro m k z z' hz hz' hw hw' heq
    rcases (getElem?_concat hz).symm with ⟨-, hz⟩ | hz
    · exact absurd hw (idle hz)
    rcases (getElem?_concat hz').symm with ⟨-, hz'⟩ | hz'
    · exact absurd hw' (idle hz')
    · exact h.alone m k z z' hz hz' hw hw' heq
  · intro q ph hq hbusy
    obtain ⟨m, z, hz, hrest⟩ := h.serving q ph hq hbusy
    exact ⟨m, z, getElem?_concat_old _ hz, hrest⟩
  · intro op hop
    obtain ⟨m, z, v, hz, hrest⟩ := h.begun op hop
    exact ⟨m, z, v, getElem?_concat_old _ hz, hrest⟩

/-- A request reaches an idle process. -/
theorem Honest.deliver (h : Honest uuid me w) {p : Pid} {req : Request} {waiting : Bool}
    (hx : w.calls[n]? = some ⟨p, req, .queued, waiting⟩)
    (hp : w.sys.procs p = some ⟨me, .idle⟩) :
    Honest uuid me { w with
      sys := w.sys.goto p me req.phase
      calls := w.calls.set n ⟨p, req, .working, waiting⟩ } := by
  have away : ∀ {m : Nat} {z : Exchange}, w.calls[m]? = some z → z.stage = .working →
      z.pid ≠ p := by
    intro m z hz hw hzp
    obtain ⟨ph, hph, hbusy⟩ := h.served m z hz hw
    rw [hzp, hp] at hph
    obtain rfl : Phase.idle = ph := by simpa using hph
    cases hbusy
  have hbusy : req.phase.busy = true := by cases req <;> rfl
  refine ⟨h.readable, h.sent.set hx rfl, ?_, ?_, ?_, ?_,
    kept_steps h.kept (.arrived rfl hp : Steps w.sys (.arrive p req) _)⟩
  · intro m z hz hw
    rcases getElem?_set_cases hz with ⟨rfl, rfl⟩ | ⟨-, hz⟩
    · exact ⟨req.phase, by simp [Sys.goto], hbusy⟩
    · obtain ⟨ph, hph, hph'⟩ := h.served m z hz hw
      exact ⟨ph, by simpa [Sys.goto, away hz hw] using hph, hph'⟩
  · intro m k z z' hz hz' hw hw' heq
    rcases getElem?_set_cases hz with ⟨rfl, rfl⟩ | ⟨-, hold⟩ <;>
      rcases getElem?_set_cases hz' with ⟨rfl, rfl⟩ | ⟨-, hold'⟩
    · rfl
    · exact absurd heq.symm (away hold' hw')
    · exact absurd heq (away hold hw)
    · exact h.alone m k z z' hold hold' hw hw' heq
  · intro q ph hq hqbusy
    by_cases hqp : q = p
    · subst hqp
      obtain rfl : req.phase = ph := by simpa [Sys.goto] using hq
      refine ⟨n, _, getElem?_set_some _ hx, rfl, rfl, fun v hv => ?_⟩
      cases req with
      | write v' => obtain rfl := Option.some.inj hv; rfl
      | get op => cases hv
      | review op => cases hv
    · obtain ⟨m, z, hz, hzp, hzw, hmay⟩ :=
        h.serving q ph (by simpa [Sys.goto, hqp] using hq) hqbusy
      have hmn : m ≠ n := by
        rintro rfl
        obtain rfl := Option.some.inj (hx.symm.trans hz)
        cases hzw
      exact ⟨m, z, by rw [List.getElem?_set_ne (Ne.symm hmn), hz], hzp, hzw, hmay⟩
  · intro op hop
    obtain ⟨m, z, v, hz, hzreq, hv, hzs⟩ := h.begun op hop
    have hmn : m ≠ n := by
      rintro rfl
      obtain rfl := Option.some.inj (hx.symm.trans hz)
      exact hzs
    refine ⟨m, z, v, by rw [List.getElem?_set_ne (Ne.symm hmn), hz], hzreq, hv, ?_⟩
    exact hzs.frame fun hstage => by simp [Sys.goto, away hz hstage]

/-- A process answers and is idle again. -/
theorem Honest.answer (h : Honest uuid me w) {p : Pid} {req : Request} {waiting : Bool}
    {reply : Reply} (fits : Bool) (hx : w.calls[n]? = some ⟨p, req, .working, waiting⟩)
    (hp : w.sys.procs p = some ⟨me, .done reply⟩) :
    Honest uuid me { w with
      sys := w.sys.goto p me .idle
      calls := w.calls.set n
        ⟨p, req, .answered (if fits then reply else .error limitExceeded), waiting⟩ } := by
  have away : ∀ {m : Nat} {z : Exchange}, m ≠ n → w.calls[m]? = some z → z.stage = .working →
      z.pid ≠ p := by
    intro m z hmn hz hw hzp
    exact hmn (h.alone m n z _ hz hx hw rfl hzp)
  refine ⟨h.readable, h.sent.set hx rfl, ?_, ?_, ?_, ?_,
    kept_steps h.kept (.replied rfl hp : Steps w.sys (.reply p) _)⟩
  · intro m z hz hw
    rcases getElem?_set_cases hz with ⟨rfl, rfl⟩ | ⟨hmn, hold⟩
    · cases hw
    · obtain ⟨ph, hph, hph'⟩ := h.served m z hold hw
      exact ⟨ph, by simpa [Sys.goto, away hmn hold hw] using hph, hph'⟩
  · intro m k z z' hz hz' hw hw' heq
    rcases getElem?_set_cases hz with ⟨rfl, rfl⟩ | ⟨-, hold⟩
    · cases hw
    rcases getElem?_set_cases hz' with ⟨rfl, rfl⟩ | ⟨-, hold'⟩
    · cases hw'
    · exact h.alone m k z z' hold hold' hw hw' heq
  · intro q ph hq hbusy
    have hqp : q ≠ p := by
      rintro rfl
      obtain rfl : Phase.idle = ph := by simpa [Sys.goto] using hq
      cases hbusy
    obtain ⟨m, z, hz, hzp, hzw, hmay⟩ :=
      h.serving q ph (by simpa [Sys.goto, hqp] using hq) hbusy
    have hmn : m ≠ n := by
      rintro rfl
      obtain rfl := Option.some.inj (hx.symm.trans hz)
      exact hqp hzp.symm
    exact ⟨m, z, by rw [List.getElem?_set_ne (Ne.symm hmn), hz], hzp, hzw, hmay⟩
  · intro op hop
    obtain ⟨m, z, v, hz, hzreq, hv, hzs⟩ := h.begun op hop
    by_cases hmn : m = n
    · subst hmn
      obtain rfl := Option.some.inj (hx.symm.trans hz)
      refine ⟨m, _, v, getElem?_set_some _ hx, hzreq, hv, ?_⟩
      obtain ⟨c, ph, hph, hacted⟩ := hzs
      obtain ⟨rfl, rfl⟩ : me = c ∧ Phase.done reply = ph := by simpa using hp.symm.trans hph
      cases fits
      · rfl
      · exact hacted
    · refine ⟨m, z, v, by rw [List.getElem?_set_ne (Ne.symm hmn), hz], hzreq, hv, ?_⟩
      exact hzs.frame fun hstage => by simp [Sys.goto, away hmn hz hstage]

/-- A process of the desktop's dies, with the requests on their way to it. -/
theorem Honest.crash (h : Honest uuid me w) (p : Pid) :
    Honest uuid me { w with
      sys := w.sys.drop p
      calls := w.calls.map (Exchange.lost p) } := by
  have old : ∀ {m : Nat} {z : Exchange}, (w.calls.map (Exchange.lost p))[m]? = some z →
      ∃ z₀, w.calls[m]? = some z₀ ∧ z.req = z₀.req ∧
        (z.stage = .working → z₀ = z ∧ z.pid ≠ p) := by
    intro m z hz
    rw [List.getElem?_map, Option.map_eq_some_iff] at hz
    obtain ⟨z₀, hz₀, rfl⟩ := hz
    refine ⟨z₀, hz₀, ?_, ?_⟩
    · unfold Exchange.lost; split <;> rfl
    · unfold Exchange.lost
      split
      · intro hw; cases hw
      · next hp =>
        intro hw
        refine ⟨rfl, fun hzp => hp ⟨hzp, ?_⟩⟩
        simp [Exchange.live, hw]
  have stays : ∀ {m : Nat} {z : Exchange}, w.calls[m]? = some z → z.pid ≠ p →
      (w.calls.map (Exchange.lost p))[m]? = some z := by
    intro m z hz hzp
    rw [List.getElem?_map, hz]
    simp [Exchange.lost, hzp]
  refine ⟨h.readable, h.sent.frame (fun _ hu => hu) fun m z hz => ?_, ?_, ?_, ?_, ?_,
    kept_steps h.kept (.died rfl : Steps w.sys (.crash p) _)⟩
  · obtain ⟨z₀, hz₀, hreq, -⟩ := old hz
    exact ⟨z₀, hz₀, hreq.symm⟩
  · intro m z hz hw
    obtain ⟨z₀, hz₀, -, hsame⟩ := old hz
    obtain ⟨rfl, hzp⟩ := hsame hw
    obtain ⟨ph, hph, hbusy⟩ := h.served m z₀ hz₀ hw
    exact ⟨ph, by simpa [Sys.drop, hzp] using hph, hbusy⟩
  · intro m k z z' hz hz' hw hw' heq
    obtain ⟨z₀, hz₀, -, hsame⟩ := old hz
    obtain ⟨rfl, -⟩ := hsame hw
    obtain ⟨z₁, hz₁, -, hsame'⟩ := old hz'
    obtain ⟨rfl, -⟩ := hsame' hw'
    exact h.alone m k z₀ z₁ hz₀ hz₁ hw hw' heq
  · intro q ph hq hbusy
    have hqp : q ≠ p := by
      rintro rfl
      simp [Sys.drop] at hq
    obtain ⟨m, z, hz, hzp, hzw, hmay⟩ :=
      h.serving q ph (by simpa [Sys.drop, hqp] using hq) hbusy
    exact ⟨m, z, stays hz (by rw [hzp]; exact hqp), hzp, hzw, hmay⟩
  · intro op hop
    obtain ⟨m, z, v, hz, hzreq, hv, hzs⟩ := h.begun op hop
    by_cases hlost : z.pid = p ∧ z.live
    · refine ⟨m, { z with stage := .over }, v, ?_, hzreq, hv, trivial⟩
      rw [List.getElem?_map, hz]
      simp [Exchange.lost, hlost]
    · refine ⟨m, z, v, ?_, hzreq, hv, hzs.frame fun hstage => ?_⟩
      · rw [List.getElem?_map, hz]
        simp [Exchange.lost, hlost]
      · have hzp : z.pid ≠ p := fun hzp => hlost ⟨hzp, by simp [Exchange.live, hstage]⟩
        simp [Sys.drop, hzp]

/-- **Step lemma.** -/
theorem honest_step {e : Event} (h : Honest uuid me w)
    (hs : World.step uuid server me w e = some w') : Honest uuid me w' := by
  obtain ⟨rows, hrows⟩ := h.readable
  have hobserve : ∀ c fault, (∀ server op, c ≠ Pending.Call.acknowledge server op) →
      Honest uuid me { w with ledger := (c.run fault w.ledger).2 } := by
    intro c fault hc
    obtain ⟨rows', hread, -⟩ := (Pending.sound c fault hrows).readable
    exact h.ledger ⟨rows', hread⟩ fun u hu => known_run c fault hrows hc hu
  cases e with
  | agent l =>
    simp only [World.step] at hs
    split at hs
    · cases hs
    next hl =>
    obtain ⟨s', hstep, rfl⟩ := Option.map_eq_some_iff.mp hs
    exact h.agent (by simpa using hl) (step_steps hstep)
  | send p req action supported fault =>
    cases req with
    | write v =>
      simp only [World.step] at hs
      split at hs
      · split at hs
        · cases hs
        next u hu =>
        have hledger := hobserve (.begin server u action) fault (by simp)
        split at hs
        · cases hs; exact hledger
        · next hok =>
          cases hs
          obtain ⟨hnew, hread⟩ := Pending.begin_saved hrows hok
          refine hledger.dispatch p _ supported fun v' hv' => ?_
          obtain rfl : v = v' := by simpa using hv'
          refine ⟨u, hu, ⟨_, hread, by simp⟩, fun n x v' hx hv' heq => ?_⟩
          obtain ⟨u', hu', rows', hrows', hmem⟩ := h.sent.known n x v' hx hv'
          obtain rfl := Except.ok.inj (hrows.symm.trans hrows')
          obtain rfl := Option.some.inj (heq.symm.trans hu')
          exact hnew hmem
      · cases hs
    | get op =>
      simp only [World.step] at hs
      split at hs <;> cases hs
      exact h.dispatch p _ supported fun v hv => by cases hv
    | review op =>
      simp only [World.step] at hs
      split at hs <;> cases hs
      exact h.dispatch p _ supported fun v hv => by cases hv
  | deliver n =>
    simp only [World.step] at hs
    split at hs
    · next p req waiting hx =>
      split at hs
      · next hmine =>
        obtain ⟨s', hstep, rfl⟩ := Option.map_eq_some_iff.mp hs
        simp only [step] at hstep
        split at hstep <;> cases hstep
        next c hp =>
        obtain rfl := Sys.mine_idle hmine hp
        exact h.deliver hx hp
      · cases hs
    · cases hs
  | answer n fits =>
    simp only [World.step] at hs
    split at hs
    · next p req waiting hx =>
      split at hs
      · next c reply hp =>
        obtain ⟨s', hstep, rfl⟩ := Option.map_eq_some_iff.mp hs
        simp only [step, hp] at hstep
        cases hstep
        obtain ⟨ph, hph, -⟩ := h.served n _ hx rfl
        obtain rfl : c = me := by
          have := hp.symm.trans hph
          simp only [Option.some.injEq, Proc.mk.injEq] at this
          exact this.1
        exact h.answer fits hx hp
      · cases hs
    · cases hs
  | receive n =>
    simp only [World.step] at hs
    split at hs <;> cases hs
    next hx => exact h.restage hx rfl rfl (by simp) id
  | record n fault =>
    simp only [World.step] at hs
    split at hs <;> cases hs
    next p req reply hx =>
    have hledger : Honest uuid me { w with ledger := w.observed uuid server req reply fault } := by
      unfold World.observed
      split
      · exact hobserve _ fault (by simp)
      · exact h
    exact hledger.restage hx rfl rfl (by simp) fun _ => trivial
  | cut n =>
    simp only [World.step] at hs
    split at hs <;> cases hs
    next x hx => exact h.restage hx rfl rfl Iff.rfl id
  | lose n =>
    simp only [World.step] at hs
    split at hs <;> cases hs
    · next hx => exact h.restage hx rfl rfl (by simp) fun _ => trivial
    · next hx => exact h.restage hx rfl rfl (by simp) fun _ => trivial
  | crash p =>
    simp only [World.step] at hs
    split at hs
    · obtain ⟨s', hstep, rfl⟩ := Option.map_eq_some_iff.mp hs
      obtain ⟨pr, -, rfl⟩ := Option.map_eq_some_iff.mp hstep
      exact h.crash p
    · cases hs

end

end Porthop.Git
