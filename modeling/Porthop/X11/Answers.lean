import Mathlib.Data.Nat.Bitwise
import Porthop.X11.Framing

/- What a request leaves behind, whatever its bytes.

   While a request is answered nothing goes wrong: the packets sent so far are framed and no
   errors, and the atoms keep their limits. An error is only sent in the state the request
   was found in, so it is the only packet and nothing else has happened. -/
namespace Porthop.X11.Requests

open Crash Crash.Prog Buffer MessagePack

/-- Nothing has gone wrong. -/
structure Calm (little : Bool) (w : World) : Prop where
  order : w.client.little = little
  atoms : w.atoms.Bounded
  sent : ∀ b ∈ w.sent, Good little b
  fine : w.panicked = false

/-- An error was sent and nothing else has happened. -/
structure Refused (w t : World) : Prop where
  client : t.client = w.client
  atoms : t.atoms = w.atoms
  sent : ∀ b ∈ t.sent, Framed w.client.little b
  fine : t.panicked = false

def Answered (w t : World) : Prop := Calm w.client.little t ∨ Refused w t

/-- The request has been answered and the client goes on. -/
def Done (w t : World) : Prop := Answered w t ∧ t.client.Bounded

/-- A client before a request. -/
structure Ready (w : World) : Prop where
  calm : Calm w.client.little w
  client : w.client.Bounded
  sent : w.sent = []

section
variable {α β : Type} {w s : World} {little : Bool} {tag field : Nat} {key : Key} {r b : Bytes}
  {offer : Offer}

theorem Calm.done (h : Calm s.client.little w) (hclient : w.client.Bounded) : Done s w :=
  ⟨Or.inl h, hclient⟩

/-- The client and the atoms may change as long as the byte order and the limits stay. -/
theorem Calm.set (h : Calm little w) {c : Client} {atoms : Atoms} (horder : c.little = little)
    (hatoms : atoms.Bounded) : Calm little { w with client := c, atoms := atoms } where
  order := horder
  atoms := hatoms
  sent := h.sent
  fine := h.fine

theorem Ensures.calm {p : Handler α} {f : α → Handler β} {P : α → World → Prop}
    (hp : Ensures p w P (Calm s.client.little))
    (h : ∀ a t, P a t → Ensures (f a) t (fun _ t => Done s t) (Answered s)) :
    Ensures (p >>= f) w (fun _ t => Done s t) (Answered s) :=
  Ensures.bind (Ensures.imp hp h fun _ => Or.inl)

theorem Ensures.done {p : Handler α} {P : α → World → Prop}
    (hp : Ensures p w P (Calm s.client.little)) (h : ∀ a t, P a t → Done s t) :
    Ensures p w (fun _ t => Done s t) (Answered s) :=
  Ensures.imp hp h fun _ => Or.inl

/-! ## Packets -/

theorem send_calm (h : Calm little w) (hb : Good little b) :
    Ensures (send b) w (fun _ t => Calm little t ∧ t.client = w.client) (Calm little) := by
  have hafter : Calm little { w with sent := w.sent ++ [b] } := by
    refine ⟨h.order, h.atoms, ?_, h.fine⟩
    intro other hother
    rcases List.mem_append.mp hother with hold | hnew
    · exact h.sent other hold
    · rw [List.mem_singleton.mp hnew]
      exact hb
  exact Ensures.act h hafter ⟨hafter, rfl⟩

theorem send_done (h : Calm s.client.little w) (hclient : w.client.Bounded)
    (hb : Good s.client.little b) :
    Ensures (send b) w (fun _ t => Done s t) (Answered s) := by
  apply Ensures.done (send_calm h hb)
  intro _ t ht
  exact ht.1.done (ht.2 ▸ hclient)

theorem error_done (h : Ready w) (code op value : Nat) :
    Ensures (error code op value) w (fun _ t => Done w t) (Answered w) := by
  have hrefused : ∀ b, Framed w.client.little b → Refused w { w with sent := w.sent ++ [b] } := by
    intro b hb
    refine ⟨rfl, rfl, ?_, h.calm.fine⟩
    rw [h.sent]
    intro other hother
    rw [List.mem_singleton.mp hother]
    exact hb
  apply order_then
  apply packet_then
  intro b hb
  apply setField_then hb
  intro b hb
  apply set8_then hb (Or.inr (by decide))
  intro b hb
  have hafter := hrefused b hb.error
  exact Ensures.act (Or.inl h.calm) (Or.inr hafter) ⟨Or.inr hafter, h.client⟩

theorem notifyProperty_calm (h : Calm little w) (state : Nat) :
    Ensures (notifyProperty key state) w (fun _ t => Calm little t ∧ t.client = w.client)
      (Calm little) := by
  apply look_then
  split
  case isFalse => exact Ensures.pure ⟨h, rfl⟩
  case isTrue =>
    apply packet_then
    intro b hb
    apply setField_then hb
    intro b hb
    apply set32_then hb (by decide)
    intro b hb
    apply set8_then hb (Or.inr (by decide))
    intro b hb
    rw [h.order] at hb
    exact send_calm h (hb.good (by decide) (by simp))

theorem notifyProperty_done (h : Calm s.client.little w) (hclient : w.client.Bounded)
    (state : Nat) :
    Ensures (notifyProperty key state) w (fun _ t => Done s t) (Answered s) := by
  apply Ensures.done (notifyProperty_calm h state)
  intro _ t ht
  exact ht.1.done (ht.2 ▸ hclient)

/-! ## Properties and transfers -/

theorem drop_calm (h : Calm little w) :
    Ensures (drop key) w (fun _ t => Calm little t ∧
      t.client = { w.client with properties := w.client.properties.erase key }) (Calm little) := by
  apply look_then
  split
  case isTrue =>
    apply change_then
    have hcalm : Calm little
        { w with client := { w.client with properties := w.client.properties.erase key } } :=
      h.set h.order h.atoms
    exact notifyProperty_calm hcalm 1
  case isFalse habsent =>
    refine Ensures.pure ⟨h, ?_⟩
    have hsame : w.client.properties.erase key = w.client.properties := by
      apply AList.ext
      apply List.kerase_of_notMem_keys
      intro hmem
      exact habsent (AList.lookup_isSome.mpr (AList.mem_keys.mpr hmem))
    rw [hsame]

theorem serve_calm {c : Client} (hbounded : c.Bounded) (h : Calm little w)
    (hw : w.client = { c with properties := c.properties.erase key }) :
    Ensures (serve key c.transfer) w (fun _ t => Calm little t ∧ t.client.Bounded)
      (Calm little) := by
  have horder : c.little = little := by
    rw [← h.order, hw]
  have hunserved : (∀ t, c.transfer = some t → t.key ≠ key) → w.client.Bounded := by
    intro hother
    rw [hw]
    exact hbounded.erase hother
  unfold serve
  split
  case h_1 htransfer =>
    refine Ensures.pure ⟨h, hunserved ?_⟩
    intro t ht
    rw [htransfer] at ht
    cases ht
  case h_2 _ t htransfer =>
    obtain ⟨hoffset, hsize, -⟩ := hbounded.transfer t htransfer
    split
    case isFalse hkey =>
      refine Ensures.pure ⟨h, hunserved ?_⟩
      intro u hu
      rw [htransfer] at hu
      cases hu
      exact hkey
    case isTrue hkey =>
      subst hkey
      refine fits_then ?_ ?_
      · unfold chunk
        omega
      · apply checked_then ⟨_, range_eq (by omega) (Nat.min_le_right _ _)⟩
        intro bytes hbytes
        rw [range_eq (by omega) (Nat.min_le_right _ _)] at hbytes
        have hchunk : bytes.length ≤ chunk := by
          rw [← Option.some.inj hbytes]
          simp only [List.length_take, List.length_drop]
          omega
        apply change_then
        have hbounded' : Client.Bounded { w.client.place t.key ⟨t.kind, 8, bytes⟩ with
            transfer := if t.offset = t.bytes.length then none
              else some { t with offset := min (t.offset + chunk) t.bytes.length } } := by
          rw [hw]
          apply hbounded.serve htransfer ⟨Or.inl rfl, hchunk⟩
          intro u hu
          split at hu
          · cases hu
          · cases hu
            exact ⟨rfl, rfl, Nat.min_le_right _ _⟩
        have hcalm := h.set (c := { w.client.place t.key ⟨t.kind, 8, bytes⟩ with
            transfer := if t.offset = t.bytes.length then none
              else some { t with offset := min (t.offset + chunk) t.bytes.length } }) h.order h.atoms
        apply Ensures.imp (notifyProperty_calm hcalm 0)
        · intro _ t' ht'
          exact ⟨ht'.1, ht'.2 ▸ hbounded'⟩
        · exact fun _ ht => ht

theorem delete_calm (h : Calm little w) (hclient : w.client.Bounded) :
    Ensures (delete key) w (fun _ t => Calm little t ∧ t.client.Bounded) (Calm little) := by
  apply Ensures.bind
  apply Ensures.imp (drop_calm h)
  · intro _ t ht
    apply look_then
    have htransfer : t.client.transfer = w.client.transfer := by
      rw [ht.2]
    rw [htransfer]
    exact serve_calm hclient ht.1 ht.2
  · exact fun _ ht => ht

theorem length_words (c : Client) (ns : List Nat) : (c.words ns).length = 4 * ns.length := by
  induction ns with
  | nil => rfl
  | cons n ns ih =>
    have hn : (c.order (be 4 n)).length = 4 := length_number c.little 4 n
    rw [Client.words, List.flatMap_cons, List.length_append, hn, ← Client.words, ih,
      List.length_cons]
    omega

/-- What a selection is converted to fits into a property or a transfer. -/
theorem convert_bounded (c : Client) {atoms : Atoms} (hatoms : atoms.Bounded) (offer : Offer)
    (selection target : Nat) :
    (c.convert atoms selection target offer.toClipboard).1.Bounded ∧
      ∀ value, (c.convert atoms selection target offer.toClipboard).2 = some value →
        (value.format = 8 ∨ value.format = 16 ∨ value.format = 32) ∧
          value.bytes.length < 2 ^ 63 := by
  have hwords : ∀ ns : List Nat, ns.length ≤ 262 → (c.words ns).length < 2 ^ 63 := by
    intro ns hns
    rw [length_words]
    omega
  have hsome : ∀ p q : Property, (p.format = 8 ∨ p.format = 16 ∨ p.format = 32) →
      p.bytes.length < 2 ^ 63 → some p = some q →
        (q.format = 8 ∨ q.format = 16 ∨ q.format = 32) ∧ q.bytes.length < 2 ^ 63 := by
    intro p q hformat hsize hpq
    cases hpq
    exact ⟨hformat, hsize⟩
  unfold Client.convert
  generalize hf : (if atoms.name selection = some "CLIPBOARD" then offer.formats else []) = formats
  have hformats : (∀ name ∈ formats, name.utf8ByteSize ≤ 256) ∧ formats.length ≤ 256 := by
    split at hf
    · exact hf ▸ ⟨offer.short, offer.few⟩
    · exact hf ▸ ⟨by simp, Nat.zero_le _⟩
  dsimp only
  split
  case isTrue => exact ⟨hatoms, by simp⟩
  case isFalse =>
    split
    case isTrue =>
      generalize ht : (if "text/plain" ∈ formats then ["UTF8_STRING", "TEXT",
        "text/plain;charset=utf-8", "text/plain; charset=utf-8"] else []) = texts
      have htexts : (∀ name ∈ texts, name.utf8ByteSize ≤ 256) ∧ texts.length ≤ 4 := by
        split at ht
        · exact ht ▸ ⟨by decide, by decide⟩
        · exact ht ▸ ⟨by simp, Nat.zero_le _⟩
      constructor
      · apply hatoms.internAll
        intro name hname
        rcases List.mem_append.mp hname with hname | hname
        · rcases List.mem_append.mp hname with hname | hname
          · have hfixed : ∀ name ∈ ["TARGETS", "TIMESTAMP"], name.utf8ByteSize ≤ 256 := by decide
            exact hfixed name hname
          · exact hformats.1 name hname
        · exact htexts.1 name hname
      · intro value hvalue
        apply hsome _ value (Or.inr (Or.inr rfl)) _ hvalue
        apply hwords
        rw [Atoms.length_internAll, List.length_append, List.length_append]
        have hfew := hformats.2
        have hfour := htexts.2
        simp only [List.length_cons, List.length_nil]
        omega
    case isFalse =>
      split
      case isTrue =>
        exact ⟨hatoms, fun value => hsome _ value (Or.inr (Or.inr rfl)) (hwords [0] (by decide))⟩
      case isFalse =>
        split
        case h_1 bytes hbytes =>
          refine ⟨?_, fun value => hsome _ value (Or.inl rfl) (offer.held _ bytes hbytes)⟩
          split
          · exact hatoms.intern (by decide) false
          · exact hatoms
        case h_2 => exact ⟨hatoms, by simp⟩

theorem deliver_atoms (c : Client) {atoms : Atoms} (hatoms : atoms.Bounded) (key : Key)
    (value : Property) : (c.deliver atoms key value).1.Bounded := by
  unfold Client.deliver
  split
  · exact hatoms.intern (by decide) false
  · exact hatoms

theorem deliver_order (c : Client) (atoms : Atoms) (key : Key) (value : Property) :
    (c.deliver atoms key value).2.little = c.little := by
  unfold Client.deliver
  split
  · rfl
  · rfl

theorem supply_calm (h : Calm little w) (hclient : w.client.Bounded) {value : Option Property}
    (hvalue : ∀ p, value = some p → (p.format = 8 ∨ p.format = 16 ∨ p.format = 32) ∧
      p.bytes.length < 2 ^ 63) :
    Ensures (supply key value) w (fun _ t => Calm little t ∧ t.client.Bounded) (Calm little) := by
  cases value with
  | none => exact Ensures.pure ⟨h, hclient⟩
  | some value =>
    apply look_then
    split
    case isTrue => exact Ensures.pure ⟨h, hclient⟩
    case isFalse hbusy =>
      have hdeliver := hclient.deliver (Bool.eq_false_iff.mpr hbusy) w.atoms key
        (hvalue value rfl).1 (hvalue value rfl).2
      have hatoms := deliver_atoms w.client h.atoms key value
      have horder := deliver_order w.client w.atoms key value
      apply look_then
      cases hplaced : w.client.deliver w.atoms key value with
      | mk atoms c =>
        rw [hplaced] at hdeliver hatoms horder
        apply update_then
        have hcalm := h.set (c := c) (horder.trans h.order) hatoms
        apply Ensures.bind
        apply Ensures.imp (notifyProperty_calm hcalm 0)
        · intro _ t ht
          exact Ensures.pure ⟨ht.1, ht.2 ▸ hdeliver⟩
        · exact fun _ ht => ht

theorem selection_done (h : Ready w) (hlength : 24 ≤ r.length) :
    Ensures (selection r offer) w (fun _ t => Done w t) (Answered w) := by
  apply order_then
  apply u32_then (by omega)
  intro window _
  apply u32_then (by omega)
  intro selection _
  apply u32_then (by omega)
  intro target _
  apply u32_then (by omega)
  intro given _
  apply look_then
  split
  case isTrue => exact error_done h 3 24 window
  case isFalse =>
    have hconvert := convert_bounded w.client h.calm.atoms offer selection target
    apply look_then
    cases hvalue : w.client.convert w.atoms selection target offer.toClipboard with
    | mk atoms value =>
      rw [hvalue] at hconvert
      apply update_then
      have hcalm := h.calm.set (c := w.client) h.calm.order hconvert.1
      apply Ensures.calm (supply_calm hcalm h.client hconvert.2)
      intro property t ht
      have horder : t.client.little = w.client.little := ht.1.order
      apply packet_then
      rw [horder]
      intro b hb
      apply u32_then (by omega)
      intro time _
      apply setField_then hb
      intro b hb
      apply set32_then hb (by decide)
      intro b hb
      apply set32_then hb (by decide)
      intro b hb
      apply set32_then hb (by decide)
      intro b hb
      apply set32_then hb (by decide)
      intro b hb
      exact send_done ht.1 ht.2 (hb.good (by decide) (by simp))

/-! ## Windows -/

theorem countOnes_le (mask : Nat) : countOnes mask ≤ 32 := by
  have hle : countOnes mask ≤ (List.range 32).length := List.countP_le_length
  rwa [List.length_range] at hle

/-- The value of bit 11 is among those of the mask. -/
theorem countOnes_below {mask : Nat} (h : mask.testBit 11 = true) :
    countOnes (mask % 2 ^ 11) < countOnes mask := by
  have hsplit : List.range 32 = List.range 11 ++ 11 :: List.range' 12 20 := by decide
  have hlow : (List.range 11).countP (mask % 2 ^ 11).testBit = (List.range 11).countP mask.testBit := by
    apply List.countP_congr
    intro i hi
    rw [Nat.testBit_mod_two_pow, decide_eq_true (List.mem_range.mp hi), Bool.true_and]
  have hhigh : ∀ i, 11 ≤ i → (mask % 2 ^ 11).testBit i = false := by
    intro i hi
    rw [Nat.testBit_mod_two_pow, decide_eq_false (by omega), Bool.false_and]
  have hrest : (List.range' 12 20).countP (mask % 2 ^ 11).testBit = 0 := by
    rw [List.countP_eq_zero]
    intro i hi
    rw [hhigh i (by have := List.mem_range'_1.mp hi; omega)]
    decide
  unfold countOnes
  rw [hsplit, List.countP_append, List.countP_append, List.countP_cons, List.countP_cons, hlow,
    hrest, h, hhigh 11 (Nat.le_refl 11)]
  simp

theorem selectEvents_done (h : Calm s.client.little w) (hclient : w.client.Bounded)
    {min id mask : Nat} (hmin : min ≤ 32) (hlength : r.length = min + countOnes mask * 4) :
    Ensures (selectEvents r min id mask) w (fun _ t => Done s t) (Answered s) := by
  unfold selectEvents
  have hle := countOnes_le mask
  split
  case isFalse => exact Ensures.pure (h.done hclient)
  case isTrue hbit =>
    have hbelow := countOnes_below hbit
    apply order_then
    apply fits_then (by omega)
    apply fits_then (by omega)
    apply u32_then (by omega)
    intro events _
    apply Ensures.update
    apply Calm.done
    · exact h.set h.order h.atoms
    · exact hclient.congr hclient.windows hclient.graphicsContexts rfl rfl

theorem windowAttributes_done (h : Ready w) {op min : Nat} (hmin : min ≤ 32)
    (hcreate : op = 1 → 32 ≤ r.length) (hfields : 12 ≤ r.length) :
    Ensures (windowAttributes op min r) w (fun _ t => Done w t) (Answered w) := by
  apply order_then
  apply u32_then (by omega)
  intro id _
  apply u32_then (by split <;> omega)
  intro mask _
  have hle := countOnes_le mask
  apply fits_then (by omega)
  apply fits_then (by omega)
  apply look_then
  split
  case isTrue => exact error_done h 16 op 0
  case isFalse hsize =>
    split
    case isTrue =>
      split
      case isTrue => exact error_done h 14 op id
      case isFalse =>
        apply change_then
        apply look_then
        split
        case isTrue =>
          apply Ensures.fail
          exact Or.inl (h.calm.set h.calm.order h.calm.atoms)
        case isFalse hcount =>
          have hcalm := h.calm.set (c := { w.client with windows := insert id w.client.windows })
            h.calm.order h.calm.atoms
          have hclient : Client.Bounded
              { w.client with windows := insert id w.client.windows } :=
            h.client.congr (Nat.le_of_not_lt hcount) h.client.graphicsContexts rfl rfl
          exact selectEvents_done hcalm hclient hmin (by omega)
    case isFalse =>
      split
      case isTrue => exact error_done h 3 op id
      case isFalse => exact selectEvents_done h.calm h.client hmin (by omega)

theorem notifyDestroyed_calm (h : Calm little w) (mask id : Nat) :
    Ensures (notifyDestroyed mask id) w (fun _ t => Calm little t ∧ t.client = w.client)
      (Calm little) := by
  unfold notifyDestroyed
  split
  case isFalse => exact Ensures.pure ⟨h, rfl⟩
  case isTrue =>
    apply order_then
    apply packet_then
    intro b hb
    apply setField_then hb
    intro b hb
    apply set32_then hb (by decide)
    intro b hb
    rw [h.order] at hb
    exact send_calm h (hb.good (by decide) (by simp))

theorem destroyWindow_done (h : Ready w) (hlength : 8 ≤ r.length) :
    Ensures (destroyWindow r) w (fun _ t => Done w t) (Answered w) := by
  apply order_then
  apply u32_then (by omega)
  intro id _
  apply look_then
  split
  case isTrue => exact error_done h 3 4 id
  case isFalse =>
    apply change_then
    have hcalm := h.calm.set (c := { w.client with
      windows := w.client.windows.erase id, masks := w.client.masks.erase id })
      h.calm.order h.calm.atoms
    apply Ensures.calm (notifyDestroyed_calm hcalm _ id)
    intro _ t ht
    apply Ensures.update
    rw [ht.2]
    have hforget := ht.1.set (c := w.client.forget id) h.calm.order ht.1.atoms
    exact hforget.done (h.client.forget id)

/-! ## Atoms -/

theorem size_ofUtf8 {bytes : Bytes} {name : String} (h : ofUtf8 bytes = some name) :
    name.utf8ByteSize = bytes.length := by
  rw [← MessagePack.utf8_of_ofUtf8 h]
  rfl

theorem interned_done (h : Ready w) {name : String} (hname : name.utf8ByteSize ≤ 256)
    (only : Bool) : Ensures (interned name only) w (fun _ t => Done w t) (Answered w) := by
  have hintern := h.calm.atoms.intern hname only
  apply order_then
  apply look_then
  cases hatoms : w.atoms.intern name only with
  | mk atoms id =>
    rw [hatoms] at hintern
    apply update_then
    have hcalm := h.calm.set (c := w.client) h.calm.order hintern
    apply packet_then
    intro b hb
    apply set32_then hb (by decide)
    intro b hb
    exact send_done hcalm h.client (hb.good (by decide) (by simp))

theorem internAtom_done (h : Ready w) (hlength : 8 ≤ r.length) :
    Ensures (internAtom r) w (fun _ t => Done w t) (Answered w) := by
  apply order_then
  apply u16_then (by omega)
  intro n hn
  apply padded_then (by omega)
  apply fits_then (by omega)
  split
  case isTrue => exact error_done h 16 16 0
  case isFalse hsize =>
    have hn : n ≤ 256 ∧ r.length = 8 + (n + 3) / 4 * 4 := by
      simpa [not_or] using hsize
    have hrange := range_eq (b := r) (Nat.le_add_right 8 n) (by omega)
    apply checked_then ⟨_, hrange⟩
    intro bytes hbytes
    have hbound : bytes.length ≤ 256 := by
      rw [hrange] at hbytes
      rw [← Option.some.inj hbytes, List.length_take, List.length_drop]
      omega
    split
    case h_1 => exact error_done h 2 16 0
    case h_2 name hname =>
      apply checked_then ⟨_, List.getElem?_eq_getElem (by omega)⟩
      intro only _
      exact interned_done h (by rw [size_ofUtf8 hname]; exact hbound) (only != 0)

theorem getAtomName_done (h : Ready w) (hlength : 8 ≤ r.length) :
    Ensures (getAtomName r) w (fun _ t => Done w t) (Answered w) := by
  apply order_then
  apply u32_then (by omega)
  intro id _
  apply look_then
  split
  case h_1 => exact error_done h 5 17 id
  case h_2 name hname =>
    have hsize : (utf8 name).length ≤ 256 := by
      rw [length_utf8]
      exact h.calm.atoms.found hname
    apply packet_then
    intro b hb
    apply set16_then hb (by decide)
    intro b hb
    apply padded_then (by omega)
    apply setField_then hb
    intro b hb
    apply fits_then (by omega)
    apply send_done h.calm h.client
    have hgood := hb.reply (by omega) (utf8 name)
    rwa [show 4 * (((utf8 name).length + 3) / 4 * 4 / 4) = ((utf8 name).length + 3) / 4 * 4 by omega]
      at hgood

/-! ## Client-side properties -/

theorem changeProperty_done (h : Ready w) (hlength : 24 ≤ r.length) :
    Ensures (changeProperty r) w (fun _ t => Done w t) (Answered w) := by
  apply order_then
  apply u32_then (by omega)
  intro window _
  apply u32_then (by omega)
  intro atom _
  apply look_then
  split
  case isTrue => exact error_done h 3 18 window
  case isFalse =>
    apply checked_then ⟨_, List.getElem?_eq_getElem (by omega)⟩
    intro format _
    apply checked_then ⟨_, List.getElem?_eq_getElem (by omega)⟩
    intro mode _
    split
    case isTrue => exact error_done h 2 18 0
    case isFalse hformat =>
      have hformat : format.toNat = 8 ∨ format.toNat = 16 ∨ format.toNat = 32 := by
        simp only [not_or, not_not] at hformat
        simpa using hformat.1
      apply u32_then (by omega)
      intro count _
      dsimp only
      split
      case isTrue => exact error_done h 16 18 0
      case isFalse hchunk =>
        have hsmall : min (count * (format.toNat / 8)) (2 ^ 64 - 1) ≤ 65536 := by
          unfold chunk at hchunk
          omega
        generalize min (count * (format.toNat / 8)) (2 ^ 64 - 1) = n at hchunk hsmall
        apply padded_then (by omega)
        apply fits_then (by omega)
        split
        case isTrue => exact error_done h 16 18 0
        case isFalse hsize =>
          split
          case isTrue => exact error_done h 11 18 0
          case isFalse hroom =>
            apply u32_then (by omega)
            intro kind _
            have hrange := range_eq (b := r) (Nat.le_add_right 24 n) (by omega)
            apply checked_then ⟨_, hrange⟩
            intro bytes hbytes
            have hbytes : bytes.length ≤ chunk := by
              rw [hrange] at hbytes
              rw [← Option.some.inj hbytes, List.length_take, List.length_drop]
              omega
            apply change_then
            have hcalm := h.calm.set (c := w.client.place (window, atom) ⟨kind, format.toNat, bytes⟩)
              h.calm.order h.calm.atoms
            exact notifyProperty_done hcalm (h.client.place _ (by omega) ⟨hformat, hbytes⟩) 0

theorem deleteProperty_done (h : Ready w) (hlength : 12 ≤ r.length) :
    Ensures (deleteProperty r) w (fun _ t => Done w t) (Answered w) := by
  apply order_then
  apply u32_then (by omega)
  intro window _
  apply u32_then (by omega)
  intro atom _
  apply Ensures.done (delete_calm h.calm h.client)
  intro _ t ht
  exact ht.1.done ht.2

theorem getPart_done (h : Ready w) (hlength : 24 ≤ r.length) (hb : Draft w.client.little 1 0 b)
    {p : Property} (hp : p.Bounded) :
    Ensures (getPart r b key p) w (fun _ t => Done w t) (Answered w) := by
  have hsize : p.bytes.length ≤ 65536 := hp.size
  apply order_then
  apply u32_then (by omega)
  intro offset _
  apply fits_then (by omega)
  split
  case isTrue => exact error_done h 2 20 0
  case isFalse hstart =>
    apply u32_then (by omega)
    intro length _
    apply fits_then (by omega)
    dsimp only
    have hstop : offset * 4 ≤ min (min (offset * 4 + length * 4) (2 ^ 64 - 1)) p.bytes.length ∧
        min (min (offset * 4 + length * 4) (2 ^ 64 - 1)) p.bytes.length ≤ p.bytes.length := by
      omega
    generalize min (min (offset * 4 + length * 4) (2 ^ 64 - 1)) p.bytes.length = stop at hstop
    apply minus_then hstop.1
    apply minus_then hstop.2
    apply set32_then hb (by decide)
    intro b hb
    apply divided_then (by have := hp.format; omega)
    apply set32_then hb (by decide)
    intro b hb
    apply padded_then (by omega)
    apply setField_then hb
    intro b hb
    apply checked_then ⟨_, range_eq hstop.1 hstop.2⟩
    intro bytes _
    apply fits_then (by omega)
    apply checked_then ⟨_, List.getElem?_eq_getElem (by omega)⟩
    intro mode _
    have hgood := hb.reply (by omega) bytes
    rw [show 4 * ((stop - offset * 4 + 3) / 4 * 4 / 4) = (stop - offset * 4 + 3) / 4 * 4 by omega]
      at hgood
    apply Ensures.calm (send_calm h.calm hgood)
    intro _ t ht
    split
    case isTrue =>
      apply Ensures.done (delete_calm ht.1 (ht.2 ▸ h.client))
      intro _ u hu
      exact hu.1.done hu.2
    case isFalse => exact Ensures.pure (ht.1.done (ht.2 ▸ h.client))

theorem getProperty_done (h : Ready w) (hlength : 24 ≤ r.length) :
    Ensures (getProperty r) w (fun _ t => Done w t) (Answered w) := by
  apply order_then
  apply u32_then (by omega)
  intro window _
  apply u32_then (by omega)
  intro atom _
  apply look_then
  split
  case isTrue => exact error_done h 3 20 window
  case isFalse =>
    apply packet_then
    intro b hb
    split
    case h_1 => exact send_done h.calm h.client (hb.good (by decide) (fun _ => rfl))
    case h_2 p hp =>
      apply set8_then hb (Or.inl (by decide))
      intro b hb
      apply set32_then hb (by decide)
      intro b hb
      apply u32_then (by omega)
      intro kind _
      split
      case isTrue =>
        apply set32_then hb (by decide)
        intro b hb
        exact send_done h.calm h.client (hb.good (by decide) (fun _ => rfl))
      case isFalse => exact getPart_done h hlength hb (h.client.held _ p hp)

/-! ## The other requests -/

theorem getSelectionOwner_done (h : Ready w) (hlength : 8 ≤ r.length) :
    Ensures (getSelectionOwner r offer) w (fun _ t => Done w t) (Answered w) := by
  apply order_then
  apply u32_then (by omega)
  intro id _
  apply look_then
  apply packet_then
  intro b hb
  split
  case isTrue =>
    apply set32_then hb (by decide)
    intro b hb
    exact send_done h.calm h.client (hb.good (by decide) (fun _ => rfl))
  case isFalse => exact send_done h.calm h.client (hb.good (by decide) (fun _ => rfl))

theorem getInputFocus_done (h : Ready w) :
    Ensures getInputFocus w (fun _ t => Done w t) (Answered w) := by
  apply order_then
  apply packet_then
  intro b hb
  apply set32_then hb (by decide)
  intro b hb
  exact send_done h.calm h.client (hb.good (by decide) (fun _ => rfl))

theorem graphicsContext_done (h : Ready w) {op min : Nat} (hmin : min ≤ 32)
    (hcreate : op = 55 → 16 ≤ r.length) (hfields : 12 ≤ r.length) :
    Ensures (graphicsContext op min r) w (fun _ t => Done w t) (Answered w) := by
  apply order_then
  apply u32_then (by omega)
  intro id _
  apply u32_then (by split <;> omega)
  intro mask _
  have hle := countOnes_le mask
  apply look_then
  split
  case isTrue => exact error_done h 2 op mask
  case isFalse =>
    apply fits_then (by omega)
    apply fits_then (by omega)
    split
    case isTrue => exact error_done h 16 op 0
    case isFalse =>
      split
      case isTrue =>
        split
        case isTrue => exact error_done h 14 op id
        case isFalse =>
          apply u32_then (by omega)
          intro drawable _
          split
          case isTrue => exact error_done h 9 op drawable
          case isFalse =>
            split
            case isTrue => exact error_done h 11 op id
            case isFalse hroom =>
              apply Ensures.update
              have hcalm := h.calm.set (c := { w.client with
                graphicsContexts := insert id w.client.graphicsContexts }) h.calm.order h.calm.atoms
              have hcard : (insert id w.client.graphicsContexts).card ≤ 64 :=
                Nat.le_trans (Finset.card_insert_le _ _) (by omega)
              exact hcalm.done (h.client.congr h.client.windows hcard rfl rfl)
      case isFalse =>
        split
        case isTrue => exact error_done h 13 op id
        case isFalse => exact Ensures.pure (h.calm.done h.client)

theorem freeGC_done (h : Ready w) (hlength : 8 ≤ r.length) :
    Ensures (freeGC r) w (fun _ t => Done w t) (Answered w) := by
  apply order_then
  apply u32_then (by omega)
  intro id _
  apply look_then
  split
  case isTrue => exact error_done h 16 60 0
  case isFalse =>
    split
    case isTrue => exact error_done h 13 60 id
    case isFalse =>
      apply Ensures.update
      have hcalm := h.calm.set (c := { w.client with
        graphicsContexts := w.client.graphicsContexts.erase id }) h.calm.order h.calm.atoms
      have hcard : (w.client.graphicsContexts.erase id).card ≤ 64 :=
        Nat.le_trans Finset.card_erase_le h.client.graphicsContexts
      exact hcalm.done (h.client.congr h.client.windows hcard rfl rfl)

theorem queryExtension_done (h : Ready w) (hlength : 8 ≤ r.length) :
    Ensures (queryExtension r) w (fun _ t => Done w t) (Answered w) := by
  apply order_then
  apply u16_then (by omega)
  intro n _
  apply padded_then (by omega)
  apply fits_then (by omega)
  split
  case isTrue => exact error_done h 16 98 0
  case isFalse =>
    apply packet_then
    intro b hb
    exact send_done h.calm h.client (hb.good (by decide) (fun _ => rfl))

/-! ## Every request -/

/-- A request that has its bytes is answered. -/
theorem dispatch_done (h : Ready w) {op min : Nat} (hop : minimum op = some min)
    (hlength : min ≤ r.length) :
    Ensures (dispatch op min r offer) w (fun _ t => Done w t) (Answered w) := by
  unfold dispatch
  split
  case h_18 =>
    unfold minimum at hop
    split at hop
    all_goals contradiction
  all_goals cases hop
  case h_1 => exact windowAttributes_done h (by decide) (fun _ => hlength) (by omega)
  case h_2 => exact windowAttributes_done h (by decide) (by simp) hlength
  case h_3 => exact destroyWindow_done h hlength
  case h_4 => exact internAtom_done h hlength
  case h_5 => exact getAtomName_done h hlength
  case h_6 => exact changeProperty_done h hlength
  case h_7 => exact deleteProperty_done h hlength
  case h_8 => exact getProperty_done h hlength
  case h_9 => exact error_done h 10 22 0
  case h_10 => exact getSelectionOwner_done h hlength
  case h_11 => exact selection_done h hlength
  case h_12 => exact getInputFocus_done h
  case h_13 => exact graphicsContext_done h (by decide) (fun _ => hlength) (by omega)
  case h_14 => exact graphicsContext_done h (by decide) (by simp) hlength
  case h_15 => exact freeGC_done h hlength
  case h_16 => exact queryExtension_done h hlength
  case h_17 => exact Ensures.pure (h.calm.done h.client)

theorem request_done (h : Ready w) (hlength : 4 ≤ r.length) (offer : Offer) :
    Ensures (request r offer) w (fun _ t => Done w t) (Answered w) := by
  apply checked_then ⟨_, List.getElem?_eq_getElem (by omega)⟩
  intro op _
  split
  case h_1 => exact error_done h 1 op.toNat 0
  case h_2 min hmin =>
    split
    case isTrue => exact error_done h 16 op.toNat 0
    case isFalse hlong => exact dispatch_done h hmin (Nat.le_of_not_lt hlong)

end

end Porthop.X11.Requests
