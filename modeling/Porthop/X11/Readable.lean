import Porthop.Agent.Messages
import Porthop.Wayland.Offers
import Porthop.X11.Framed
import Porthop.X11.Interned

/- What is offered, and what of it can be read.

   The answer to `TARGETS` lists the formats and the aliases of plain text. A request for one
   that is listed is answered unless it is an alias that was offered without plain text itself,
   and the atoms of the answer are named unless the table of atoms is full. -/
namespace Porthop.X11

/-- The clipboard of a revision that is current, as an offer tells of it: what is offered can be
    had, and nothing else. -/
structure Current extends Clipboard where
  accepted : ∃ bytes o, Agent.Offer.decode bytes = some o ∧ o.formats.Perm formats
  delivers : ∀ name, (content name).isSome = true ↔ name ∈ formats

/-- The names that stand for plain text. -/
def aliases : List String :=
  ["UTF8_STRING", "TEXT", "text/plain;charset=utf-8", "text/plain; charset=utf-8"]

/-- What the answer to `TARGETS` lists. -/
def announced (formats : List String) : List String :=
  ["TARGETS", "TIMESTAMP"] ++ formats ++ if "text/plain" ∈ formats then aliases else []

/-- The format that a target asks for. -/
def asked (name : String) : String := if name ∈ aliases then "text/plain" else name

/-- A request for a target, whose property defaults to the target. -/
structure Conversion where
  window : Nat
  selection : Nat
  target : Nat
  property : Nat
  time : Nat

def Conversion.key (q : Conversion) : Key :=
  (q.window, if q.property = 0 then q.target else q.property)

/-- The numbers that a property holds in words of the client's byte order. -/
def Client.readWords (c : Client) (bytes : Bytes) : List Nat :=
  (pieces 4 bytes).map (Buffer.number c.little)

/-- What the property of a request holds when it was answered: for `TARGETS` an atom for each
    that is listed, else the value, or `INCR` and the value as a transfer when it is long. -/
def Holds (atoms : Atoms) (c : Client) (clipboard : Clipboard) (key : Key) (name : String) : Prop :=
  ∃ p, c.properties.lookup key = some p ∧
    if name = "TARGETS" then p.kind = 4 ∧ p.format = 32 ∧
      (c.readWords p.bytes).map atoms.name = (announced clipboard.formats).map some
    else if name = "TIMESTAMP" then p = ⟨19, 32, c.words [0]⟩
    else ∃ format ∈ clipboard.formats, ∃ bytes, clipboard.content format = some bytes ∧
      if bytes.length > chunk then atoms.name p.kind = some "INCR" ∧
        ∃ kind, c.transfer = some ⟨key, kind, bytes, 0⟩
      else p.format = 8 ∧ p.bytes = bytes

/-- The request is answered with what was offered. -/
def Answered (atoms : Atoms) (c : Client) (clipboard : Clipboard) (q : Conversion)
    (name : String) : Prop :=
  let r := c.selection atoms q.window q.selection q.target q.property q.time clipboard
  q.key.2 ≠ 0 ∧ .selectionNotify q.time q.window q.selection q.target q.key.2 ∈ r.2.2 ∧
    Holds r.1 r.2.1 clipboard q.key name

/-- The table of atoms when the value is there: `TEXT` is answered as `UTF8_STRING`. -/
def tableFor (atoms : Atoms) (name : String) : Atoms :=
  if name = "TEXT" then (atoms.intern "UTF8_STRING" false).1 else atoms

/-- There is room for the atoms of the answer, and an alias stands for what is offered. -/
def CanAnswer (atoms : Atoms) (clipboard : Clipboard) (name : String) : Prop :=
  if name = "TARGETS" then HasRoom atoms (announced clipboard.formats)
  else if name = "TIMESTAMP" then True
  else (name ∈ aliases → "text/plain" ∈ clipboard.formats) ∧
    ∀ bytes, clipboard.content (asked name) = some bytes → bytes.length > chunk →
      HasRoom (tableFor atoms name) ["INCR"]

variable {atoms : Atoms} {c : Client} {clipboard : Current} {q : Conversion} {name : String}

/-! ## The parts of an answer -/

theorem Current.few (clipboard : Current) : clipboard.formats.length ≤ 256 := by
  obtain ⟨bytes, o, ho, hperm⟩ := clipboard.accepted
  have hvalid := (Option.filter_eq_some_iff.mp ho).2
  simp only [Bool.and_eq_true, decide_eq_true_eq] at hvalid
  rw [← hperm.length_eq]
  exact hvalid.1.1

theorem asked_offered (hname : name ∈ announced clipboard.formats) (htargets : name ≠ "TARGETS")
    (htimestamp : name ≠ "TIMESTAMP") :
    asked name ∈ clipboard.formats ↔ (name ∈ aliases → "text/plain" ∈ clipboard.formats) := by
  rw [asked]
  split
  · next halias => exact ⟨fun h _ => h, fun h => h halias⟩
  · next halias =>
    refine ⟨fun _ h => absurd h halias, fun _ => ?_⟩
    simp only [announced, List.mem_append, List.mem_cons, List.not_mem_nil, or_false] at hname
    rcases hname with ((rfl | rfl) | hformat) | hin
    · exact absurd rfl htargets
    · exact absurd rfl htimestamp
    · exact hformat
    · split at hin
      · exact absurd hin halias
      · cases hin

theorem tableFor_bounded (hcount : atoms.length ≤ 4096) (name : String) :
    (tableFor atoms name).length ≤ 4096 := by
  rw [tableFor]
  split
  · rcases Atoms.intern_cases atoms "UTF8_STRING" with ⟨-, hsame, -⟩ | ⟨-, -, heq⟩ | ⟨-, hlt, heq⟩
    · rw [hsame]
      exact hcount
    · rw [heq]
      exact hcount
    · rw [heq, List.length_append, List.length_singleton]
      omega
  · exact hcount

section
variable (hselection : atoms.name q.selection = some "CLIPBOARD")
  (htarget : atoms.name q.target = some name) (hsome : clipboard.formats ≠ [])

include hselection htarget hsome

theorem convert_targets (hname : name = "TARGETS") :
    c.convert atoms q.selection q.target clipboard.toClipboard =
      ((atoms.internAll (announced clipboard.formats)).1,
        some ⟨4, 32, c.words (atoms.internAll (announced clipboard.formats)).2⟩) := by
  simp [Client.convert, hselection, htarget, hsome, hname, announced, aliases]

theorem convert_timestamp (hname : name = "TIMESTAMP") :
    c.convert atoms q.selection q.target clipboard.toClipboard =
      (atoms, some ⟨19, 32, c.words [0]⟩) := by
  simp [Client.convert, hselection, htarget, hsome, hname]

/-- Another target is the value of the format it asks for. -/
theorem convert_format (htargets : name ≠ "TARGETS") (htimestamp : name ≠ "TIMESTAMP") :
    c.convert atoms q.selection q.target clipboard.toClipboard =
      match clipboard.content (asked name) with
      | some bytes =>
        let (atoms, kind) :=
          if name = "TEXT" then atoms.intern "UTF8_STRING" false else (atoms, q.target)
        (atoms, some ⟨kind, 8, bytes⟩)
      | none => (atoms, none) := by
  unfold Client.convert
  simp only [hselection, htarget, if_true, if_neg hsome, if_neg htargets, if_neg htimestamp,
    Option.getD_some]
  rfl

end

/-! ## What is placed -/

theorem pieces_flatMap {α β : Type} {size : Nat} (hsize : 0 < size) {f : β → List α}
    (hf : ∀ b, (f b).length = size) (bs : List β) : pieces size (bs.flatMap f) = bs.map f := by
  induction bs with
  | nil => rfl
  | cons b bs ih =>
    have hne : f b ++ bs.flatMap f ≠ [] := by
      intro hnil
      have := hf b
      rw [(List.append_eq_nil_iff.mp hnil).1, List.length_nil] at this
      omega
    calc pieces size ((b :: bs).flatMap f)
        = (f b ++ bs.flatMap f).take size :: pieces size ((f b ++ bs.flatMap f).drop size) := by
          rw [List.flatMap_cons, pieces_cons hsize hne]
      _ = f b :: pieces size (bs.flatMap f) := by
          rw [← hf b, List.take_left, List.drop_left]
      _ = (b :: bs).map f := by rw [ih, List.map_cons]

/-- The words that are placed are those that are read. -/
theorem readWords_words (c : Client) {ns : List Nat} (hns : ∀ n ∈ ns, n < 2 ^ 32) :
    c.readWords (c.words ns) = ns := by
  have hlength : ∀ n, (c.order (MessagePack.be 4 n)).length = 4 := Requests.length_number c.little 4
  rw [Client.readWords, Client.words, pieces_flatMap (by decide) hlength, List.map_map]
  calc ns.map (Buffer.number c.little ∘ fun n => c.order (MessagePack.be 4 n))
      = ns.map id := by
        apply List.map_congr_left
        intro n hn
        have hnumber : Buffer.number c.little (c.order (MessagePack.be 4 n)) = n % 2 ^ 32 :=
          Buffer.number_ordered c.little 4 n
        rw [Function.comp_apply, hnumber, Nat.mod_eq_of_lt (hns n hn)]
        rfl
    _ = ns := List.map_id ns

/-- An atom is at most the number of atoms there may be. -/
theorem internAll_le (hcount : atoms.length ≤ 4096) (names : List String) :
    ∀ id ∈ (atoms.internAll names).2, id ≤ 4096 := by
  induction names generalizing atoms with
  | nil => exact fun id hid => absurd hid List.not_mem_nil
  | cons name names ih =>
    have hintern : (atoms.intern name false).2 ≤ 4096 ∧
        (atoms.intern name false).1.length ≤ 4096 := by
      rcases Atoms.intern_cases atoms name with ⟨-, hsame, hname⟩ | ⟨-, -, heq⟩ | ⟨-, hlt, heq⟩
      · rw [hsame]
        refine ⟨?_, hcount⟩
        cases hid : (atoms.intern name false).2 with
        | zero => exact Nat.zero_le _
        | succ i =>
          rw [hid, Atoms.name_succ] at hname
          have := (List.getElem?_eq_some_iff.mp hname).1
          omega
      · rw [heq]
        exact ⟨Nat.zero_le _, hcount⟩
      · rw [heq]
        refine ⟨by omega, ?_⟩
        rw [List.length_append, List.length_singleton]
        omega
    intro id hid
    rcases List.mem_cons.mp hid with rfl | hid
    · exact hintern.1
    · exact ih hintern.2 id hid

theorem selection_none {table : Atoms} (hwindow : q.window ∈ c.windows)
    (hconvert : c.convert atoms q.selection q.target clipboard.toClipboard = (table, none)) :
    c.selection atoms q.window q.selection q.target q.property q.time clipboard.toClipboard =
      (table, c, [.selectionNotify q.time q.window q.selection q.target 0]) := by
  simp [Client.selection, hwindow, hconvert]

theorem selection_some {table : Atoms} {value : Property} (hwindow : q.window ∈ c.windows)
    (hfree : c.busy = false)
    (hconvert : c.convert atoms q.selection q.target clipboard.toClipboard = (table, some value)) :
    c.selection atoms q.window q.selection q.target q.property q.time clipboard.toClipboard =
      ((c.deliver table q.key value).1, (c.deliver table q.key value).2,
        (c.deliver table q.key value).2.notifyProperty q.key false ++
          [.selectionNotify q.time q.window q.selection q.target q.key.2]) := by
  simp only [Client.selection, hwindow, hconvert, hfree, not_true_eq_false, if_false]
  rfl

theorem key_ne_zero (htarget : atoms.name q.target = some name) : q.key.2 ≠ 0 := by
  show (if q.property = 0 then q.target else q.property) ≠ 0
  split
  · intro hzero
    rw [hzero] at htarget
    cases htarget
  · next hproperty => exact hproperty

/-- A value that is there is delivered. -/
theorem answered_some {table : Atoms} {value : Property} (hwindow : q.window ∈ c.windows)
    (hfree : c.busy = false) (htarget : atoms.name q.target = some name)
    (hconvert : c.convert atoms q.selection q.target clipboard.toClipboard = (table, some value)) :
    Answered atoms c clipboard.toClipboard q name ↔ Holds (c.deliver table q.key value).1
      (c.deliver table q.key value).2 clipboard.toClipboard q.key name := by
  rw [Answered, selection_some hwindow hfree hconvert]
  refine ⟨fun h => h.2.2, fun h => ⟨key_ne_zero htarget, ?_, h⟩⟩
  exact List.mem_append_right _ (List.mem_singleton.mpr rfl)

theorem deliver_short {table : Atoms} {key : Key} {value : Property}
    (hshort : ¬ value.bytes.length > chunk) :
    c.deliver table key value = (table, c.place key value) := if_neg hshort

theorem lookup_place (c : Client) (key : Key) (p : Property) :
    (c.place key p).properties.lookup key = some p := AList.lookup_insert _

/-! ## One request -/

section
variable (hwindow : q.window ∈ c.windows) (hfree : c.busy = false)
  (hselection : atoms.name q.selection = some "CLIPBOARD")
  (htarget : atoms.name q.target = some name) (hsome : clipboard.formats ≠ [])

include hwindow hfree hselection htarget hsome

theorem answered_targets (hcount : atoms.length ≤ 4096) (hname : name = "TARGETS") :
    Answered atoms c clipboard.toClipboard q name ↔ HasRoom atoms (announced clipboard.formats) := by
  have hconvert := convert_targets (c := c) hselection htarget hsome hname
  rw [answered_some hwindow hfree htarget hconvert]
  have hshort : ¬ (c.words (atoms.internAll (announced clipboard.formats)).2).length > chunk := by
    have hfew := clipboard.few
    have htexts : (if "text/plain" ∈ clipboard.formats then aliases else []).length ≤ 4 := by
      split <;> decide
    rw [Requests.length_words, Atoms.length_internAll, announced, List.length_append,
      List.length_append, chunk]
    simp only [List.length_cons, List.length_nil]
    omega
  rw [deliver_short hshort, ← Atoms.internAll_names_iff hcount]
  have hids : ∀ id ∈ (atoms.internAll (announced clipboard.formats)).2, id < 2 ^ 32 := by
    intro id hid
    have := internAll_le hcount _ id hid
    omega
  have hwords : (c.place q.key ⟨4, 32,
      c.words (atoms.internAll (announced clipboard.formats)).2⟩).readWords
        (c.words (atoms.internAll (announced clipboard.formats)).2) =
      (atoms.internAll (announced clipboard.formats)).2 := readWords_words _ hids
  rw [Holds]
  simp only [lookup_place, hname, if_true, Option.some.injEq, exists_eq_left', true_and, hwords]

theorem answered_timestamp (hname : name = "TIMESTAMP") :
    Answered atoms c clipboard.toClipboard q name := by
  have hconvert := convert_timestamp (c := c) hselection htarget hsome hname
  rw [answered_some hwindow hfree htarget hconvert]
  have hshort : ¬ (c.words [0]).length > chunk := by
    rw [Requests.length_words]
    decide
  rw [deliver_short hshort, Holds]
  refine ⟨_, lookup_place c q.key _, ?_⟩
  rw [hname, if_neg (by decide), if_pos rfl]
  rfl

/-- Another target is answered where it stands for what is offered, and where the atom of a
    transfer can be had. -/
theorem answered_format (hcount : atoms.length ≤ 4096)
    (hname : name ∈ announced clipboard.formats) (htargets : name ≠ "TARGETS")
    (htimestamp : name ≠ "TIMESTAMP") :
    Answered atoms c clipboard.toClipboard q name ↔
      (name ∈ aliases → "text/plain" ∈ clipboard.formats) ∧
        ∀ bytes, clipboard.content (asked name) = some bytes → bytes.length > chunk →
          HasRoom (tableFor atoms name) ["INCR"] := by
  have hconvert := convert_format (c := c) hselection htarget hsome htargets htimestamp
  rw [← asked_offered hname htargets htimestamp, ← clipboard.delivers]
  cases hcontent : clipboard.content (asked name) with
  | none =>
    -- what the target stands for is not offered, and the request is refused
    rw [hcontent] at hconvert
    rw [Answered, selection_none hwindow hconvert]
    simp only [Option.isSome_none, Bool.false_eq_true, false_and, iff_false]
    rintro ⟨hkey, hnotify, -⟩
    have hzero := List.mem_singleton.mp hnotify
    simp only [Packet.selectionNotify.injEq] at hzero
    exact hkey hzero.2.2.2.2
  | some bytes =>
    rw [hcontent] at hconvert
    have hoffered : asked name ∈ clipboard.formats := by
      rw [← clipboard.delivers, hcontent]
      rfl
    obtain ⟨kind, hvalue⟩ : ∃ kind, c.convert atoms q.selection q.target clipboard.toClipboard =
        (tableFor atoms name, some ⟨kind, 8, bytes⟩) := by
      rw [hconvert, tableFor]
      by_cases htext : name = "TEXT"
      · exact ⟨(atoms.intern "UTF8_STRING" false).2, by simp only [htext, if_true]⟩
      · exact ⟨q.target, by simp only [htext, if_false]⟩
    rw [answered_some hwindow hfree htarget hvalue]
    have hbounded := tableFor_bounded hcount name
    by_cases hlong : bytes.length > chunk
    · have hdeliver : c.deliver (tableFor atoms name) q.key ⟨kind, 8, bytes⟩ =
          (((tableFor atoms name).intern "INCR" false).1, { c.place q.key
            ⟨((tableFor atoms name).intern "INCR" false).2, 32, c.words [bytes.length]⟩ with
              transfer := some ⟨q.key, kind, bytes, 0⟩ }) := if_pos hlong
      rw [hdeliver]
      simp only [Option.isSome_some, true_and, Option.some.injEq, forall_eq', hlong, true_imp_iff]
      rw [← Atoms.intern_name_iff hbounded]
      constructor
      · rintro ⟨p, hp, hholds⟩
        obtain rfl := Option.some.inj ((lookup_place c q.key _).symm.trans hp)
        rw [if_neg htargets, if_neg htimestamp] at hholds
        obtain ⟨format, -, bytes', -, hholds⟩ := hholds
        split at hholds
        · exact hholds.1
        · exact absurd hholds.1 (by simp)
      · intro hnamed
        refine ⟨_, lookup_place c q.key _, ?_⟩
        rw [if_neg htargets, if_neg htimestamp]
        refine ⟨asked name, hoffered, bytes, hcontent, ?_⟩
        rw [if_pos hlong]
        exact ⟨hnamed, kind, rfl⟩
    · have hshort : ¬ (Property.mk kind 8 bytes).bytes.length > chunk := hlong
      rw [deliver_short hshort]
      constructor
      · intro _
        exact ⟨rfl, fun other hother hlonger => absurd hlonger (Option.some.inj hother ▸ hlong)⟩
      · intro _
        refine ⟨_, lookup_place c q.key _, ?_⟩
        rw [if_neg htargets, if_neg htimestamp]
        refine ⟨asked name, hoffered, bytes, hcontent, ?_⟩
        rw [if_neg hlong]
        exact ⟨rfl, rfl⟩

theorem answered_iff (hcount : atoms.length ≤ 4096)
    (hname : name ∈ announced clipboard.formats) :
    Answered atoms c clipboard.toClipboard q name ↔
      CanAnswer atoms clipboard.toClipboard name := by
  rw [CanAnswer]
  by_cases htargets : name = "TARGETS"
  · rw [if_pos htargets]
    exact answered_targets hwindow hfree hselection htarget hsome hcount htargets
  · rw [if_neg htargets]
    by_cases htimestamp : name = "TIMESTAMP"
    · rw [if_pos htimestamp]
      exact iff_true_intro (answered_timestamp hwindow hfree hselection htarget hsome htimestamp)
    · rw [if_neg htimestamp]
      exact answered_format hwindow hfree hselection htarget hsome hcount hname htargets htimestamp

end

/-! ## Both servers -/

/-- **What is offered can be read**, in every state of the two servers, exactly where there is
    room for the atoms and plain text is offered with its aliases. -/
theorem offered_readable {events : List Requests.Event} {s : Requests.Server} {ρ : Type} [DecidableEq ρ]
    {formatsOf : ρ → List String} {changes : List (Wayland.Event ρ)} {w : Wayland.State ρ}
    (hrun : Run.exec Requests.step events Requests.Server.start = some s)
    (hchanges : Run.exec (Wayland.State.step formatsOf) changes Wayland.State.new = some w) :
    (∀ (i : Nat) (conn : Requests.Connection) (clipboard : Current) (q : Conversion)
      (name : String), s.connections[i]? = some (some conn) → conn.client.busy = false →
      q.window ∈ conn.client.windows → clipboard.formats ≠ [] →
      s.atoms.name q.selection = some "CLIPBOARD" → s.atoms.name q.target = some name →
      name ∈ announced clipboard.formats →
      (Answered s.atoms conn.client clipboard.toClipboard q name ↔
        CanAnswer s.atoms clipboard.toClipboard name)) ∧
    (∀ offer ∈ w.offers, ∀ mime ∈ offer.mimes, w.revision = offer.revision → w.transfers < 8 →
      ((∃ format ∈ w.formats, w.receive offer mime offer.revision = .transfer format) ↔
        (mime = "text/plain;charset=utf-8" → "text/plain" ∈ w.formats))) := by
  constructor
  · intro i conn clipboard q name _ hfree hwindow hsome hselection htarget hname
    exact answered_iff hwindow hfree hselection htarget hsome (Requests.requests_framed hrun).1
      hname
  · intro offer hoffer mime hmime hsame hfree
    exact Wayland.receive_iff hchanges hoffer hmime hsame hfree

/-! ## Plain text under other names -/

namespace Readable

open Requests (emptyOffer)

/-- A client creates a window, and interns `CLIPBOARD` and `UTF8_STRING`. -/
def interned : List Requests.Event :=
  [.connect true 1,
    .request 0 [1, 0, 8, 0, 1, 0, 16, 0, 1, 0, 0, 0, 0, 0, 0, 0, 1, 0, 1, 0, 0, 0, 0, 0, 0, 0, 0, 0,
      0, 0, 0, 0] emptyOffer [],
    .request 0 [16, 0, 5, 0, 9, 0, 0, 0, 67, 76, 73, 80, 66, 79, 65, 82, 68, 0, 0, 0] emptyOffer [],
    .request 0 [16, 0, 5, 0, 11, 0, 0, 0, 85, 84, 70, 56, 95, 83, 84, 82, 73, 78, 71, 0] emptyOffer
      []]

def onlyFormat (format : String) (name : String) : Option Bytes :=
  if name = format then some [104, 105] else none

def utf8Only : Current where
  formats := ["UTF8_STRING"]
  content := onlyFormat "UTF8_STRING"
  accepted := ⟨[0x92, 1, 0x91, 0xab, 85, 84, 70, 56, 95, 83, 84, 82, 73, 78, 71],
    ⟨1, ["UTF8_STRING"]⟩, by rfl, .refl _⟩
  delivers name := by simp [onlyFormat, Option.isSome_ite]

def plainText : Current where
  formats := ["text/plain"]
  content := onlyFormat "text/plain"
  accepted := ⟨[0x92, 1, 0x91, 0xaa, 116, 101, 120, 116, 47, 112, 108, 97, 105, 110],
    ⟨1, ["text/plain"]⟩, by rfl, .refl _⟩
  delivers name := by simp [onlyFormat, Option.isSome_ite]

def utf8Request : Conversion := ⟨0x100001, 69, 70, 0, 0⟩

theorem interned_some : ∃ s conn, Run.exec Requests.step interned Requests.Server.start = some s ∧
    s.connections[0]? = some (some conn) ∧ conn.client.busy = false ∧
      utf8Request.window ∈ conn.client.windows ∧ s.atoms.name 69 = some "CLIPBOARD" ∧
        s.atoms.name 70 = some "UTF8_STRING" ∧ s.atoms.length = 70 := by
  have hsome : ((Run.exec Requests.step interned Requests.Server.start).any fun s =>
      (s.connections[0]?).join.any fun conn => !conn.client.busy &&
        decide (utf8Request.window ∈ conn.client.windows) &&
        decide (s.atoms.name 69 = some "CLIPBOARD") &&
        decide (s.atoms.name 70 = some "UTF8_STRING") && decide (s.atoms.length = 70)) =
      true := by decide +kernel
  obtain ⟨s, hs, hany⟩ := (Option.any_eq_true _ _).mp hsome
  obtain ⟨conn, hjoin, hfacts⟩ := (Option.any_eq_true _ _).mp hany
  simp only [Bool.and_eq_true, Bool.not_eq_true', decide_eq_true_eq] at hfacts
  obtain ⟨⟨⟨⟨hfree, hwindow⟩, hselection⟩, htarget⟩, hlength⟩ := hfacts
  exact ⟨s, conn, hs, Option.join_eq_some_iff.mp hjoin, hfree, hwindow, hselection, htarget,
    hlength⟩

end Readable

open Readable in
/-- Plain text is read as `UTF8_STRING`. -/
theorem plainText_answered : ∃ s conn,
    Run.exec Requests.step interned Requests.Server.start = some s ∧
      s.connections[0]? = some (some conn) ∧
        Answered s.atoms conn.client plainText.toClipboard utf8Request "UTF8_STRING" := by
  obtain ⟨s, conn, hs, hconn, hfree, hwindow, hselection, htarget, hlength⟩ := interned_some
  have hnew : Run.exec (Wayland.State.step fun _ : Nat => ["text/plain"]) [] Wayland.State.new =
    some Wayland.State.new := rfl
  have hreadable := (offered_readable hs hnew).1 0 conn plainText utf8Request "UTF8_STRING" hconn
    hfree hwindow (by decide) hselection htarget (by decide)
  refine ⟨s, conn, hs, hconn, hreadable.mpr ?_⟩
  refine ⟨fun _ => by decide, fun bytes hbytes hlong => ?_⟩
  have hshort : bytes = [104, 105] := (Option.some.inj hbytes).symm
  rw [hshort] at hlong
  exact absurd hlong (by decide)

open Readable in
/-- Where only `UTF8_STRING` is offered, a request for it is refused. -/
theorem utf8Only_refused : ¬ ∀ (events : List Requests.Event) (s : Requests.Server) (i : Nat)
    (conn : Requests.Connection) (clipboard : Current) (q : Conversion) (name : String),
    Run.exec Requests.step events Requests.Server.start = some s →
    s.connections[i]? = some (some conn) → conn.client.busy = false →
    q.window ∈ conn.client.windows → clipboard.formats ≠ [] →
    s.atoms.name q.selection = some "CLIPBOARD" → s.atoms.name q.target = some name →
    name ∈ announced clipboard.formats →
    Answered s.atoms conn.client clipboard.toClipboard q name := by
  intro hclaim
  obtain ⟨s, conn, hs, hconn, hfree, hwindow, hselection, htarget, hlength⟩ := interned_some
  have hanswered := hclaim interned s 0 conn utf8Only utf8Request "UTF8_STRING" hs hconn hfree
    hwindow (by decide) hselection htarget (by decide)
  have hcount : s.atoms.length ≤ 4096 := by
    rw [hlength]
    decide
  have hiff : Answered s.atoms conn.client utf8Only.toClipboard utf8Request "UTF8_STRING" ↔
      CanAnswer s.atoms utf8Only.toClipboard "UTF8_STRING" :=
    answered_iff hwindow hfree hselection htarget (by decide) hcount (by decide)
  have hcan := hiff.mp hanswered
  exact absurd (hcan.1 (by decide)) (by decide)

end Porthop.X11
