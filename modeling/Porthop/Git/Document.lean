import Porthop.Git.Envelope

/- Documents somebody else wrote, and the ones that name a field twice.

   A document is a tree of lexemes: bytes with the token they are read as, in whatever form
   the token was written. Nothing is said of what the document means. What is shown is that
   every reader of the codec takes one whole document and refuses those in which a map, at
   any depth, has two keys that stand for one name. -/
namespace Porthop.Git.Wire
open MessagePack (Token Primitives)

/-- Bytes that are read as one token. -/
structure Lexeme (P : Primitives) where
  bytes : List UInt8
  token : Token
  reads : P.read.Reads bytes token

inductive Document (P : Primitives) where
  | leaf (lexeme : Lexeme P)
  | arr (head : Lexeme P) (items : List (Document P))
  | map (head : Lexeme P) (members : List (Document P × Document P))

/-- A token that nothing belongs to. -/
def scalar : Token → Prop
  | .arr _ | .map _ => False
  | _ => True

namespace Document
variable {P : Primitives}

mutual
def bytes : Document P → List UInt8
  | leaf lexeme => lexeme.bytes
  | arr head items => head.bytes ++ bytesItems items
  | map head members => head.bytes ++ bytesMembers members

def bytesItems : List (Document P) → List UInt8
  | [] => []
  | d :: ds => d.bytes ++ bytesItems ds

def bytesMembers : List (Document P × Document P) → List UInt8
  | [] => []
  | (key, d) :: ms => key.bytes ++ (d.bytes ++ bytesMembers ms)
end

mutual
/-- Every header counts what follows it. -/
def Formed : Document P → Prop
  | leaf lexeme => scalar lexeme.token
  | arr head items => (∃ n, head.token = .arr n ∧ n.toNat = items.length) ∧ FormedItems items
  | map head members =>
    (∃ n, head.token = .map n ∧ n.toNat = members.length) ∧ FormedMembers members

def FormedItems : List (Document P) → Prop
  | [] => True
  | d :: ds => d.Formed ∧ FormedItems ds

def FormedMembers : List (Document P × Document P) → Prop
  | [] => True
  | (key, d) :: ms => key.Formed ∧ d.Formed ∧ FormedMembers ms
end

/-- The field a key names, by its number or its text. -/
def name : Document P → Option String
  | leaf lexeme => keyName lexeme.token
  | _ => none

def names (members : List (Document P × Document P)) : List String :=
  members.filterMap fun m => m.1.name

mutual
/-- Some map names a field twice. -/
def Repeats : Document P → Prop
  | leaf _ => False
  | arr _ items => RepeatsItems items
  | map _ members => ¬ (names members).Nodup ∨ RepeatsMembers members

def RepeatsItems : List (Document P) → Prop
  | [] => False
  | d :: ds => d.Repeats ∨ RepeatsItems ds

def RepeatsMembers : List (Document P × Document P) → Prop
  | [] => False
  | (key, d) :: ms => key.Repeats ∨ d.Repeats ∨ RepeatsMembers ms
end

end Document

open Document

section
variable {P : Primitives} {α β : Type}

/-- A reader of one document that accepts none with a name given twice. -/
def Refuses (P : Primitives) (p : Parser UInt8 α) : Prop :=
  ∀ d : Document P, d.Formed → p.Takes d.bytes fun _ => ¬ d.Repeats

/-- A reader of `k` documents, the same. -/
def RefusesItems (P : Primitives) (k : Nat) (p : Parser UInt8 α) : Prop :=
  ∀ ds : List (Document P), ds.length = k → FormedItems ds →
    p.Takes (bytesItems ds) fun _ => ¬ RepeatsItems ds

/-- A reader of the members of a map. -/
def RefusesMembers (P : Primitives) (k : Nat) (p : Parser UInt8 α) : Prop :=
  ∀ ms : List (Document P × Document P), ms.length = k → FormedMembers ms →
    p.Takes (bytesMembers ms) fun _ => (names ms).Nodup ∧ ¬ RepeatsMembers ms

/-- A step that takes nothing. -/
def Idle (p : Parser UInt8 α) : Prop := p.Takes [] fun _ => True

theorem idle_pure (a : α) : Idle (pure a) := Parser.takes_pure trivial

theorem idle_fail : Idle (Parser.fail : Parser UInt8 α) := Parser.takes_fail

theorem idle_ofOption (a : Option α) : Idle (Parser.ofOption a) := by
  cases a with
  | none => exact idle_fail
  | some a => exact idle_pure a

theorem Idle.bind {p : Parser UInt8 α} {f : α → Parser UInt8 β} (h : Idle p)
    (hf : ∀ a, Idle (f a)) : Idle (p >>= f) := Parser.Takes.map h fun a _ => hf a

theorem refusesItems_fail (k : Nat) : RefusesItems P k (Parser.fail : Parser UInt8 α) :=
  fun _ _ _ => Parser.takes_fail

theorem refusesMembers_fail (k : Nat) : RefusesMembers P k (Parser.fail : Parser UInt8 α) :=
  fun _ _ _ => Parser.takes_fail

theorem Refuses.map {p : Parser UInt8 α} {f : α → Parser UInt8 β} (h : Refuses P p)
    (hf : ∀ a, Idle (f a)) : Refuses P (p >>= f) := by
  intro d hd
  refine (h d hd).map fun a ha => ?_
  exact (hf a).weaken fun _ _ => ha

theorem RefusesItems.map {k : Nat} {p : Parser UInt8 α} {f : α → Parser UInt8 β}
    (h : RefusesItems P k p) (hf : ∀ a, Idle (f a)) : RefusesItems P k (p >>= f) := by
  intro ds hk hds
  refine (h ds hk hds).map fun a ha => ?_
  exact (hf a).weaken fun _ _ => ha

theorem RefusesMembers.map {k : Nat} {p : Parser UInt8 α} {f : α → Parser UInt8 β}
    (h : RefusesMembers P k p) (hf : ∀ a, Idle (f a)) : RefusesMembers P k (p >>= f) := by
  intro ms hk hms
  refine (h ms hk hms).map fun a ha => ?_
  exact (hf a).weaken fun _ _ => ha

theorem refusesItems_idle {p : Parser UInt8 α} (h : Idle p) : RefusesItems P 0 p := by
  intro ds hk _
  obtain rfl := List.length_eq_zero_iff.mp hk
  exact h.weaken fun _ _ hr => hr

/-- A document, then those after it. -/
theorem RefusesItems.cons {k : Nat} {p : Parser UInt8 α} {f : α → Parser UInt8 β}
    (h : Refuses P p) (hf : ∀ a, RefusesItems P k (f a)) :
    RefusesItems P (k + 1) (p >>= f) := by
  intro ds hk hds
  cases ds with
  | nil => cases hk
  | cons d ds =>
    refine (h d hds.1).bind fun a ha => ?_
    refine (hf a ds (Nat.succ.inj hk) hds.2).weaken fun _ hrest => ?_
    intro hr
    cases hr with
    | inl hr => exact ha hr
    | inr hr => exact hrest hr

theorem refusesItems_items {p : Nat → Parser UInt8 α} (h : ∀ i, Refuses P (p i)) :
    ∀ n i, RefusesItems P n (Parser.items p i n) := by
  intro n
  induction n with
  | zero => intro i; exact refusesItems_idle (idle_pure _)
  | succ n ih => intro i; exact RefusesItems.cons (h i) fun a => (ih (i + 1)).map fun _ => idle_pure _

/-- A reader by the first token. -/
theorem refuses_read {f : Token → Parser UInt8 α} (hscalar : ∀ t, scalar t → Idle (f t))
    (harr : ∀ n, RefusesItems P n.toNat (f (.arr n)))
    (hmap : ∀ n, RefusesMembers P n.toNat (f (.map n))) : Refuses P (P.read >>= f) := by
  intro d hd
  cases d with
  | leaf lexeme =>
    refine lexeme.reads.takes.map fun t ht => ?_
    subst ht
    exact (hscalar _ hd).weaken fun _ _ hr => hr
  | arr head items =>
    obtain ⟨⟨n, hn, hlen⟩, hitems⟩ := hd
    refine head.reads.takes.bind fun t ht => ?_
    rw [ht, hn]
    exact harr n items hlen.symm hitems
  | map head members =>
    obtain ⟨⟨n, hn, hlen⟩, hmembers⟩ := hd
    refine head.reads.takes.bind fun t ht => ?_
    rw [ht, hn]
    refine (hmap n members hlen.symm hmembers).weaken fun _ h hr => ?_
    cases hr with
    | inl hr => exact hr h.1
    | inr hr => exact h.2 hr

/-! ## Values -/

/-- A key is read as the name it stands for. -/
theorem takes_key (d : Document P) (hd : d.Formed) :
    (readKey P).Takes d.bytes fun key => d.name = some key ∧ ¬ d.Repeats := by
  have hnone : ∀ (head : Lexeme P) (rest : List UInt8) {Q : String → Prop},
      keyName head.token = none → (readKey P).Takes (head.bytes ++ rest) Q := by
    intro head rest Q hkey
    refine head.reads.takes.bind fun t ht => ?_
    rw [ht, hkey]
    exact Parser.takes_fail
  cases d with
  | leaf lexeme =>
    refine lexeme.reads.takes.map fun t ht => ?_
    subst ht
    show (Parser.ofOption (keyName lexeme.token)).Takes [] fun key =>
      keyName lexeme.token = some key ∧ ¬ False
    cases keyName lexeme.token with
    | none => exact Parser.takes_fail
    | some key => exact Parser.takes_pure ⟨rfl, not_false⟩
  | arr head items =>
    obtain ⟨⟨n, hn, -⟩, -⟩ := hd
    exact hnone head _ (by rw [hn]; rfl)
  | map head members =>
    obtain ⟨⟨n, hn, -⟩, -⟩ := hd
    exact hnone head _ (by rw [hn]; rfl)

/-- The names of the members still to come are new. -/
theorem takes_members {value : String → Parser UInt8 Value} (h : ∀ key, Refuses P (value key)) :
    ∀ (ms : List (Document P × Document P)) (rows : List (String × Value)), FormedMembers ms →
      (rows.map Prod.fst).Nodup → (readMembers P value rows ms.length).Takes (bytesMembers ms)
        fun _ => (rows.map Prod.fst ++ names ms).Nodup ∧ ¬ RepeatsMembers ms := by
  intro ms
  induction ms with
  | nil =>
    intro rows _ hrows
    refine Parser.takes_pure ⟨?_, fun hr => hr⟩
    rwa [names, List.filterMap_nil, List.append_nil]
  | cons m ms ih =>
    intro rows hms hrows
    refine (takes_key m.1 hms.1).bind fun key hkey => (h key m.2 hms.2.1).bind fun v hv => ?_
    split
    · exact Parser.takes_fail
    · next hnew =>
      have hnodup : ((rows ++ [(key, v)]).map Prod.fst).Nodup := by
        rw [List.map_append, List.map_singleton]
        refine List.nodup_append.mpr ⟨hrows, List.nodup_singleton _, ?_⟩
        intro a ha b hb hab
        obtain rfl := List.mem_singleton.mp hb
        exact hnew (hab ▸ ha)
      refine (ih (rows ++ [(key, v)]) hms.2.2 hnodup).weaken fun _ hrest => ⟨?_, ?_⟩
      · have hnames : names (m :: ms) = key :: names ms := List.filterMap_cons_some hkey.1
        have hrow := hrest.1
        rw [List.map_append, List.map_singleton, List.append_assoc] at hrow
        rw [hnames]
        exact hrow
      · intro hr
        rcases hr with hr | hr | hr
        · exact hkey.2 hr
        · exact hv hr
        · exact hrest.2 hr

theorem refusesMembers_members {value : String → Parser UInt8 Value}
    (h : ∀ key, Refuses P (value key)) (n : Nat) :
    RefusesMembers P n (readMembers P value [] n) := by
  intro ms hk hms
  subst hk
  exact takes_members h ms [] hms List.nodup_nil

/-- **No value is read in which a name is given twice.** -/
theorem refuses_body (room : Nat) (mode : Mode) : Refuses P (readBody P room mode) := by
  induction room generalizing mode with
  | zero => exact fun _ _ => Parser.takes_fail
  | succ room ih =>
    refine refuses_read (fun t ht => ?_) (fun n => ?_) (fun n => ?_)
    · cases t with
      | nil => exact idle_pure _
      | bool b => exact idle_pure _
      | uint n => exact idle_pure _
      | sint i => exact idle_pure _
      | float bits =>
        show Idle (if h : finite bits = true then pure (Json.num (Number.float bits h))
          else Parser.fail)
        split
        · exact idle_pure _
        · exact idle_fail
      | str s => exact idle_pure _
      | bin bs =>
        show Idle (if mode = .binary then _ else Parser.fail)
        split
        · exact idle_pure _
        · exact idle_fail
      | arr n => exact ht.elim
      | map n => exact ht.elim
    · exact (refusesItems_items (fun i => ih (mode.item i)) n.toNat 0).map fun _ => idle_pure _
    · exact (refusesMembers_members (fun key => ih (Mode.field key)) n.toNat).map
        fun _ => idle_pure _

/-! ## Messages -/

theorem idle_ofInteger (low high : Int) (t : Token) : Idle (ofInteger low high t) := by
  unfold ofInteger
  split
  · split
    · exact idle_pure _
    · exact idle_fail
  · split
    · exact idle_pure _
    · exact idle_fail
  · exact idle_fail

theorem refuses_integer (low high : Int) : Refuses P (readInteger P low high) :=
  refuses_read (fun t _ => idle_ofInteger low high t) (fun _ => refusesItems_fail _)
    (fun _ => refusesMembers_fail _)

theorem refuses_u32 : Refuses P (readU32 P) := (refuses_integer 0 (2 ^ 32)).map fun _ => idle_pure _

theorem refuses_u64 : Refuses P (readU64 P) := (refuses_integer 0 (2 ^ 64)).map fun _ => idle_pure _

theorem refuses_text : Refuses P (readText P) := by
  refine refuses_read (fun t _ => ?_) (fun _ => refusesItems_fail _) (fun _ => refusesMembers_fail _)
  unfold ofText
  split
  · exact idle_pure _
  · exact idle_ofOption _
  · exact idle_fail

theorem refuses_bool : Refuses P (readBool P) := by
  refine refuses_read (fun t _ => ?_) (fun _ => refusesItems_fail _) (fun _ => refusesMembers_fail _)
  unfold ofBool
  split
  · exact idle_pure _
  · exact idle_fail

theorem refuses_exitCode : Refuses P (readExitCode P) := by
  refine refuses_read (fun t _ => ?_) (fun _ => refusesItems_fail _) (fun _ => refusesMembers_fail _)
  unfold ofExitCode
  split
  · exact idle_pure _
  · exact (idle_ofInteger _ _ t).bind fun _ => idle_pure _

theorem refuses_u32s : Refuses P (readU32s P) := by
  refine refuses_read (fun t ht => ?_) (fun n => ?_) (fun _ => refusesMembers_fail _)
  · cases t with
    | arr n => exact ht.elim
    | _ => exact idle_fail
  · exact refusesItems_items (fun _ => refuses_u32) n.toNat 0

theorem refuses_byteBuf : Refuses P (readByteBuf P) := by
  refine refuses_read (fun t ht => ?_) (fun n => ?_) (fun _ => refusesMembers_fail _)
  · cases t with
    | arr n => exact ht.elim
    | bin bs => exact idle_pure _
    | str s => exact idle_pure _
    | _ => exact idle_fail
  · exact (refusesItems_items (fun _ => refuses_integer 0 256) n.toNat 0).map fun _ => idle_pure _

theorem refuses_tuple {k : Nat} {fields : Parser UInt8 α} (h : RefusesItems P k fields) :
    Refuses P (readTuple P k fields) := by
  refine refuses_read (fun t ht => ?_) (fun n => ?_) (fun _ => refusesMembers_fail _)
  · cases t with
    | arr n => exact ht.elim
    | _ => exact idle_fail
  · show RefusesItems P n.toNat (if n.toNat = k then fields else Parser.fail)
    split
    · next hn => rw [hn]; exact h
    · exact refusesItems_fail _

theorem refuses_error : Refuses P (readError P) :=
  refuses_tuple (.cons refuses_text fun _ => .cons refuses_text fun _ => .cons refuses_text fun _ =>
    refusesItems_idle (idle_pure _))

theorem refuses_entry : Refuses P (readEntry P) :=
  refuses_tuple (.cons refuses_text fun _ => .cons refuses_u64 fun _ =>
    .cons refuses_exitCode fun _ => .cons refuses_text fun _ => .cons refuses_bool fun _ =>
      refusesItems_idle (idle_pure _))

theorem refuses_payload : Refuses P (readPayload P) := refuses_body _ _

/-- Every tag's fields are read one document each. -/
theorem refuses_fields (tag : Nat) :
    RefusesItems P ((readFields P tag).1 - 1) (readFields P tag).2 := by
  have text := @refuses_text P
  have done : ∀ m : Message, RefusesItems P 0 (pure m) := fun m => refusesItems_idle (idle_pure m)
  unfold readFields
  split
  · exact .cons text fun _ => .cons refuses_u32s fun _ => .cons text fun _ =>
      .cons refuses_payload fun _ => done _
  · exact .cons text fun _ => .cons refuses_u32 fun _ => .cons text fun _ => .cons text fun _ =>
      .cons refuses_bool fun _ => done _
  · exact .cons text fun _ => .cons refuses_u32 fun _ => .cons refuses_payload fun _ => done _
  · exact .cons text fun _ => .cons text fun _ => .cons refuses_payload fun _ => done _
  · exact .cons text fun _ => .cons refuses_payload fun _ => done _
  · exact .cons text fun _ => .cons refuses_error fun _ => done _
  · exact .cons text fun _ => .cons refuses_entry fun _ => done _
  · exact .cons text fun _ => done _
  · exact .cons text fun _ => done _
  · exact .cons text fun _ => .cons text fun _ => .cons text fun _ => done _
  · exact .cons text fun _ => .cons text fun _ => .cons refuses_u32 fun _ =>
      .cons refuses_byteBuf fun _ => done _
  · exact .cons text fun _ => .cons refuses_u32 fun _ => done _
  · exact refusesItems_fail _

/-- What has no items has no fields. -/
theorem readFields_none {tag : Nat} (h : (readFields P tag).1 = 0) :
    (readFields P tag).2 = Parser.fail := by
  unfold readFields at h ⊢
  split at h
  all_goals first | rfl | cases h

theorem refuses_message : Refuses P (readMessage P) := by
  refine refuses_read (fun t ht => ?_) (fun n => ?_) (fun _ => refusesMembers_fail _)
  · cases t with
    | arr n => exact ht.elim
    | _ => exact idle_fail
  · show RefusesItems P n.toNat (readInteger P 0 256 >>= fun tag =>
      if n.toNat = (readFields P tag.toNat).1 then (readFields P tag.toNat).2 else Parser.fail)
    cases hn : n.toNat with
    | zero =>
      -- an empty array: whatever is read for its tag, no fields go with it
      have hfail : ∀ tag : Int, (if 0 = (readFields P tag.toNat).1 then
          (readFields P tag.toNat).2 else Parser.fail) = Parser.fail := by
        intro tag
        split
        · next h => exact readFields_none h.symm
        · rfl
      intro ds _ _ rest m rest' hrun
      rw [Parser.run_bind] at hrun
      obtain ⟨⟨tag, mid⟩, -, hfields⟩ := Option.bind_eq_some_iff.mp hrun
      rw [hfail tag] at hfields
      cases hfields
    | succ k =>
      refine .cons (refuses_integer 0 256) fun tag => ?_
      split
      · next h =>
        have hk : k = (readFields P tag.toNat).1 - 1 := by omega
        rw [hk]
        exact refuses_fields tag.toNat
      · exact refusesItems_fail _

end

end Porthop.Git.Wire
