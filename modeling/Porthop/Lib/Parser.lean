import Mathlib.Logic.Basic

/- Readers of a prefix.

   A `Parser` carries the proof that it looks at nothing past the prefix it takes: what it
   returns stays the same, and so does what it leaves, whatever is put behind its input.
   The combinators below keep that proof, so a reader built from them has it for free.

   `Reads` is what a writer is checked against: the reader takes exactly these symbols and
   returns that value. From it and the proof in the reader, an input that is cut short or
   goes on is refused by `whole`, with no argument about the format. `Takes` is the other
   side, for input nobody wrote: if the reader accepts it at all, it takes exactly these
   symbols and its value has a property. -/
namespace Porthop

structure Parser (β α : Type) where
  run : List β → Option (α × List β)
  stable : ∀ (xs : List β) (a : α) (rest more : List β),
    run xs = some (a, rest) → run (xs ++ more) = some (a, rest ++ more)

namespace Parser
variable {β α γ : Type}

protected def pure (a : α) : Parser β α where
  run xs := some (a, xs)
  stable _ _ _ _ h := by
    obtain ⟨rfl, rfl⟩ := Prod.mk.inj (Option.some.inj h)
    rfl

protected def bind (p : Parser β α) (f : α → Parser β γ) : Parser β γ where
  run xs := (p.run xs).bind fun r => (f r.1).run r.2
  stable _ _ _ more h := by
    obtain ⟨⟨a, mid⟩, hp, hf⟩ := Option.bind_eq_some_iff.mp h
    rw [p.stable _ _ _ more hp, Option.bind_some]
    exact (f a).stable _ _ _ more hf

instance : Monad (Parser β) where
  pure := Parser.pure
  bind := Parser.bind

/-- The reader that accepts nothing. -/
def fail : Parser β α where
  run _ := none
  stable _ _ _ _ h := by cases h

/-- One symbol. -/
def item : Parser β β where
  run
    | [] => none
    | x :: xs => some (x, xs)
  stable xs _ _ _ h := by
    cases xs with
    | nil => cases h
    | cons x xs =>
      obtain ⟨rfl, rfl⟩ := Prod.mk.inj (Option.some.inj h)
      rfl

/-- A value, or failure. -/
def ofOption : Option α → Parser β α
  | some a => pure a
  | none => fail

/-- One item after the other, each told its position. -/
def items (p : Nat → Parser β α) : Nat → Nat → Parser β (List α)
  | _, 0 => pure []
  | i, n + 1 => do
    let a ← p i
    let as ← items p (i + 1) n
    pure (a :: as)

@[simp] theorem run_pure (a : α) (xs : List β) :
    (pure a : Parser β α).run xs = some (a, xs) := rfl

@[simp] theorem run_fail (xs : List β) : (fail : Parser β α).run xs = none := rfl

@[simp] theorem run_bind (p : Parser β α) (f : α → Parser β γ) (xs : List β) :
    (p >>= f).run xs = (p.run xs).bind fun r => (f r.1).run r.2 := rfl

/-- The value of an input that is taken to its end. -/
def whole (p : Parser β α) (xs : List β) : Option α :=
  match p.run xs with
  | some (a, []) => some a
  | _ => none

/-! ## Exactly what was written -/

/-- The reader takes exactly these symbols and returns `a`. -/
def Reads (p : Parser β α) (xs : List β) (a : α) : Prop := p.run xs = some (a, [])

section
variable {p : Parser β α} {f : α → Parser β γ} {xs ys : List β} {a : α} {b : γ}

theorem Reads.run (h : Reads p xs a) (rest : List β) : p.run (xs ++ rest) = some (a, rest) :=
  p.stable _ _ _ rest h

theorem reads_pure (a : α) : Reads (pure a : Parser β α) [] a := rfl

theorem Reads.bind (h : Reads p xs a) (hf : Reads (f a) ys b) :
    Reads (p >>= f) (xs ++ ys) b := by
  show (p.run (xs ++ ys)).bind _ = _
  rw [h.run ys]
  exact hf

/-- The last reader of a sequence. -/
theorem Reads.map (h : Reads p xs a) (hf : Reads (f a) [] b) : Reads (p >>= f) xs b := by
  have := h.bind hf
  rwa [List.append_nil] at this

theorem Reads.whole (h : Reads p xs a) : p.whole xs = some a := by
  unfold Parser.whole
  rw [show p.run xs = some (a, []) from h]

theorem reads_of_whole (h : p.whole xs = some a) : Reads p xs a := by
  unfold Parser.whole at h
  split at h
  · next b hb =>
    obtain rfl := Option.some.inj h
    exact hb
  · cases h

/-- **Cut short.** No proper prefix is accepted. -/
theorem Reads.whole_prefix (h : Reads p (xs ++ ys) a) (hys : ys ≠ []) :
    p.whole xs = none := by
  cases hb : p.whole xs with
  | none => rfl
  | some b =>
    have hxs : p.run (xs ++ ys) = some (b, ys) := (reads_of_whole hb).run ys
    have heq := hxs.symm.trans h
    obtain ⟨-, hnil⟩ := Prod.mk.inj (Option.some.inj heq)
    exact absurd hnil hys

/-- **Going on.** Nothing may follow. -/
theorem Reads.whole_trailing (h : Reads p xs a) (hys : ys ≠ []) : p.whole (xs ++ ys) = none := by
  unfold Parser.whole
  rw [h.run ys]
  cases ys with
  | nil => exact absurd rfl hys
  | cons y ys => rfl

end

/-- What is encoded is decoded again; no part of it is, and nothing that goes on after it.
    `value` is what the decoder returns for a thing to be encoded. -/
def Exact (value : γ → α) (encode : γ → Option (List β)) (decode : List β → Option α) : Prop :=
  ∀ c xs, encode c = some xs → decode xs = some (value c) ∧
    (∀ part rest, xs = part ++ rest → rest ≠ [] → decode part = none) ∧
    ∀ more, more ≠ [] → decode (xs ++ more) = none

/-- A decoder that reads its input to the end, if that is not too long, is exact. -/
theorem exact_whole {p : Parser β α} {value : γ → α} {encode : γ → Option (List β)} {limit : Nat}
    (h : ∀ c xs, encode c = some xs → xs.length ≤ limit ∧ p.Reads xs (value c)) :
    Exact value encode fun xs => if xs.length > limit then none else p.whole xs := by
  intro c xs hxs
  obtain ⟨hlen, hreads⟩ := h c xs hxs
  refine ⟨?_, fun part rest hpart hrest => ?_, fun more hmore => ?_⟩
  · show (if xs.length > limit then none else p.whole xs) = _
    rw [if_neg (Nat.not_lt.mpr hlen)]
    exact hreads.whole
  · show (if part.length > limit then none else p.whole part) = none
    rw [hpart] at hreads
    rw [hreads.whole_prefix hrest, ite_self]
  · show (if (xs ++ more).length > limit then none else p.whole (xs ++ more)) = none
    rw [hreads.whole_trailing hmore, ite_self]

/-! ## Whatever was written -/

/-- If the reader accepts, it takes exactly these symbols and its value has the property. -/
def Takes (p : Parser β α) (xs : List β) (Q : α → Prop) : Prop :=
  ∀ rest a rest', p.run (xs ++ rest) = some (a, rest') → rest' = rest ∧ Q a

section
variable {p : Parser β α} {f : α → Parser β γ} {xs ys : List β} {Q : α → Prop} {R : γ → Prop}

theorem takes_fail : Takes (fail : Parser β α) xs Q := fun _ _ _ h => by cases h

theorem takes_pure {a : α} (h : Q a) : Takes (pure a : Parser β α) [] Q := by
  intro rest b rest' hb
  obtain ⟨rfl, rfl⟩ := Prod.mk.inj (Option.some.inj hb)
  exact ⟨rfl, h⟩

theorem Reads.takes {a : α} (h : Reads p xs a) : Takes p xs (· = a) := by
  intro rest b rest' hb
  rw [h.run rest] at hb
  obtain ⟨rfl, rfl⟩ := Prod.mk.inj (Option.some.inj hb)
  exact ⟨rfl, rfl⟩

theorem Takes.bind (h : Takes p xs Q) (hf : ∀ a, Q a → Takes (f a) ys R) :
    Takes (p >>= f) (xs ++ ys) R := by
  intro rest b rest' hb
  rw [run_bind, List.append_assoc] at hb
  obtain ⟨⟨a, mid⟩, hp, hfa⟩ := Option.bind_eq_some_iff.mp hb
  obtain ⟨rfl, ha⟩ := h _ a mid hp
  exact hf a ha rest b rest' hfa

/-- The last reader of a sequence. -/
theorem Takes.map (h : Takes p xs Q) (hf : ∀ a, Q a → Takes (f a) [] R) :
    Takes (p >>= f) xs R := by
  have := h.bind hf
  rwa [List.append_nil] at this

theorem Takes.weaken {Q' : α → Prop} (h : Takes p xs Q) (hQ : ∀ a, Q a → Q' a) :
    Takes p xs Q' := fun rest a rest' ha => ⟨(h rest a rest' ha).1, hQ a (h rest a rest' ha).2⟩

theorem Takes.whole {a : α} (h : Takes p xs Q) (ha : p.whole xs = some a) : Q a := by
  have hrun := (reads_of_whole ha).run []
  exact (h [] a [] hrun).2

end

end Parser

end Porthop
