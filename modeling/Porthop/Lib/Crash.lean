import Mathlib.Logic.Basic

/- Programs whose steps outside may fail or be the last one.

   A program runs over a world and a list of faults, one for each of its steps outside: the
   step is taken, or reports an error, or ends the process, and in the last two its effect
   may or may not have happened. `Ensures p w Q E` says of every list of faults: started in
   `w` the program returns in `Q`, or fails or is cut off in a world in `E`. A rule for each
   way to build a program carries such a statement through its text. -/
namespace Porthop.Crash

inductive Fault where
  | fails (done : Bool) (message : String)
  | ends (done : Bool)

inductive Outcome (α : Type) where
  | returned (a : α)
  | failed (message : String)
  | ended

def Outcome.isReturned {α : Type} : Outcome α → Bool
  | .returned _ => true
  | _ => false

/-- The world after, and the faults that are left. -/
def Prog (σ α : Type) := σ → List (Option Fault) → Outcome α × σ × List (Option Fault)

variable {σ α β : Type}

namespace Prog

def done (a : α) : Prog σ α := fun w fs => (.returned a, w, fs)

def andThen (p : Prog σ α) (q : α → Prog σ β) : Prog σ β := fun w fs =>
  match p w fs with
  | (.returned a, w, fs) => q a w fs
  | (.failed e, w, fs) => (.failed e, w, fs)
  | (.ended, w, fs) => (.ended, w, fs)

instance : Monad (Prog σ) where
  pure := done
  bind := andThen

def fail (e : String) : Prog σ α := fun w fs => (.failed e, w, fs)

def refuse (b : Bool) (e : String) : Prog σ Unit := if b then fail e else pure ()

def ofExcept : Except String α → Prog σ α
  | .ok a => pure a
  | .error e => fail e

def ofOption (e : String) : Option α → Prog σ α
  | some a => pure a
  | none => fail e

/-- The error as a value; a cut is not caught. -/
def attempt (p : Prog σ α) : Prog σ (Except String α) := fun w fs =>
  match p w fs with
  | (.returned a, w, fs) => (.returned (.ok a), w, fs)
  | (.failed e, w, fs) => (.returned (.error e), w, fs)
  | (.ended, w, fs) => (.ended, w, fs)

/-- What the process has in its own memory. -/
def look (f : σ → α) : Prog σ α := fun w fs => (.returned (f w), w, fs)

def update (f : σ → σ) : Prog σ Unit := fun w fs => (.returned (), f w, fs)

/-- One step outside; `text` is how the caller words an error. -/
def act (f : σ → σ) (text : String → String) : Prog σ Unit := fun w fs =>
  match fs with
  | some (.fails done e) :: fs => (.failed (text e), if done then f w else w, fs)
  | some (.ends done) :: fs => (.ended, if done then f w else w, fs)
  | none :: fs => (.returned (), f w, fs)
  | [] => (.returned (), f w, [])

/-- A value from outside, which may itself be an error. -/
def ask (f : σ → Except String α) (text : String → String) : Prog σ α := fun w fs =>
  match fs with
  | some (.fails _ e) :: fs => (.failed (text e), w, fs)
  | some (.ends _) :: fs => (.ended, w, fs)
  | none :: fs => ofExcept (f w) w fs
  | [] => ofExcept (f w) w []

/-- A question whose error counts as no; `missed` is the world after a wrong answer. -/
def present (f : σ → Bool) (missed : σ → σ) : Prog σ Bool := fun w fs =>
  match fs with
  | some (.fails _ _) :: fs => (.returned false, if f w then missed w else w, fs)
  | some (.ends _) :: fs => (.ended, w, fs)
  | none :: fs => (.returned (f w), w, fs)
  | [] => (.returned (f w), w, [])

end Prog

/-! ## What a program ensures -/

def Ensures (p : Prog σ α) (w : σ) (Q : α → σ → Prop) (E : σ → Prop) : Prop :=
  ∀ fs, match p w fs with
    | (.returned a, t, _) => Q a t
    | (_, t, _) => E t

namespace Ensures

variable {p : Prog σ α} {q : α → Prog σ β} {w : σ} {Q Q' : α → σ → Prop} {R : β → σ → Prop}
  {E E' : σ → Prop} {e : String} {text : String → String}

theorem returned (h : Ensures p w Q E) {fs fs' : List (Option Fault)} {a : α} {t : σ}
    (hp : p w fs = (.returned a, t, fs')) : Q a t := by
  have hfs := h fs
  rw [hp] at hfs
  exact hfs

theorem stopped (h : Ensures p w Q E) {fs fs' : List (Option Fault)} {o : Outcome α} {t : σ}
    (hp : p w fs = (o, t, fs')) (ho : o.isReturned = false) : E t := by
  have hfs := h fs
  rw [hp] at hfs
  cases o with
  | returned a => exact absurd ho Bool.noConfusion
  | failed e => exact hfs
  | ended => exact hfs

theorem imp (h : Ensures p w Q E) (hQ : ∀ a t, Q a t → Q' a t) (hE : ∀ t, E t → E' t) :
    Ensures p w Q' E' := by
  intro fs
  have hfs := h fs
  match hp : p w fs with
  | (.returned a, t, fs') =>
    rw [hp] at hfs
    exact hQ a t hfs
  | (.failed e, t, fs') =>
    rw [hp] at hfs
    exact hE t hfs
  | (.ended, t, fs') =>
    rw [hp] at hfs
    exact hE t hfs

theorem bind (h : Ensures p w (fun a t => Ensures (q a) t R E) E) : Ensures (p >>= q) w R E := by
  intro fs
  have hfs := h fs
  change match Prog.andThen p q w fs with | (.returned a, t, _) => R a t | (_, t, _) => E t
  unfold Prog.andThen
  match hp : p w fs with
  | (.returned a, t, fs') =>
    rw [hp] at hfs
    exact hfs fs'
  | (.failed e, t, fs') =>
    rw [hp] at hfs
    exact hfs
  | (.ended, t, fs') =>
    rw [hp] at hfs
    exact hfs

theorem pure {a : α} (h : Q a w) : Ensures (pure a) w Q E := fun _ => h

theorem fail (h : E w) : Ensures (Prog.fail e : Prog σ α) w Q E := fun _ => h

theorem refuse {b : Bool} {Q : Unit → σ → Prop} (hE : E w) (h : b = false → Q () w) :
    Ensures (Prog.refuse b e) w Q E := by
  cases b with
  | true => exact fail hE
  | false => exact pure (h rfl)

theorem ofExcept {x : Except String α} (hE : E w) (h : ∀ a, x = .ok a → Q a w) :
    Ensures (Prog.ofExcept x) w Q E := by
  cases x with
  | ok a => exact pure (h a rfl)
  | error e => exact fail hE

theorem ofOption {x : Option α} (hE : E w) (h : ∀ a, x = some a → Q a w) :
    Ensures (Prog.ofOption e x) w Q E := by
  cases x with
  | some a => exact pure (h a rfl)
  | none => exact fail hE

theorem attempt {Q : Except String α → σ → Prop} {F : σ → Prop}
    (h : Ensures p w (fun a t => Q (.ok a) t) F) (hF : ∀ t, F t → E t ∧ ∀ e, Q (.error e) t) :
    Ensures p.attempt w Q E := by
  intro fs
  have hfs := h fs
  unfold Prog.attempt
  match hp : p w fs with
  | (.returned a, t, fs') =>
    rw [hp] at hfs
    exact hfs
  | (.failed e, t, fs') =>
    rw [hp] at hfs
    exact (hF t hfs).2 e
  | (.ended, t, fs') =>
    rw [hp] at hfs
    exact (hF t hfs).1

theorem look {f : σ → α} (h : Q (f w) w) : Ensures (Prog.look f) w Q E := fun _ => h

theorem update {f : σ → σ} {Q : Unit → σ → Prop} (h : Q () (f w)) :
    Ensures (Prog.update f) w Q E := fun _ => h

theorem act {f : σ → σ} {Q : Unit → σ → Prop} (hbefore : E w) (hafter : E (f w)) (h : Q () (f w)) :
    Ensures (Prog.act f text) w Q E := by
  intro fs
  unfold Prog.act
  match fs with
  | [] => exact h
  | none :: fs => exact h
  | some (.fails true e) :: fs => exact hafter
  | some (.fails false e) :: fs => exact hbefore
  | some (.ends true) :: fs => exact hafter
  | some (.ends false) :: fs => exact hbefore

/-- A step that leaves the world as it is. -/
theorem still {Q : Unit → σ → Prop} (hE : E w) (h : Q () w) : Ensures (Prog.act id text) w Q E :=
  act hE hE h

theorem ask {f : σ → Except String α} (hE : E w) (h : ∀ a, f w = .ok a → Q a w) :
    Ensures (Prog.ask f text) w Q E := by
  intro fs
  unfold Prog.ask
  match fs with
  | [] => exact ofExcept (x := f w) hE h []
  | none :: fs => exact ofExcept (x := f w) hE h fs
  | some (.fails _ e) :: fs => exact hE
  | some (.ends _) :: fs => exact hE

theorem present {f : σ → Bool} {missed : σ → σ} {Q : Bool → σ → Prop} (hE : E w) (h : Q (f w) w)
    (hmissed : f w = true → Q false (missed w)) : Ensures (Prog.present f missed) w Q E := by
  intro fs
  unfold Prog.present
  match fs with
  | [] => exact h
  | none :: fs => exact h
  | some (.fails _ e) :: fs =>
    cases hf : f w with
    | true => exact hmissed hf
    | false =>
      rw [hf] at h
      exact h
  | some (.ends _) :: fs => exact hE

end Ensures

end Porthop.Crash
