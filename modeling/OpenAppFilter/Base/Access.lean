import Mathlib.Data.List.Basic

/-!
# Programs that read and write cell by cell

`Prog β α` is a computation that reads cells of type `β` of one input and writes
to buffers, each access a step of its own, and returns an `α`. `run` is what it
computes on an input, `accesses` what it touches on the way, in order. The cells
behind the end of the input exist and hold something, so a program that leaves
its input goes on with what stands there.

`Stays` says that no access leaves the input or its buffer; its rules follow the
structure of the program.
-/

namespace OpenAppFilter.Base

variable {α β γ : Type}

/-- A read of a cell of the input, or a write to a cell of a buffer of the given
size. -/
inductive Access where
  | read (i : Nat)
  | write (size : Nat) (i : Int)
  deriving DecidableEq, Repr

/-- The access stays in an input of length `len`, or in its buffer. -/
def Access.Inside (len : Nat) : Access → Prop
  | .read i => i < len
  | .write size i => 0 ≤ i ∧ i < size

inductive Prog (β α : Type) where
  | ret (a : α)
  | read (i : Nat) (next : β → Prog β α)
  | write (size : Nat) (i : Int) (next : Prog β α)

namespace Prog

protected def bind : Prog β α → (α → Prog β γ) → Prog β γ
  | .ret a, f => f a
  | .read i next, f => .read i (fun b => (next b).bind f)
  | .write size i next, f => .write size i (next.bind f)

instance : Monad (Prog β) where
  pure := .ret
  bind := Prog.bind

/-- Read one cell. -/
def cell (i : Nat) : Prog β β := .read i .ret

/-- Write one cell of a buffer. -/
def put (size : Nat) (i : Int) : Prog β Unit := .write size i (.ret ())

/-- What the program computes. -/
def run (m : Nat → β) : Prog β α → α
  | .ret a => a
  | .read i next => (next (m i)).run m
  | .write _ _ next => next.run m

/-- What the program accesses. -/
def accesses (m : Nat → β) : Prog β α → List Access
  | .ret _ => []
  | .read i next => .read i :: (next (m i)).accesses m
  | .write size i next => .write size i :: next.accesses m

@[simp] theorem run_pure (m : Nat → β) (a : α) : (pure a : Prog β α).run m = a := rfl

@[simp] theorem run_cell (m : Nat → β) (i : Nat) : (cell i).run m = m i := rfl

@[simp] theorem run_put (m : Nat → β) (size : Nat) (i : Int) : (put size i : Prog β Unit).run m = () := rfl

@[simp] theorem run_bind (m : Nat → β) (p : Prog β α) (f : α → Prog β γ) :
    (p >>= f).run m = (f (p.run m)).run m := by
  induction p with
  | ret a => rfl
  | read i next ih => exact ih (m i)
  | write size i next ih => exact ih

@[simp] theorem accesses_pure (m : Nat → β) (a : α) : (pure a : Prog β α).accesses m = [] := rfl

@[simp] theorem accesses_cell (m : Nat → β) (i : Nat) : (cell i).accesses m = [.read i] := rfl

@[simp] theorem accesses_put (m : Nat → β) (size : Nat) (i : Int) :
    (put size i : Prog β Unit).accesses m = [.write size i] := rfl

@[simp] theorem accesses_bind (m : Nat → β) (p : Prog β α) (f : α → Prog β γ) :
    (p >>= f).accesses m = p.accesses m ++ (f (p.run m)).accesses m := by
  induction p with
  | ret a => rfl
  | read i next ih => exact congrArg (Access.read i :: ·) (ih (m i))
  | write size i next ih => exact congrArg (Access.write size i :: ·) ih

/-- No access leaves the input, which has length `len`, or its buffer. -/
def Stays (m : Nat → β) (len : Nat) (p : Prog β α) : Prop := ∀ a ∈ p.accesses m, a.Inside len

@[simp] theorem stays_pure (m : Nat → β) (len : Nat) (a : α) : (pure a : Prog β α).Stays m len := by
  intro a ha
  exact absurd ha List.not_mem_nil

@[simp] theorem stays_cell {m : Nat → β} {len i : Nat} : (cell i).Stays m len ↔ i < len := by
  simp [Stays, Access.Inside]

@[simp] theorem stays_put {m : Nat → β} {len size : Nat} {i : Int} :
    (put size i : Prog β Unit).Stays m len ↔ 0 ≤ i ∧ i < size := by
  simp [Stays, Access.Inside]

@[simp] theorem stays_bind {m : Nat → β} {len : Nat} {p : Prog β α} {f : α → Prog β γ} :
    (p >>= f).Stays m len ↔ p.Stays m len ∧ (f (p.run m)).Stays m len := by
  unfold Stays
  rw [accesses_bind, List.forall_mem_append]

end Prog

end OpenAppFilter.Base
