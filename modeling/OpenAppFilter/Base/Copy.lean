import Mathlib.Control.Monad.Writer
import OpenAppFilter.Base.CText

/-!
# Programs that copy into buffers

`Copying ι α` computes an `α` and notes the copies it makes into buffers named
by `ι`. A copy is the number of cells the copying call is told to write, and the
index where the text it leaves ends. `Every` speaks about all copies of a
program; its rules follow the structure of the program.
-/

namespace OpenAppFilter.Base

/-- One copy: the destination, the number of cells to write, and the index of
the terminator. -/
structure Copy (ι : Type) where
  dst : ι
  count : Int
  stop : Int
  deriving DecidableEq, Repr

/-- The copy and its terminator stay in the destination. -/
def Copy.Fits {ι : Type} (size : ι → Nat) (c : Copy ι) : Prop :=
  0 ≤ c.count ∧ c.count ≤ size c.dst ∧ c.stop < size c.dst

instance {ι : Type} (size : ι → Nat) (c : Copy ι) : Decidable (c.Fits size) :=
  inferInstanceAs (Decidable (_ ∧ _))

abbrev Copying (ι : Type) := Writer (List (Copy ι))

namespace Copying

variable {ι α β : Type}

/-- `strcpy(dst, s)`. -/
def strcpy (dst : ι) (s : CStr) : Copying ι Unit := tell [⟨dst, s.length + 1, s.length⟩]

/-- The `strncpy` of `n` characters that are not followed by a NUL: the
terminator is what stands behind them. -/
def strncpy (dst : ι) (n : Nat) : Copying ι Unit := tell [⟨dst, n, n⟩]

/-- A copy with a count of its own. -/
def copy (dst : ι) (count stop : Int) : Copying ι Unit := tell [⟨dst, count, stop⟩]

/-- The result. -/
def val (x : Copying ι α) : α := (WriterT.run x).1

/-- The copies. -/
def copies (x : Copying ι α) : List (Copy ι) := (WriterT.run x).2

@[simp] theorem val_pure (a : α) : val (pure a : Copying ι α) = a := rfl

@[simp] theorem val_bind (x : Copying ι α) (f : α → Copying ι β) : val (x >>= f) = val (f (val x)) := rfl

@[simp] theorem copies_pure (a : α) : copies (pure a : Copying ι α) = [] := rfl

@[simp] theorem copies_bind (x : Copying ι α) (f : α → Copying ι β) :
    copies (x >>= f) = copies x ++ copies (f (val x)) := rfl

/-- Every copy has the property. -/
def Every (p : Copy ι → Prop) (x : Copying ι α) : Prop := ∀ c ∈ copies x, p c

@[simp] theorem every_pure (p : Copy ι → Prop) (a : α) : Every p (pure a : Copying ι α) := by
  intro c hc
  exact absurd hc List.not_mem_nil

@[simp] theorem every_strcpy {p : Copy ι → Prop} {dst : ι} {s : CStr} :
    Every p (strcpy dst s) ↔ p ⟨dst, s.length + 1, s.length⟩ := List.forall_mem_singleton

@[simp] theorem every_strncpy {p : Copy ι → Prop} {dst : ι} {n : Nat} :
    Every p (strncpy dst n) ↔ p ⟨dst, n, n⟩ := List.forall_mem_singleton

@[simp] theorem every_copy {p : Copy ι → Prop} {dst : ι} {count stop : Int} :
    Every p (copy dst count stop) ↔ p ⟨dst, count, stop⟩ := List.forall_mem_singleton

@[simp] theorem every_bind {p : Copy ι → Prop} {x : Copying ι α} {f : α → Copying ι β} :
    Every p (x >>= f) ↔ Every p x ∧ Every p (f (val x)) := by
  unfold Every
  rw [copies_bind, List.forall_mem_append]

end Copying

end OpenAppFilter.Base
