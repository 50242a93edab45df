import Mathlib.Control.Basic
import Mathlib.Logic.Function.Basic

/-!
# Programs that take and give back locks

`Locking ι α` computes an `α` while it takes and gives back locks named by `ι`.
The state counts how often the running context holds each lock; giving back a
lock that is not held is an error.

A section that is taken and given back with nothing in between drops out
(`acquire_release`), so a program whose sections are closed on every path comes
down to a `pure` one, which returns with the locks it was entered with (`Keeps`).
-/

namespace OpenAppFilter.Base

/-- How often each lock is held. -/
abbrev Held (ι : Type) := ι → Nat

abbrev Locking (ι : Type) := StateT (Held ι) Option

namespace Locking

variable {ι α β : Type} [DecidableEq ι]

def acquire (l : ι) : Locking ι Unit := fun held => some ((), Function.update held l (held l + 1))

def release (l : ι) : Locking ι Unit := fun held =>
  if held l = 0 then none else some ((), Function.update held l (held l - 1))

/-- The program returns with the locks it was entered with. -/
def Keeps (x : Locking ι α) : Prop := ∀ held, (x.run held).map Prod.snd = some held

omit [DecidableEq ι] in
theorem keeps_pure (a : α) : Keeps (pure a : Locking ι α) := fun _ => rfl

theorem acquire_run (l : ι) (x : Locking ι α) (held : Held ι) :
    (acquire l >>= fun _ => x).run held = x.run (Function.update held l (held l + 1)) := rfl

theorem release_run {l : ι} {held : Held ι} (h : held l ≠ 0) (x : Locking ι α) :
    (release l >>= fun _ => x).run held = x.run (Function.update held l (held l - 1)) := by
  show (release l held).bind (fun p => x.run p.2) = _
  unfold release
  rw [if_neg h]
  rfl

/-- A lock that is taken and given back. -/
@[simp] theorem acquire_release (l : ι) (x : Locking ι α) :
    (acquire l >>= fun _ => release l >>= fun _ => x) = x := by
  refine funext (fun held => ?_)
  show (acquire l >>= fun _ => release l >>= fun _ => x).run held = x.run held
  -- the count has just gone up, so the release succeeds and takes it back
  rw [acquire_run, release_run (by simp)]
  simp

/-- A lock that is taken and not given back. -/
theorem not_keeps_acquire {l : ι} {x : Locking ι α} (h : Keeps x) :
    ¬ Keeps (acquire l >>= fun _ => x) := by
  intro hkeeps
  have hheld := hkeeps (fun _ => 0)
  rw [acquire_run, h] at hheld
  have hcount := congrFun (Option.some.inj hheld) l
  simp at hcount

end Locking

end OpenAppFilter.Base
