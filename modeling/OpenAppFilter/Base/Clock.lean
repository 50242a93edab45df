import Mathlib.Algebra.Group.Nat.Defs
import Mathlib.Logic.Basic

/-!
# Counters that wrap

A counter of `w` bits is read twice. What has passed in between is the difference
of the readings as a word, wherever the counter wrapped (`elapsed`). A deadline
computed from the first reading may wrap as well, and comparing it with the second
reading as numbers answers another question: the two agree iff deadline and
counter are on the same side of the wrap (`deadline_passed_iff`).
-/

namespace OpenAppFilter.Base

/-- What has passed since the reading `start`. -/
def elapsed (w now start : Nat) : Nat := (now + 2 ^ w - start) % 2 ^ w

/-- The deadline has wrapped and the counter not, or the counter and the deadline
not. -/
def WrapBetween (w now start timeout : Nat) : Prop := ¬ (start + timeout < 2 ^ w ↔ start ≤ now)

instance (w now start timeout : Nat) : Decidable (WrapBetween w now start timeout) :=
  inferInstanceAs (Decidable (¬ _))

variable {w now start timeout : Nat}

theorem elapsed_of_le (h : start ≤ now) (hnow : now < 2 ^ w) : elapsed w now start = now - start := by
  have hsub : now + 2 ^ w - start = now - start + 2 ^ w := by omega
  rw [elapsed, hsub, Nat.add_mod_right, Nat.mod_eq_of_lt (by omega)]

theorem elapsed_of_gt (h : now < start) (hstart : start < 2 ^ w) :
    elapsed w now start = now + 2 ^ w - start := by
  rw [elapsed, Nat.mod_eq_of_lt (by omega)]

/-- Comparing the deadline as a number is right iff no wrap comes between. -/
theorem deadline_passed_iff (hnow : now < 2 ^ w) (hstart : start < 2 ^ w) (htimeout : timeout < 2 ^ w) :
    ((start + timeout) % 2 ^ w < now ↔ timeout < elapsed w now start) ↔
      ¬ WrapBetween w now start timeout := by
  rw [WrapBetween, not_not]
  by_cases hle : start ≤ now
  · rw [elapsed_of_le hle hnow, iff_true_right hle]
    by_cases hfit : start + timeout < 2 ^ w
    · rw [Nat.mod_eq_of_lt hfit]
      omega
    · -- the wrapped deadline lies before the first reading
      have hmod : (start + timeout) % 2 ^ w = start + timeout - 2 ^ w := by
        rw [Nat.mod_eq_sub_mod (Nat.not_lt.mp hfit), Nat.mod_eq_of_lt (by omega)]
      rw [hmod]
      omega
  · have hgt := Nat.not_le.mp hle
    rw [elapsed_of_gt hgt hstart, iff_false_right hle]
    by_cases hfit : start + timeout < 2 ^ w
    · -- the counter has wrapped and is before the deadline as a number
      rw [Nat.mod_eq_of_lt hfit]
      omega
    · have hmod : (start + timeout) % 2 ^ w = start + timeout - 2 ^ w := by
        rw [Nat.mod_eq_sub_mod (Nat.not_lt.mp hfit), Nat.mod_eq_of_lt (by omega)]
      rw [hmod]
      omega

end OpenAppFilter.Base
