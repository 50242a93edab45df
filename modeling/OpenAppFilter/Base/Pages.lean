import Mathlib.Data.List.Basic

/-!
# Pages of a list

A page is read out of an array by a loop over its indices. Pages of one size, one
behind the other, are a first part of the list, and all of it when there are enough
of them.
-/

namespace OpenAppFilter.Base

variable {α : Type*}

/-- `for (i = start; i < stop && i < total; i++)`, with the elements that are there; the
loop has at most `stop - start` rounds. -/
def pageLoop (l : List α) (stop : Int) : Nat → Int → List α
  | 0, _ => []
  | rounds + 1, i =>
      if i < stop ∧ i < l.length then
        (if i < 0 then none else l[i.toNat]?).toList ++ pageLoop l stop rounds (i + 1)
      else []

/-- The elements a page has from `start` on. -/
def pageFrom (l : List α) (start stop : Int) : List α := pageLoop l stop (stop - start).toNat start

theorem pageLoop_eq (l : List α) (rounds : Nat) :
    ∀ start : Nat, pageLoop l (start + rounds : Nat) rounds start = (l.drop start).take rounds := by
  induction rounds with
  | zero => exact fun _ => rfl
  | succ rounds ih =>
      intro start
      have hnext := ih (start + 1)
      rw [show start + 1 + rounds = start + (rounds + 1) by omega] at hnext
      unfold pageLoop
      by_cases hin : start < l.length
      · rw [if_pos (by omega), if_neg (by omega), Int.toNat_natCast, List.getElem?_eq_getElem hin,
          List.drop_eq_getElem_cons hin, List.take_succ_cons]
        exact congrArg (l[start] :: ·) hnext
      · rw [if_neg (by omega), List.drop_eq_nil_of_le (by omega), List.take_nil]

theorem pageFrom_eq (l : List α) (start size : Nat) :
    pageFrom l start (start + size : Nat) = (l.drop start).take size := by
  unfold pageFrom
  rw [show ((start + size : Nat) - start : Int).toNat = size by omega]
  exact pageLoop_eq l size start

/-- The first `n` pages are the first elements. -/
theorem flatMap_pages (l : List α) (size n : Nat) :
    (List.range n).flatMap (fun i => (l.drop (i * size)).take size) = l.take (n * size) := by
  induction n with
  | zero => simp
  | succ n ih =>
      rw [List.range_succ, List.flatMap_append, ih, Nat.succ_mul, List.take_add]
      simp

end OpenAppFilter.Base
