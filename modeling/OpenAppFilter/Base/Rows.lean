import Mathlib.Algebra.Order.Ring.Nat
import Mathlib.Data.List.Nodup

/-!
# Tables with a primary key

A database table as a list of rows, each a key with its columns, and the one
write the SQL upserts make: update the row of a key, or insert it. What a
lookup finds afterwards and how the sum of a column moves is said here once.
-/

namespace OpenAppFilter.Base

variable {κ α : Type*} [DecidableEq κ]

/-- `INSERT ... ON CONFLICT(key) DO UPDATE`. -/
def upsert (k : κ) (new : α) (update : α → α) : List (κ × α) → List (κ × α)
  | [] => [(k, new)]
  | row :: rows =>
      if row.1 = k then (k, update row.2) :: rows else row :: upsert k new update rows

/-- The columns of the row of a key. -/
def rowOf (k : κ) (rows : List (κ × α)) : Option α :=
  (rows.find? (fun row => row.1 = k)).map (·.2)

/-- `DELETE FROM ... WHERE`. -/
def deleteRows (p : κ → Bool) (rows : List (κ × α)) : List (κ × α) :=
  rows.filter (fun row => !p row.1)

/-- The sum of a column over the rows whose key meets `p`. -/
def rowSum (p : κ → Bool) (f : α → Nat) (rows : List (κ × α)) : Nat :=
  ((rows.filter (fun row => p row.1)).map (fun row => f row.2)).sum

/-- The row of the key is the updated or the new one; every other row stays. -/
theorem rowOf_upsert (k k' : κ) (new : α) (update : α → α) (rows : List (κ × α)) :
    rowOf k' (upsert k new update rows) =
      if k' = k then some ((rowOf k rows).elim new update) else rowOf k' rows := by
  induction rows with
  | nil =>
      by_cases hk : k' = k
      · simp [rowOf, upsert, hk]
      · simp [rowOf, upsert, hk, Ne.symm hk]
  | cons row rows ih =>
      unfold upsert
      by_cases hrow : row.1 = k
      · rw [if_pos hrow]
        by_cases hk : k' = k
        · simp [rowOf, hrow, hk]
        · have hk' : k ≠ k' := Ne.symm hk
          simp [rowOf, hrow, hk, hk']
      · rw [if_neg hrow]
        by_cases hk : row.1 = k'
        · have hne : k' ≠ k := by
            rw [← hk]
            exact hrow
          simp [rowOf, hk, hne]
        · have hskip : ∀ rows' : List (κ × α), rowOf k' (row :: rows') = rowOf k' rows' := by
            intro rows'
            simp [rowOf, hk]
          have hskip' : rowOf k (row :: rows) = rowOf k rows := by
            simp [rowOf, hrow]
          rw [hskip, ih, hskip, hskip']

/-! ## Keys and places -/

theorem keys_upsert (k : κ) (new : α) (update : α → α) (rows : List (κ × α)) :
    (upsert k new update rows).map Prod.fst =
      if k ∈ rows.map Prod.fst then rows.map Prod.fst else rows.map Prod.fst ++ [k] := by
  induction rows with
  | nil => rfl
  | cons row rows ih =>
      unfold upsert
      by_cases hrow : row.1 = k
      · rw [if_pos hrow, if_pos (by simp [hrow]), List.map_cons, List.map_cons, hrow]
      · have hk : k ∈ (row :: rows).map Prod.fst ↔ k ∈ rows.map Prod.fst := by
          rw [List.map_cons, List.mem_cons, or_iff_right (Ne.symm hrow)]
        rw [if_neg hrow, List.map_cons, ih, if_congr hk rfl rfl, List.map_cons]
        split
        · rfl
        · rfl

theorem mem_keys_upsert {k k' : κ} {new : α} {update : α → α} {rows : List (κ × α)} :
    k' ∈ (upsert k new update rows).map Prod.fst ↔ k' ∈ rows.map Prod.fst ∨ k' = k := by
  rw [keys_upsert]
  split
  · rename_i hk
    refine (or_iff_left_of_imp ?_).symm
    rintro rfl
    exact hk
  · rw [List.mem_append, List.mem_singleton]

theorem nodup_keys_upsert {k : κ} {new : α} {update : α → α} {rows : List (κ × α)}
    (h : (rows.map Prod.fst).Nodup) : ((upsert k new update rows).map Prod.fst).Nodup := by
  rw [keys_upsert]
  split
  · exact h
  · rename_i hk
    rw [List.nodup_append]
    refine ⟨h, List.nodup_singleton k, ?_⟩
    rintro a ha b hb rfl
    exact hk (List.mem_singleton.mp hb ▸ ha)

theorem length_le_upsert (k : κ) (new : α) (update : α → α) (rows : List (κ × α)) :
    rows.length ≤ (upsert k new update rows).length := by
  have hkeys := congrArg List.length (keys_upsert k new update rows)
  rw [List.length_map] at hkeys
  rw [hkeys]
  split
  · rw [List.length_map]
  · rw [List.length_append, List.length_map]
    exact Nat.le_add_right _ _

theorem rowOf_of_mem {row : κ × α} {rows : List (κ × α)} (h : (rows.map Prod.fst).Nodup)
    (hrow : row ∈ rows) : rowOf row.1 rows = some row.2 := by
  induction rows with
  | nil => exact absurd hrow List.not_mem_nil
  | cons row' rows ih =>
      rw [List.map_cons, List.nodup_cons] at h
      unfold rowOf
      rcases List.mem_cons.mp hrow with rfl | hrow
      · rw [List.find?_cons_of_pos (by simp)]
        rfl
      · have hne : row'.1 ≠ row.1 := fun heq => h.1 (heq ▸ List.mem_map_of_mem hrow)
        rw [List.find?_cons_of_neg (by simpa using hne)]
        exact ih h.2 hrow

/-- A row that is overwritten keeps its place, and a new one comes last. -/
theorem getElem?_upsert_put (k : κ) (a : α) (rows : List (κ × α)) (i : Nat) :
    (upsert k a (fun _ => a) rows)[i]? =
      if i = rows.findIdx (fun row => row.1 = k) then some (k, a) else rows[i]? := by
  induction rows generalizing i with
  | nil =>
      cases i with
      | zero => rfl
      | succ i => simp [upsert]
  | cons row rows ih =>
      unfold upsert
      rw [List.findIdx_cons]
      by_cases hrow : row.1 = k
      · rw [if_pos hrow, decide_eq_true hrow]
        cases i with
        | zero => rfl
        | succ i => simp
      · rw [if_neg hrow, decide_eq_false hrow]
        cases i with
        | zero => simp
        | succ i =>
            rw [List.getElem?_cons_succ, ih]
            simp

/-! ## Sums of a column -/

/-- An upsert that adds `d` to a column adds `d` to its sum. -/
theorem rowSum_upsert {p : κ → Bool} {f : α → Nat} {k : κ} {new : α} {update : α → α} {d : Nat}
    (hp : p k = true) (hnew : f new = d) (hupdate : ∀ a, f (update a) = f a + d)
    (rows : List (κ × α)) :
    rowSum p f (upsert k new update rows) = rowSum p f rows + d := by
  induction rows with
  | nil => simp [rowSum, upsert, hp, hnew]
  | cons row rows ih =>
      unfold upsert
      by_cases hrow : row.1 = k
      · have hprow : p row.1 = true := by
          rw [hrow]
          exact hp
        rw [if_pos hrow]
        simp only [rowSum, List.filter_cons, hp, hprow, if_true, List.map_cons, List.sum_cons,
          hupdate]
        omega
      · rw [if_neg hrow]
        have hcons : ∀ rows' : List (κ × α), rowSum p f (row :: rows') =
            (if p row.1 = true then f row.2 else 0) + rowSum p f rows' := by
          intro rows'
          unfold rowSum
          rw [List.filter_cons]
          split <;> simp
        rw [hcons, hcons, ih]
        omega

/-- An upsert of a row outside the sum leaves the sum. -/
theorem rowSum_upsert_other {p : κ → Bool} {k : κ} (hp : p k = false) (f : α → Nat) (new : α)
    (update : α → α) (rows : List (κ × α)) :
    rowSum p f (upsert k new update rows) = rowSum p f rows := by
  induction rows with
  | nil => simp [rowSum, upsert, hp]
  | cons row rows ih =>
      unfold upsert
      by_cases hrow : row.1 = k
      · have hprow : p row.1 = false := by
          rw [hrow]
          exact hp
        rw [if_pos hrow]
        simp [rowSum, hp, hprow]
      · rw [if_neg hrow]
        unfold rowSum at ih ⊢
        rw [List.filter_cons, List.filter_cons]
        split
        · rw [List.map_cons, List.map_cons, List.sum_cons, List.sum_cons, ih]
        · exact ih

/-- Upserts for every element of a list add what falls into the sum. -/
theorem rowSum_foldl_upsert_filter {β : Type*} {p : κ → Bool} {f : α → Nat} {key : β → κ}
    {new : β → α} {update : β → α → α} {d : β → Nat} (hnew : ∀ b, f (new b) = d b)
    (hupdate : ∀ b a, f (update b a) = f a + d b) (bs : List β) (rows : List (κ × α)) :
    rowSum p f (bs.foldl (fun rows b => upsert (key b) (new b) (update b) rows) rows) =
      rowSum p f rows + ((bs.filter (fun b => p (key b))).map d).sum := by
  induction bs generalizing rows with
  | nil => simp
  | cons b bs ih =>
      rw [List.foldl_cons, ih, List.filter_cons]
      by_cases hp : p (key b) = true
      · rw [rowSum_upsert hp (hnew b) (hupdate b), if_pos hp, List.map_cons, List.sum_cons]
        omega
      · rw [rowSum_upsert_other (by simpa using hp), if_neg hp]

theorem rowSum_foldl_upsert {β : Type*} {p : κ → Bool} {f : α → Nat} {key : β → κ} {new : β → α}
    {update : β → α → α} {d : β → Nat} (hp : ∀ b, p (key b) = true) (hnew : ∀ b, f (new b) = d b)
    (hupdate : ∀ b a, f (update b a) = f a + d b) (bs : List β) (rows : List (κ × α)) :
    rowSum p f (bs.foldl (fun rows b => upsert (key b) (new b) (update b) rows) rows) =
      rowSum p f rows + (bs.map d).sum := by
  rw [rowSum_foldl_upsert_filter hnew hupdate, List.filter_eq_self.mpr (fun b _ => hp b)]

/-- Upserts of other rows leave a row. -/
theorem rowOf_foldl_upsert_other {β : Type*} {k : κ} (key : β → κ) (new : β → α)
    (update : β → α → α) (bs : List β) (hne : ∀ b ∈ bs, key b ≠ k) (rows : List (κ × α)) :
    rowOf k (bs.foldl (fun rows b => upsert (key b) (new b) (update b) rows) rows) =
      rowOf k rows := by
  induction bs generalizing rows with
  | nil => rfl
  | cons b bs ih =>
      rw [List.foldl_cons, ih (fun b' hb' => hne b' (List.mem_cons_of_mem _ hb')), rowOf_upsert,
        if_neg (hne b List.mem_cons_self).symm]

omit [DecidableEq κ] in
/-- Deleting rows outside the sum leaves it. -/
theorem rowSum_deleteRows {p q : κ → Bool} {rows : List (κ × α)}
    (h : ∀ k ∈ rows.map Prod.fst, p k = true → q k = false) (f : α → Nat) :
    rowSum p f (deleteRows q rows) = rowSum p f rows := by
  have hkept : (rows.filter (fun row => !q row.1)).filter (fun row => p row.1) =
      rows.filter (fun row => p row.1) := by
    rw [List.filter_filter]
    apply List.filter_congr
    intro row hrow
    cases hp : p row.1 with
    | false => rfl
    | true => simp [h row.1 (List.mem_map_of_mem hrow) hp]
  unfold rowSum deleteRows
  rw [hkept]

omit [DecidableEq κ] in
theorem keys_deleteRows (q : κ → Bool) (rows : List (κ × α)) :
    (deleteRows q rows).map Prod.fst ⊆ rows.map Prod.fst :=
  (List.filter_sublist.map Prod.fst).subset

end OpenAppFilter.Base
