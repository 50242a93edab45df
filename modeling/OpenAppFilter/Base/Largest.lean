import OpenAppFilter.Base.Run
import Mathlib.Data.List.Sort
import Mathlib.Data.List.OfFn
import Mathlib.Data.List.Perm.Basic
import Mathlib.Order.MinMax

/-!
# The largest elements of a list

`largest k l` is what a full sort and a cut after `k` gives. A selection that
splits a list into what it keeps and what it refuses has kept the largest
elements exactly when it has refused nothing that is greater than something it
kept.

A *streaming* selection has a fixed number of slots. Every entry is offered to
the slot a search names, and takes its place when it is greater; of the two, the
smaller one is refused. Whatever the search does, slots only grow and nothing is
lost but what was refused. So the selection is right iff everything refused
while another slot holds less is made up for: something no smaller is offered to
that slot later.

The sorting function of the C library takes a comparator that says with the sign
of a number which of two elements comes first. It is promised to sort only when
the answers about different elements fit together (`ConsistentOn`). `sortBy` is a
function that keeps this promise.
-/

namespace OpenAppFilter.Base

/-! ## Largest elements -/

section Largest

variable {α : Type*} [LinearOrder α]

/-- The `k` largest elements, from the largest on. -/
def largest (k : Nat) (l : List α) : List α := (l.mergeSort (fun a b => decide (b ≤ a))).take k

theorem pairwise_mergeSort_ge (l : List α) :
    (l.mergeSort (fun a b => decide (b ≤ a))).Pairwise (fun a b => b ≤ a) := by
  have hsorted := @List.pairwise_mergeSort α (fun a b => decide (b ≤ a))
    (fun a b c hab hbc => decide_eq_true (le_trans (of_decide_eq_true hbc) (of_decide_eq_true hab)))
    (fun a b => by simpa using le_total b a) l
  exact hsorted.imp of_decide_eq_true

/-- A list in order is what sorting its elements gives. -/
theorem mergeSort_ge_eq {s l : List α} (hperm : s.Perm l) (hs : s.Pairwise (fun a b => b ≤ a)) :
    l.mergeSort (fun a b => decide (b ≤ a)) = s := by
  refine List.Perm.eq_of_pairwise (fun a b _ _ hab hba => le_antisymm hba hab)
    (pairwise_mergeSort_ge l) hs ?_
  exact (List.mergeSort_perm l _).trans hperm.symm

theorem largest_min (k : Nat) (l : List α) : largest (min k l.length) l = largest k l := by
  unfold largest
  rw [List.take_eq_take_iff, List.length_mergeSort]
  omega

/-- The elements of a list in order, cut after `k`. -/
theorem largest_eq_take {s l : List α} (hperm : s.Perm l) (hs : s.Pairwise (fun a b => b ≤ a))
    (k : Nat) : largest k l = s.take k := by
  unfold largest
  rw [mergeSort_ge_eq hperm hs]

/-- As soon as one is taken, nothing is greater than all that are taken. -/
theorem exists_largest_ge {k : Nat} (hk : 0 < k) {l : List α} {x : α} (hx : x ∈ l) :
    ∃ y ∈ largest k l, x ≤ y := by
  obtain ⟨j, rfl⟩ := Nat.exists_eq_succ_of_ne_zero (Nat.pos_iff_ne_zero.mp hk)
  have hsorted := pairwise_mergeSort_ge l
  have hmem : x ∈ l.mergeSort (fun a b => decide (b ≤ a)) := List.mem_mergeSort.mpr hx
  unfold largest
  cases hl : l.mergeSort (fun a b => decide (b ≤ a)) with
  | nil =>
      rw [hl] at hmem
      exact absurd hmem List.not_mem_nil
  | cons y ys =>
      rw [hl] at hmem hsorted
      refine ⟨y, by rw [List.take_succ_cons]; exact List.mem_cons_self, ?_⟩
      rcases List.mem_cons.mp hmem with rfl | hys
      · exact le_refl _
      · exact List.rel_of_pairwise_cons hsorted hys

/-- **What makes a selection right.** -/
theorem perm_largest_iff {kept refused l : List α} (hperm : l.Perm (kept ++ refused)) :
    kept.Perm (largest kept.length l) ↔ ∀ x ∈ refused, ∀ y ∈ kept, x ≤ y := by
  constructor
  · intro h x hx y hy
    have hsorted := pairwise_mergeSort_ge l
    rw [← List.take_append_drop kept.length (l.mergeSort (fun a b => decide (b ≤ a)))] at hsorted
    have hall : (kept ++ refused).Perm
        (largest kept.length l ++ (l.mergeSort (fun a b => decide (b ≤ a))).drop kept.length) := by
      unfold largest
      rw [List.take_append_drop]
      exact hperm.symm.trans (List.mergeSort_perm l _).symm
    -- what is not kept is what the cut leaves out
    have hrest : refused.Perm ((l.mergeSort (fun a b => decide (b ≤ a))).drop kept.length) :=
      (List.perm_append_left_iff _).mp (hall.trans (h.symm.append_right _))
    exact (List.pairwise_append.mp hsorted).2.2 y (h.mem_iff.mp hy) x (hrest.mem_iff.mp hx)
  · intro h
    have hkept := List.mergeSort_perm kept (fun a b => decide (b ≤ a))
    have hrefused := List.mergeSort_perm refused (fun a b => decide (b ≤ a))
    have hlength : kept.length = (kept.mergeSort (fun a b => decide (b ≤ a))).length :=
      (List.length_mergeSort kept).symm
    have hsorted : (kept.mergeSort (fun a b => decide (b ≤ a)) ++
        refused.mergeSort (fun a b => decide (b ≤ a))).Pairwise (fun a b => b ≤ a) :=
      List.pairwise_append.mpr ⟨pairwise_mergeSort_ge kept, pairwise_mergeSort_ge refused,
        fun y hy x hx => h x (hrefused.mem_iff.mp hx) y (hkept.mem_iff.mp hy)⟩
    rw [largest_eq_take ((hkept.append hrefused).trans hperm.symm) hsorted, hlength,
      List.take_left]
    exact hkept.symm

end Largest

/-! ## Slots -/

section Slots

variable {α β : Type*} [LinearOrder α] {k : Nat} (key : β → α)

/-- The slots after an entry was offered to one of them. -/
def offer (slots : Fin k → β) (s : Fin k) (e : β) : Fin k → β :=
  if key (slots s) < key e then Function.update slots s e else slots

/-- The one of the two that does not get the slot. -/
def refused (slots : Fin k → β) (s : Fin k) (e : β) : β :=
  if key (slots s) < key e then slots s else e

theorem offer_of_ne {slots : Fin k → β} {s t : Fin k} (ht : t ≠ s) (e : β) :
    offer key slots s e t = slots t := by
  unfold offer
  split
  · exact Function.update_of_ne ht _ _
  · rfl

/-- The slot an entry is offered to holds the greater one of the two. -/
theorem key_offer_self (slots : Fin k → β) (s : Fin k) (e : β) :
    key (offer key slots s e s) = max (key (slots s)) (key e) := by
  unfold offer
  split
  · rename_i hlt
    rw [Function.update_self, max_eq_right (le_of_lt hlt)]
  · rename_i hle
    rw [max_eq_left (not_lt.mp hle)]

theorem key_refused (slots : Fin k → β) (s : Fin k) (e : β) :
    key (refused key slots s e) = min (key (slots s)) (key e) := by
  unfold refused
  split
  · rename_i hlt
    rw [min_eq_left (le_of_lt hlt)]
  · rename_i hle
    rw [min_eq_right (not_lt.mp hle)]

theorem ofFn_update (slots : Fin k → β) (s : Fin k) (e : β) :
    List.ofFn (Function.update slots s e) = (List.ofFn slots).set s.val e := by
  refine List.ext_getElem (by simp) (fun i h₁ h₂ => ?_)
  have hik : i < k := by simpa using h₁
  rw [List.getElem_set, List.getElem_ofFn]
  by_cases hi : s.val = i
  · subst hi
    rw [if_pos rfl]
    exact Function.update_self s e slots
  · have hne : (⟨i, hik⟩ : Fin k) ≠ s := fun h => hi (congrArg Fin.val h.symm)
    rw [if_neg hi, List.getElem_ofFn]
    exact Function.update_of_ne hne e slots

/-- An offer loses nothing but what it refuses. -/
theorem offer_perm (slots : Fin k → β) (s : Fin k) (e : β) :
    (List.ofFn (offer key slots s e) ++ [refused key slots s e]).Perm (List.ofFn slots ++ [e]) := by
  unfold offer refused
  split
  · have hs : s.val < (List.ofFn slots).length := by
      rw [List.length_ofFn]
      exact s.isLt
    have hget : (List.ofFn slots)[s.val] = slots s := List.getElem_ofFn (by simp)
    have hslot := List.getElem_cons_eraseIdx_perm hs
    rw [hget] at hslot
    rw [ofFn_update]
    have hset := List.set_perm_cons_eraseIdx hs e
    have hback : List.Perm (slots s :: (e :: (List.ofFn slots).eraseIdx s.val))
        (e :: List.ofFn slots) := (List.Perm.swap e (slots s) _).trans (hslot.cons e)
    calc List.Perm ((List.ofFn slots).set s.val e ++ [slots s])
          (slots s :: (List.ofFn slots).set s.val e) := List.perm_append_singleton _ _
      List.Perm _ (slots s :: (e :: (List.ofFn slots).eraseIdx s.val)) := hset.cons _
      List.Perm _ (e :: List.ofFn slots) := hback
      List.Perm _ (List.ofFn slots ++ [e]) := (List.perm_append_singleton _ _).symm
  · exact List.Perm.refl _

/-! ## A stream of offers -/

variable (search : (Fin k → β) → Fin k)

/-- An entry is offered to the slot the search names. -/
def offerStep (slots : Fin k → β) (e : β) : Fin k → β := offer key slots (search slots) e

/-- What the entries of a stream, in order, make the selection refuse. -/
def refusals : (Fin k → β) → List β → List β
  | _, [] => []
  | slots, e :: es => refused key slots (search slots) e :: refusals (offerStep key search slots e) es

/-- An entry no smaller than `x` is offered to slot `t`. -/
def OfferedTo (t : Fin k) (x : α) : (Fin k → β) → List β → Prop
  | _, [] => False
  | slots, e :: es => (search slots = t ∧ x ≤ key e) ∨ OfferedTo t x (offerStep key search slots e) es

/-- Whatever is refused while a slot holds less is made up for: an entry no
smaller is offered to that slot later. -/
def Repaired : (Fin k → β) → List β → Prop
  | _, [] => True
  | slots, e :: es =>
      (∀ t, key (slots t) < key (refused key slots (search slots) e) →
        OfferedTo key search t (key (refused key slots (search slots) e))
          (offerStep key search slots e) es) ∧
      Repaired (offerStep key search slots e) es

theorem offers_perm (es : List β) : ∀ slots : Fin k → β,
    (List.ofFn (run (offerStep key search) slots es) ++ refusals key search slots es).Perm
      (List.ofFn slots ++ es) := by
  induction es with
  | nil => exact fun _ => List.Perm.refl _
  | cons e es ih =>
      intro slots
      have hstep := offer_perm key slots (search slots) e
      have hrest := ih (offerStep key search slots e)
      rw [run_cons]
      show List.Perm (_ ++ refused key slots (search slots) e :: refusals key search _ es) _
      calc List.Perm _ (refused key slots (search slots) e ::
            (List.ofFn (run (offerStep key search) (offerStep key search slots e) es) ++
              refusals key search (offerStep key search slots e) es)) := List.perm_middle
        List.Perm _ (refused key slots (search slots) e ::
            (List.ofFn (offerStep key search slots e) ++ es)) := hrest.cons _
        List.Perm _ ((List.ofFn (offerStep key search slots e) ++
            [refused key slots (search slots) e]) ++ es) := by
          rw [List.append_assoc]
          exact List.perm_middle.symm
        List.Perm _ ((List.ofFn slots ++ [e]) ++ es) := hstep.append_right es
        List.Perm _ (List.ofFn slots ++ e :: es) := by
          rw [List.append_assoc]
          exact List.Perm.refl _

/-- How much a slot holds in the end. -/
theorem le_key_run_iff {t : Fin k} {x : α} (es : List β) : ∀ slots : Fin k → β,
    x ≤ key (run (offerStep key search) slots es t) ↔
      x ≤ key (slots t) ∨ OfferedTo key search t x slots es := by
  induction es with
  | nil =>
      intro slots
      show x ≤ key (slots t) ↔ x ≤ key (slots t) ∨ False
      rw [or_false]
  | cons e es ih =>
      intro slots
      rw [run_cons, ih]
      show x ≤ key (offer key slots (search slots) e t) ∨ _ ↔
        x ≤ key (slots t) ∨ (search slots = t ∧ x ≤ key e) ∨ _
      rw [← or_assoc]
      refine or_congr_left ?_
      by_cases ht : search slots = t
      · rw [← ht, key_offer_self key, le_max_iff]
        exact or_congr_right ⟨fun h => ⟨rfl, h⟩, fun h => h.2⟩
      · rw [offer_of_ne key (fun h => ht h.symm)]
        exact ⟨Or.inl, fun h => h.elim id (fun h => absurd h.1 ht)⟩

/-- **When a stream keeps the largest.** Nothing refused is greater than what a
slot holds in the end iff every such refusal is made up for. -/
theorem refusals_le_iff_repaired (es : List β) : ∀ slots : Fin k → β,
    (∀ x ∈ refusals key search slots es, ∀ t,
        key x ≤ key (run (offerStep key search) slots es t)) ↔
      Repaired key search slots es := by
  induction es with
  | nil => exact fun _ => ⟨fun _ => trivial, fun _ _ hx => absurd hx List.not_mem_nil⟩
  | cons e es ih =>
      intro slots
      have hiff : ∀ t, (key (refused key slots (search slots) e) ≤
          key (run (offerStep key search) (offerStep key search slots e) es t) ↔
          (key (slots t) < key (refused key slots (search slots) e) →
            OfferedTo key search t (key (refused key slots (search slots) e))
              (offerStep key search slots e) es)) := by
        intro t
        have hsmall : key (refused key slots (search slots) e) ≤
              key (offerStep key search slots e t) ↔
            ¬ key (slots t) < key (refused key slots (search slots) e) := by
          unfold offerStep
          by_cases ht : t = search slots
          · rw [ht, key_offer_self key, key_refused key, not_lt]
            exact ⟨fun _ => min_le_left _ _, fun _ => (min_le_left _ _).trans (le_max_left _ _)⟩
          · rw [offer_of_ne key ht, not_lt]
        rw [le_key_run_iff, hsmall]
        exact (imp_iff_not_or).symm
      rw [run_cons]
      show (∀ x ∈ refused key slots (search slots) e :: refusals key search _ es, _) ↔ _ ∧ _
      rw [List.forall_mem_cons, ih]
      exact and_congr_left' (forall_congr' hiff)

end Slots

/-! ## Comparators -/

section Comparators

variable {β : Type*}

/-- The answers about different elements of a list fit together. -/
structure ConsistentOn (compare : β → β → Int) (l : List β) : Prop where
  flip : ∀ a ∈ l, ∀ b ∈ l, a ≠ b → (0 < compare a b ↔ compare b a < 0)
  trans : ∀ a ∈ l, ∀ b ∈ l, ∀ c ∈ l, a ≠ b → b ≠ c → a ≠ c →
    compare a b ≤ 0 → compare b c ≤ 0 → compare a c ≤ 0

/-- What a sorting function is promised to do. -/
def SortsConsistent (sort : (β → β → Int) → List β → List β) : Prop :=
  ∀ compare l, ConsistentOn compare l →
    (sort compare l).Perm l ∧ (sort compare l).Pairwise (fun a b => a ≠ b → compare a b ≤ 0)

variable [DecidableEq β]

/-- A sorting function: by merging, with the answers as the order of the elements
of the list. -/
def sortBy (compare : β → β → Int) (l : List β) : List β :=
  (l.attach.mergeSort (fun a b => decide (a.val = b.val ∨ compare a.val b.val ≤ 0))).map Subtype.val

theorem sortBy_sorts : SortsConsistent (@sortBy β _) := by
  intro compare l h
  constructor
  · have hperm := (List.mergeSort_perm l.attach
      (fun a b => decide (a.val = b.val ∨ compare a.val b.val ≤ 0))).map Subtype.val
    rw [List.attach_map_subtype_val] at hperm
    exact hperm
  · refine List.pairwise_map.mpr ?_
    have hsorted := @List.pairwise_mergeSort { x // x ∈ l }
      (fun a b => decide (a.val = b.val ∨ compare a.val b.val ≤ 0)) ?_ ?_ l.attach
    · exact hsorted.imp (fun hle hne => (of_decide_eq_true hle).resolve_left hne)
    · intro a b c hab hbc
      have hab := of_decide_eq_true hab
      have hbc := of_decide_eq_true hbc
      refine decide_eq_true ?_
      by_cases heqab : a.val = b.val
      · rw [heqab]
        exact hbc
      by_cases heqbc : b.val = c.val
      · rw [← heqbc]
        exact hab
      by_cases heqac : a.val = c.val
      · exact Or.inl heqac
      exact Or.inr (h.trans a.val a.property b.val b.property c.val c.property heqab heqbc heqac
        (hab.resolve_left heqab) (hbc.resolve_left heqbc))
    · intro a b
      rw [Bool.or_eq_true, decide_eq_true_eq, decide_eq_true_eq]
      by_cases heq : a.val = b.val
      · exact Or.inl (Or.inl heq)
      · have hflip := h.flip a.val a.property b.val b.property heq
        by_cases hpos : 0 < compare a.val b.val
        · exact Or.inr (Or.inr (Int.le_of_lt (hflip.mp hpos)))
        · exact Or.inl (Or.inr (Int.not_lt.mp hpos))

end Comparators

end OpenAppFilter.Base
