import Mathlib.Computability.Language

/-!
# Languages read from the front

A backtracking matcher takes a word of a language off the front of a text and
hands the rest on. `Splits L P text` is what it searches for: some prefix of the
text is in `L`, and `P` holds of the rest. The lemmas say how `Splits` goes
through products, and what it comes to for the one-letter languages `letters p`
and their iterations.
-/

namespace OpenAppFilter.Base

open Computability

variable {α : Type*}

/-- The one-letter words whose letter satisfies `p`. -/
def letters (p : α → Prop) : Language α := {w | ∃ a, p a ∧ w = [a]}

theorem mem_letters {p : α → Prop} {w : List α} : w ∈ letters p ↔ ∃ a, p a ∧ w = [a] := Iff.rfl

theorem mem_kstar_letters {p : α → Prop} {w : List α} : w ∈ (letters p)∗ ↔ ∀ a ∈ w, p a := by
  rw [Language.mem_kstar]
  constructor
  · rintro ⟨ws, rfl, hws⟩ a ha
    obtain ⟨u, hu, ha⟩ := List.mem_flatten.mp ha
    obtain ⟨b, hb, rfl⟩ := mem_letters.mp (hws u hu)
    rw [List.mem_singleton.mp ha]
    exact hb
  · intro hw
    refine ⟨w.map (fun a => [a]), by rw [← List.flatMap_def, List.flatMap_singleton'], ?_⟩
    intro u hu
    obtain ⟨a, ha, rfl⟩ := List.mem_map.mp hu
    exact ⟨a, hw a ha, rfl⟩

/-! ## Taking a word off the front -/

/-- Some prefix of the text is in `L`, and `P` holds of the rest. -/
def Splits (L : Language α) (P : List α → Prop) (text : List α) : Prop :=
  ∃ w rest, text = w ++ rest ∧ w ∈ L ∧ P rest

theorem splits_one {P : List α → Prop} {text : List α} : Splits 1 P text ↔ P text := by
  constructor
  · rintro ⟨w, rest, rfl, hw, hP⟩
    rw [(Language.mem_one w).mp hw]
    exact hP
  · intro hP
    exact ⟨[], text, rfl, (Language.mem_one []).mpr rfl, hP⟩

theorem splits_add {L M : Language α} {P : List α → Prop} {text : List α} :
    Splits (L + M) P text ↔ Splits L P text ∨ Splits M P text := by
  constructor
  · rintro ⟨w, rest, heq, hw, hP⟩
    rcases (Language.mem_add L M w).mp hw with hw | hw
    · exact Or.inl ⟨w, rest, heq, hw, hP⟩
    · exact Or.inr ⟨w, rest, heq, hw, hP⟩
  · rintro (⟨w, rest, heq, hw, hP⟩ | ⟨w, rest, heq, hw, hP⟩)
    · exact ⟨w, rest, heq, (Language.mem_add L M w).mpr (Or.inl hw), hP⟩
    · exact ⟨w, rest, heq, (Language.mem_add L M w).mpr (Or.inr hw), hP⟩

theorem splits_mul {L M : Language α} {P : List α → Prop} {text : List α} :
    Splits (L * M) P text ↔ Splits L (Splits M P) text := by
  constructor
  · rintro ⟨w, rest, rfl, hw, hP⟩
    obtain ⟨u, hu, v, hv, rfl⟩ := Language.mem_mul.mp hw
    exact ⟨u, v ++ rest, List.append_assoc u v rest, hu, v, rest, rfl, hv, hP⟩
  · rintro ⟨u, rest, rfl, hu, v, rest', rfl, hv, hP⟩
    exact ⟨u ++ v, rest', (List.append_assoc u v rest').symm,
      Language.append_mem_mul hu hv, hP⟩

theorem splits_letters_nil {p : α → Prop} {P : List α → Prop} : ¬ Splits (letters p) P [] := by
  rintro ⟨w, rest, heq, hw, -⟩
  obtain ⟨a, -, rfl⟩ := mem_letters.mp hw
  simp at heq

theorem splits_letters_cons {p : α → Prop} {P : List α → Prop} {a : α} {text : List α} :
    Splits (letters p) P (a :: text) ↔ p a ∧ P text := by
  constructor
  · rintro ⟨w, rest, heq, hw, hP⟩
    obtain ⟨b, hb, rfl⟩ := mem_letters.mp hw
    obtain ⟨rfl, rfl⟩ := List.cons.inj heq
    exact ⟨hb, hP⟩
  · rintro ⟨hp, hP⟩
    exact ⟨[a], text, rfl, ⟨a, hp, rfl⟩, hP⟩

/-- Taking letters off until something else is left. -/
theorem splits_kstar {L : Language α} {P : List α → Prop} {text : List α} :
    Splits L∗ P text ↔ P text ∨ Splits L (Splits L∗ P) text := by
  rw [← Language.one_add_self_mul_kstar_eq_kstar L, splits_add, splits_one, splits_mul,
    Language.one_add_self_mul_kstar_eq_kstar L]

/-- The possible ends of a run of letters are the offsets up to the end of the
longest run. -/
theorem splits_kstar_letters {p : α → Bool} {P : List α → Prop} {text : List α} :
    Splits (letters (fun a => p a = true))∗ P text ↔
      ∃ n ≤ (text.takeWhile p).length, P (text.drop n) := by
  induction text with
  | nil =>
      rw [splits_kstar]
      simp [splits_letters_nil]
  | cons a text ih =>
      rw [splits_kstar, splits_letters_cons, ih]
      by_cases hp : p a = true
      · rw [List.takeWhile_cons_of_pos hp, List.length_cons]
        constructor
        · rintro (hP | ⟨-, n, hn, hP⟩)
          · exact ⟨0, Nat.zero_le _, hP⟩
          · exact ⟨n + 1, Nat.succ_le_succ hn, hP⟩
        · rintro ⟨n, hn, hP⟩
          cases n with
          | zero => exact Or.inl hP
          | succ n => exact Or.inr ⟨hp, n, Nat.le_of_succ_le_succ hn, hP⟩
      · rw [List.takeWhile_cons_of_neg hp]
        simp [hp]

/-! ## Occurrences -/

/-- A word of `L` occurs in the text: at its start when `atStart`, up to its end
when `atEnd`. -/
def Occurs (L : Language α) (atStart atEnd : Bool) (text : List α) : Prop :=
  ∃ pre w post, text = pre ++ w ++ post ∧ w ∈ L ∧ (atStart = true → pre = []) ∧
    (atEnd = true → post = [])

theorem occurs_start_iff {L : Language α} {atEnd : Bool} {text : List α} :
    Occurs L true atEnd text ↔ Splits L (fun rest => atEnd = true → rest = []) text := by
  constructor
  · rintro ⟨pre, w, post, heq, hw, hpre, hpost⟩
    rw [hpre rfl] at heq
    exact ⟨w, post, heq, hw, hpost⟩
  · rintro ⟨w, post, heq, hw, hpost⟩
    exact ⟨[], w, post, heq, hw, fun _ => rfl, hpost⟩

theorem occurs_anywhere_iff {L : Language α} {atEnd : Bool} {text : List α} :
    Occurs L false atEnd text ↔ ∃ t ∈ text.tails, Occurs L true atEnd t := by
  constructor
  · rintro ⟨pre, w, post, rfl, hw, -, hpost⟩
    refine ⟨w ++ post, (List.mem_tails _ _).mpr ?_, [], w, post, rfl, hw, fun _ => rfl, hpost⟩
    rw [List.append_assoc]
    exact List.suffix_append pre (w ++ post)
  · rintro ⟨t, ht, pre, w, post, rfl, hw, hpre, hpost⟩
    obtain ⟨front, hfront⟩ := (List.mem_tails _ _).mp ht
    refine ⟨front ++ pre, w, post, ?_, hw, fun h => absurd h Bool.false_ne_true, hpost⟩
    rw [← hfront]
    simp

end OpenAppFilter.Base
