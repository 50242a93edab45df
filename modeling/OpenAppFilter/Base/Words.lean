import OpenAppFilter.Base.CText

/-!
# Columns and words

A program that prints columns with `%-20s` and one that scans them with `%s`
see the same words: the padding is white space, and white space separates.
-/

namespace OpenAppFilter.Base

/-- What successive `%s` conversions of `sscanf` read. -/
def words (s : CStr) : List CStr := (s.splitOnP isSpace).filter (fun w => decide (w ≠ []))

/-- `%-*s`: the text is followed by blanks up to the field width. -/
def leftAligned (width : Nat) (s : CStr) : CStr := s.rightpad width ' '

/-- A text `%s` reads in one piece. -/
def NoSpace (s : CStr) : Prop := ∀ c ∈ s, isSpace c = false

theorem noSpace_nil : NoSpace [] := by
  intro c hc
  exact absurd hc List.not_mem_nil

/-! ## Words -/

theorem words_append_space {c : Char} (hc : isSpace c = true) (x y : CStr) :
    words (x ++ c :: y) = words x ++ words y := by
  unfold words
  rw [List.splitOnP_append_cons x y hc, List.filter_append]

theorem words_cons_space {c : Char} (hc : isSpace c = true) (s : CStr) :
    words (c :: s) = words s := words_append_space hc [] s

/-- White space at the end belongs to no word. -/
theorem words_append_spaces (x : CStr) {s : CStr} (hs : ∀ c ∈ s, isSpace c = true) :
    words (x ++ s) = words x := by
  have hnone : words s = [] := by
    induction s with
    | nil => rfl
    | cons c s ih =>
        rw [words_cons_space (hs c List.mem_cons_self)]
        exact ih (fun c' hc' => hs c' (List.mem_cons_of_mem _ hc'))
  cases s with
  | nil => rw [List.append_nil]
  | cons c s =>
      rw [words_append_space (hs c List.mem_cons_self)]
      rw [words_cons_space (hs c List.mem_cons_self)] at hnone
      rw [hnone, List.append_nil]

theorem words_noSpace {w : CStr} (hw : NoSpace w) : words w = if w = [] then [] else [w] := by
  unfold words
  rw [List.splitOnP_eq_singleton hw]
  by_cases hne : w = []
  · simp [hne]
  · simp [hne]

theorem noSpace_of_mem_words {s w : CStr} (h : w ∈ words s) : NoSpace w := by
  have hpiece : ∀ s : CStr, ∀ w ∈ s.splitOnP isSpace, NoSpace w := by
    intro s
    induction s with
    | nil =>
        intro w hw
        rw [List.splitOnP_nil, List.mem_singleton] at hw
        rw [hw]
        exact noSpace_nil
    | cons c s ih =>
        intro w hw
        rw [List.splitOnP_cons_eq_if_modifyHead] at hw
        obtain ⟨l, ls, hls⟩ := List.exists_cons_of_ne_nil (List.splitOnP_ne_nil isSpace s)
        rw [hls] at hw ih
        by_cases hc : isSpace c = true
        · rw [if_pos hc] at hw
          rcases List.mem_cons.mp hw with rfl | hw
          · exact noSpace_nil
          · exact ih w hw
        · rw [if_neg hc, List.modifyHead_cons] at hw
          rcases List.mem_cons.mp hw with rfl | hw
          · intro d hd
            rcases List.mem_cons.mp hd with rfl | hd
            · exact Bool.eq_false_iff.mpr hc
            · exact ih l List.mem_cons_self d hd
          · exact ih w (List.mem_cons_of_mem _ hw)
  exact hpiece s w (List.mem_of_mem_filter h)

/-! ## Columns -/

theorem leftAligned_length (width : Nat) (s : CStr) :
    (leftAligned width s).length = max width s.length := by
  unfold leftAligned
  rw [List.length_rightpad]

theorem mem_leftAligned {width : Nat} {s : CStr} {c : Char} (h : c ∈ leftAligned width s) :
    c ∈ s ∨ c = ' ' := by
  unfold leftAligned List.rightpad at h
  rcases List.mem_append.mp h with h | h
  · exact Or.inl h
  · exact Or.inr (List.eq_of_mem_replicate h)

/-- A column is read as its text is. -/
theorem words_leftAligned (width : Nat) (s : CStr) : words (leftAligned width s) = words s := by
  unfold leftAligned List.rightpad
  refine words_append_spaces s ?_
  intro c hc
  rw [List.eq_of_mem_replicate hc]
  rfl

/-- The columns of a line, one after the other. -/
theorem words_column (width : Nat) (s rest : CStr) :
    words (leftAligned width s ++ ' ' :: rest) = words s ++ words rest := by
  rw [words_append_space rfl, words_leftAligned]

end OpenAppFilter.Base
