import OpenAppFilter.Base.CText

/-!
# Cutting a text with `while (*p++)`

The loop `while (*p++) if (*p == sep) …` steps before it looks: it does not see
the first character of the text, and it leaves its pointer one behind the NUL.
`cut` is what it finds: the pieces that end at a separator, and what is left
behind the last one.
-/

namespace OpenAppFilter.Base

/-- The loop from a point on; `cur` stands between `begin` and `p`. -/
def cutFrom (sep : Char) : CStr → CStr → List CStr × CStr
  | cur, [] => ([], cur)
  | cur, c :: s =>
      if c = sep then (cur :: (cutFrom sep [] s).1, (cutFrom sep [] s).2)
      else cutFrom sep (cur ++ [c]) s

/-- The pieces that end at a separator, and the last one. -/
def cut (sep : Char) : CStr → List CStr × CStr
  | [] => ([], [])
  | c :: s => cutFrom sep [c] s

/-- Pieces with a separator behind each, and a last one. -/
def joined (sep : Char) (pieces : List CStr) (last : CStr) : CStr :=
  pieces.flatMap (· ++ [sep]) ++ last

@[simp] theorem joined_nil (sep : Char) (last : CStr) : joined sep [] last = last := rfl

@[simp] theorem joined_cons (sep : Char) (t : CStr) (ts : List CStr) (last : CStr) :
    joined sep (t :: ts) last = t ++ sep :: joined sep ts last := by
  simp [joined]

/-- Each piece is shorter than the text by its separator at least. -/
theorem length_lt_joined {sep : Char} {ts : List CStr} {last t : CStr} (h : t ∈ ts) :
    t.length < (joined sep ts last).length := by
  induction ts with
  | nil => exact absurd h List.not_mem_nil
  | cons u ts ih =>
      rw [joined_cons, List.length_append, List.length_cons]
      rcases List.mem_cons.mp h with rfl | h
      · omega
      · have hlt := ih h
        omega

theorem length_le_joined (sep : Char) (ts : List CStr) (last : CStr) :
    last.length ≤ (joined sep ts last).length := by
  unfold joined
  rw [List.length_append]
  omega

theorem cutFrom_sep (sep : Char) (cur s : CStr) :
    cutFrom sep cur (sep :: s) = (cur :: (cutFrom sep [] s).1, (cutFrom sep [] s).2) := by
  rw [cutFrom, if_pos rfl]

/-- A run without the separator goes to the current piece. -/
theorem cutFrom_append {sep : Char} {w : CStr} (hw : sep ∉ w) (cur rest : CStr) :
    cutFrom sep cur (w ++ rest) = cutFrom sep (cur ++ w) rest := by
  induction w generalizing cur with
  | nil => simp
  | cons c w ih =>
      have hc : c ≠ sep := by
        rintro rfl
        exact hw List.mem_cons_self
      rw [List.cons_append, cutFrom, if_neg hc, ih (fun h => hw (List.mem_cons_of_mem _ h)),
        List.append_assoc, List.singleton_append]

/-- Pieces without the separator come back. -/
theorem cutFrom_joined {sep : Char} {ts : List CStr} {last : CStr} (hts : ∀ t ∈ ts, sep ∉ t)
    (hlast : sep ∉ last) : cutFrom sep [] (joined sep ts last) = (ts, last) := by
  induction ts with
  | nil =>
      have hrun := cutFrom_append hlast [] []
      rw [List.append_nil, List.nil_append] at hrun
      rw [joined_nil, hrun, cutFrom]
  | cons t ts ih =>
      have htail := ih (fun u hu => hts u (List.mem_cons_of_mem _ hu))
      rw [joined_cons, cutFrom_append (hts t List.mem_cons_self), List.nil_append, cutFrom_sep, htail]

/-- A text that does not start with the separator: the character the loop does
not look at makes no difference. -/
theorem cut_eq_cutFrom {sep : Char} {s : CStr} (h : s.head? ≠ some sep) :
    cut sep s = cutFrom sep [] s := by
  cases s with
  | nil => rfl
  | cons c s =>
      have hc : c ≠ sep := by
        rintro rfl
        exact h rfl
      rw [cut, cutFrom, if_neg hc, List.nil_append]

/-- Pieces without the separator come back, unless the first one is empty and the
loop does not see its end. -/
theorem cut_joined {sep : Char} {ts : List CStr} {last : CStr} (hne : ts.head? ≠ some [])
    (hts : ∀ t ∈ ts, sep ∉ t) (hlast : sep ∉ last) : cut sep (joined sep ts last) = (ts, last) := by
  have hhead : (joined sep ts last).head? ≠ some sep := by
    cases ts with
    | nil => exact fun h => hlast (List.mem_of_head? h)
    | cons t ts =>
        have hfree := hts t List.mem_cons_self
        cases t with
        | nil => exact absurd rfl hne
        | cons c t =>
            rw [joined_cons, List.cons_append, List.head?_cons]
            intro heq
            obtain rfl := Option.some.inj heq
            exact hfree List.mem_cons_self
  rw [cut_eq_cutFrom hhead, cutFrom_joined hts hlast]

/-- The separator between the pieces and a last one. -/
theorem intercalate_concat (sep : Char) (ts : List CStr) (last : CStr) :
    [sep].intercalate (ts ++ [last]) = joined sep ts last := by
  induction ts with
  | nil => simp [List.intercalate]
  | cons t ts ih =>
      rw [joined_cons, ← ih]
      cases ts with
      | nil => simp [List.intercalate]
      | cons u ts => simp [List.intercalate]

theorem mem_of_mem_intercalate {sep : Char} {ts : List CStr} {c : Char} (h : c ∈ [sep].intercalate ts) :
    c = sep ∨ ∃ t ∈ ts, c ∈ t := by
  rcases List.eq_nil_or_concat' ts with rfl | ⟨front, last, rfl⟩
  · exact absurd h List.not_mem_nil
  · rw [intercalate_concat] at h
    unfold joined at h
    rcases List.mem_append.mp h with h | h
    · obtain ⟨t, ht, hc⟩ := List.mem_flatMap.mp h
      rcases List.mem_append.mp hc with hc | hc
      · exact Or.inr ⟨t, List.mem_append_left _ ht, hc⟩
      · exact Or.inl (List.mem_singleton.mp hc)
    · exact Or.inr ⟨last, List.mem_append_right _ (List.mem_singleton_self last), h⟩

theorem joined_cutFrom (sep : Char) (cur s : CStr) :
    joined sep (cutFrom sep cur s).1 (cutFrom sep cur s).2 = cur ++ s := by
  induction s generalizing cur with
  | nil => simp [cutFrom]
  | cons c s ih =>
      rw [cutFrom]
      by_cases hc : c = sep
      · rw [if_pos hc, joined_cons, ih, List.nil_append, hc]
      · rw [if_neg hc, ih, List.append_assoc, List.singleton_append]

/-- The pieces make up the text. -/
theorem joined_cut (sep : Char) (s : CStr) : joined sep (cut sep s).1 (cut sep s).2 = s := by
  cases s with
  | nil => rfl
  | cons c s => exact joined_cutFrom sep [c] s

theorem length_lt_of_mem_cut {sep : Char} {s t : CStr} (h : t ∈ (cut sep s).1) :
    t.length < s.length := by
  have hlt : t.length < (joined sep (cut sep s).1 (cut sep s).2).length := length_lt_joined h
  rwa [joined_cut] at hlt

theorem length_cut_last_le (sep : Char) (s : CStr) : (cut sep s).2.length ≤ s.length := by
  have hle := length_le_joined sep (cut sep s).1 (cut sep s).2
  rwa [joined_cut] at hle

/-! ## All pieces -/

/-- The pieces between the separators. -/
def pieces (sep : Char) (s : CStr) : List CStr := (cutFrom sep [] s).1 ++ [(cutFrom sep [] s).2]

/-- The pieces the loop cuts. -/
def loopPieces (sep : Char) (s : CStr) : List CStr := (cut sep s).1 ++ [(cut sep s).2]

theorem cutFrom_modifyHead (sep : Char) (cur s : CStr) :
    (cutFrom sep cur s).1 ++ [(cutFrom sep cur s).2] = (pieces sep s).modifyHead (cur ++ ·) := by
  unfold pieces
  induction s generalizing cur with
  | nil => simp [cutFrom]
  | cons c s ih =>
      rw [cutFrom, cutFrom]
      by_cases hc : c = sep
      · rw [if_pos hc, if_pos hc]
        simp
      · rw [if_neg hc, if_neg hc, ih (cur ++ [c]), ih ([] ++ [c]), List.modifyHead_modifyHead]
        congr 1
        funext t
        simp

theorem loopPieces_eq {sep : Char} {s : CStr} (h : s.head? ≠ some sep) : loopPieces sep s = pieces sep s := by
  unfold loopPieces pieces
  rw [cut_eq_cutFrom h]

/-- A separator in first place stays with the piece behind it. -/
theorem loopPieces_sep (sep : Char) (s : CStr) :
    loopPieces sep (sep :: s) = (pieces sep s).modifyHead (sep :: ·) :=
  cutFrom_modifyHead sep [sep] s

theorem pieces_sep (sep : Char) (s : CStr) : pieces sep (sep :: s) = [] :: pieces sep s := by
  unfold pieces
  rw [cutFrom_sep]
  rfl

theorem pieces_ne_nil (sep : Char) (s : CStr) : pieces sep s ≠ [] := by
  simp [pieces]

/-- Pieces without the separator, put together and cut. -/
theorem loopPieces_intercalate {sep : Char} {ts : List CStr} (hts : ∀ t ∈ ts, t ≠ [] ∧ sep ∉ t) (hne : ts ≠ []) :
    loopPieces sep ([sep].intercalate ts) = ts := by
  obtain ⟨front, last, rfl⟩ := (List.eq_nil_or_concat' ts).resolve_left hne
  rw [List.forall_mem_append, List.forall_mem_singleton] at hts
  have hhead : front.head? ≠ some [] := fun h => (hts.1 [] (List.mem_of_head? h)).1 rfl
  unfold loopPieces
  rw [intercalate_concat, cut_joined hhead (fun t ht => (hts.1 t ht).2) hts.2.2]

end OpenAppFilter.Base
