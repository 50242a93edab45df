import OpenAppFilter.Theorems.FeatureRoom

/-!
# The items of a port list

An item of a port list is `[!]start[-end]`, with blanks around its parts.
`parse_range_value` reads a little more than that: a number may be negative or
longer than an `int`, and what stands behind the last digit is not looked at.
`ItemText` says which texts are read, and as what (`rangeIn_iff`).
-/

namespace OpenAppFilter.Theorems

open Base Kernel Copying

/-! ## Texts of an item -/

/-- The characters `validate_range_value` lets pass. -/
def ItemChar (c : Char) : Prop := c = ' ' ∨ c = '!' ∨ c = '-' ∨ c.isDigit = true

/-- The numbers of a range: one number, in a text without a `-`, or two with a
`-` between them. -/
inductive Bounds : CStr → Int32 → Int32 → Prop
  | one {t rest : CStr} {n : Int32} : Numeral t n → DigitStop rest → '-' ∉ t ++ rest →
      Bounds (t ++ rest) n n
  | two {a pad b rest : CStr} {m n : Int32} : Numeral a m → (∀ c ∈ pad, c = ' ') → Numeral b n →
      DigitStop rest → Bounds (a ++ '-' :: (pad ++ (b ++ rest))) m n

/-- The text of an item that stands for the range `r`. -/
structure ItemText (item : CStr) (r : RangeValue) : Prop where
  chars : ∀ c ∈ item, ItemChar c
  parts : ∃ (pad pad' body : CStr) (m n : Int32), (∀ c ∈ pad, c = ' ') ∧ (∀ c ∈ pad', c = ' ') ∧
    item = pad ++ (if r.isNot = true then '!' :: (pad' ++ body) else body) ∧ Bounds body m n ∧
    r.start = m.toInt ∧ r.stop = n.toInt

/-! ## White space -/

theorem validateRangeValue_iff {t : CStr} : validateRangeValue t = true ↔ ∀ c ∈ t, ItemChar c := by
  unfold validateRangeValue ItemChar
  simp only [List.all_eq_true, Bool.or_eq_true, beq_iff_eq, or_assoc]

/-- A blank is the only white space of an item. -/
theorem ItemChar.blank {c : Char} (h : ItemChar c) (hspace : kIsSpace c = true) : c = ' ' := by
  rcases h with rfl | rfl | rfl | hdigit
  · rfl
  · exact absurd hspace (by decide)
  · exact absurd hspace (by decide)
  · rw [kIsSpace_of_isDigit hdigit] at hspace
    exact absurd hspace Bool.false_ne_true

/-- The text `k_trim` leaves, and what it takes away in front of it and behind. -/
theorem kTrim_split (s : CStr) :
    ∃ front back, s = front ++ (kTrim s ++ back) ∧ (∀ c ∈ front, kIsSpace c = true) ∧
      ∀ c ∈ back, kIsSpace c = true := by
  refine ⟨s.takeWhile kIsSpace, (s.dropWhile kIsSpace).rtakeWhile kIsSpace, ?_,
    fun c hc => List.mem_takeWhile_imp hc, fun c hc => List.mem_rtakeWhile_imp hc⟩
  unfold kTrim
  rw [List.rdropWhile_append_rtakeWhile, List.takeWhile_append_dropWhile]

/-- A text with no white space in front is trimmed behind. -/
theorem kTrim_of_dropWhile {front s : CStr} (hfront : ∀ c ∈ front, kIsSpace c = true)
    (hs : s.dropWhile kIsSpace = s) : kTrim (front ++ s) = s.rdropWhile kIsSpace := by
  unfold kTrim
  rw [List.dropWhile_append, List.dropWhile_eq_nil_iff.mpr hfront, List.isEmpty_nil, if_pos rfl, hs]

theorem dropWhile_kTrim (s : CStr) : (kTrim s).dropWhile kIsSpace = kTrim s := by
  cases htrim : kTrim s with
  | nil => rfl
  | cons c t =>
      have hprefix : kTrim s <+: s.dropWhile kIsSpace := List.rdropWhile_prefix _ _
      rw [htrim] at hprefix
      obtain ⟨rest, hrest⟩ := hprefix
      have hnot := @List.head_dropWhile_not _ kIsSpace s (by rw [← hrest]; simp)
      simp only [← hrest, List.cons_append, List.head_cons] at hnot
      rw [List.dropWhile_cons_of_neg (by rw [hnot]; exact Bool.false_ne_true)]

theorem kTrim_of_trimmed (s : CStr) : kTrim (kTrim s) = kTrim s := by
  have htrim := dropWhile_kTrim s
  unfold kTrim at htrim ⊢
  rw [htrim, List.rdropWhile_idempotent]

theorem kTrim_of_no_space {s : CStr} (h : ∀ c ∈ s, kIsSpace c = false) : kTrim s = s := by
  have hdrop : s.dropWhile kIsSpace = s := by
    cases s with
    | nil => rfl
    | cons c s => rw [List.dropWhile_cons_of_neg (by rw [h c List.mem_cons_self]; exact Bool.false_ne_true)]
  unfold kTrim
  rw [hdrop, List.rdropWhile_eq_self_iff]
  intro hne
  rw [h _ (List.getLast_mem hne)]
  exact Bool.false_ne_true

theorem mem_of_mem_kTrim {s : CStr} {c : Char} (h : c ∈ kTrim s) : c ∈ s :=
  (List.dropWhile_suffix _).subset ((List.rdropWhile_prefix _ _).subset h)

/-- White space goes up to a character that is none. -/
theorem rdropWhile_append_digit {front : CStr} {c : Char} (hc : c.isDigit = true) (rest : CStr) :
    (front ++ [c] ++ rest).rdropWhile kIsSpace = front ++ [c] ++ rest.rdropWhile kIsSpace := by
  induction rest using List.reverseRecOn with
  | nil =>
      have hspace := kIsSpace_of_isDigit hc
      rw [List.rdropWhile_nil, List.append_nil,
        List.rdropWhile_concat_neg _ _ _ (by rw [hspace]; exact Bool.false_ne_true)]
  | append_singleton rest d ih =>
      rw [← List.append_assoc, List.rdropWhile_concat, List.rdropWhile_concat, ih]
      split
      · rfl
      · rw [List.append_assoc]

theorem digitStop_of_front {s t : CStr} (h : s <+: t) (ht : DigitStop t) : DigitStop s := by
  obtain ⟨rest, rfl⟩ := h
  cases s with
  | nil => trivial
  | cons c s => exact ht

theorem digitStop_append_blanks {s back : CStr} (h : DigitStop s) (hback : ∀ c ∈ back, c = ' ') :
    DigitStop (s ++ back) := by
  cases s with
  | nil =>
      cases back with
      | nil => trivial
      | cons c back =>
          obtain rfl := hback c List.mem_cons_self
          exact digitStop_cons rfl back
  | cons c s => exact h

namespace Bounds

variable {s : CStr} {m n : Int32}

/-- Blanks behind the numbers come and go. -/
theorem append_blanks (h : Bounds s m n) {back : CStr} (hback : ∀ c ∈ back, c = ' ') :
    Bounds (s ++ back) m n := by
  cases h with
  | @one t rest n ht hstop hminus =>
      rw [List.append_assoc]
      refine .one ht (digitStop_append_blanks hstop hback) ?_
      rw [← List.append_assoc, List.mem_append]
      rintro (hmem | hmem)
      · exact hminus hmem
      · exact absurd (hback _ hmem) (by decide)
  | @two a pad b rest m n ha hpad hb hstop =>
      have hassoc : a ++ '-' :: (pad ++ (b ++ rest)) ++ back = a ++ '-' :: (pad ++ (b ++ (rest ++ back))) := by
        simp
      rw [hassoc]
      exact .two ha hpad hb (digitStop_append_blanks hstop hback)

theorem rdropWhile (h : Bounds s m n) : Bounds (s.rdropWhile kIsSpace) m n := by
  cases h with
  | @one t rest n ht hstop hminus =>
      obtain ⟨front, c, rfl, hc⟩ := ht.last_isDigit
      have hprefix : rest.rdropWhile kIsSpace <+: rest := List.rdropWhile_prefix _ _
      rw [rdropWhile_append_digit hc]
      refine .one ht (digitStop_of_front hprefix hstop) ?_
      exact fun hmem => hminus ((List.prefix_append_right_inj _).mpr hprefix |>.subset hmem)
  | @two a pad b rest m n ha hpad hb hstop =>
      obtain ⟨front, c, rfl, hc⟩ := hb.last_isDigit
      have hassoc : ∀ r : CStr, a ++ '-' :: (pad ++ (front ++ [c] ++ r)) =
          (a ++ '-' :: (pad ++ front)) ++ [c] ++ r := by
        intro r
        simp
      rw [hassoc, rdropWhile_append_digit hc, ← hassoc]
      exact .two ha hpad hb (digitStop_of_front (List.rdropWhile_prefix _ _) hstop)

/-- The numbers end the white space that may stand behind them. -/
theorem rdropWhile_append (h : Bounds s m n) (front : CStr) :
    (front ++ s).rdropWhile kIsSpace = front ++ s.rdropWhile kIsSpace := by
  have hdigit : ∃ x c rest, s = x ++ [c] ++ rest ∧ c.isDigit = true := by
    cases h with
    | @one t rest n ht _ _ =>
        obtain ⟨x, c, rfl, hc⟩ := ht.last_isDigit
        exact ⟨x, c, rest, rfl, hc⟩
    | @two a pad b rest m n _ _ hb _ =>
        obtain ⟨x, c, rfl, hc⟩ := hb.last_isDigit
        exact ⟨a ++ '-' :: (pad ++ x), c, rest, by simp, hc⟩
  obtain ⟨x, c, rest, rfl, hc⟩ := hdigit
  have hassoc : front ++ (x ++ [c] ++ rest) = front ++ x ++ [c] ++ rest := by simp
  rw [hassoc, rdropWhile_append_digit hc, rdropWhile_append_digit hc]
  simp

/-- The text starts with a number. -/
theorem dropWhile_space (h : Bounds s m n) : s.dropWhile kIsSpace = s := by
  cases h with
  | one ht _ _ => exact ht.dropWhile_space _
  | two ha _ _ _ => exact ha.dropWhile_space _

theorem head_ne (h : Bounds s m n) : s.head? ≠ some '!' := by
  have hnum : ∀ {t : CStr} {k : Int32} (rest : CStr), Numeral t k → (t ++ rest).head? ≠ some '!' := by
    intro t k rest ht
    cases ht with
    | plain hne hds =>
        obtain ⟨c, cs, rfl⟩ := List.exists_cons_of_ne_nil hne
        rw [List.cons_append, List.head?_cons]
        rintro heq
        obtain rfl := Option.some.inj heq
        exact absurd (hds '!' List.mem_cons_self) (by decide)
    | minus hne hds => exact fun heq => absurd (Option.some.inj heq) (by decide)
  cases h with
  | one ht _ _ => exact hnum _ ht
  | two ha _ _ _ => exact hnum _ ha

end Bounds

/-! ## What is read -/

/-- `sscanf(pure_range, "%d")`. -/
theorem scan_one_iff {s : CStr} {n : Int32} :
    sscanf [.int] s = [n] ↔ ∃ rest, scanNum kIsSpace s = some (n, rest) := by
  unfold sscanf
  cases s with
  | nil => simp [vsscanf, scanNum, scanDigits]
  | cons c s =>
      rw [vsscanf]
      split
      · rename_i k rest hscan
        rw [vsscanf, hscan]
        simp
      · rename_i hscan
        rw [hscan]
        simp

/-- `sscanf(pure_range, "%d-%d")`. -/
theorem scan_two_iff {s : CStr} {m n : Int32} :
    sscanf [.int, .lit '-', .int] s = [m, n] ↔
      ∃ s' rest, scanNum kIsSpace s = some (m, '-' :: s') ∧ scanNum kIsSpace s' = some (n, rest) := by
  unfold sscanf
  cases s with
  | nil => simp [vsscanf, scanNum, scanDigits]
  | cons c s =>
      rw [vsscanf]
      cases hscan : scanNum kIsSpace (c :: s) with
      | none => simp
      | some r =>
          obtain ⟨k, behind⟩ := r
          dsimp only
          cases behind with
          | nil => simp [vsscanf]
          | cons d behind =>
              rw [vsscanf]
              by_cases hd : '-' = d
              · subst hd
                have hlast := @scan_one_iff behind n
                unfold sscanf at hlast
                rw [if_pos rfl, List.cons.injEq, hlast]
                simp
              · rw [if_neg hd]
                simp [Ne.symm hd]

/-- The numbers of a text without white space around it. -/
theorem rangeOf_iff {isNot : Bool} {s : CStr} (hchars : ∀ c ∈ s, ItemChar c)
    (hspace : s.dropWhile kIsSpace = s) {r : RangeValue} :
    rangeOf isNot s = some r ↔
      ∃ m n, Bounds s m n ∧ r = ⟨isNot, m.toInt, n.toInt⟩ := by
  unfold rangeOf
  simp only [strstr_singleton, decide_eq_true_eq]
  by_cases hminus : '-' ∈ s
  · rw [if_pos hminus]
    constructor
    · intro h
      split at h
      · rename_i m n hscan
        obtain ⟨s', rest, hfirst, hsecond⟩ := scan_two_iff.mp hscan
        obtain ⟨a, ha, -, hsa⟩ := scanNum_iff.mp hfirst
        obtain ⟨b, hb, hstop, hsb⟩ := scanNum_iff.mp hsecond
        rw [hspace] at hsa
        have hpad : ∀ c ∈ s'.takeWhile kIsSpace, c = ' ' := by
          intro c hc
          refine (hchars c ?_).blank (List.mem_takeWhile_imp hc)
          rw [hsa]
          exact List.mem_append_right _ (List.mem_cons_of_mem _ ((List.takeWhile_prefix _).subset hc))
        have hs : s = a ++ '-' :: (s'.takeWhile kIsSpace ++ (b ++ rest)) := by
          rw [← hsb, List.takeWhile_append_dropWhile]
          exact hsa
        refine ⟨m, n, ?_, (Option.some.inj h).symm⟩
        rw [hs]
        exact .two ha hpad hb hstop
      · exact absurd h (by simp)
    · rintro ⟨m, n, hbounds, rfl⟩
      have hscan : sscanf [.int, .lit '-', .int] s = [m, n] := by
        cases hbounds with
        | one _ _ hno => exact absurd hminus hno
        | @two a pad b rest m n ha hpad hb hstop =>
            refine scan_two_iff.mpr ⟨pad ++ (b ++ rest), rest, ?_, ?_⟩
            · exact scanNum_iff.mpr ⟨a, ha, digitStop_cons rfl _, ha.dropWhile_space _⟩
            · refine scanNum_iff.mpr ⟨b, hb, hstop, ?_⟩
              have hblank : ∀ c ∈ pad, kIsSpace c = true := by
                intro c hc
                rw [hpad c hc]
                rfl
              rw [List.dropWhile_append, List.dropWhile_eq_nil_iff.mpr hblank, List.isEmpty_nil, if_pos rfl,
                hb.dropWhile_space]
      rw [hscan]
  · rw [if_neg hminus]
    constructor
    · intro h
      split at h
      · rename_i n hscan
        obtain ⟨rest, hnum⟩ := scan_one_iff.mp hscan
        obtain ⟨t, ht, hstop, hst⟩ := scanNum_iff.mp hnum
        rw [hspace] at hst
        refine ⟨n, n, ?_, (Option.some.inj h).symm⟩
        rw [hst] at hminus ⊢
        exact .one ht hstop hminus
      · exact absurd h (by simp)
    · rintro ⟨m, n, hbounds, rfl⟩
      cases hbounds with
      | @one t rest n ht hstop _ =>
          have hscan : sscanf [.int] (t ++ rest) = [m] :=
            scan_one_iff.mpr ⟨rest, scanNum_iff.mpr ⟨t, ht, hstop, ht.dropWhile_space _⟩⟩
          rw [hscan]
      | two _ _ _ _ => exact absurd (List.mem_append_right _ List.mem_cons_self) hminus

/-- `parse_range_value`, for its result. -/
theorem rangeIn_eq (t : CStr) :
    rangeIn t =
      if validateRangeValue t = true then
        rangeOf ((kTrim t).head? == some '!')
          (kTrim (if (kTrim t).head? == some '!' then (kTrim t).tail else kTrim t))
      else none := by
  unfold rangeIn parseRangeValue
  cases validateRangeValue t with
  | false => rfl
  | true => rfl

theorem mem_of_mem_rangeText {t : CStr} {c : Char}
    (h : c ∈ kTrim (if (kTrim t).head? == some '!' then (kTrim t).tail else kTrim t)) : c ∈ t := by
  have hmem := mem_of_mem_kTrim h
  split at hmem
  · exact mem_of_mem_kTrim (List.mem_of_mem_tail hmem)
  · exact mem_of_mem_kTrim hmem

/-- The text of an item that is read, from the numbers in it. -/
theorem itemText_of_bounds {t : CStr} {m n : Int32} (hchars : ∀ c ∈ t, ItemChar c)
    (hbounds : Bounds (kTrim (if (kTrim t).head? == some '!' then (kTrim t).tail else kTrim t)) m n) :
    ItemText t ⟨(kTrim t).head? == some '!', m.toInt, n.toInt⟩ := by
  obtain ⟨front, back, ht, hfront, hback⟩ := kTrim_split t
  have hmem : ∀ c, c ∈ front ∨ c ∈ kTrim t ∨ c ∈ back → ItemChar c := by
    intro c hc
    refine hchars c ?_
    rw [ht, List.mem_append, List.mem_append]
    exact hc
  have hfront' : ∀ c ∈ front, c = ' ' := fun c hc => (hmem c (Or.inl hc)).blank (hfront c hc)
  have hback' : ∀ c ∈ back, c = ' ' := fun c hc => (hmem c (Or.inr (Or.inr hc))).blank (hback c hc)
  refine ⟨hchars, ?_⟩
  cases hhead : (kTrim t).head? == some '!' with
  | false =>
      rw [hhead, if_neg Bool.false_ne_true, kTrim_of_trimmed] at hbounds
      exact ⟨front, [], kTrim t ++ back, m, n, hfront', fun c hc => absurd hc List.not_mem_nil, ht,
        hbounds.append_blanks hback', rfl, rfl⟩
  | true =>
      rw [hhead, if_pos rfl] at hbounds
      obtain ⟨s, hs⟩ : ∃ s, kTrim t = '!' :: s := by
        cases htrim : kTrim t with
        | nil =>
            rw [htrim] at hhead
            exact absurd hhead (by decide)
        | cons c s =>
            rw [htrim, List.head?_cons, beq_iff_eq, Option.some.injEq] at hhead
            exact ⟨s, by rw [hhead]⟩
      rw [hs, List.tail_cons] at hbounds
      obtain ⟨front₂, back₂, hs₂, hfront₂, hback₂⟩ := kTrim_split s
      have hmem₂ : ∀ c, c ∈ front₂ ∨ c ∈ kTrim s ∨ c ∈ back₂ → ItemChar c := by
        intro c hc
        refine hmem c (Or.inr (Or.inl ?_))
        rw [hs, hs₂]
        refine List.mem_cons_of_mem _ ?_
        rw [List.mem_append, List.mem_append]
        exact hc
      have hblanks : ∀ c ∈ back₂ ++ back, c = ' ' := by
        intro c hc
        rcases List.mem_append.mp hc with hc | hc
        · exact (hmem₂ c (Or.inr (Or.inr hc))).blank (hback₂ c hc)
        · exact hback' c hc
      refine ⟨front, front₂, kTrim s ++ (back₂ ++ back), m, n, hfront',
        fun c hc => (hmem₂ c (Or.inl hc)).blank (hfront₂ c hc), ?_, hbounds.append_blanks hblanks, rfl, rfl⟩
      rw [if_pos rfl, ht, hs]
      conv_lhs => rw [hs₂]
      simp

/-- **`parse_range_value`** reads the texts of items, and nothing else. -/
theorem rangeIn_iff {t : CStr} {r : RangeValue} : rangeIn t = some r ↔ ItemText t r := by
  rw [rangeIn_eq]
  constructor
  · intro h
    split at h
    · rename_i hvalid
      have hchars := validateRangeValue_iff.mp hvalid
      obtain ⟨m, n, hbounds, rfl⟩ := (rangeOf_iff (fun c hc => hchars c (mem_of_mem_rangeText hc))
        (dropWhile_kTrim _)).mp h
      exact itemText_of_bounds hchars hbounds
    · exact absurd h (by simp)
  · rintro ⟨hchars, pad, pad', body, m, n, hpad, hpad', ht, hbounds, hstart, hstop⟩
    have hblank : ∀ {w : CStr}, (∀ c ∈ w, c = ' ') → ∀ c ∈ w, kIsSpace c = true := by
      intro w hw c hc
      rw [hw c hc]
      rfl
    -- the text in the end: the body without the blanks behind it
    have hbody := hbounds.rdropWhile
    have htext : kTrim (if (kTrim t).head? == some '!' then (kTrim t).tail else kTrim t) =
        body.rdropWhile kIsSpace ∧ ((kTrim t).head? == some '!') = r.isNot := by
      cases hnot : r.isNot with
      | false =>
          rw [hnot, if_neg Bool.false_ne_true] at ht
          have htrim : kTrim t = body.rdropWhile kIsSpace := by
            rw [ht, kTrim_of_dropWhile (hblank hpad) hbounds.dropWhile_space]
          have hhead : ((kTrim t).head? == some '!') = false := by
            rw [htrim, beq_eq_false_iff_ne]
            exact hbody.head_ne
          rw [hhead, if_neg Bool.false_ne_true, kTrim_of_trimmed]
          exact ⟨htrim, rfl⟩
      | true =>
          rw [hnot, if_pos rfl] at ht
          have htrim : kTrim t = '!' :: (pad' ++ body.rdropWhile kIsSpace) := by
            rw [ht, kTrim_of_dropWhile (hblank hpad) rfl]
            exact hbounds.rdropWhile_append ('!' :: pad')
          rw [htrim, List.head?_cons, beq_self_eq_true, if_pos rfl, List.tail_cons,
            kTrim_of_dropWhile (hblank hpad') hbody.dropWhile_space, List.rdropWhile_idempotent]
          exact ⟨rfl, rfl⟩
    rw [if_pos (validateRangeValue_iff.mpr hchars), htext.1, htext.2]
    have hmem : ∀ c ∈ body.rdropWhile kIsSpace, ItemChar c := by
      intro c hc
      rw [← htext.1] at hc
      exact hchars c (mem_of_mem_rangeText hc)
    refine (rangeOf_iff hmem hbody.dropWhile_space).mpr ⟨m, n, hbody, ?_⟩
    rw [← hstart, ← hstop]

end OpenAppFilter.Theorems
