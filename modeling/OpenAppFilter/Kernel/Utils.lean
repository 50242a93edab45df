import Mathlib.Data.List.DropRight
import OpenAppFilter.Base.CText

/-!
# Text functions of the module (`af_utils.c`)

`k_atoi`, `k_trim` and `k_sscanf`. The `sscanf` of the kernel itself reads the
formats used here in the same way, but for its idea of white space.

A format is the list of its conversions, and what a scan stores is the list of
the numbers it converts: its length is what the function returns.
-/

namespace OpenAppFilter.Kernel

open Base

/-- `isspace` by the kernel's character table: the non-breaking space of Latin-1
is white space too. -/
def kIsSpace (c : Char) : Bool := isSpace c || c == '\xa0'

/-- `k_atoi`: an `int` that wraps around. -/
def kAtoi (s : CStr) : Int32 := Int32.ofInt (natPrefix (s.dropWhile (fun c => c == ' ' || c == '\t')))

/-- `k_trim`. -/
def kTrim (s : CStr) : CStr := (s.dropWhile kIsSpace).rdropWhile kIsSpace

/-! ## Scanning -/

/-- One piece of a format: a character, `%d`, `%x`, or `%[`, which is none of
the conversions the function knows. -/
inductive Conv where
  | lit (c : Char)
  | int
  | hex
  | set
  deriving DecidableEq, Repr

/-- `simple_strtol` on a text that starts with a digit behind the sign. -/
def scanDigits (sign : Int) (s : CStr) : Option (Int32 × CStr) :=
  match s with
  | c :: _ =>
      if c.isDigit then some (Int32.ofInt (sign * natPrefix s), s.dropWhile Char.isDigit) else none
  | [] => none

/-- `%d`: white space is skipped, and there is no `+`. -/
def scanNum (space : Char → Bool) (s : CStr) : Option (Int32 × CStr) :=
  match s.dropWhile space with
  | '-' :: r => scanDigits (-1) r
  | r => scanDigits 1 r

/-- `k_vsscanf`. The loop ends with the format or the text, at a character that
differs, at a number that does not start, and at a conversion it does not
know. -/
def vsscanf (space : Char → Bool) : List Conv → CStr → List Int32
  | [], _ => []
  | _ :: _, [] => []
  | .lit c :: fmt, d :: s => if c = d then vsscanf space fmt s else []
  | .int :: fmt, c :: s =>
      match scanNum space (c :: s) with
      | some (n, s) => n :: vsscanf space fmt s
      | none => []
  | .hex :: fmt, c :: s =>
      match scanHex none (c :: s) with
      | some (n, s) => Int32.ofNat n :: vsscanf space fmt s
      | none => []
  | .set :: _, _ :: _ => []

/-- `k_sscanf`, whose `skip_spaces` stops at the non-breaking space. -/
def kSscanf (fmt : List Conv) (s : CStr) : List Int32 := vsscanf isSpace fmt s

/-- The kernel's `sscanf`. -/
def sscanf (fmt : List Conv) (s : CStr) : List Int32 := vsscanf kIsSpace fmt s

/-! ## Numbers that are there -/

theorem kIsSpace_of_isDigit {c : Char} (h : c.isDigit = true) : kIsSpace c = false := by
  have hne : c ≠ '\xa0' := by
    rintro rfl
    exact absurd h (by decide)
  unfold kIsSpace
  rw [(isSpace_of_isDigit h).1, Bool.false_or, beq_eq_false_iff_ne]
  exact hne

theorem scanDigits_append {ds rest : CStr} (sign : Int) (hne : ds ≠ []) (hds : ∀ c ∈ ds, c.isDigit = true)
    (hrest : DigitStop rest) :
    scanDigits sign (ds ++ rest) = some (Int32.ofInt (sign * natPrefix ds), rest) := by
  obtain ⟨hdrop, hvalue⟩ := digits_append hds hrest
  obtain ⟨c, cs, rfl⟩ := List.exists_cons_of_ne_nil hne
  rw [List.cons_append] at hvalue hdrop ⊢
  rw [scanDigits, if_pos (hds c List.mem_cons_self), hvalue, hdrop]

/-- A run of digits, with and without a `-`. -/
theorem scanNum_digits {space : Char → Bool} (hspace : ∀ c, c.isDigit = true → space c = false)
    {ds rest : CStr} (hne : ds ≠ []) (hds : ∀ c ∈ ds, c.isDigit = true) (hrest : DigitStop rest) :
    scanNum space (ds ++ rest) = some (Int32.ofInt (natPrefix ds), rest) := by
  have hrun := scanDigits_append 1 hne hds hrest
  rw [Int.one_mul] at hrun
  obtain ⟨c, cs, rfl⟩ := List.exists_cons_of_ne_nil hne
  have hdigit := hds c List.mem_cons_self
  have hskip : (c :: cs ++ rest).dropWhile space = c :: cs ++ rest := by
    rw [List.cons_append, List.dropWhile_cons_of_neg (by rw [hspace c hdigit]; exact Bool.false_ne_true)]
  unfold scanNum
  rw [hskip]
  split
  · rename_i r heq
    exact absurd (List.cons.inj heq).1 (isSpace_of_isDigit hdigit).2.1
  · exact hrun

theorem scanNum_minus {space : Char → Bool} (hspace : space '-' = false) {ds rest : CStr}
    (hne : ds ≠ []) (hds : ∀ c ∈ ds, c.isDigit = true) (hrest : DigitStop rest) :
    scanNum space ('-' :: ds ++ rest) = some (Int32.ofInt (-(natPrefix ds : Int)), rest) := by
  have hskip : ('-' :: ds ++ rest).dropWhile space = '-' :: (ds ++ rest) := by
    rw [List.cons_append, List.dropWhile_cons_of_neg (by rw [hspace]; exact Bool.false_ne_true)]
  unfold scanNum
  rw [hskip]
  show scanDigits (-1) (ds ++ rest) = _
  rw [scanDigits_append (-1) hne hds hrest, Int.neg_one_mul]

/-- A run of hex digits at the end of the text. -/
theorem scanHex_run {s : CStr} (hne : s ≠ []) (hs : ∀ c ∈ s, isHex c = true) :
    scanHex none s = some (hexPrefix s, []) := by
  have hall : s.takeWhile isHex = s := List.takeWhile_eq_self_iff.mpr hs
  obtain ⟨c, cs, rfl⟩ := List.exists_cons_of_ne_nil hne
  have hc := hs c List.mem_cons_self
  have hskip : skipSpaces (c :: cs) = c :: cs := by
    have hspace : isSpace c = false := by
      simp only [isSpace, Bool.or_eq_false_iff, decide_eq_false_iff_not]
      exact ⟨⟨⟨⟨⟨ne_of_isHex hc (by decide), ne_of_isHex hc (by decide)⟩,
        ne_of_isHex hc (by decide)⟩, ne_of_isHex hc (by decide)⟩,
        ne_of_isHex hc (by decide)⟩, ne_of_isHex hc (by decide)⟩
    simp [skipSpaces, hspace]
  have hx : ∀ d ∈ cs, d ≠ 'x' ∧ d ≠ 'X' := fun d hd =>
    ⟨ne_of_isHex (hs d (List.mem_cons_of_mem _ hd)) (by decide),
      ne_of_isHex (hs d (List.mem_cons_of_mem _ hd)) (by decide)⟩
  unfold scanHex
  rw [hskip]
  simp only [hc, Bool.not_true, Bool.false_eq_true, if_false]
  -- a second digit is no `x`, so there is no prefix to skip
  split
  · exact absurd rfl (hx 'x' List.mem_cons_self).1
  · exact absurd rfl (hx 'X' List.mem_cons_self).2
  · rw [hall, List.drop_length]

/-! ## Numbers that were read -/

/-- Digits, with or without a `-` in front of them, and the `int` they are read
into. -/
inductive Numeral : CStr → Int32 → Prop
  | plain {ds : CStr} : ds ≠ [] → (∀ c ∈ ds, c.isDigit = true) → Numeral ds (Int32.ofInt (natPrefix ds))
  | minus {ds : CStr} : ds ≠ [] → (∀ c ∈ ds, c.isDigit = true) →
      Numeral ('-' :: ds) (Int32.ofInt (-(natPrefix ds : Int)))

theorem Numeral.last_isDigit {t : CStr} {n : Int32} (h : Numeral t n) :
    ∃ front c, t = front ++ [c] ∧ c.isDigit = true := by
  have hlast : ∀ ds : CStr, ds ≠ [] → (∀ c ∈ ds, c.isDigit = true) →
      ∃ front c, ds = front ++ [c] ∧ c.isDigit = true := by
    intro ds hne hds
    obtain ⟨front, c, rfl⟩ := (List.eq_nil_or_concat' ds).resolve_left hne
    exact ⟨front, c, rfl, hds c (List.mem_append_right _ (List.mem_singleton_self c))⟩
  cases h with
  | plain hne hds => exact hlast t hne hds
  | minus hne hds =>
      obtain ⟨front, c, rfl, hc⟩ := hlast _ hne hds
      exact ⟨'-' :: front, c, rfl, hc⟩

/-- A numeral does not start with white space. -/
theorem Numeral.dropWhile_space {t : CStr} {n : Int32} (h : Numeral t n) (rest : CStr) :
    (t ++ rest).dropWhile kIsSpace = t ++ rest := by
  cases h with
  | plain hne hds =>
      obtain ⟨c, cs, rfl⟩ := List.exists_cons_of_ne_nil hne
      have hspace := kIsSpace_of_isDigit (hds c List.mem_cons_self)
      rw [List.cons_append, List.dropWhile_cons_of_neg (by rw [hspace]; exact Bool.false_ne_true)]
  | minus hne hds => rfl

theorem scanDigits_iff {sign : Int} {s rest : CStr} {n : Int32} :
    scanDigits sign s = some (n, rest) ↔
      ∃ ds, ds ≠ [] ∧ (∀ c ∈ ds, c.isDigit = true) ∧ DigitStop rest ∧ s = ds ++ rest ∧
        n = Int32.ofInt (sign * natPrefix ds) := by
  constructor
  · intro h
    cases s with
    | nil => exact absurd h (by simp [scanDigits])
    | cons c cs =>
        rw [scanDigits] at h
        split at h
        · rename_i hc
          obtain ⟨rfl, rfl⟩ := Prod.mk.inj (Option.some.inj h)
          have hds : ∀ d ∈ (c :: cs).takeWhile Char.isDigit, d.isDigit = true :=
            fun d hd => List.mem_takeWhile_imp hd
          have hstop : DigitStop ((c :: cs).dropWhile Char.isDigit) := by
            cases hdrop : (c :: cs).dropWhile Char.isDigit with
            | nil => trivial
            | cons d behind =>
                have hnot := @List.head_dropWhile_not _ Char.isDigit (c :: cs) (by rw [hdrop]; simp)
                simp only [hdrop, List.head_cons] at hnot
                exact hnot
          have hsplit := List.takeWhile_append_dropWhile (p := Char.isDigit) (l := c :: cs)
          refine ⟨(c :: cs).takeWhile Char.isDigit, ?_, hds, hstop, hsplit.symm, ?_⟩
          · rw [List.takeWhile_cons_of_pos hc]
            exact List.cons_ne_nil _ _
          · have hvalue := (digits_append hds hstop).2
            rw [hsplit] at hvalue
            rw [hvalue]
        · exact absurd h (by simp)
  · rintro ⟨ds, hne, hds, hrest, rfl, rfl⟩
    exact scanDigits_append sign hne hds hrest

/-- What `%d` accepts: white space and a numeral, up to its last digit. -/
theorem scanNum_iff {s rest : CStr} {n : Int32} :
    scanNum kIsSpace s = some (n, rest) ↔
      ∃ t, Numeral t n ∧ DigitStop rest ∧ s.dropWhile kIsSpace = t ++ rest := by
  unfold scanNum
  constructor
  · intro h
    split at h
    · rename_i r hskip
      obtain ⟨ds, hne, hds, hrest, rfl, rfl⟩ := scanDigits_iff.mp h
      rw [Int.neg_one_mul]
      exact ⟨'-' :: ds, .minus hne hds, hrest, hskip⟩
    · obtain ⟨ds, hne, hds, hrest, hs, rfl⟩ := scanDigits_iff.mp h
      rw [Int.one_mul]
      exact ⟨ds, .plain hne hds, hrest, hs⟩
  · rintro ⟨t, ht, hrest, hskip⟩
    rw [hskip]
    cases ht with
    | plain hne hds =>
        have hscan := scanDigits_append 1 hne hds hrest
        rw [Int.one_mul] at hscan
        obtain ⟨c, cs, rfl⟩ := List.exists_cons_of_ne_nil hne
        split
        · rename_i r heq
          exact absurd (List.cons.inj heq).1 (isSpace_of_isDigit (hds c List.mem_cons_self)).2.1
        · exact hscan
    | minus hne hds =>
        have hscan := scanDigits_append (-1) hne hds hrest
        rw [Int.neg_one_mul] at hscan
        exact hscan

end OpenAppFilter.Kernel
