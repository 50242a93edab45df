import Mathlib.Algebra.Group.Nat.Defs
import Mathlib.Data.List.Infix

/-!
# C text

C strings as lists of characters without the terminating NUL, and the library
functions the modelled code calls on them: `strstr`, the token sequence of
`strtok_r`, `atoi`, `printf`'s `%d`, and the `%d` and `%x` conversions of
`sscanf`.

`int` results are `Int32`; a decimal number that does not fit wraps around, as
two's-complement `atoi` and `sscanf` do.
-/

namespace OpenAppFilter.Base

/-- A C string, without its terminating NUL. -/
abbrev CStr := List Char

/-- `isspace` in the C locale. -/
def isSpace (c : Char) : Bool :=
  c = ' ' || c = '\t' || c = '\n' || c = '\x0b' || c = '\x0c' || c = '\r'

def skipSpaces (s : CStr) : CStr := s.dropWhile isSpace

/-- `strstr(hay, needle) != NULL`. -/
def strstr (hay needle : CStr) : Bool := hay.tails.any (needle.isPrefixOf ·)

/-- The text before the first `c` and the text after it: what `strchr` is
used for. -/
def splitAtChar (c : Char) : CStr → Option (CStr × CStr)
  | [] => none
  | d :: s => if d = c then some ([], s) else (splitAtChar c s).map (fun r => (d :: r.1, r.2))

/-- The tokens that successive `strtok_r` calls with the one delimiter `d`
return; `cur` is the token being read. -/
def tokensFrom (d : Char) : CStr → CStr → List CStr
  | cur, [] => if cur = [] then [] else [cur]
  | cur, c :: s =>
      if c = d then
        if cur = [] then tokensFrom d [] s else cur :: tokensFrom d [] s
      else tokensFrom d (cur ++ [c]) s

def tokens (d : Char) (s : CStr) : List CStr := tokensFrom d [] s

/-! ## Decimal numbers -/

/-- The value of the leading run of decimal digits (0 when there is none). -/
def natPrefix (s : CStr) : Nat := Nat.ofDigitChars 10 (s.takeWhile Char.isDigit) 0

/-- `atoi`. -/
def atoi (s : CStr) : Int32 :=
  match skipSpaces s with
  | '-' :: r => Int32.ofInt (-(natPrefix r : Int))
  | '+' :: r => Int32.ofInt (natPrefix r)
  | r => Int32.ofInt (natPrefix r)

/-- `printf("%d")`. -/
def decimal (n : Int32) : CStr :=
  match n.toInt with
  | .ofNat m => Nat.toDigits 10 m
  | .negSucc m => '-' :: Nat.toDigits 10 (m + 1)

/-- One `%d` conversion of `sscanf`: the number and the unread text. -/
def scanInt (s : CStr) : Option (Int32 × CStr) :=
  let body (r : CStr) (sign : Int) : Option (Int32 × CStr) :=
    if (r.takeWhile Char.isDigit) = [] then none
    else some (Int32.ofInt (sign * natPrefix r), r.dropWhile Char.isDigit)
  match skipSpaces s with
  | '-' :: r => body r (-1)
  | '+' :: r => body r 1
  | r => body r 1

/-- `sscanf(s, "%d<sep>%d<sep>...")`: one conversion, then each separator
followed by one more; the conversions made before the first mismatch. -/
def scanInts (s : CStr) : List Char → List Int32
  | [] =>
      match scanInt s with
      | some (n, _) => [n]
      | none => []
  | sep :: seps =>
      match scanInt s with
      | some (n, c :: rest) => if c = sep then n :: scanInts rest seps else [n]
      | some (n, []) => [n]
      | none => []

/-! ## Hexadecimal numbers -/

/-- The value of a hexadecimal digit of either case. -/
def hexVal (c : Char) : Option Nat :=
  if '0' ≤ c ∧ c ≤ '9' then some (c.toNat - '0'.toNat)
  else if 'a' ≤ c ∧ c ≤ 'f' then some (c.toNat - 'a'.toNat + 10)
  else if 'A' ≤ c ∧ c ≤ 'F' then some (c.toNat - 'A'.toNat + 10)
  else none

def isHex (c : Char) : Bool := (hexVal c).isSome

def hexPrefix (s : CStr) : Nat :=
  (s.takeWhile isHex).foldl (fun n c => 16 * n + (hexVal c).getD 0) 0

/-- One `%x` conversion of the kernel's `sscanf` with an optional field
width: leading blanks are skipped, the next character must be a hex digit, a
`0x` prefix is skipped. -/
def scanHex (width : Option Nat) (s : CStr) : Option (Nat × CStr) :=
  let take (s : CStr) (used : Nat) : CStr :=
    match width with
    | none => s
    | some w => s.take (w - used)
  let conv (s : CStr) (used : Nat) : Nat × CStr :=
    (hexPrefix (take s used), s.drop ((take s used).takeWhile isHex).length)
  match skipSpaces s with
  | [] => none
  | c :: r =>
      if !isHex c then none
      else
        match c, r with
        | '0', 'x' :: r' => some (conv r' 2)
        | '0', 'X' :: r' => some (conv r' 2)
        | _, _ => some (conv (c :: r) 0)

/-- `n` hex conversions separated by colons; `none` when fewer than `n` are
made. -/
def scanColonHex (width : Option Nat) : Nat → CStr → Option (List Nat)
  | 0, _ => some []
  | 1, s => (scanHex width s).map (fun r => [r.1])
  | n + 2, s =>
      match scanHex width s with
      | some (v, ':' :: rest) => (scanColonHex width (n + 1) rest).map (v :: ·)
      | _ => none

/-- `strchr(s, c) != NULL`, as `strstr`. -/
theorem strstr_singleton (s : CStr) (c : Char) : strstr s [c] = decide (c ∈ s) := by
  unfold strstr
  induction s with
  | nil => rfl
  | cons d s ih =>
      rw [List.tails_cons, List.any_cons, ih, Bool.eq_iff_iff]
      simp [List.mem_cons]

/-! ## Reading back what was printed -/

/-- A run of digits standing before this text ends where the text starts. -/
def DigitStop : CStr → Prop
  | [] => True
  | c :: _ => c.isDigit = false

theorem digitStop_cons {c : Char} (h : c.isDigit = false) (rest : CStr) : DigitStop (c :: rest) := h

theorem takeWhile_digits_append {ds rest : CStr} (hds : ∀ c ∈ ds, c.isDigit = true)
    (hrest : DigitStop rest) : (ds ++ rest).takeWhile Char.isDigit = ds := by
  induction ds with
  | nil =>
      cases rest with
      | nil => rfl
      | cons c rest =>
          have hc : c.isDigit = false := hrest
          simp [hc]
  | cons d ds ih =>
      have hd : d.isDigit = true := hds d List.mem_cons_self
      have htail := ih (fun c hc => hds c (List.mem_cons_of_mem _ hc))
      simp [hd, htail]

theorem natPrefix_toDigits (n : Nat) {rest : CStr} (hrest : DigitStop rest) :
    natPrefix (Nat.toDigits 10 n ++ rest) = n := by
  have hdig : ∀ c ∈ Nat.toDigits 10 n, c.isDigit = true := by
    intro c hc
    exact Nat.isDigit_of_mem_toDigits (by decide) (by decide) hc
  unfold natPrefix
  rw [takeWhile_digits_append hdig hrest, Nat.ofDigitChars_ten_toDigits]

/-- A decimal digit is neither a blank nor a sign. -/
theorem isSpace_of_isDigit {c : Char} (h : c.isDigit = true) :
    isSpace c = false ∧ c ≠ '-' ∧ c ≠ '+' := by
  have hne : ∀ d : Char, d.isDigit = false → c ≠ d := by
    intro d hd heq
    rw [heq, hd] at h
    exact Bool.false_ne_true h
  refine ⟨?_, hne '-' (by decide), hne '+' (by decide)⟩
  simp only [isSpace, Bool.or_eq_false_iff, decide_eq_false_iff_not]
  exact ⟨⟨⟨⟨⟨hne ' ' (by decide), hne '\t' (by decide)⟩, hne '\n' (by decide)⟩,
    hne '\x0b' (by decide)⟩, hne '\x0c' (by decide)⟩, hne '\r' (by decide)⟩

/-- `atoi` on text that starts with a digit reads the leading digits. -/
theorem atoi_of_digit {c : Char} {s : CStr} (h : c.isDigit = true) :
    atoi (c :: s) = Int32.ofInt (natPrefix (c :: s)) := by
  obtain ⟨hsp, hminus, hplus⟩ := isSpace_of_isDigit h
  have hskip : skipSpaces (c :: s) = c :: s := by
    simp [skipSpaces, hsp]
  unfold atoi
  rw [hskip]
  split
  · rename_i r heq
    exact absurd (List.cons.inj heq).1 hminus
  · rename_i r heq
    exact absurd (List.cons.inj heq).1 hplus
  · rfl

/-- `atoi` reads back what `%d` printed, up to the first character that is
not a digit. -/
theorem atoi_decimal_append (n : Int32) {rest : CStr} (hrest : DigitStop rest) :
    atoi (decimal n ++ rest) = n := by
  have hback : Int32.ofInt n.toInt = n := Int32.ofInt_toInt n
  unfold decimal
  split
  · rename_i m hm
    obtain ⟨d, ds, hds⟩ := List.exists_cons_of_ne_nil (Nat.toDigits_ne_nil (n := m) (b := 10))
    have hd : d.isDigit = true :=
      Nat.isDigit_of_mem_toDigits (b := 10) (n := m) (by decide) (by decide)
        (by rw [hds]; exact List.mem_cons_self)
    have hatoi := atoi_of_digit (s := ds ++ rest) hd
    rw [← List.cons_append, ← hds, natPrefix_toDigits m hrest] at hatoi
    rw [hm] at hback
    rw [hatoi]
    exact hback
  · rename_i m hm
    have hskip : skipSpaces ('-' :: (Nat.toDigits 10 (m + 1) ++ rest)) =
        '-' :: (Nat.toDigits 10 (m + 1) ++ rest) := by
      simp [skipSpaces, isSpace]
    rw [List.cons_append]
    unfold atoi
    rw [hskip]
    simp only [natPrefix_toDigits (m + 1) hrest]
    rw [hm] at hback
    exact hback

theorem atoi_decimal (n : Int32) : atoi (decimal n) = n := by
  have hback : atoi (decimal n ++ []) = n := atoi_decimal_append n trivial
  rwa [List.append_nil] at hback

theorem decimal_injective {m n : Int32} (h : decimal m = decimal n) : m = n := by
  rw [← atoi_decimal m, h, atoi_decimal]

theorem decimal_length_int32 (n : Int32) : 1 ≤ (decimal n).length ∧ (decimal n).length ≤ 11 := by
  have hlo : -2147483648 ≤ n.toInt := n.minValue_le_toInt
  have hhi : n.toInt ≤ 2147483647 := n.toInt_le
  unfold decimal
  split
  · rename_i m hm
    have hval : n.toInt = m := hm
    have hlen : (Nat.toDigits 10 m).length ≤ 10 :=
      (Nat.length_toDigits_le_iff (by decide) (by decide)).mpr (by omega)
    exact ⟨Nat.length_toDigits_pos, by omega⟩
  · rename_i m hm
    have hval : n.toInt = -(m : Int) - 1 := by
      rw [hm]
      omega
    have hlen : (Nat.toDigits 10 (m + 1)).length ≤ 10 :=
      (Nat.length_toDigits_le_iff (by decide) (by decide)).mpr (by omega)
    rw [List.length_cons]
    omega

theorem mem_decimal {n : Int32} {c : Char} (h : c ∈ decimal n) : c.isDigit = true ∨ c = '-' := by
  have hdigit : ∀ m, c ∈ Nat.toDigits 10 m → c.isDigit = true :=
    fun m hm => Nat.isDigit_of_mem_toDigits (by decide) (by decide) hm
  unfold decimal at h
  split at h
  · exact Or.inl (hdigit _ h)
  · rcases List.mem_cons.mp h with h | h
    · exact Or.inr h
    · exact Or.inl (hdigit _ h)

/-- What a run of digits leaves behind it, and its value. -/
theorem digits_append {ds rest : CStr} (hds : ∀ c ∈ ds, c.isDigit = true) (hrest : DigitStop rest) :
    (ds ++ rest).dropWhile Char.isDigit = rest ∧ natPrefix (ds ++ rest) = natPrefix ds := by
  have htake := takeWhile_digits_append hds hrest
  constructor
  · have h := List.takeWhile_append_dropWhile (p := Char.isDigit) (l := ds ++ rest)
    rw [htake] at h
    exact List.append_cancel_left h
  · have hself := @takeWhile_digits_append ds [] hds trivial
    rw [List.append_nil] at hself
    unfold natPrefix
    rw [htake, hself]

/-- `sscanf` reads a run of digits up to the first character that is none. -/
theorem scanInt_digits {ds rest : CStr} (hne : ds ≠ []) (hds : ∀ c ∈ ds, c.isDigit = true)
    (hrest : DigitStop rest) : scanInt (ds ++ rest) = some (Int32.ofInt (natPrefix ds), rest) := by
  have htake := takeWhile_digits_append hds hrest
  obtain ⟨hdrop, hvalue⟩ := digits_append hds hrest
  obtain ⟨c, cs, rfl⟩ := List.exists_cons_of_ne_nil hne
  obtain ⟨hsp, hminus, hplus⟩ := isSpace_of_isDigit (hds c List.mem_cons_self)
  have hskip : skipSpaces (c :: cs ++ rest) = c :: cs ++ rest := by
    simp [skipSpaces, hsp]
  unfold scanInt
  dsimp only
  rw [hskip]
  split
  · rename_i r heq
    exact absurd (List.cons.inj heq).1 hminus
  · rename_i r heq
    exact absurd (List.cons.inj heq).1 hplus
  · rw [htake, if_neg hne, hvalue, hdrop, Int.one_mul]

/-- The first digits of a number are the digits of a number. -/
theorem take_toDigits {j : Nat} (hj : 0 < j) (n : Nat) :
    ∃ m, (Nat.toDigits 10 n).take j = Nat.toDigits 10 m ∧ m ≤ n ∧ m < 10 ^ j ∧
      (n < 10 ^ j → m = n) ∧ (10 ^ j ≤ n → 10 ^ j ≤ 10 * m + 9) := by
  induction n using Nat.strongRecOn with
  | ind n ih =>
      by_cases hlt : n < 10 ^ j
      · have hlen : (Nat.toDigits 10 n).length ≤ j :=
          (Nat.length_toDigits_le_iff (by decide) hj).mpr hlt
        exact ⟨n, List.take_of_length_le hlen, Nat.le_refl n, hlt, fun _ => rfl, fun h => by omega⟩
      · have hpow : 10 ≤ 10 ^ j := Nat.le_self_pow (by omega) 10
        have hlen : ¬ (Nat.toDigits 10 (n / 10)).length < j := by
          intro h
          have hshort := (Nat.length_toDigits_le_iff (b := 10) (by decide) hj (n := n)).mp (by
            rw [Nat.toDigits_of_base_le (by decide) (by omega), List.length_append,
              List.length_singleton]
            omega)
          omega
        obtain ⟨m, htake, hle, hm, hsame, hbig⟩ := ih (n / 10) (by omega)
        have hdigits : (Nat.toDigits 10 n).take j = (Nat.toDigits 10 (n / 10)).take j := by
          rw [Nat.toDigits_of_base_le (by decide) (by omega),
            List.take_append_of_le_length (by omega)]
        refine ⟨m, by rw [hdigits, htake], by omega, hm, fun h => absurd h hlt, ?_⟩
        intro _
        by_cases hnext : n / 10 < 10 ^ j
        · rw [hsame hnext]
          omega
        · exact hbig (by omega)

/-! ## Tokens -/

theorem splitAtChar_append {c : Char} {s rest : CStr} (h : c ∉ s) :
    splitAtChar c (s ++ c :: rest) = some (s, rest) := by
  induction s with
  | nil => simp [splitAtChar]
  | cons d s ih =>
      have hd : d ≠ c := by
        rintro rfl
        exact h List.mem_cons_self
      have htail := ih (fun hc => h (List.mem_cons_of_mem _ hc))
      simp [splitAtChar, hd, htail]

/-- A run of characters without the delimiter is read into the token. -/
theorem tokensFrom_append {d : Char} {w : CStr} (hw : d ∉ w) (cur rest : CStr) :
    tokensFrom d cur (w ++ rest) = tokensFrom d (cur ++ w) rest := by
  induction w generalizing cur with
  | nil => simp
  | cons c w ih =>
      have hc : c ≠ d := by
        rintro rfl
        exact hw List.mem_cons_self
      rw [List.cons_append, tokensFrom, if_neg hc, ih (fun h => hw (List.mem_cons_of_mem _ h))]
      simp

/-- Joining words with the delimiter and splitting again gives the words. -/
theorem tokens_join {d : Char} {ts : List CStr} (hts : ∀ t ∈ ts, t ≠ [] ∧ d ∉ t) :
    tokens d (ts.intersperse [d]).flatten = ts := by
  unfold tokens
  induction ts with
  | nil => rfl
  | cons t ts ih =>
      obtain ⟨hne, hfree⟩ := hts t List.mem_cons_self
      cases ts with
      | nil =>
          have happ := tokensFrom_append hfree [] []
          simp only [List.append_nil, List.nil_append] at happ
          simp [happ, tokensFrom, hne]
      | cons t' ts =>
          have htail := ih (fun u hu => hts u (List.mem_cons_of_mem _ hu))
          have hflat : ((t :: t' :: ts).intersperse [d]).flatten =
              t ++ d :: ((t' :: ts).intersperse [d]).flatten := by
            simp
          rw [hflat, tokensFrom_append hfree, List.nil_append, tokensFrom, if_pos rfl, if_neg hne,
            htail]

/-- What `strtok` leaves in its buffer: the delimiter behind the first token has
become the end of the string. -/
def strtokRest (d : Char) (s : CStr) : CStr :=
  s.takeWhile (fun c => c = d) ++ (s.dropWhile (fun c => c = d)).takeWhile (fun c => c ≠ d)

/-- A token being read ends at the next delimiter. -/
theorem tokensFrom_take_one {d : Char} {cur : CStr} (hcur : cur ≠ []) (s : CStr) :
    (tokensFrom d cur s).take 1 = [cur ++ s.takeWhile (fun c => c ≠ d)] := by
  induction s generalizing cur with
  | nil => simp [tokensFrom, hcur]
  | cons c s ih =>
      rw [tokensFrom]
      by_cases hc : c = d
      · rw [if_pos hc, if_neg hcur]
        simp [hc]
      · rw [if_neg hc, ih (by simp)]
        simp [hc]

/-- The buffer holds the first token afterwards. -/
theorem tokens_strtokRest (d : Char) (s : CStr) :
    tokens d (strtokRest d s) = (tokens d s).take 1 := by
  unfold tokens
  induction s with
  | nil => rfl
  | cons c s ih =>
      by_cases hc : c = d
      · have hrest : strtokRest d (c :: s) = d :: strtokRest d s := by
          simp [strtokRest, hc]
        rw [hrest, tokensFrom, if_pos rfl, if_pos rfl, ih, hc, tokensFrom, if_pos rfl, if_pos rfl]
      · have hrest : strtokRest d (c :: s) = c :: s.takeWhile (fun c => c ≠ d) := by
          simp [strtokRest, hc]
        have hfree : d ∉ s.takeWhile (fun c => c ≠ d) := by
          intro hmem
          have hne := List.all_takeWhile (p := fun c => decide (c ≠ d)) (l := s)
          have h := List.all_eq_true.mp hne d hmem
          simp at h
        have hword := tokensFrom_append hfree [c] []
        rw [List.append_nil] at hword
        rw [hrest, tokensFrom, if_neg hc, tokensFrom, if_neg hc, List.nil_append, hword,
          tokensFrom_take_one (by simp), tokensFrom, if_neg (by simp)]

/-! ## Reading hexadecimal bytes -/

/-- A run of hex digits standing before this text ends where the text
starts. -/
def HexStop : CStr → Prop
  | [] => True
  | c :: _ => isHex c = false

/-- Two hex digits, of either case, for the byte `b`. -/
def HexByte (s : CStr) (b : UInt8) : Prop :=
  ∃ h l x y, s = [h, l] ∧ hexVal h = some x ∧ hexVal l = some y ∧ b = UInt8.ofNat (16 * x + y)

theorem ne_of_isHex {c : Char} (h : isHex c = true) {d : Char} (hd : isHex d = false) : c ≠ d := by
  rintro rfl
  rw [h] at hd
  exact Bool.false_ne_true hd.symm

theorem isHex_of_hexVal {c : Char} {x : Nat} (h : hexVal c = some x) : isHex c = true := by
  unfold isHex
  rw [h]
  rfl

theorem HexByte.isHex {s : CStr} {b : UInt8} (h : HexByte s b) : ∀ c ∈ s, isHex c = true := by
  obtain ⟨hi, lo, x, y, rfl, hx, hy, -⟩ := h
  intro c hc
  rcases List.mem_pair.mp hc with rfl | rfl
  · exact isHex_of_hexVal hx
  · exact isHex_of_hexVal hy

theorem HexByte.length {s : CStr} {b : UInt8} (h : HexByte s b) : s.length = 2 := by
  obtain ⟨hi, lo, x, y, rfl, -⟩ := h
  rfl

/-- `%hhx` and `%02x` on two hex digits read the byte, and stop there. -/
theorem scanHex_hexByte {s : CStr} {b : UInt8} (h : HexByte s b) :
    ∃ n, UInt8.ofNat n = b ∧ ∀ width, (width = none ∨ width = some 2) →
      ∀ rest, HexStop rest → scanHex width (s ++ rest) = some (n, rest) := by
  obtain ⟨hi, lo, x, y, rfl, hx, hy, rfl⟩ := h
  refine ⟨16 * x + y, rfl, ?_⟩
  intro width hwidth rest hrest
  have hhi := isHex_of_hexVal hx
  have hlo := isHex_of_hexVal hy
  have hskip : skipSpaces (hi :: lo :: rest) = hi :: lo :: rest := by
    have hspace : isSpace hi = false := by
      simp only [isSpace, Bool.or_eq_false_iff, decide_eq_false_iff_not]
      exact ⟨⟨⟨⟨⟨ne_of_isHex hhi (by decide), ne_of_isHex hhi (by decide)⟩,
        ne_of_isHex hhi (by decide)⟩, ne_of_isHex hhi (by decide)⟩,
        ne_of_isHex hhi (by decide)⟩, ne_of_isHex hhi (by decide)⟩
    simp [skipSpaces, hspace]
  have hdigits : (hi :: lo :: rest).takeWhile isHex = [hi, lo] := by
    cases rest with
    | nil => simp [hhi, hlo]
    | cons c rest =>
        have hc : isHex c = false := hrest
        simp [hhi, hlo, hc]
  show scanHex width (hi :: lo :: rest) = _
  unfold scanHex
  rw [hskip]
  simp only [hhi, Bool.not_true, Bool.false_eq_true, if_false]
  -- the second digit is no `x`, so there is no prefix to skip
  have hx' : lo ≠ 'x' := ne_of_isHex hlo (by decide)
  have hX' : lo ≠ 'X' := ne_of_isHex hlo (by decide)
  split
  · rename_i heq
    exact absurd (List.cons.inj heq).1 hx'
  · rename_i heq
    exact absurd (List.cons.inj heq).1 hX'
  · rcases hwidth with rfl | rfl
    · unfold hexPrefix
      rw [hdigits]
      simp [hx, hy]
    · unfold hexPrefix
      simp [hhi, hlo, hx, hy]

end OpenAppFilter.Base
