import OpenAppFilter.Kernel.CJson

/-!
# Reading JSON texts

`cJSON_Parse` on the texts of the grammar: whatever the spelling, the gaps and
the text behind it, the item of the value comes back and no character behind the
text's own end is looked at. Texts that break off are never taken for a value.
-/

namespace OpenAppFilter.Theorems

open Base Kernel Kernel.CJson

variable {signedChar : Bool}

/-! ## The item of a value -/

mutual
/-- The item of a value; `value` says what becomes of a number. -/
def itemWith (value : Int → Int32) : Json → CJson
  | .null => .mk .isNull none 0 none []
  | .bool b => if b then .mk .isTrue none 1 none [] else .mk .isFalse none 0 none []
  | .num n => .mk .number none (value n) none []
  | .str s => .mk .string (some s) 0 none []
  | .arr items => .mk .array none 0 none (itemsWith value items)
  | .obj fields => .mk .object none 0 none (membersWith value fields)
def itemsWith (value : Int → Int32) : List Json → List CJson
  | [] => []
  | v :: vs => itemWith value v :: itemsWith value vs
def membersWith (value : Int → Int32) : List (CStr × Json) → List CJson
  | [] => []
  | (k, v) :: fs => (itemWith value v).named k :: membersWith value fs
end

/-- The item `cJSON_Parse` builds for a value: numbers lose their sign and what
exceeds 32 bits. -/
def itemOf (v : Json) : CJson := itemWith (fun n => Int32.ofNat n.natAbs) v

theorem itemsWith_eq_map (value : Int → Int32) (vs : List Json) :
    itemsWith value vs = vs.map (itemWith value) := by
  induction vs with
  | nil => rfl
  | cons v vs ih => rw [itemsWith, ih, List.map_cons]

theorem membersWith_eq_map (value : Int → Int32) (fs : List (CStr × Json)) :
    membersWith value fs = fs.map (fun f => (itemWith value f.2).named f.1) := by
  induction fs with
  | nil => rfl
  | cons f fs ih => rw [membersWith, ih, List.map_cons]

/-- The bytes `char` holds as positive numbers. -/
def Readable (signedChar : Bool) (t : CStr) : Prop :=
  signedChar = true → ∀ c ∈ t, c.toNat < 0x80

theorem Readable.of_append {s t : CStr} (h : Readable signedChar (s ++ t)) :
    Readable signedChar s ∧ Readable signedChar t :=
  ⟨fun hs c hc => h hs c (List.mem_append_left t hc),
    fun hs c hc => h hs c (List.mem_append_right s hc)⟩

theorem Readable.of_cons {c : Char} {t : CStr} (h : Readable signedChar (c :: t)) :
    Readable signedChar t :=
  fun hs d hd => h hs d (List.mem_cons_of_mem c hd)

theorem atMost_of_readable {bound : Nat} {c : Char} {t : CStr}
    (h : Readable signedChar (c :: t)) (hc : bound < c.toNat) :
    atMost signedChar bound c = false := by
  unfold atMost
  cases signedChar with
  | false => simpa using hc
  | true =>
      have hlow := h rfl c List.mem_cons_self
      simp [hc, hlow]

theorem atMost_backslash : atMost signedChar 31 '\\' = false := by
  cases signedChar
  · rfl
  · rfl

/-! ## Gaps and numbers -/

theorem skip_blank {b t : CStr} (hb : Blank b) (ht : Visible t) :
    skip signedChar (b ++ t) = .ok t := by
  have hdrop : (b ++ t).dropWhile (atMost signedChar 32) = t := by
    induction b with
    | nil =>
        cases t with
        | nil => exact absurd ht id
        | cons c t =>
            obtain ⟨hlow, hhigh⟩ := ht
            have hstop : atMost signedChar 32 c = false := by
              simp [atMost, hlow, hhigh]
            simp [hstop]
    | cons c b ih =>
        have hc : atMost signedChar 32 c = true := by
          simp [atMost, toNat_of_isBlank (hb c List.mem_cons_self)]
        have htail := ih (fun d hd => hb d (List.mem_cons_of_mem c hd))
        simpa [hc] using htail
  unfold skip
  rw [hdrop]
  cases t with
  | nil => exact absurd ht id
  | cons c t => rfl

theorem readDigits_append {ds rest : CStr} (hds : ∀ c ∈ ds, c.isDigit = true)
    (hrest : DigitStop rest) (n : Nat) :
    readDigits (Int32.ofNat n) (ds ++ rest) = (Int32.ofNat (Nat.ofDigitChars 10 ds n), rest) := by
  induction ds generalizing n with
  | nil =>
      cases rest with
      | nil => simp [readDigits]
      | cons c rest =>
          have hc : c.isDigit = false := hrest
          simp [readDigits, hc]
  | cons d ds ih =>
      have hd : d.isDigit = true := hds d List.mem_cons_self
      have hstep : Int32.ofNat n * 10 + Int32.ofNat (d.toNat - '0'.toNat) =
          Int32.ofNat (10 * n + (d.toNat - '0'.toNat)) := by
        rw [Int32.ofNat_add, Int32.ofNat_mul, Int32.mul_comm]
        rfl
      rw [List.cons_append, readDigits, if_pos hd, hstep,
        ih (fun c hc => hds c (List.mem_cons_of_mem d hc)), Nat.ofDigitChars_cons]

/-- The digits of a positive number start with another digit than zero. -/
theorem toDigits_pos_head {n : Nat} (hn : 0 < n) :
    ∃ d ds, Nat.toDigits 10 n = d :: ds ∧ d ≠ '0' := by
  induction n using Nat.strongRecOn with
  | ind n ih =>
      by_cases hlt : n < 10
      · refine ⟨_, [], Nat.toDigits_of_lt_base hlt, ?_⟩
        have hdigit : ∀ m < 10, 0 < m → Nat.digitChar m ≠ '0' := by decide
        exact hdigit n hlt hn
      · obtain ⟨d, ds, hds, hd⟩ := ih (n / 10) (by omega) (by omega)
        refine ⟨d, ds ++ [Nat.digitChar (n % 10)], ?_, hd⟩
        rw [Nat.toDigits_of_base_le (by decide) (by omega), hds]
        rfl

theorem parseNumber_toDigits {n : Nat} {rest : CStr} (hrest : DigitStop rest) {s : CStr}
    (hs : stepOver '-' s = Nat.toDigits 10 n ++ rest) :
    parseNumber s = (.mk .number none (Int32.ofNat n) none [], rest) := by
  have hdig : ∀ c ∈ Nat.toDigits 10 n, c.isDigit = true :=
    fun c hc => Nat.isDigit_of_mem_toDigits (by decide) (by decide) hc
  have hread : readDigits 0 (Nat.toDigits 10 n ++ rest) = (Int32.ofNat n, rest) := by
    have h := readDigits_append hdig hrest 0
    rwa [Nat.ofDigitChars_ten_toDigits] at h
  unfold parseNumber
  dsimp only
  rw [hs]
  rcases Nat.eq_zero_or_pos n with rfl | hn
  · -- one zero is stepped over, and nothing is left to read
    have hnone : readDigits 0 rest = (0, rest) :=
      @readDigits_append [] rest (fun c hc => absurd hc List.not_mem_nil) hrest 0
    have hhead : rest.head? ≠ some '0' := by
      cases rest with
      | nil => simp
      | cons c rest =>
          intro h
          have hc : c = '0' := by simpa using h
          rw [hc] at hrest
          exact absurd hrest (by simp [DigitStop])
    have hstep : stepOver '0' (Nat.toDigits 10 0 ++ rest) = rest := rfl
    rw [hstep, if_neg hhead, hnone]
    rfl
  · obtain ⟨d, ds, hds, hd⟩ := toDigits_pos_head hn
    rw [hds, List.cons_append] at hread ⊢
    have hstep : stepOver '0' (d :: (ds ++ rest)) = d :: (ds ++ rest) := by
      rw [stepOver, if_neg hd]
    have hhead : (d :: (ds ++ rest)).head? ≠ some '0' := by
      simpa using hd
    rw [hstep, if_neg hhead, hread]

theorem parseNumber_numeral (n : Int) {rest : CStr} (hrest : DigitStop rest) :
    parseNumber (numeral n ++ rest) =
      (.mk .number none (Int32.ofNat n.natAbs) none [], rest) := by
  cases n with
  | ofNat m =>
      obtain ⟨d, ds, hds⟩ := List.exists_cons_of_ne_nil (Nat.toDigits_ne_nil (n := m) (b := 10))
      have hd : d.isDigit = true :=
        Nat.isDigit_of_mem_toDigits (b := 10) (n := m) (by decide) (by decide)
          (by rw [hds]; exact List.mem_cons_self)
      apply parseNumber_toDigits hrest
      show stepOver '-' (Nat.toDigits 10 m ++ rest) = Nat.toDigits 10 m ++ rest
      rw [hds, List.cons_append, stepOver, if_neg (isSpace_of_isDigit hd).2.1]
  | negSucc m => exact parseNumber_toDigits hrest rfl

/-! ## Strings -/

/-- `%4x` on four digits. -/
theorem scanHex_fourHex {d : CStr} {n : Nat} (hd : FourHex d n) (rest : CStr) :
    ∃ r, scanHex (some 4) (d ++ rest) = some (n, r) := by
  obtain ⟨a, b, c, e, w, x, y, z, rfl, ha, hb, hc, he, rfl⟩ := hd
  have hspace : isSpace a = false := by
    have hne := fun d hd => ne_of_isHex (isHex_of_hexVal ha) (d := d) hd
    simp only [isSpace, Bool.or_eq_false_iff, decide_eq_false_iff_not]
    exact ⟨⟨⟨⟨⟨hne ' ' (by decide), hne '\t' (by decide)⟩, hne '\n' (by decide)⟩,
      hne '\x0b' (by decide)⟩, hne '\x0c' (by decide)⟩, hne '\r' (by decide)⟩
  have hskip : skipSpaces ([a, b, c, e] ++ rest) = a :: b :: c :: e :: rest := by
    simp [skipSpaces, hspace]
  have hvalue : hexPrefix [a, b, c, e] = 16 * (16 * (16 * w + x) + y) + z := by
    unfold hexPrefix
    simp [isHex_of_hexVal ha, isHex_of_hexVal hb, isHex_of_hexVal hc, isHex_of_hexVal he, ha, hb,
      hc, he]
  have hx : b ≠ 'x' := ne_of_isHex (isHex_of_hexVal hb) (by decide)
  have hX : b ≠ 'X' := ne_of_isHex (isHex_of_hexVal hb) (by decide)
  unfold scanHex
  rw [hskip]
  simp only [isHex_of_hexVal ha, Bool.not_true, Bool.false_eq_true, if_false]
  split
  · rename_i heq
    exact absurd (List.cons.inj heq).1 hx
  · rename_i heq
    exact absurd (List.cons.inj heq).1 hX
  · refine ⟨_, congrArg some (Prod.ext ?_ rfl)⟩
    simpa using hvalue

/-- The bit operations of `parse_string` spell the code unit in UTF-8. -/
theorem transcode_eq_utf8 {n : Nat} (hn : n < 65536) : transcode n = utf8 n := by
  have hbyte : ∀ r < 256, (r ||| 0x80) &&& 0xBF = 0x80 + r % 64 := by decide +kernel
  have hlow : ∀ m, ((m ||| 0x80) &&& 0xBF) % 256 = 0x80 + m % 64 := by
    intro m
    have hmod : ((m ||| 0x80) &&& 0xBF) % 2 ^ 8 = (m % 2 ^ 8 ||| 0x80) &&& 0xBF := by
      rw [Nat.and_mod_two_pow, Nat.or_mod_two_pow]
    have h := hbyte (m % 256) (Nat.mod_lt m (by decide))
    have hmm : m % 256 % 64 = m % 64 := Nat.mod_mod_of_dvd m (by decide)
    rw [hmm] at h
    exact hmod.trans h
  have hone : ∀ m < 0x80, (m ||| 0x00) % 256 = m := by decide
  have htwo : ∀ m < 32, (m ||| 0xC0) % 256 = 0xC0 + m := by decide
  have hthree : ∀ m < 16, (m ||| 0xE0) % 256 = 0xE0 + m := by decide
  have hshift : ∀ m, m >>> 6 = m / 64 := fun m => Nat.shiftRight_eq_div_pow m 6
  unfold transcode utf8
  dsimp only
  by_cases h1 : n < 0x80
  · simp only [h1, if_true]
    rw [show firstByteMark.getD 1 0 = 0x00 from rfl, hone n h1]
  · by_cases h2 : n < 0x800
    · simp only [h1, h2, if_true, if_false, Nat.reduceEqDiff]
      rw [show firstByteMark.getD 2 0 = 0xC0 from rfl, hshift, hlow, htwo _ (by omega)]
    · simp only [h1, h2, if_false, Nat.reduceEqDiff]
      rw [show firstByteMark.getD 3 0 = 0xE0 from rfl]
      simp only [hshift]
      rw [hlow, hlow, hthree _ (by omega), Nat.div_div_eq_div_mul]

/-- A backslash escape that is no `\u`. -/
theorem unescape_escape {e c : Char} (h : (e, c) ∈ escapes) :
    unescape e = c ∧ e ≠ 'u' := by
  unfold escapes at h
  simp only [List.mem_cons, Prod.mk.injEq, List.not_mem_nil, or_false] at h
  rcases h with h | h | h | h | h | h | h | h
  all_goals
    obtain ⟨rfl, rfl⟩ := h
    decide

theorem stringCopy_plain {c : Char} {s : CStr} (hquote : c ≠ '"') (hback : c ≠ '\\')
    (hctrl : atMost signedChar 31 c = false) :
    stringCopy signedChar (c :: s) =
      (stringCopy signedChar s).map (fun r => (c :: r.1, r.2)) := by
  rw [stringCopy.eq_def]
  simp [hquote, hback, hctrl]

theorem stringCopy_escape {e : Char} (hu : e ≠ 'u') (s : CStr) :
    stringCopy signedChar ('\\' :: e :: s) =
      (stringCopy signedChar s).map (fun r => (unescape e :: r.1, r.2)) := by
  rw [stringCopy.eq_def]
  simp [atMost_backslash, hu]

theorem stringCopy_unit {d : CStr} {n : Nat} (hd : FourHex d n) (s : CStr) :
    stringCopy signedChar ('\\' :: 'u' :: (d ++ s)) =
      (stringCopy signedChar s).map (fun r => (utf8 n ++ r.1, r.2)) := by
  have hscan := scanHex_fourHex hd s
  have hcode := transcode_eq_utf8 (fourHex_lt hd)
  obtain ⟨x, y, z, w, -, -, -, -, rfl, -⟩ := hd
  obtain ⟨r, hr⟩ := hscan
  rw [stringCopy.eq_def]
  simp only [List.cons_append, List.nil_append] at hr ⊢
  simp [atMost_backslash, hr, hcode]

/-- The second loop stores the string and stops behind the quote. -/
theorem stringCopy_quoted {s u : CStr} (h : Quoted s u) (hread : Readable signedChar u)
    (rest : CStr) : stringCopy signedChar (u ++ '"' :: rest) = some (s, rest) := by
  induction h with
  | nil =>
      rw [List.nil_append, stringCopy.eq_def]
      simp
  | plain hc hquote hback h ih =>
      rw [List.cons_append, stringCopy_plain hquote hback (atMost_of_readable hread hc),
        ih hread.of_cons]
      rfl
  | escape he h ih =>
      obtain ⟨hval, hu⟩ := unescape_escape he
      rw [List.cons_append, List.cons_append, stringCopy_escape hu, ih hread.of_cons.of_cons, hval]
      rfl
  | unit hd hn h ih =>
      rw [List.cons_append, List.cons_append, List.append_assoc, stringCopy_unit hd,
        ih hread.of_cons.of_cons.of_append.2]
      rfl

/-- The first loop counts enough room for what the second one stores. -/
theorem stringLen_quoted {s u : CStr} (h : Quoted s u) (hread : Readable signedChar u)
    (rest : CStr) : ∃ len, stringLen signedChar (u ++ '"' :: rest) = some len ∧ s.length ≤ len := by
  have hplain : ∀ {c : Char} {t : CStr} {len : Nat}, c ≠ '"' → c ≠ '\\' →
      atMost signedChar 31 c = false → stringLen signedChar t = some len →
      stringLen signedChar (c :: t) = some (len + 1) := by
    intro c t len hquote hback hctrl h
    rw [stringLen.eq_def]
    simp [hquote, hback, hctrl, h]
  have hescape : ∀ {c : Char} {t : CStr} {len : Nat}, stringLen signedChar t = some len →
      stringLen signedChar ('\\' :: c :: t) = some (len + 1) := by
    intro c t len h
    rw [stringLen.eq_def]
    simp [atMost_backslash, h]
  have hhex : ∀ {c : Char} {x : Nat}, hexVal c = some x →
      c ≠ '"' ∧ c ≠ '\\' ∧ atMost signedChar 31 c = false := by
    intro c x h
    have hne := fun d hd => ne_of_isHex (isHex_of_hexVal h) (d := d) hd
    have hrange := toNat_of_hexVal h
    refine ⟨hne '"' (by decide), hne '\\' (by decide), ?_⟩
    simp [atMost, show 31 < c.toNat by omega, show c.toNat < 128 by omega]
  induction h with
  | nil =>
      refine ⟨0, ?_, Nat.le_refl 0⟩
      rw [List.nil_append, stringLen.eq_def]
      simp
  | @plain c s t hc hquote hback h ih =>
      obtain ⟨len, hlen, hle⟩ := ih hread.of_cons
      refine ⟨len + 1, hplain hquote hback (atMost_of_readable hread hc) hlen, ?_⟩
      rw [List.length_cons]
      omega
  | @escape e c s t he h ih =>
      obtain ⟨len, hlen, hle⟩ := ih hread.of_cons.of_cons
      refine ⟨len + 1, hescape hlen, ?_⟩
      rw [List.length_cons]
      omega
  | @unit d n s t hd hn h ih =>
      obtain ⟨len, hlen, hle⟩ := ih hread.of_cons.of_cons.of_append.2
      obtain ⟨x, y, z, w, _, _, _, _, rfl, hx, hy, hz, hw, -⟩ := hd
      have hw' := hplain (hhex hw).1 (hhex hw).2.1 (hhex hw).2.2 hlen
      have hz' := hplain (hhex hz).1 (hhex hz).2.1 (hhex hz).2.2 hw'
      have hy' := hplain (hhex hy).1 (hhex hy).2.1 (hhex hy).2.2 hz'
      have hx' := hplain (hhex hx).1 (hhex hx).2.1 (hhex hx).2.2 hy'
      refine ⟨len + 5, hescape hx', ?_⟩
      have hshort := utf8_length n
      rw [List.length_append]
      omega

/-- `parse_string` on a string, whatever stands behind it. -/
theorem parseString_isString {s t : CStr} (h : IsString s t) (hread : Readable signedChar t)
    (rest : CStr) : parseString signedChar (t ++ rest) = .ok (s, rest) := by
  obtain ⟨u, hu, rfl⟩ := h
  have hbody := hread.of_cons.of_append.1
  obtain ⟨len, hlen, hle⟩ := stringLen_quoted hu hbody rest
  have hcopy := stringCopy_quoted hu hbody rest
  have htext : '"' :: (u ++ ['"']) ++ rest = '"' :: (u ++ '"' :: rest) := by simp
  rw [htext, parseString, hlen, hcopy]
  simp only [hle, if_true]
  rw [cString_of_no_nul hu.no_nul]

/-! ## Values -/

/-- Which branch of `parse_value` a first character takes. -/
theorem parseValue_cons {fuel : Nat} {c : Char} {s : CStr} (hn : c ≠ 'n') (hf : c ≠ 'f')
    (ht : c ≠ 't') :
    parseValue signedChar (fuel + 1) (c :: s) =
      if c = '"' then
        (parseString signedChar (c :: s)).map (fun v => (.mk .string (some v.1) 0 none [], v.2))
      else if c = '-' ∨ c.isDigit then .ok (parseNumber (c :: s))
      else if c = '[' then parseArray signedChar fuel s
      else if c = '\x7b' then parseObject signedChar fuel s
      else .error .fail := by
  have hnull : "null".toList.isPrefixOf (c :: s) = false := by
    simp [List.isPrefixOf, Ne.symm hn]
  have hfalse : "false".toList.isPrefixOf (c :: s) = false := by
    simp [List.isPrefixOf, Ne.symm hf]
  have htrue : "true".toList.isPrefixOf (c :: s) = false := by
    simp [List.isPrefixOf, Ne.symm ht]
  rw [parseValue, hnull, hfalse, htrue]
  rfl

theorem numeral_head {n : Int} {c : Char} {s : CStr} (h : numeral n = c :: s) :
    c = '-' ∨ c.isDigit = true := by
  cases n with
  | ofNat m =>
      right
      refine Nat.isDigit_of_mem_toDigits (b := 10) (n := m) (by decide) (by decide) ?_
      rw [show Nat.toDigits 10 m = c :: s from h]
      exact List.mem_cons_self
  | negSucc m => exact Or.inl (List.cons.inj h).1.symm

theorem parseValue_numeral_head {fuel : Nat} {c : Char} {s : CStr}
    (hc : c = '-' ∨ c.isDigit = true) :
    parseValue signedChar (fuel + 1) (c :: s) = .ok (parseNumber (c :: s)) := by
  have hne : ∀ d : Char, d ≠ '-' → d.isDigit = false → c ≠ d := by
    rintro d hminus hd rfl
    rcases hc with hc | hc
    · exact hminus hc
    · rw [hd] at hc
      exact Bool.false_ne_true hc
  rw [parseValue_cons (hne 'n' (by decide) (by decide)) (hne 'f' (by decide) (by decide))
    (hne 't' (by decide) (by decide)), if_neg (hne '"' (by decide) (by decide)), if_pos hc]

theorem parseValue_numeral {fuel : Nat} {n : Int} {rest : CStr} (hrest : DigitStop rest) :
    parseValue signedChar (fuel + 1) (numeral n ++ rest) = .ok (itemOf (.num n), rest) := by
  have hnumber := parseNumber_numeral n hrest
  obtain ⟨c, s, hs⟩ := List.exists_cons_of_ne_nil (numeral_visible n).ne_nil
  rw [hs, List.cons_append] at hnumber ⊢
  rw [parseValue_numeral_head (numeral_head hs), hnumber]
  rfl

theorem padded_text {α : Type} {parse : CStr → Except Stop (α × CStr)} {a t b s : CStr} {x : α}
    (ha : Blank a) (ht : Visible t) (hb : Blank b) (hs : Visible s)
    (hparse : parse (t ++ (b ++ s)) = .ok (x, b ++ s)) :
    padded signedChar parse (a ++ (t ++ (b ++ s))) = .ok (x, s) := by
  unfold padded
  rw [skip_blank ha (ht.append _)]
  simp only [bind, Except.bind]
  rw [hparse]
  simp only
  rw [skip_blank hb hs]

/-- `parse_array` on items; the gap before the first one is skipped. -/
theorem parseArray_items {fuel : Nat} {a : CStr} {d : Char} {s : CStr} (ha : Blank a)
    (hvis : Visible (d :: s)) (hd : d ≠ ']') :
    parseArray signedChar (fuel + 1) (a ++ d :: s) =
      (parseItems signedChar fuel (d :: s)).map (fun q => (.mk .array none 0 none q.1, q.2)) := by
  have hhead : (d :: s).head? ≠ some ']' := by simpa using hd
  rw [parseArray, skip_blank ha hvis]
  simp only [bind, Except.bind]
  rw [if_neg hhead]

theorem parseObject_members {fuel : Nat} {a : CStr} {d : Char} {s : CStr} (ha : Blank a)
    (hvis : Visible (d :: s)) (hd : d ≠ '\x7d') :
    parseObject signedChar (fuel + 1) (a ++ d :: s) =
      (parseMembers signedChar fuel (d :: s)).map (fun q => (.mk .object none 0 none q.1, q.2)) := by
  have hhead : (d :: s).head? ≠ some '\x7d' := by simpa using hd
  rw [parseObject, skip_blank ha hvis]
  simp only [bind, Except.bind]
  rw [if_neg hhead]

mutual
theorem parseValue_text : ∀ (v : Json) (t rest : CStr) (fuel : Nat), IsText Blank v t →
    Readable signedChar t → (v.isContainer = true ∨ DigitStop rest) → 3 * t.length < fuel →
    parseValue signedChar fuel (t ++ rest) = .ok (itemOf v, rest)
  | _, _, _, 0, _, _, _, hfuel => absurd hfuel (Nat.not_lt_zero _)
  | .null, t, rest, fuel + 1, h, _, _, _ => by
      rw [IsText] at h
      subst h
      show parseValue signedChar (fuel + 1) ('n' :: 'u' :: 'l' :: 'l' :: rest) = _
      rw [parseValue]
      rfl
  | .bool b, t, rest, fuel + 1, h, _, _, _ => by
      rw [IsText] at h
      subst h
      cases b
      · show parseValue signedChar (fuel + 1) ('f' :: 'a' :: 'l' :: 's' :: 'e' :: rest) = _
        rw [parseValue]
        rfl
      · show parseValue signedChar (fuel + 1) ('t' :: 'r' :: 'u' :: 'e' :: rest) = _
        rw [parseValue]
        rfl
  | .num n, t, rest, fuel + 1, h, _, hstop, _ => by
      rw [IsText] at h
      subst h
      have hrest : DigitStop rest := by
        rcases hstop with hstop | hstop
        · exact absurd hstop Bool.false_ne_true
        · exact hstop
      exact parseValue_numeral hrest
  | .str s, t, rest, fuel + 1, h, hread, _, _ => by
      rw [IsText] at h
      have hstring := parseString_isString h hread rest
      obtain ⟨u, -, rfl⟩ := h
      rw [List.cons_append] at hstring ⊢
      rw [parseValue_cons (by decide) (by decide) (by decide), hstring]
      rfl
  | .arr items, t, rest, fuel + 1, h, hread, _, hfuel => by
      rw [IsText] at h
      obtain ⟨u, rfl, h⟩ := h
      have htext : '[' :: (u ++ [']']) ++ rest = '[' :: (u ++ ']' :: rest) := by simp
      simp only [List.length_cons, List.length_append, List.length_nil] at hfuel
      obtain ⟨fuel, rfl⟩ : ∃ f, fuel = f + 1 := ⟨fuel - 1, by omega⟩
      rw [htext, parseValue_cons (by decide) (by decide) (by decide)]
      show parseArray signedChar (fuel + 1) (u ++ ']' :: rest) = _
      rcases h with ⟨rfl, hu⟩ | ⟨hne, hitems⟩
      · rw [parseArray, skip_blank hu (visible_cons (by decide) rest)]
        rfl
      · obtain ⟨a, s, rfl, ha, hs, hvis, hopen⟩ := hitems.trim hne
        have hread' := hread.of_cons.of_append.1.of_append.2
        rw [List.length_append] at hfuel
        have hparse := parseItems_text items s rest fuel hne hs hread' (by omega)
        obtain ⟨c, s, rfl⟩ := List.exists_cons_of_ne_nil hvis.ne_nil
        have hc : c ≠ ']' := by simpa using hopen
        have hvis' := visible_cons hvis (s ++ ']' :: rest)
        rw [List.append_assoc, List.cons_append, parseArray_items ha hvis' hc, ← List.cons_append, hparse]
        rfl
  | .obj fields, t, rest, fuel + 1, h, hread, _, hfuel => by
      rw [IsText] at h
      obtain ⟨u, rfl, h⟩ := h
      have htext : '\x7b' :: (u ++ ['\x7d']) ++ rest = '\x7b' :: (u ++ '\x7d' :: rest) := by simp
      simp only [List.length_cons, List.length_append, List.length_nil] at hfuel
      obtain ⟨fuel, rfl⟩ : ∃ f, fuel = f + 1 := ⟨fuel - 1, by omega⟩
      rw [htext, parseValue_cons (by decide) (by decide) (by decide)]
      show parseObject signedChar (fuel + 1) (u ++ '\x7d' :: rest) = _
      rcases h with ⟨rfl, hu⟩ | ⟨hne, hmembers⟩
      · rw [parseObject, skip_blank hu (visible_cons (by decide) rest)]
        rfl
      · obtain ⟨a, s, rfl, ha, hs, hvis, hopen⟩ := hmembers.trim hne
        have hread' := hread.of_cons.of_append.1.of_append.2
        rw [List.length_append] at hfuel
        have hparse := parseMembers_text fields s rest fuel hne hs hread' (by omega)
        obtain ⟨c, s, rfl⟩ := List.exists_cons_of_ne_nil hvis.ne_nil
        have hc : c ≠ '\x7d' := by simpa using hopen
        have hvis' := visible_cons hvis (s ++ '\x7d' :: rest)
        rw [List.append_assoc, List.cons_append, parseObject_members ha hvis' hc, ← List.cons_append, hparse]
        rfl
theorem parseItems_text : ∀ (vs : List Json) (u rest : CStr) (fuel : Nat), vs ≠ [] →
    IsItems Blank vs (',' :: u) → Readable signedChar u → 3 * u.length + 1 < fuel →
    parseItems signedChar fuel (u ++ ']' :: rest) = .ok (itemsWith (fun n => Int32.ofNat n.natAbs) vs, rest)
  | _, _, _, 0, _, _, _, hfuel => absurd hfuel (Nat.not_lt_zero _)
  | [], _, _, _, hne, _, _, _ => absurd rfl hne
  | v :: vs, u, rest, fuel + 1, _, h, hread, hfuel => by
      rw [IsItems] at h
      obtain ⟨a, t, b, r, heq, ha, ht, hb, hr⟩ := h
      obtain rfl := (List.cons.inj heq).2
      simp only [List.length_append] at hfuel
      have hread' := hread.of_append.2
      have htail : Visible (r ++ ']' :: rest) ∧ DigitStop (r ++ ']' :: rest) := by
        rcases hr.cases with ⟨-, rfl⟩ | ⟨-, u, rfl⟩
        · exact ⟨visible_cons (by decide) _, rfl⟩
        · exact ⟨visible_cons (by decide) _, rfl⟩
      have hitem := parseValue_text v t (b ++ (r ++ ']' :: rest)) fuel ht hread'.of_append.1
        (Or.inr (digitStop_of_isBlank hb htail.2)) (by omega)
      rw [parseItems]
      simp only [List.append_assoc]
      rw [padded_text ha ht.visible hb htail.1 hitem]
      rcases hr.cases with ⟨rfl, rfl⟩ | ⟨hne, u, rfl⟩
      · rfl
      · rw [List.length_cons] at hfuel
        have hrest := parseItems_text vs u rest fuel hne hr
          hread'.of_append.2.of_append.2.of_cons (by omega)
        show (parseItems signedChar fuel (u ++ ']' :: rest)).map _ = _
        rw [hrest]
        rfl
theorem parseMembers_text : ∀ (fs : List (CStr × Json)) (u rest : CStr) (fuel : Nat), fs ≠ [] →
    IsMembers Blank fs (',' :: u) → Readable signedChar u → 3 * u.length + 1 < fuel →
    parseMembers signedChar fuel (u ++ '\x7d' :: rest) = .ok (membersWith (fun n => Int32.ofNat n.natAbs) fs, rest)
  | _, _, _, 0, _, _, _, hfuel => absurd hfuel (Nat.not_lt_zero _)
  | [], _, _, _, hne, _, _, _ => absurd rfl hne
  | (k, v) :: fs, u, rest, fuel + 1, _, h, hread, hfuel => by
      rw [IsMembers] at h
      obtain ⟨a, n, b, c, t, d, r, heq, ha, hn, hb, hc, ht, hd, hr⟩ := h
      obtain rfl := (List.cons.inj heq).2
      simp only [List.length_append, List.length_cons] at hfuel
      have hread' := hread.of_append.2
      have hread'' := hread'.of_append.2.of_append.2.of_cons.of_append.2
      have htail : Visible (r ++ '\x7d' :: rest) ∧ DigitStop (r ++ '\x7d' :: rest) := by
        rcases hr.cases with ⟨-, rfl⟩ | ⟨-, u, rfl⟩
        · exact ⟨visible_cons (by decide) _, rfl⟩
        · exact ⟨visible_cons (by decide) _, rfl⟩
      have hcolon : Visible (':' :: (c ++ (t ++ (d ++ (r ++ '\x7d' :: rest))))) :=
        visible_cons (by decide) _
      have hname := parseString_isString hn hread'.of_append.1
        (b ++ ':' :: (c ++ (t ++ (d ++ (r ++ '\x7d' :: rest)))))
      have hitem := parseValue_text v t (d ++ (r ++ '\x7d' :: rest)) fuel ht hread''.of_append.1
        (Or.inr (digitStop_of_isBlank hd htail.2)) (by omega)
      rw [parseMembers]
      simp only [List.append_assoc, List.cons_append]
      rw [padded_text ha hn.visible hb hcolon hname]
      simp only [bind, Except.bind]
      rw [padded_text hc ht.visible hd htail.1 hitem]
      rcases hr.cases with ⟨rfl, rfl⟩ | ⟨hne, u, rfl⟩
      · rfl
      · rw [List.length_cons] at hfuel
        have hrest := parseMembers_text fs u rest fuel hne hr
          hread''.of_append.2.of_append.2.of_cons (by omega)
        show (parseMembers signedChar fuel (u ++ '\x7d' :: rest)).map _ = _
        rw [hrest]
        rfl
end

/-- `cJSON_Parse` reads an array or an object and looks at nothing behind it. -/
theorem cJsonParse_text {v : Json} {b t : CStr} (hb : Blank b) (h : IsText Blank v t)
    (hv : v.isContainer = true) (hread : Readable signedChar t) (rest : CStr) :
    cJsonParse signedChar (b ++ (t ++ rest)) = .ok (itemOf v) := by
  have hparse := parseValue_text v t rest (3 * (t ++ rest).length + 3) h hread (Or.inl hv)
    (by rw [List.length_append]; omega)
  unfold cJsonParse
  rw [skip_blank hb (h.visible.append rest)]
  simp only [bind, Except.bind]
  rw [hparse]

end OpenAppFilter.Theorems
