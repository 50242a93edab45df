import OpenAppFilter.Base.CText

/-!
# JSON texts

The values of JSON whose numbers are integers, and the texts that spell them.
Strings are the bytes of the text. `IsText pad v t` says that `t` spells `v` with
gaps `pad` allows between the tokens: `Blank` gives the JSON texts, `NoGap` the
compact ones. An item of an array, or a member of an object, is spelled together
with the comma before it; the first one is read behind a comma that the opening
bracket takes the place of.
-/

namespace OpenAppFilter.Base

inductive Json where
  | null
  | bool (b : Bool)
  | num (n : Int)
  | str (s : CStr)
  | arr (items : List Json)
  | obj (fields : List (CStr × Json))

/-! ## The grammar -/

/-- The white space of JSON. -/
def isBlank (c : Char) : Bool := c = ' ' || c = '\t' || c = '\n' || c = '\r'

def Blank (t : CStr) : Prop := ∀ c ∈ t, isBlank c = true

def NoGap (t : CStr) : Prop := t = []

/-- An integer without leading zeros. -/
def numeral : Int → CStr
  | .ofNat n => Nat.toDigits 10 n
  | .negSucc n => '-' :: Nat.toDigits 10 (n + 1)

/-- The letters behind a backslash and what they stand for, `u` apart. -/
def escapes : List (Char × Char) :=
  [('"', '"'), ('\\', '\\'), ('/', '/'), ('b', '\x08'), ('f', '\x0c'), ('n', '\n'), ('r', '\r'),
    ('t', '\t')]

/-- Four hexadecimal digits and their value. -/
def FourHex (d : CStr) (n : Nat) : Prop :=
  ∃ a b c e w x y z, d = [a, b, c, e] ∧ hexVal a = some w ∧ hexVal b = some x ∧
    hexVal c = some y ∧ hexVal e = some z ∧ n = 16 * (16 * (16 * w + x) + y) + z

/-- The bytes of a code unit of at most 16 bits. -/
def utf8 (n : Nat) : CStr :=
  if n < 0x80 then [Char.ofNat n]
  else if n < 0x800 then [Char.ofNat (0xC0 + n / 64), Char.ofNat (0x80 + n % 64)]
  else [Char.ofNat (0xE0 + n / 4096), Char.ofNat (0x80 + n / 64 % 64), Char.ofNat (0x80 + n % 64)]

/-- The text between the quotes of a string. A string holds no NUL. -/
inductive Quoted : CStr → CStr → Prop where
  | nil : Quoted [] []
  | plain {c : Char} {s t : CStr} (hc : 31 < c.toNat) (hquote : c ≠ '"') (hback : c ≠ '\\')
      (h : Quoted s t) : Quoted (c :: s) (c :: t)
  | escape {e c : Char} {s t : CStr} (he : (e, c) ∈ escapes) (h : Quoted s t) :
      Quoted (c :: s) ('\\' :: e :: t)
  | unit {d : CStr} {n : Nat} {s t : CStr} (hd : FourHex d n) (hn : 0 < n) (h : Quoted s t) :
      Quoted (utf8 n ++ s) ('\\' :: 'u' :: (d ++ t))

/-- A string with its quotes. -/
def IsString (s t : CStr) : Prop := ∃ u, Quoted s u ∧ t = '"' :: (u ++ ['"'])

mutual
/-- `t` spells the value, with the gaps of `pad`. -/
def IsText (pad : CStr → Prop) : Json → CStr → Prop
  | .null, t => t = "null".toList
  | .bool b, t => t = if b then "true".toList else "false".toList
  | .num n, t => t = numeral n
  | .str s, t => IsString s t
  | .arr items, t =>
      ∃ u, t = '[' :: (u ++ [']']) ∧
        ((items = [] ∧ pad u) ∨ (items ≠ [] ∧ IsItems pad items (',' :: u)))
  | .obj fields, t =>
      ∃ u, t = '\x7b' :: (u ++ ['\x7d']) ∧
        ((fields = [] ∧ pad u) ∨ (fields ≠ [] ∧ IsMembers pad fields (',' :: u)))
/-- Items, each behind a comma. -/
def IsItems (pad : CStr → Prop) : List Json → CStr → Prop
  | [], t => t = []
  | v :: vs, t =>
      ∃ a u b r, t = ',' :: (a ++ (u ++ (b ++ r))) ∧ pad a ∧ IsText pad v u ∧ pad b ∧
        IsItems pad vs r
/-- Members, each behind a comma. -/
def IsMembers (pad : CStr → Prop) : List (CStr × Json) → CStr → Prop
  | [], t => t = []
  | (k, v) :: fs, t =>
      ∃ a n b c u d r, t = ',' :: (a ++ (n ++ (b ++ ':' :: (c ++ (u ++ (d ++ r)))))) ∧ pad a ∧
        IsString k n ∧ pad b ∧ pad c ∧ IsText pad v u ∧ pad d ∧ IsMembers pad fs r
end

mutual
/-- All strings and names satisfy `onStr`, all numbers `onNum`. -/
def Json.Every (onStr : CStr → Prop) (onNum : Int → Prop) : Json → Prop
  | .null => True
  | .bool _ => True
  | .num n => onNum n
  | .str s => onStr s
  | .arr items => Json.EveryItem onStr onNum items
  | .obj fields => Json.EveryMember onStr onNum fields
def Json.EveryItem (onStr : CStr → Prop) (onNum : Int → Prop) : List Json → Prop
  | [] => True
  | v :: vs => Json.Every onStr onNum v ∧ Json.EveryItem onStr onNum vs
def Json.EveryMember (onStr : CStr → Prop) (onNum : Int → Prop) : List (CStr × Json) → Prop
  | [] => True
  | (k, v) :: fs => onStr k ∧ Json.Every onStr onNum v ∧ Json.EveryMember onStr onNum fs
end

/-- Arrays and objects: the values whose last character shows that they end. -/
def Json.isContainer : Json → Bool
  | .arr _ => true
  | .obj _ => true
  | _ => false

mutual
/-- How many arrays and objects lie in one another. -/
def Json.nesting : Json → Nat
  | .arr items => Json.nestingItems items + 1
  | .obj fields => Json.nestingMembers fields + 1
  | _ => 0
def Json.nestingItems : List Json → Nat
  | [] => 0
  | v :: vs => max v.nesting (Json.nestingItems vs)
def Json.nestingMembers : List (CStr × Json) → Nat
  | [] => 0
  | (_, v) :: fs => max v.nesting (Json.nestingMembers fs)
end

/-! ## Gaps -/

theorem blank_nil : Blank [] := by
  intro c hc
  exact absurd hc List.not_mem_nil

theorem blank_append {s t : CStr} (hs : Blank s) (ht : Blank t) : Blank (s ++ t) := by
  intro c hc
  rcases List.mem_append.mp hc with h | h
  · exact hs c h
  · exact ht c h

theorem noGap_nil : NoGap [] := rfl

/-- White space lies below the printable characters. -/
theorem toNat_of_isBlank {c : Char} (h : isBlank c = true) : c.toNat ≤ 32 := by
  simp only [isBlank, Bool.or_eq_true, decide_eq_true_eq] at h
  rcases h with ((rfl | rfl) | rfl) | rfl
  all_goals decide

section Mono

variable {p q : CStr → Prop} (hpq : ∀ t, p t → q t)
include hpq

mutual
/-- A text with fewer gaps is a text. -/
theorem IsText.mono : ∀ (v : Json) (t : CStr), IsText p v t → IsText q v t
  | .null, _, h => by
      rw [IsText] at h ⊢
      exact h
  | .bool _, _, h => by
      rw [IsText] at h ⊢
      exact h
  | .num _, _, h => by
      rw [IsText] at h ⊢
      exact h
  | .str _, _, h => by
      rw [IsText] at h ⊢
      exact h
  | .arr items, t, h => by
      rw [IsText] at h ⊢
      obtain ⟨u, ht, h⟩ := h
      refine ⟨u, ht, h.imp (fun h => ⟨h.1, hpq u h.2⟩) (fun h => ⟨h.1, ?_⟩)⟩
      exact IsItems.mono items (',' :: u) h.2
  | .obj fields, t, h => by
      rw [IsText] at h ⊢
      obtain ⟨u, ht, h⟩ := h
      refine ⟨u, ht, h.imp (fun h => ⟨h.1, hpq u h.2⟩) (fun h => ⟨h.1, ?_⟩)⟩
      exact IsMembers.mono fields (',' :: u) h.2
theorem IsItems.mono : ∀ (vs : List Json) (t : CStr), IsItems p vs t → IsItems q vs t
  | [], _, h => by
      rw [IsItems] at h ⊢
      exact h
  | v :: vs, t, h => by
      rw [IsItems] at h ⊢
      obtain ⟨a, u, b, r, ht, ha, hu, hb, hr⟩ := h
      exact ⟨a, u, b, r, ht, hpq a ha, IsText.mono v u hu, hpq b hb, IsItems.mono vs r hr⟩
theorem IsMembers.mono : ∀ (fs : List (CStr × Json)) (t : CStr), IsMembers p fs t → IsMembers q fs t
  | [], _, h => by
      rw [IsMembers] at h ⊢
      exact h
  | (k, v) :: fs, t, h => by
      rw [IsMembers] at h ⊢
      obtain ⟨a, n, b, c, u, d, r, ht, ha, hn, hb, hc, hu, hd, hr⟩ := h
      exact ⟨a, n, b, c, u, d, r, ht, hpq a ha, hn, hpq b hb, hpq c hc, IsText.mono v u hu,
        hpq d hd, IsMembers.mono fs r hr⟩
end

end Mono

/-- The compact texts are JSON texts. -/
theorem IsText.of_noGap {v : Json} {t : CStr} (h : IsText NoGap v t) : IsText Blank v t := by
  refine IsText.mono (p := NoGap) ?_ v t h
  rintro t rfl
  exact blank_nil

/-! ## How texts begin -/

/-- The first character of a value, of an item or of a closing bracket is visible. -/
def Visible : CStr → Prop
  | [] => False
  | c :: _ => 32 < c.toNat ∧ c.toNat < 128

theorem Visible.append {s : CStr} (h : Visible s) (t : CStr) : Visible (s ++ t) := by
  cases s with
  | nil => exact absurd h id
  | cons c s => exact h

theorem Visible.ne_nil {s : CStr} (h : Visible s) : s ≠ [] := by
  rintro rfl
  exact h

theorem visible_cons {c : Char} (h : 32 < c.toNat ∧ c.toNat < 128) (s : CStr) :
    Visible (c :: s) := h

/-- A decimal digit by its code. -/
theorem toNat_of_isDigit {c : Char} (h : c.isDigit = true) : 48 ≤ c.toNat ∧ c.toNat ≤ 57 := by
  simp only [Char.isDigit, Bool.and_eq_true, decide_eq_true_eq] at h
  exact ⟨h.1, h.2⟩

/-- The codes of the hexadecimal digits. -/
theorem hexVal_cases {c : Char} {x : Nat} (h : hexVal c = some x) :
    (48 ≤ c.toNat ∧ c.toNat ≤ 57 ∧ x = c.toNat - 48) ∨
      (97 ≤ c.toNat ∧ c.toNat ≤ 102 ∧ x = c.toNat - 87) ∨
      (65 ≤ c.toNat ∧ c.toNat ≤ 70 ∧ x = c.toNat - 55) := by
  have hcode : ∀ a b : Char, a ≤ b ↔ a.toNat ≤ b.toNat := fun a b => Iff.rfl
  unfold hexVal at h
  simp only [hcode, Char.reduceToNat] at h
  split at h
  · have hx := Option.some.inj h
    omega
  · split at h
    · have hx := Option.some.inj h
      omega
    · split at h
      · have hx := Option.some.inj h
        omega
      · cases h

theorem toNat_of_hexVal {c : Char} {x : Nat} (h : hexVal c = some x) :
    48 ≤ c.toNat ∧ c.toNat ≤ 102 := by
  have hcases := hexVal_cases h
  omega

theorem hexVal_lt {c : Char} {x : Nat} (h : hexVal c = some x) : x < 16 := by
  have hcases := hexVal_cases h
  omega

theorem numeral_visible (n : Int) : Visible (numeral n) := by
  cases n with
  | ofNat m =>
      obtain ⟨d, ds, hds⟩ := List.exists_cons_of_ne_nil (Nat.toDigits_ne_nil (n := m) (b := 10))
      have hd : d.isDigit = true :=
        Nat.isDigit_of_mem_toDigits (b := 10) (n := m) (by decide) (by decide)
          (by rw [hds]; exact List.mem_cons_self)
      have hrange := toNat_of_isDigit hd
      show Visible (Nat.toDigits 10 m)
      rw [hds]
      exact visible_cons (by omega) ds
  | negSucc m => exact visible_cons (by decide) _

theorem IsString.visible {s t : CStr} (h : IsString s t) : Visible t := by
  obtain ⟨u, -, rfl⟩ := h
  exact visible_cons (by decide) _

theorem IsText.visible {pad : CStr → Prop} {v : Json} {t : CStr} (h : IsText pad v t) :
    Visible t := by
  cases v with
  | null =>
      rw [IsText] at h
      subst h
      exact visible_cons (by decide) _
  | bool b =>
      rw [IsText] at h
      subst h
      cases b
      · exact visible_cons (by decide) _
      · exact visible_cons (by decide) _
  | num n =>
      rw [IsText] at h
      subst h
      exact numeral_visible n
  | str s =>
      rw [IsText] at h
      exact h.visible
  | arr items =>
      rw [IsText] at h
      obtain ⟨u, rfl, -⟩ := h
      exact visible_cons (by decide) _
  | obj fields =>
      rw [IsText] at h
      obtain ⟨u, rfl, -⟩ := h
      exact visible_cons (by decide) _

/-- No value begins with a closing bracket. -/
theorem IsText.head {pad : CStr → Prop} {v : Json} {t : CStr} (h : IsText pad v t) :
    ∃ c s, t = c :: s ∧ c ≠ ']' ∧ c ≠ '\x7d' := by
  cases v with
  | null =>
      rw [IsText] at h
      exact ⟨_, _, h, by decide, by decide⟩
  | bool b =>
      rw [IsText] at h
      cases b
      · exact ⟨_, _, h, by decide, by decide⟩
      · exact ⟨_, _, h, by decide, by decide⟩
  | num n =>
      rw [IsText] at h
      cases n with
      | ofNat m =>
          obtain ⟨d, ds, hds⟩ := List.exists_cons_of_ne_nil (Nat.toDigits_ne_nil (n := m) (b := 10))
          have hd : d.isDigit = true :=
            Nat.isDigit_of_mem_toDigits (b := 10) (n := m) (by decide) (by decide)
              (by rw [hds]; exact List.mem_cons_self)
          refine ⟨d, ds, h.trans hds, ?_, ?_⟩
          · rintro rfl
            exact absurd hd (by decide)
          · rintro rfl
            exact absurd hd (by decide)
      | negSucc m => exact ⟨_, _, h, by decide, by decide⟩
  | str s =>
      rw [IsText] at h
      obtain ⟨u, -, rfl⟩ := h
      exact ⟨_, _, rfl, by decide, by decide⟩
  | arr items =>
      rw [IsText] at h
      obtain ⟨u, rfl, -⟩ := h
      exact ⟨_, _, rfl, by decide, by decide⟩
  | obj fields =>
      rw [IsText] at h
      obtain ⟨u, rfl, -⟩ := h
      exact ⟨_, _, rfl, by decide, by decide⟩

/-- Behind an item stands the next comma or the end. -/
theorem IsItems.cases {pad : CStr → Prop} {vs : List Json} {r : CStr} (h : IsItems pad vs r) :
    (vs = [] ∧ r = []) ∨ (vs ≠ [] ∧ ∃ u, r = ',' :: u) := by
  cases vs with
  | nil =>
      rw [IsItems] at h
      exact Or.inl ⟨rfl, h⟩
  | cons v vs =>
      rw [IsItems] at h
      obtain ⟨a, t, b, s, heq, -⟩ := h
      exact Or.inr ⟨List.cons_ne_nil v vs, _, heq⟩

theorem IsMembers.cases {pad : CStr → Prop} {fs : List (CStr × Json)} {r : CStr}
    (h : IsMembers pad fs r) : (fs = [] ∧ r = []) ∨ (fs ≠ [] ∧ ∃ u, r = ',' :: u) := by
  match fs with
  | [] =>
      rw [IsMembers] at h
      exact Or.inl ⟨rfl, h⟩
  | (k, v) :: fs =>
      rw [IsMembers] at h
      obtain ⟨a, n, b, c, t, d, s, heq, -⟩ := h
      exact Or.inr ⟨List.cons_ne_nil _ fs, _, heq⟩

/-- The gap before the first item can be left away. -/
theorem IsItems.trim {vs : List Json} {u : CStr} (hne : vs ≠ [])
    (h : IsItems Blank vs (',' :: u)) :
    ∃ a s, u = a ++ s ∧ Blank a ∧ IsItems Blank vs (',' :: s) ∧ Visible s ∧ s.head? ≠ some ']' := by
  cases vs with
  | nil => exact absurd rfl hne
  | cons v vs =>
      rw [IsItems] at h
      obtain ⟨a, t, b, r, heq, ha, ht, hb, hr⟩ := h
      obtain rfl := (List.cons.inj heq).2
      refine ⟨a, t ++ (b ++ r), rfl, ha, ?_, ht.visible.append _, ?_⟩
      · rw [IsItems]
        exact ⟨[], t, b, r, rfl, blank_nil, ht, hb, hr⟩
      · obtain ⟨c, s, rfl, hc, -⟩ := ht.head
        simpa using hc

/-- The gap before the first member can be left away. -/
theorem IsMembers.trim {fs : List (CStr × Json)} {u : CStr} (hne : fs ≠ [])
    (h : IsMembers Blank fs (',' :: u)) :
    ∃ a s, u = a ++ s ∧ Blank a ∧ IsMembers Blank fs (',' :: s) ∧ Visible s ∧
      s.head? ≠ some '\x7d' := by
  match fs with
  | [] => exact absurd rfl hne
  | (k, v) :: fs =>
      rw [IsMembers] at h
      obtain ⟨a, n, b, c, t, d, r, heq, ha, hn, hb, hc, ht, hd, hr⟩ := h
      obtain rfl := (List.cons.inj heq).2
      refine ⟨a, n ++ (b ++ ':' :: (c ++ (t ++ (d ++ r)))), rfl, ha, ?_, hn.visible.append _, ?_⟩
      · rw [IsMembers]
        exact ⟨[], n, b, c, t, d, r, rfl, blank_nil, hn, hb, hc, ht, hd, hr⟩
      · obtain ⟨q, -, rfl⟩ := hn
        simp

/-- White space can be put before the first item. -/
theorem IsItems.pad {vs : List Json} {a u : CStr} (ha : Blank a) (hne : vs ≠ [])
    (h : IsItems Blank vs (',' :: u)) : IsItems Blank vs (',' :: (a ++ u)) := by
  cases vs with
  | nil => exact absurd rfl hne
  | cons v vs =>
      rw [IsItems] at h ⊢
      obtain ⟨a', t, b, r, heq, ha', ht, hb, hr⟩ := h
      obtain rfl := (List.cons.inj heq).2
      exact ⟨a ++ a', t, b, r, by rw [List.append_assoc], blank_append ha ha', ht, hb, hr⟩

theorem IsMembers.pad {fs : List (CStr × Json)} {a u : CStr} (ha : Blank a) (hne : fs ≠ [])
    (h : IsMembers Blank fs (',' :: u)) : IsMembers Blank fs (',' :: (a ++ u)) := by
  match fs with
  | [] => exact absurd rfl hne
  | (k, v) :: fs =>
      rw [IsMembers] at h ⊢
      obtain ⟨a', n, b, c, t, d, r, heq, ha', hn, hb, hc, ht, hd, hr⟩ := h
      obtain rfl := (List.cons.inj heq).2
      exact ⟨a ++ a', n, b, c, t, d, r, by rw [List.append_assoc], blank_append ha ha', hn, hb, hc,
        ht, hd, hr⟩

theorem digitStop_of_isBlank {b rest : CStr} (hb : Blank b) (hrest : DigitStop rest) :
    DigitStop (b ++ rest) := by
  cases b with
  | nil => exact hrest
  | cons c b =>
      have hc := toNat_of_isBlank (hb c List.mem_cons_self)
      show c.isDigit = false
      by_contra hdigit
      have hrange := toNat_of_isDigit (by simpa using hdigit)
      omega

/-! ## The bytes of a string -/

theorem fourHex_lt {d : CStr} {n : Nat} (hd : FourHex d n) : n < 65536 := by
  obtain ⟨a, b, c, e, w, x, y, z, -, ha, hb, hc, he, rfl⟩ := hd
  have hw := hexVal_lt ha
  have hx := hexVal_lt hb
  have hy := hexVal_lt hc
  have hz := hexVal_lt he
  omega

theorem utf8_ne_nul {n : Nat} (hpos : 0 < n) (hn : n < 65536) : ∀ c ∈ utf8 n, c ≠ '\x00' := by
  have hchar : ∀ m < 256, 0 < m → Char.ofNat m ≠ '\x00' := by decide +kernel
  intro c hc
  unfold utf8 at hc
  split at hc
  · have h := List.mem_singleton.mp hc
    rw [h]
    exact hchar n (by omega) hpos
  · split at hc
    · rcases List.mem_pair.mp hc with h | h
      · rw [h]
        exact hchar _ (by omega) (by omega)
      · rw [h]
        exact hchar _ (by omega) (by omega)
    · simp only [List.mem_cons, List.not_mem_nil, or_false] at hc
      rcases hc with h | h | h
      all_goals
        rw [h]
        exact hchar _ (by omega) (by omega)

theorem utf8_length (n : Nat) : (utf8 n).length ≤ 3 := by
  unfold utf8
  split
  · simp
  · split
    · simp
    · simp

theorem Quoted.no_nul {s u : CStr} (h : Quoted s u) : '\x00' ∉ s := by
  induction h with
  | nil => exact List.not_mem_nil
  | plain hc _ _ _ ih =>
      intro hmem
      rcases List.mem_cons.mp hmem with rfl | hmem
      · exact absurd hc (by decide)
      · exact ih hmem
  | escape he _ ih =>
      intro hmem
      rcases List.mem_cons.mp hmem with rfl | hmem
      · simp [escapes] at he
      · exact ih hmem
  | unit hd hn _ ih =>
      intro hmem
      rcases List.mem_append.mp hmem with hmem | hmem
      · exact absurd rfl (utf8_ne_nul hn (fourHex_lt hd) _ hmem)
      · exact ih hmem

/-- The text of a string begins with no quote. -/
theorem Quoted.head_ne {s u : CStr} (h : Quoted s u) : u.head? ≠ some '"' := by
  cases h with
  | nil => simp
  | plain hc hquote hback h => simpa using hquote
  | escape he h => simp
  | unit hd hn h => simp

end OpenAppFilter.Base
