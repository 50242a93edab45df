import OpenAppFilter.Theorems.JsonReading

/-!
# JSON texts that break off

A writer that dies halfway leaves the beginning of a message behind. Whatever the
place where a text of an array or an object breaks off, `cJSON_Parse` returns no
item for it.
-/

namespace OpenAppFilter.Theorems

open Base Kernel Kernel.CJson

variable {signedChar : Bool}

/-! ## Where a text breaks off -/

/-- Where a text breaks off: within the first part or behind it. -/
theorem breaks_append {p x y : CStr} (h : p <+: x ++ y) :
    (∃ z, z ≠ [] ∧ x = p ++ z) ∨ ∃ p', p = x ++ p' ∧ p' <+: y := by
  rcases Nat.lt_or_ge p.length x.length with hlt | hge
  · obtain ⟨z, rfl⟩ := List.prefix_of_prefix_length_le h (List.prefix_append x y) (Nat.le_of_lt hlt)
    refine Or.inl ⟨z, ?_, rfl⟩
    rintro rfl
    rw [List.append_nil] at hlt
    exact Nat.lt_irrefl _ hlt
  · obtain ⟨p', rfl⟩ := List.prefix_of_prefix_length_le (List.prefix_append x y) h hge
    exact Or.inr ⟨p', rfl, (List.prefix_append_right_inj x).mp h⟩

theorem map_eq_ok {α β ε : Type} {f : α → β} {x : Except ε α} {y : β} (h : x.map f = .ok y) :
    ∃ a, x = .ok a ∧ f a = y := by
  cases x with
  | error e => cases h
  | ok a => exact ⟨a, rfl, Except.ok.inj h⟩

/-- Where a bracketed text breaks off, its bracket is missing. -/
theorem prefix_of_break {u p z : CStr} {c : Char} (hz : z ≠ []) (h : u ++ [c] = p ++ z) :
    p <+: u := by
  rcases breaks_append (x := u) (y := [c]) ⟨z, h.symm⟩ with ⟨z', -, rfl⟩ | ⟨p', rfl, hp'⟩
  · exact List.prefix_append p z'
  · rcases List.prefix_cons_iff.mp hp' with rfl | ⟨q, rfl, hq⟩
    · simp
    · have hnone : q = [] ∧ z = [] := by simpa using h
      exact absurd hnone.2 hz

theorem digitStop_cut {p s : CStr} (h : DigitStop s) (hp : p <+: s) : DigitStop p := by
  cases p with
  | nil => trivial
  | cons c p =>
      obtain ⟨w, rfl⟩ := hp
      exact h

theorem skip_blank_end {b : CStr} (hb : Blank b) : skip signedChar b = .error .outside := by
  have hdrop : b.dropWhile (atMost signedChar 32) = [] := by
    rw [List.dropWhile_eq_nil_iff]
    intro c hc
    simp [atMost, toNat_of_isBlank (hb c hc)]
  unfold skip
  rw [hdrop]

theorem blank_of_append {p z : CStr} (h : Blank (p ++ z)) : Blank p :=
  fun c hc => h c (List.mem_append_left z hc)

/-- A string that breaks off is read up to the NUL. -/
theorem stringCopy_breaks {s u : CStr} (h : Quoted s u) (hread : Readable signedChar u) {w : CStr}
    (hw : w <+: u) {out r : CStr} (hcopy : stringCopy signedChar w = some (out, r)) : r = [] := by
  have hend : ∀ {out : CStr}, stringCopy signedChar [] = some (out, r) → r = [] := by
    intro out h
    rw [stringCopy] at h
    exact (Prod.ext_iff.mp (Option.some.inj h)).2.symm
  have hnone : ∀ {w out : CStr}, stringCopy signedChar w = none →
      stringCopy signedChar w ≠ some (out, r) := by
    intro w out h
    simp [h]
  induction h generalizing w out with
  | nil =>
      rw [List.prefix_nil.mp hw] at hcopy
      exact hend hcopy
  | @plain c s t hc hquote hback h ih =>
      rcases List.prefix_cons_iff.mp hw with rfl | ⟨w, rfl, hw1⟩
      · exact hend hcopy
      · rw [stringCopy_plain hquote hback (atMost_of_readable hread hc)] at hcopy
        obtain ⟨out', hq⟩ := copied_map hcopy
        exact ih hread.of_cons hw1 hq
  | @escape e c s t he h ih =>
      obtain ⟨-, hu⟩ := unescape_escape he
      rcases List.prefix_cons_iff.mp hw with rfl | ⟨w, rfl, hw1⟩
      · exact hend hcopy
      · rcases List.prefix_cons_iff.mp hw1 with rfl | ⟨w, rfl, hw2⟩
        · refine absurd hcopy (hnone ?_)
          rw [stringCopy.eq_def]
          simp [atMost_backslash]
        · rw [stringCopy_escape hu] at hcopy
          obtain ⟨out', hq⟩ := copied_map hcopy
          exact ih hread.of_cons.of_cons hw2 hq
  | @unit d n s t hd hn h ih =>
      rcases List.prefix_cons_iff.mp hw with rfl | ⟨w, rfl, hw1⟩
      · exact hend hcopy
      · rcases List.prefix_cons_iff.mp hw1 with rfl | ⟨w, rfl, hw2⟩
        · refine absurd hcopy (hnone ?_)
          rw [stringCopy.eq_def]
          simp [atMost_backslash]
        · rcases breaks_append hw2 with ⟨z, hz, rfl⟩ | ⟨w, rfl, hw3⟩
          · refine absurd hcopy (hnone ?_)
            have hlen : w.length < 4 := by
              obtain ⟨_, _, _, _, _, _, _, _, heq, -⟩ := hd
              have hlen := congrArg List.length heq
              have hpos := List.length_pos_iff.mpr hz
              simp only [List.length_append, List.length_cons, List.length_nil] at hlen
              omega
            rw [stringCopy.eq_def]
            rcases w with _ | ⟨_, _ | ⟨_, _ | ⟨_, _ | ⟨_, _⟩⟩⟩⟩
            · simp [atMost_backslash]
            · simp [atMost_backslash]
            · simp [atMost_backslash]
            · simp [atMost_backslash]
            · simp only [List.length_cons] at hlen
              omega
          · rw [stringCopy_unit hd] at hcopy
            obtain ⟨out', hq⟩ := copied_map hcopy
            exact ih hread.of_cons.of_cons.of_append.2 hw3 hq

theorem parseString_breaks {s t : CStr} (h : IsString s t) (hread : Readable signedChar t)
    {p z : CStr} (hz : z ≠ []) (hp : t = p ++ z) {v r : CStr}
    (hparse : parseString signedChar p = .ok (v, r)) : r = [] := by
  obtain ⟨u, hu, rfl⟩ := h
  cases p with
  | nil => exact absurd hparse (by simp [parseString])
  | cons c w =>
      obtain ⟨rfl, hw⟩ := List.cons.inj hp
      have hprefix : w <+: u := prefix_of_break hz hw
      rw [parseString] at hparse
      cases hcopy : stringCopy signedChar w with
      | none =>
          rw [hcopy] at hparse
          cases hlen : stringLen signedChar w
          · rw [hlen] at hparse
            cases hparse
          · rw [hlen] at hparse
            cases hparse
      | some q =>
          have hq := stringCopy_breaks hu hread.of_cons.of_append.1 hprefix hcopy
          rw [hcopy] at hparse
          cases hlen : stringLen signedChar w with
          | none =>
              rw [hlen] at hparse
              cases hparse
          | some len =>
              rw [hlen] at hparse
              simp only at hparse
              split at hparse
              · cases hparse
                exact hq
              · cases hparse

/-- Digits up to the NUL, without a leading zero. -/
theorem parseNumber_all {p q : CStr} (hq : stepOver '-' p = q) (hdig : ∀ c ∈ q, c.isDigit = true)
    (hhead : q.head? ≠ some '0') : (parseNumber p).2 = [] := by
  have hread := @readDigits_append _ [] hdig trivial 0
  rw [List.append_nil] at hread
  have hstep : stepOver '0' q = q := by
    cases q with
    | nil => rfl
    | cons c q =>
        have hc : c ≠ '0' := by simpa using hhead
        rw [stepOver, if_neg hc]
  unfold parseNumber
  dsimp only
  rw [hq, hstep, if_neg hhead, show (0 : Int32) = Int32.ofNat 0 from rfl, hread]

theorem digits_break {m : Nat} {p z : CStr} (hz : z ≠ []) (hp : Nat.toDigits 10 m = p ++ z) :
    (∀ c ∈ p, c.isDigit = true) ∧ p.head? ≠ some '0' := by
  have hdig : ∀ c ∈ p, c.isDigit = true := by
    intro c hc
    refine Nat.isDigit_of_mem_toDigits (b := 10) (n := m) (by decide) (by decide) ?_
    rw [hp]
    exact List.mem_append_left z hc
  refine ⟨hdig, ?_⟩
  cases p with
  | nil => simp
  | cons c p =>
      rcases Nat.eq_zero_or_pos m with rfl | hpos
      · have hone : Nat.toDigits 10 0 = ['0'] := rfl
        rw [hone, List.cons_append] at hp
        have hnone : p = [] ∧ z = [] := by simpa using (List.cons.inj hp).2
        exact absurd hnone.2 hz
      · obtain ⟨d, ds, hds, hd⟩ := toDigits_pos_head hpos
        rw [hds, List.cons_append] at hp
        obtain ⟨rfl, -⟩ := List.cons.inj hp
        simpa using hd

theorem parseNumber_breaks {n : Int} {p z : CStr} (hz : z ≠ []) (hp : numeral n = p ++ z) :
    (parseNumber p).2 = [] := by
  cases n with
  | ofNat m =>
      obtain ⟨hdig, hhead⟩ := digits_break (m := m) hz hp
      refine parseNumber_all ?_ hdig hhead
      cases p with
      | nil => rfl
      | cons c p => rw [stepOver, if_neg (isSpace_of_isDigit (hdig c List.mem_cons_self)).2.1]
  | negSucc m =>
      cases p with
      | nil => rfl
      | cons c p =>
          rw [numeral, List.cons_append] at hp
          obtain ⟨rfl, hp'⟩ := List.cons.inj hp
          obtain ⟨hdig, hhead⟩ := digits_break hz hp'
          exact parseNumber_all rfl hdig hhead

/-- A word that breaks off is no word, and no other value begins with its letters. -/
theorem parseValue_word_breaks {fuel : Nat} {w p z : CStr}
    (hw : w = "null".toList ∨ w = "false".toList ∨ w = "true".toList) (hz : z ≠ [])
    (hp : w = p ++ z) {item : CJson} {r : CStr} :
    parseValue signedChar (fuel + 1) p ≠ .ok (item, r) := by
  have hfail : parseValue signedChar (fuel + 1) p = .error .fail := by
    have htake : p = w.take p.length := by
      rw [hp]
      simp
    have hlen : p.length < w.length := by
      have hpos := List.length_pos_iff.mpr hz
      have h := congrArg List.length hp
      rw [List.length_append] at h
      omega
    rw [htake]
    generalize p.length = k at hlen
    rcases hw with rfl | rfl | rfl
    · have hk : k < 4 := hlen
      match k, hk with
      | 0, _ => rfl
      | 1, _ => rfl
      | 2, _ => rfl
      | 3, _ => rfl
    · have hk : k < 5 := hlen
      match k, hk with
      | 0, _ => rfl
      | 1, _ => rfl
      | 2, _ => rfl
      | 3, _ => rfl
      | 4, _ => rfl
    · have hk : k < 4 := hlen
      match k, hk with
      | 0, _ => rfl
      | 1, _ => rfl
      | 2, _ => rfl
      | 3, _ => rfl
  rw [hfail]
  intro h
  cases h

theorem parseValue_nil {fuel : Nat} {item : CJson} {r : CStr} :
    parseValue signedChar fuel [] ≠ .ok (item, r) := by
  cases fuel with
  | zero =>
      rw [parseValue]
      intro h
      cases h
  | succ fuel =>
      intro h
      cases h

/-- A padded piece that breaks off is not read; read whole, it is followed by what
is left of the text. -/
theorem padded_breaks {α : Type} {parse : CStr → Except Stop (α × CStr)} {a t b q p : CStr} {x : α}
    (ha : Blank a) (ht : Visible t) (hb : Blank b)
    (hbroken : ∀ w z, p = a ++ w → z ≠ [] → t = w ++ z → ∀ y r, parse w = .ok (y, r) → r = [])
    (hwhole : ∀ s, p = a ++ (t ++ s) → s <+: b ++ q → parse (t ++ s) = .ok (x, s))
    (hq : ∀ c s, c :: s <+: q → Visible (c :: s)) (hp : p <+: a ++ (t ++ (b ++ q))) :
    (∃ e, padded signedChar parse p = .error e) ∨
      ∃ c s, p = a ++ (t ++ (b ++ c :: s)) ∧ c :: s <+: q ∧
        padded signedChar parse p = .ok (x, c :: s) := by
  have hskip : ∀ {p : CStr}, Blank p → ∃ e, padded signedChar parse p = .error e := by
    intro p hblank
    refine ⟨.outside, ?_⟩
    unfold padded
    rw [skip_blank_end hblank]
    rfl
  rcases breaks_append hp with ⟨z, -, rfl⟩ | ⟨p, rfl, hp1⟩
  · exact Or.inl (hskip (blank_of_append ha))
  · rcases breaks_append hp1 with ⟨z, hz, rfl⟩ | ⟨p, rfl, hp2⟩
    · -- within the piece: what was read of it goes up to the NUL
      cases p with
      | nil =>
          rw [List.append_nil]
          exact Or.inl (hskip ha)
      | cons d p =>
          left
          have hend := hbroken (d :: p) z rfl hz rfl
          unfold padded
          rw [skip_blank ha (visible_cons ht p)]
          simp only [bind, Except.bind]
          cases hpiece : parse (d :: p) with
          | error e => exact ⟨e, rfl⟩
          | ok x =>
              simp only
              rw [hend x.1 x.2 hpiece, skip_blank_end blank_nil]
              exact ⟨_, rfl⟩
    · have hpiece := hwhole p rfl hp2
      have hbreak : Blank p → ∃ e, padded signedChar parse (a ++ (t ++ p)) = .error e := by
        intro hblank
        refine ⟨.outside, ?_⟩
        unfold padded
        rw [skip_blank ha (ht.append p)]
        simp only [bind, Except.bind]
        rw [hpiece]
        simp only
        rw [skip_blank_end hblank]
      rcases breaks_append hp2 with ⟨z, -, rfl⟩ | ⟨p, rfl, hp3⟩
      · exact Or.inl (hbreak (blank_of_append hb))
      · cases p with
        | nil =>
            rw [List.append_nil] at hbreak ⊢
            exact Or.inl (hbreak hb)
        | cons d p =>
            exact Or.inr ⟨d, p, rfl, hp3, padded_text ha ht hb (hq d p hp3) hpiece⟩

/-- Behind an item stands the next comma, and a comma is visible. -/
theorem comma_begins {α : Type} {xs : List α} {q s : CStr} {c : Char}
    (hq : (xs = [] ∧ q = []) ∨ (xs ≠ [] ∧ ∃ u, q = ',' :: u)) (h : c :: s <+: q) :
    xs ≠ [] ∧ c = ',' := by
  rcases hq with ⟨-, rfl⟩ | ⟨hne, u, rfl⟩
  · exact absurd (List.prefix_nil.mp h) (List.cons_ne_nil c s)
  · obtain ⟨w, hw⟩ := h
    exact ⟨hne, (List.cons.inj hw).1⟩

/-- The piece is a value. -/
theorem padded_value_breaks {fuel : Nat} {v : Json} {a t b q p : CStr} {α : Type} {xs : List α}
    (ha : Blank a) (ht : IsText Blank v t) (hb : Blank b)
    (hq : (xs = [] ∧ q = []) ∨ (xs ≠ [] ∧ ∃ u, q = ',' :: u)) (hread : Readable signedChar t)
    (hvalue : ∀ p z, z ≠ [] → t = p ++ z → 3 * p.length < fuel → ∀ item r,
      parseValue signedChar fuel p = .ok (item, r) → r = [])
    (hp : p <+: a ++ (t ++ (b ++ q))) (hfuel : 3 * p.length < fuel) :
    (∃ e, padded signedChar (parseValue signedChar fuel) p = .error e) ∨
      ∃ s, p = a ++ (t ++ (b ++ ',' :: s)) ∧ xs ≠ [] ∧ ',' :: s <+: q ∧
        padded signedChar (parseValue signedChar fuel) p = .ok (itemOf v, ',' :: s) := by
  have hstop : DigitStop (b ++ q) := by
    refine digitStop_of_isBlank hb ?_
    rcases hq with ⟨-, rfl⟩ | ⟨-, u, rfl⟩
    · trivial
    · exact digitStop_cons rfl u
  have hbroken : ∀ w z, p = a ++ w → z ≠ [] → t = w ++ z → ∀ item r,
      parseValue signedChar fuel w = .ok (item, r) → r = [] := by
    intro w z hw hz htext
    rw [hw, List.length_append] at hfuel
    exact hvalue w z hz htext (by omega)
  have hwhole : ∀ s, p = a ++ (t ++ s) → s <+: b ++ q →
      parseValue signedChar fuel (t ++ s) = .ok (itemOf v, s) := by
    intro s hs hsq
    rw [hs, List.length_append, List.length_append] at hfuel
    exact parseValue_text v t s fuel ht hread (Or.inr (digitStop_cut hstop hsq)) (by omega)
  have hvis : ∀ c s, c :: s <+: q → Visible (c :: s) := by
    intro c s h
    rw [(comma_begins hq h).2]
    exact visible_cons (by decide) s
  rcases padded_breaks ha ht.visible hb hbroken hwhole hvis hp with herr | ⟨c, s, rfl, hs, hstep⟩
  · exact Or.inl herr
  · obtain ⟨hne, rfl⟩ := comma_begins hq hs
    exact Or.inr ⟨s, rfl, hne, hs, hstep⟩

/-- The piece is a name, the colon follows. -/
theorem padded_name_breaks {a n b k w p : CStr} (ha : Blank a) (hn : IsString k n) (hb : Blank b)
    (hread : Readable signedChar n) (hp : p <+: a ++ (n ++ (b ++ ':' :: w))) :
    (∃ e, padded signedChar (parseString signedChar) p = .error e) ∨
      ∃ s, p = a ++ (n ++ (b ++ ':' :: s)) ∧ s <+: w ∧
        padded signedChar (parseString signedChar) p = .ok (k, ':' :: s) := by
  have hcolon : ∀ c s, c :: s <+: ':' :: w → c = ':' ∧ s <+: w := by
    intro c s h
    obtain ⟨z, hz⟩ := h
    obtain ⟨rfl, rfl⟩ := List.cons.inj hz
    exact ⟨rfl, List.prefix_append s z⟩
  have hvis : ∀ c s, c :: s <+: ':' :: w → Visible (c :: s) := by
    intro c s h
    rw [(hcolon c s h).1]
    exact visible_cons (by decide) s
  rcases padded_breaks ha hn.visible hb
      (fun w z _ hz htext y r h => parseString_breaks hn hread hz htext h)
      (fun s _ _ => parseString_isString hn hread s) hvis hp with herr | ⟨c, s, rfl, hs, hstep⟩
  · exact Or.inl herr
  · obtain ⟨rfl, hsw⟩ := hcolon c s hs
    exact Or.inr ⟨s, rfl, hsw, hstep⟩

mutual
/-- What `parse_value` makes of the beginning of a value: an item only for a
number or a string, and then up to the NUL. -/
theorem parseValue_breaks : ∀ (v : Json) (t p z : CStr) (fuel : Nat), z ≠ [] → t = p ++ z →
    IsText Blank v t → Readable signedChar t → 3 * p.length < fuel → ∀ item r,
    parseValue signedChar fuel p = .ok (item, r) → v.isContainer = false ∧ r = []
  | _, _, _, _, 0, _, _, _, _, hfuel, _, _, _ => absurd hfuel (Nat.not_lt_zero _)
  | _, _, [], _, _ + 1, _, _, _, _, _, _, _, hparse => absurd hparse parseValue_nil
  | .null, _, c :: p, z, fuel + 1, hz, hp, h, _, _, item, r, hparse => by
      rw [IsText] at h
      exact absurd hparse (parseValue_word_breaks (Or.inl h) hz hp)
  | .bool b, _, c :: p, z, fuel + 1, hz, hp, h, _, _, item, r, hparse => by
      rw [IsText] at h
      cases b
      · exact absurd hparse (parseValue_word_breaks (Or.inr (Or.inl h)) hz hp)
      · exact absurd hparse (parseValue_word_breaks (Or.inr (Or.inr h)) hz hp)
  | .num n, t, c :: p, z, fuel + 1, hz, hp, h, _, _, item, r, hparse => by
      rw [IsText] at h
      have hc := numeral_head (h.symm.trans hp)
      have hend := parseNumber_breaks hz (h.symm.trans hp)
      rw [parseValue_numeral_head hc] at hparse
      have hr := (Prod.ext_iff.mp (Except.ok.inj hparse)).2
      exact ⟨rfl, hr.symm.trans hend⟩
  | .str s, t, c :: p, z, fuel + 1, hz, hp, h, hread, _, item, r, hparse => by
      rw [IsText] at h
      have hc : c = '"' := by
        obtain ⟨u, -, rfl⟩ := h
        exact (List.cons.inj hp).1.symm
      subst hc
      rw [parseValue_cons (by decide) (by decide) (by decide), if_pos rfl] at hparse
      cases hstring : parseString signedChar ('"' :: p) with
      | error e =>
          rw [hstring] at hparse
          cases hparse
      | ok q =>
          have hend := parseString_breaks h hread hz hp hstring
          rw [hstring] at hparse
          have hr := (Prod.ext_iff.mp (Except.ok.inj hparse)).2
          exact ⟨rfl, hr.symm.trans hend⟩
  | .arr items, t, c :: p, z, fuel + 1, hz, hp, h, hread, hfuel, item, r, hparse => by
      rw [IsText] at h
      obtain ⟨u, rfl, h⟩ := h
      obtain ⟨rfl, hp'⟩ := List.cons.inj hp
      have hprefix := prefix_of_break hz hp'
      simp only [List.length_cons] at hfuel
      obtain ⟨fuel, rfl⟩ : ∃ f, fuel = f + 1 := ⟨fuel - 1, by omega⟩
      rw [parseValue_cons (by decide) (by decide) (by decide)] at hparse
      have hskip : ∀ {p : CStr}, Blank p → parseArray signedChar (fuel + 1) p ≠ .ok (item, r) := by
        intro p hblank h
        rw [parseArray, skip_blank_end hblank] at h
        cases h
      replace hparse : parseArray signedChar (fuel + 1) p = .ok (item, r) := hparse
      rcases h with ⟨rfl, hu⟩ | ⟨hne, hitems⟩
      · obtain ⟨w, rfl⟩ := hprefix
        exact absurd hparse (hskip (blank_of_append hu))
      · obtain ⟨a, s, rfl, ha, hs, hvis, hopen⟩ := hitems.trim hne
        have hread' := hread.of_cons.of_append.1.of_append.2
        rcases breaks_append hprefix with ⟨w, -, rfl⟩ | ⟨p, rfl, hps⟩
        · exact absurd hparse (hskip (blank_of_append ha))
        · cases p with
          | nil =>
              rw [List.append_nil] at hparse
              exact absurd hparse (hskip ha)
          | cons d p =>
              rw [List.length_append] at hfuel
              have hstop := parseItems_breaks items s (d :: p) fuel hne hs hps hread' (by omega)
              obtain ⟨w, rfl⟩ := hps
              have hd : d ≠ ']' := by simpa using hopen
              rw [parseArray_items ha (visible_cons hvis p) hd] at hparse
              obtain ⟨q, hq, -⟩ := map_eq_ok hparse
              exact absurd hq (hstop q.1 q.2)
  | .obj fields, t, c :: p, z, fuel + 1, hz, hp, h, hread, hfuel, item, r, hparse => by
      rw [IsText] at h
      obtain ⟨u, rfl, h⟩ := h
      obtain ⟨rfl, hp'⟩ := List.cons.inj hp
      have hprefix := prefix_of_break hz hp'
      simp only [List.length_cons] at hfuel
      obtain ⟨fuel, rfl⟩ : ∃ f, fuel = f + 1 := ⟨fuel - 1, by omega⟩
      rw [parseValue_cons (by decide) (by decide) (by decide)] at hparse
      have hskip : ∀ {p : CStr}, Blank p → parseObject signedChar (fuel + 1) p ≠ .ok (item, r) := by
        intro p hblank h
        rw [parseObject, skip_blank_end hblank] at h
        cases h
      replace hparse : parseObject signedChar (fuel + 1) p = .ok (item, r) := hparse
      rcases h with ⟨rfl, hu⟩ | ⟨hne, hmembers⟩
      · obtain ⟨w, rfl⟩ := hprefix
        exact absurd hparse (hskip (blank_of_append hu))
      · obtain ⟨a, s, rfl, ha, hs, hvis, hopen⟩ := hmembers.trim hne
        have hread' := hread.of_cons.of_append.1.of_append.2
        rcases breaks_append hprefix with ⟨w, -, rfl⟩ | ⟨p, rfl, hps⟩
        · exact absurd hparse (hskip (blank_of_append ha))
        · cases p with
          | nil =>
              rw [List.append_nil] at hparse
              exact absurd hparse (hskip ha)
          | cons d p =>
              rw [List.length_append] at hfuel
              have hstop := parseMembers_breaks fields s (d :: p) fuel hne hs hps hread' (by omega)
              obtain ⟨w, rfl⟩ := hps
              have hd : d ≠ '\x7d' := by simpa using hopen
              rw [parseObject_members ha (visible_cons hvis p) hd] at hparse
              obtain ⟨q, hq, -⟩ := map_eq_ok hparse
              exact absurd hq (hstop q.1 q.2)
theorem parseItems_breaks : ∀ (vs : List Json) (u p : CStr) (fuel : Nat), vs ≠ [] →
    IsItems Blank vs (',' :: u) → p <+: u → Readable signedChar u → 3 * p.length + 1 < fuel →
    ∀ items r, parseItems signedChar fuel p ≠ .ok (items, r)
  | _, _, _, 0, _, _, _, _, hfuel => absurd hfuel (Nat.not_lt_zero _)
  | [], _, _, _, hne, _, _, _, _ => absurd rfl hne
  | v :: vs, u, p, fuel + 1, _, h, hp, hread, hfuel => by
      rw [IsItems] at h
      obtain ⟨a, t, b, q, heq, ha, ht, hb, hq⟩ := h
      obtain rfl := (List.cons.inj heq).2
      have hread' := hread.of_append.2
      intro items r hparse
      rw [parseItems] at hparse
      have hvalue := fun p z hz htext hfuel item r h =>
        (parseValue_breaks v t p z fuel hz htext ht hread'.of_append.1 hfuel item r h).2
      rcases padded_value_breaks ha ht hb hq.cases hread'.of_append.1 hvalue hp (by omega) with
        ⟨e, herr⟩ | ⟨s, rfl, hne, hs, hstep⟩
      · rw [herr] at hparse
        cases hparse
      · rw [hstep] at hparse
        obtain ⟨x, hmore, -⟩ := map_eq_ok hparse
        obtain ⟨-, u, rfl⟩ := hq.cases.resolve_left (fun h => hne h.1)
        simp only [List.length_append, List.length_cons] at hfuel
        exact parseItems_breaks vs u s fuel hne hq ((List.prefix_cons_inj ',').mp hs)
          hread'.of_append.2.of_append.2.of_cons (by omega) x.1 x.2 hmore
theorem parseMembers_breaks : ∀ (fs : List (CStr × Json)) (u p : CStr) (fuel : Nat), fs ≠ [] →
    IsMembers Blank fs (',' :: u) → p <+: u → Readable signedChar u → 3 * p.length + 1 < fuel →
    ∀ items r, parseMembers signedChar fuel p ≠ .ok (items, r)
  | _, _, _, 0, _, _, _, _, hfuel => absurd hfuel (Nat.not_lt_zero _)
  | [], _, _, _, hne, _, _, _, _ => absurd rfl hne
  | (k, v) :: fs, u, p, fuel + 1, _, h, hp, hread, hfuel => by
      rw [IsMembers] at h
      obtain ⟨a, n, b, c, t, d, q, heq, ha, hn, hb, hc, ht, hd, hq⟩ := h
      obtain rfl := (List.cons.inj heq).2
      have hread' := hread.of_append.2
      have hread'' := hread'.of_append.2.of_append.2.of_cons.of_append.2
      intro items r hparse
      rw [parseMembers] at hparse
      rcases padded_name_breaks ha hn hb hread'.of_append.1 hp with ⟨e, herr⟩ | ⟨p, rfl, hp1, hname⟩
      · rw [herr] at hparse
        cases hparse
      · rw [hname] at hparse
        simp only [bind, Except.bind] at hparse
        simp only [List.length_append, List.length_cons] at hfuel
        have hvalue := fun p z hz htext hfuel item r h =>
          (parseValue_breaks v t p z fuel hz htext ht hread''.of_append.1 hfuel item r h).2
        rcases padded_value_breaks hc ht hd hq.cases hread''.of_append.1 hvalue hp1 (by omega) with
          ⟨e, herr⟩ | ⟨s, rfl, hne, hs, hstep⟩
        · rw [herr] at hparse
          cases hparse
        · rw [hstep] at hparse
          obtain ⟨x, hmore, -⟩ := map_eq_ok hparse
          obtain ⟨-, u, rfl⟩ := hq.cases.resolve_left (fun h => hne h.1)
          simp only [List.length_append, List.length_cons] at hfuel
          exact parseMembers_breaks fs u s fuel hne hq ((List.prefix_cons_inj ',').mp hs)
            hread''.of_append.2.of_append.2.of_cons (by omega) x.1 x.2 hmore
end

/-- `cJSON_Parse` returns no item for the beginning of an array or an object. -/
theorem cJsonParse_breaks {v : Json} {b t p z : CStr} (hb : Blank b) (h : IsText Blank v t)
    (hv : v.isContainer = true) (hread : Readable signedChar t) (hz : z ≠ []) (ht : t = p ++ z)
    (item : CJson) : cJsonParse signedChar (b ++ p) ≠ .ok item := by
  unfold cJsonParse
  cases p with
  | nil =>
      rw [List.append_nil, skip_blank_end hb]
      intro hok
      cases hok
  | cons d p =>
      have hvis := h.visible
      rw [ht] at hvis
      rw [skip_blank hb (visible_cons hvis p)]
      simp only [bind, Except.bind]
      cases hparse : parseValue signedChar (3 * (d :: p).length + 3) (d :: p) with
      | error e =>
          intro hok
          cases hok
      | ok q =>
          have hnone := (parseValue_breaks v t (d :: p) z _ hz ht h hread (by omega) q.1 q.2
            hparse).1
          rw [hv] at hnone
          cases hnone

end OpenAppFilter.Theorems
