import OpenAppFilter.Kernel.RegexpProg

/-!
# What `compile` reads and writes

`compile` leaves its pattern in two ways: behind a backslash that is the last
character, and behind a class that is not closed, where the loop looks at one
more character although the error is noted. It leaves its buffers in two ways:
the NUL of `\d` and `\D` goes to index 11 of 11 bytes, and a class is written
without looking at the 256 bytes it has, with ranges that can move the pointer
in front of them.

`PatternRoom` says of a pattern that none of this happens, by counting what is
stored for each class. It is the exact condition: a pointer that is in front of
the buffer is written through sooner or later (`not_stays_in_front`).
-/

namespace OpenAppFilter.Theorems

open Base Kernel Prog

/-! ## Room for a pattern -/

/-- Between two nodes, or in a class with the number of bytes stored for it and
the character read last. -/
inductive Spot where
  | item
  | cls (size : Nat) (last : Char)

/-- The rest of a pattern has room: no `\d` and `\D`, no backslash at the end,
and each class is closed, or is given up for a `-` at its start or in front of
`]`, with less than 256 bytes stored. A character stores one byte; a range from
`a` to `b` stores the distance from `a` to `b`, and takes as many away when it
runs backwards. -/
def PatternRoom : Spot → CStr → Prop
  | .item, [] => True
  | .item, '\\' :: [] => False
  | .item, '\\' :: c :: rest => (c ≠ 'd' ∧ c ≠ 'D') ∧ PatternRoom .item rest
  | .item, '[' :: '^' :: rest => PatternRoom (.cls 0 '^') rest
  | .item, '[' :: rest => PatternRoom (.cls 0 '[') rest
  | .item, _ :: rest => PatternRoom .item rest
  | .cls _ _, [] => False
  | .cls size _, ']' :: rest => size < 256 ∧ PatternRoom .item rest
  | .cls size last, '-' :: rest =>
      if size = 0 ∨ rest.head? = some ']' then size < 256
      else
        match rest with
        | [] => False
        | c :: rest =>
            (last.toNat ≤ size + c.toNat ∧ size + c.toNat ≤ last.toNat + 256) ∧
              PatternRoom (.cls (size + c.toNat - last.toNat) c) rest
  | .cls size _, c :: rest => size < 256 ∧ PatternRoom (.cls (size + 1) c) rest

/-! ## The accesses -/

theorem putRange_stays {m : Nat → Char} {len size : Nat} : ∀ {n : Nat} {str : Int},
    (putRange size str n).Stays m len ↔ n = 0 ∨ (0 ≤ str ∧ str + n ≤ size) := by
  intro n
  induction n with
  | zero =>
      intro str
      simp [putRange]
  | succ n ih =>
      intro str
      unfold putRange
      rw [stays_bind, stays_put, ih]
      omega

/-- Index 11 is not in 11 bytes. -/
theorem digitProg_stays {m : Nat → Char} {len : Nat} {c : Char} :
    (digitProg c).Stays m len ↔ c ≠ 'd' ∧ c ≠ 'D' := by
  unfold digitProg
  split
  · rename_i h
    rw [stays_bind, stays_put]
    constructor
    · rintro ⟨-, -, hlt⟩
      exact absurd hlt (by decide)
    · rintro ⟨hd, hD⟩
      exact absurd h (by simp [hd, hD])
  · rename_i h
    simpa using h

theorem badRangeProg_stays {m : Nat → Char} {len r : Nat} {pstr : Int} (h : r + 1 < len) :
    (badRangeProg pstr r).Stays m len := by
  unfold badRangeProg
  split
  · exact stays_pure _ _ _
  · rw [stays_bind, stays_cell]
    exact ⟨h, stays_pure _ _ _⟩

/-! ## One step -/

section

variable {heap : Heap} {m : Nat → Char} {len n i r : Nat} {nccl : Bool} {pstr : Int} {buf : CStr}

theorem stays_item_nul (h0 : m r = '\x00') :
    (compileProg heap (n + 1) i .item r).Stays m len ↔ r < len := by
  rw [compileProg, stays_bind, stays_cell, run_cell, if_pos h0]
  simp only [stays_pure, and_true]

theorem stays_item_escape {c : Char} (h0 : m r = '\\') (h1 : m (r + 1) = c) (hr : r + 1 < len) :
    (compileProg heap (n + 1) i .item r).Stays m len ↔
      (c ≠ 'd' ∧ c ≠ 'D') ∧ (compileProg heap n (i + 1) .item (r + 2)).Stays m len := by
  have hlen : r < len := by omega
  rw [compileProg, stays_bind, stays_cell, run_cell, h0, if_neg (by decide), if_pos rfl, stays_bind,
    stays_cell, run_cell, h1, stays_bind, digitProg_stays, stays_bind]
  simp only [stays_pure, and_true, hr, hlen, true_and]

theorem stays_item_not (h0 : m r = '[') (h1 : m (r + 1) = '^') (hr : r + 1 < len) :
    (compileProg heap (n + 1) i .item r).Stays m len ↔
      (compileProg heap n i (.cls true 0 []) (r + 2)).Stays m len := by
  have hlen : r < len := by omega
  rw [compileProg, stays_bind, stays_cell, run_cell, h0, if_neg (by decide), if_neg (by decide), if_pos rfl,
    stays_bind, stays_cell, run_cell, h1, if_pos rfl]
  simp only [hr, hlen, true_and]

theorem stays_item_open (h0 : m r = '[') (h1 : m (r + 1) ≠ '^') (hr : r + 1 < len) :
    (compileProg heap (n + 1) i .item r).Stays m len ↔
      (compileProg heap n i (.cls false 0 []) (r + 1)).Stays m len := by
  have hlen : r < len := by omega
  rw [compileProg, stays_bind, stays_cell, run_cell, h0, if_neg (by decide), if_neg (by decide), if_pos rfl,
    stays_bind, stays_cell, run_cell, if_neg h1]
  simp only [hr, hlen, true_and]

theorem stays_item_char {c : Char} (h0 : m r = c) (hc : c ≠ '\x00') (hplain : c ≠ '\\' ∧ c ≠ '[')
    (hr : r < len) :
    (compileProg heap (n + 1) i .item r).Stays m len ↔
      (compileProg heap n (i + 1) .item (r + 1)).Stays m len := by
  rw [compileProg, stays_bind, stays_cell, run_cell, h0, if_neg hc, if_neg hplain.1, if_neg hplain.2,
    stays_bind]
  simp only [stays_pure, and_true, hr, true_and]

/-- Every step looks at the character it stands at. -/
theorem lt_of_stays {ptr : PtrPlace} (h : (compileProg heap (n + 1) i ptr r).Stays m len) : r < len := by
  cases ptr with
  | item =>
      rw [compileProg, stays_bind, stays_cell] at h
      exact h.1
  | cls nccl pstr buf =>
      rw [compileProg, stays_bind, stays_cell] at h
      exact h.1

/-- The end of the pattern: the terminator, and a look behind. -/
theorem stays_cls_nul (h0 : m r = '\x00') :
    (compileProg heap (n + 1) i (.cls nccl pstr buf) r).Stays m len ↔
      (0 ≤ pstr ∧ pstr < (256 : Nat)) ∧ r + 1 < len := by
  rw [compileProg, stays_bind, stays_cell, run_cell, if_pos h0, stays_bind, stays_put, stays_bind, stays_cell]
  simp only [stays_pure, and_true]
  omega

theorem stays_cls_stop (h0 : m r = ']') (hr : r < len) :
    (compileProg heap (n + 1) i (.cls nccl pstr buf) r).Stays m len ↔
      (0 ≤ pstr ∧ pstr < (256 : Nat)) ∧ (compileProg heap n (i + 1) .item (r + 1)).Stays m len := by
  rw [compileProg, stays_bind, stays_cell, run_cell, h0, if_neg (by decide), if_pos rfl, stays_bind, stays_put,
    stays_bind]
  simp only [stays_pure, and_true, hr, true_and]

theorem stays_cls_char {c : Char} (h0 : m r = c) (hc : c ≠ '\x00' ∧ c ≠ ']' ∧ c ≠ '-') (hr : r < len) :
    (compileProg heap (n + 1) i (.cls nccl pstr buf) r).Stays m len ↔
      (0 ≤ pstr ∧ pstr < (256 : Nat)) ∧
        (compileProg heap n i (.cls nccl (pstr + 1) (buf ++ [c])) (r + 1)).Stays m len := by
  rw [compileProg, stays_bind, stays_cell, run_cell, h0, if_neg hc.1, if_neg hc.2.1, if_neg hc.2.2, stays_bind,
    stays_put]
  simp only [hr, true_and]

/-- A `-` at the start of the class or in front of its end. -/
theorem stays_cls_bad (h0 : m r = '-') (hbad : pstr = 0 ∨ m (r + 1) = ']') (hr : r + 1 < len) :
    (compileProg heap (n + 1) i (.cls nccl pstr buf) r).Stays m len ↔
      0 ≤ pstr ∧ pstr < (256 : Nat) := by
  have hrun := (badRangeProg_run m pstr r).mpr hbad
  have hlen : r < len := by omega
  rw [compileProg, stays_bind, stays_cell, run_cell, h0, if_neg (by decide), if_neg (by decide), if_pos rfl,
    stays_bind, hrun, if_pos rfl, stays_bind, stays_put, stays_bind, stays_cell]
  simp only [stays_pure, and_true, badRangeProg_stays hr, hr, hlen, true_and]

/-- A range. -/
theorem stays_cls_range {last d : Char} (h0 : m r = '-') (hgood : ¬ (pstr = 0 ∨ m (r + 1) = ']'))
    (hlast : m (r - 1) = last) (h1 : m (r + 1) = d) (hr : r + 1 < len) :
    (compileProg heap (n + 1) i (.cls nccl pstr buf) r).Stays m len ↔
      (d.toNat ≤ last.toNat ∨ (0 ≤ pstr ∧ pstr + ((d.toNat : Int) - last.toNat) ≤ (256 : Nat))) ∧
        (compileProg heap n i (.cls nccl (pstr + ((d.toNat : Int) - last.toNat))
          (bufAfter buf (last.toNat + 1) d.toNat)) (r + 2)).Stays m len := by
  have hrun : (badRangeProg pstr r).run m = false := by
    rw [Bool.eq_false_iff, ne_eq, badRangeProg_run]
    exact hgood
  have hlen : r < len := by omega
  have hback : r - 1 < len := by omega
  have hwrite : (creatListProg 256 pstr (last.toNat + 1) d.toNat).Stays m len ↔
      d.toNat ≤ last.toNat ∨ (0 ≤ pstr ∧ pstr + ((d.toNat : Int) - last.toNat) ≤ (256 : Nat)) := by
    unfold creatListProg
    rw [putRange_stays]
    omega
  rw [compileProg, stays_bind, stays_cell, run_cell, h0, if_neg (by decide), if_neg (by decide), if_pos rfl,
    stays_bind, hrun, if_neg Bool.false_ne_true, stays_bind, stays_cell, run_cell, hlast, stays_bind,
    stays_cell, run_cell, h1, stays_bind, hwrite]
  simp only [badRangeProg_stays hr, hr, hlen, hback, true_and]

end

/-- A pointer in front of the buffer: the rest of the class writes through it, or
ends behind the pattern. -/
theorem not_stays_in_front {heap : Heap} {m : Nat → Char} {len : Nat} {nccl : Bool} :
    ∀ {n i r : Nat} {pstr : Int} {buf reg : CStr}, StrAt m r reg → reg.length < n →
      r + reg.length + 1 = len → pstr < 0 →
      ¬ (compileProg heap n i (.cls nccl pstr buf) r).Stays m len := by
  intro n
  induction n using Nat.strongRecOn with
  | ind n ih =>
      intro i r pstr buf reg hstr hn hlen hneg
      obtain ⟨n, rfl⟩ : ∃ k, n = k + 1 := ⟨n - 1, by omega⟩
      cases reg with
      | nil =>
          rw [stays_cls_nul hstr]
          omega
      | cons c rest =>
          obtain ⟨h0, hc, hrest⟩ := hstr
          simp only [List.length_cons] at hn hlen
          by_cases hstop : c = ']'
          · rw [stays_cls_stop (h0.trans hstop) (by omega)]
            omega
          · by_cases hdash : c = '-'
            · by_cases hbad : pstr = 0 ∨ m (r + 1) = ']'
              · rw [stays_cls_bad (h0.trans hdash) hbad (by omega)]
                omega
              · rw [stays_cls_range (h0.trans hdash) hbad rfl rfl (by omega)]
                rintro ⟨hwrite, hnext⟩
                cases rest with
                | nil =>
                    -- the range takes in the NUL
                    obtain ⟨n, rfl⟩ : ∃ k, n = k + 1 := ⟨n - 1, by simp at hn; omega⟩
                    have hbehind := lt_of_stays hnext
                    simp at hlen
                    omega
                | cons d rest =>
                    exact ih n (by omega) hrest.2.2 (by simp at hn; omega) (by simp at hlen; omega)
                      (by omega) hnext
            · rw [stays_cls_char h0 ⟨hc, hstop, hdash⟩ (by omega)]
              omega

/-! ## The whole pattern -/

/-- A spot of the pattern as the program sees it. -/
inductive SpotAt (m : Nat → Char) (r : Nat) : Spot → PtrPlace → Prop
  | item : SpotAt m r .item .item
  | cls {size last nccl buf} : size ≤ 256 → 0 < r → m (r - 1) = last →
      SpotAt m r (.cls size last) (.cls nccl (size : Nat) buf)

theorem stop_of_strAt {m : Nat → Char} {r : Nat} {reg : CStr} (h : StrAt m r reg) :
    m r = ']' ↔ reg.head? = some ']' := by
  cases reg with
  | nil =>
      have hnul : m r = '\x00' := h
      rw [hnul]
      exact ⟨fun h => absurd h (by decide), fun h => absurd h (by simp)⟩
  | cons d rest =>
      rw [h.1]
      simp

theorem badRange_iff {m : Nat → Char} {r size : Nat} {reg : CStr} (h : StrAt m (r + 1) reg) :
    (((size : Nat) : Int) = 0 ∨ m (r + 1) = ']') ↔ size = 0 ∨ reg.head? = some ']' := by
  rw [stop_of_strAt h, Int.natCast_eq_zero]

/-- From a spot on, the accesses stay inside iff the rest of the pattern has
room. -/
theorem compileProg_stays {heap : Heap} {m : Nat → Char} {len : Nat} {spot : Spot} {reg : CStr} :
    ∀ {n i r : Nat} {ptr : PtrPlace}, StrAt m r reg → SpotAt m r spot ptr → reg.length < n →
      r + reg.length + 1 = len →
      ((compileProg heap n i ptr r).Stays m len ↔ PatternRoom spot reg) := by
  fun_induction PatternRoom spot reg with
  | case1 =>
      rintro (_ | n) i r ptr hstr ⟨⟩ hn hlen
      · exact absurd hn (Nat.not_lt_zero _)
      · rw [stays_item_nul hstr, iff_true]
        simp only [List.length_nil] at hlen
        omega
  | case2 =>
      rintro (_ | _ | n) i r ptr ⟨h0, -, h1⟩ ⟨⟩ hn hlen
      · exact absurd hn (Nat.not_lt_zero _)
      · exact absurd hn (by simp)
      · simp only [List.length_cons, List.length_nil] at hlen
        rw [stays_item_escape h0 h1 (by omega), iff_false]
        rintro ⟨-, hnext⟩
        -- the loop goes on behind the NUL
        have hbehind := lt_of_stays hnext
        omega
  | case3 c rest ih =>
      rintro (_ | n) i r ptr ⟨h0, -, h1, hc, hrest⟩ ⟨⟩ hn hlen
      · exact absurd hn (Nat.not_lt_zero _)
      · simp only [List.length_cons] at hn hlen
        have hnext := ih (n := n) (i := i + 1) hrest .item (by omega) (by omega)
        rw [stays_item_escape h0 h1 (by omega), hnext]
  | case4 rest ih =>
      rintro (_ | n) i r ptr ⟨h0, -, h1, hc, hrest⟩ ⟨⟩ hn hlen
      · exact absurd hn (Nat.not_lt_zero _)
      · simp only [List.length_cons] at hn hlen
        have hin : SpotAt m (r + 2) (.cls 0 '^') (.cls true (0 : Nat) []) := .cls (by omega) (by omega) h1
        have hnext := ih (n := n) (i := i) hrest hin (by omega) (by omega)
        rw [stays_item_not h0 h1 (by omega)]
        exact hnext
  | case5 rest hno ih =>
      rintro (_ | n) i r ptr ⟨h0, -, hrest⟩ ⟨⟩ hn hlen
      · exact absurd hn (Nat.not_lt_zero _)
      · simp only [List.length_cons] at hn hlen
        have hin : SpotAt m (r + 1) (.cls 0 '[') (.cls false (0 : Nat) []) := .cls (by omega) (by omega) h0
        have hnext := ih (n := n) (i := i) hrest hin (by omega) (by omega)
        rw [stays_item_open h0 (ne_caret_of_strAt hrest hno) (by omega)]
        exact hnext
  | case6 c rest hend hesc hneg hcls ih =>
      rintro (_ | n) i r ptr ⟨h0, hc, hrest⟩ ⟨⟩ hn hlen
      · exact absurd hn (Nat.not_lt_zero _)
      · simp only [List.length_cons] at hn hlen
        have hnext := ih (n := n) (i := i + 1) hrest .item (by omega) (by omega)
        rw [stays_item_char h0 hc (plain_of_not hend hesc hcls) (by omega), hnext]
  | case7 size last =>
      rintro (_ | n) i r ptr hstr ⟨⟩ hn hlen
      · exact absurd hn (Nat.not_lt_zero _)
      · rw [stays_cls_nul hstr, iff_false]
        simp only [List.length_nil] at hlen
        omega
  | case8 size last rest ih =>
      rintro (_ | n) i r ptr ⟨h0, -, hrest⟩ ⟨⟩ hn hlen
      · exact absurd hn (Nat.not_lt_zero _)
      · simp only [List.length_cons] at hn hlen
        have hnext := ih (n := n) (i := i + 1) hrest .item (by omega) (by omega)
        rw [stays_cls_stop h0 (by omega), hnext]
        exact and_congr_left' (by omega)
  | case9 size last rest hbad =>
      rintro (_ | n) i r ptr ⟨h0, -, hrest⟩ ⟨⟩ hn hlen
      · exact absurd hn (Nat.not_lt_zero _)
      · simp only [List.length_cons] at hn hlen
        rw [← badRange_iff hrest] at hbad
        rw [stays_cls_bad h0 hbad (by omega)]
        omega
  | case10 size last hgood =>
      rintro (_ | _ | n) i r ptr ⟨h0, -, hrest⟩ ⟨⟩ hn hlen
      · exact absurd hn (Nat.not_lt_zero _)
      · exact absurd hn (by simp)
      · rw [← badRange_iff hrest] at hgood
        simp only [List.length_cons, List.length_nil] at hlen
        rw [stays_cls_range h0 hgood rfl rfl (by omega), iff_false]
        rintro ⟨-, hnext⟩
        -- the range takes in the NUL
        have hbehind := lt_of_stays hnext
        omega
  | case11 size last c rest hgood ih =>
      rintro (_ | n) i r ptr ⟨h0, -, hrest⟩ hptr hn hlen
      · exact absurd hn (Nat.not_lt_zero _)
      · cases hptr with
        | cls hsize hr hlast =>
            rw [← badRange_iff hrest] at hgood
            simp only [List.length_cons] at hn hlen
            rw [stays_cls_range h0 hgood hlast hrest.1 (by omega)]
            by_cases hroom : last.toNat ≤ size + c.toNat ∧ size + c.toNat ≤ last.toNat + 256
            · have hpstr : ((size : Nat) : Int) + ((c.toNat : Int) - last.toNat) =
                  ((size + c.toNat - last.toNat : Nat) : Int) := by omega
              rw [hpstr, ih (n := n) hrest.2.2 (.cls (by omega) (by omega) hrest.1) (by omega) (by omega)]
              exact and_congr_left' (by omega)
            · constructor
              · rintro ⟨hwrite, hnext⟩
                have hfront : ((size : Nat) : Int) + ((c.toNat : Int) - last.toNat) < 0 := by omega
                exact absurd hnext (not_stays_in_front hrest.2.2 (by omega) (by omega) hfront)
              · rintro ⟨hroom', -⟩
                exact absurd hroom' hroom
  | case12 size last c rest hstop hdash ih =>
      rintro (_ | n) i r ptr ⟨h0, hc, hrest⟩ ⟨⟩ hn hlen
      · exact absurd hn (Nat.not_lt_zero _)
      · simp only [List.length_cons] at hn hlen
        rw [stays_cls_char h0 ⟨hc, fun h => hstop h, fun h => hdash h⟩ (by omega)]
        by_cases hsize : size < 256
        · have hpstr : ((size : Nat) : Int) + 1 = ((size + 1 : Nat) : Int) := by omega
          rw [hpstr, ih (n := n) hrest (.cls (by omega) (by omega) h0) (by omega) (by omega)]
          exact and_congr_left' (by omega)
        · constructor
          · rintro ⟨hput, -⟩
            omega
          · rintro ⟨hput, -⟩
            omega

/-- A pattern in memory. -/
def patternAt (reg : CStr) : Nat → Char := fun i => reg.getD i '\x00'

/-- A heap of zeros. -/
def zeroHeap : Heap := fun _ => ⟨0, '\x00'⟩

end OpenAppFilter.Theorems
