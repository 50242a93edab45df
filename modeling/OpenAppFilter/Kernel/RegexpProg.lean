import OpenAppFilter.Base.Access
import OpenAppFilter.Kernel.Regexp

/-!
# `compile`, access by access (`regexp.c`)

`compile` as a program whose reads of the pattern and writes to the class
buffers are steps of their own. The pattern is read through a pointer `r` into
the memory it stands in; `pstr` is the distance of the write pointer from the
start of the class buffer, which a range that runs backwards moves back without
writing.

Where the text model `compileFrom` does not end outside, the program computes
what it computes (`compileProg_run`).
-/

namespace OpenAppFilter.Kernel

open Base Prog

/-- The text stands at `r`, with its NUL. -/
def StrAt (m : Nat → Char) : Nat → CStr → Prop
  | r, [] => m r = '\x00'
  | r, c :: t => m r = c ∧ c ≠ '\x00' ∧ StrAt m (r + 1) t

/-- Writes to `n` successive cells. -/
def putRange (size : Nat) (str : Int) : Nat → Prog Char Unit
  | 0 => pure ()
  | n + 1 => do
      put size str
      putRange size (str + 1) n

/-- The writes of `creat_list`. -/
def creatListProg (size : Nat) (str : Int) (start stop : Nat) : Prog Char Unit :=
  putRange size str (stop + 1 - start)

/-- What the class buffer holds in front of `pstr` after a range. -/
def bufAfter (buf : CStr) (start stop : Nat) : CStr :=
  if start ≤ stop + 1 then buf ++ (List.range' start (stop + 1 - start)).map Char.ofNat
  else buf.take (buf.length - (start - (stop + 1)))

/-- Where `compile` is: between two nodes, or in a class with its sign, the write
pointer and what is written. -/
inductive PtrPlace where
  | item
  | cls (nccl : Bool) (pstr : Int) (buf : CStr)

/-- `tmp->ccl = getmem(11); creat_list(tmp->ccl, '0', '9'); tmp->ccl[11] = '\0'`. -/
def digitProg (c : Char) : Prog Char Unit :=
  if c = 'd' ∨ c = 'D' then do
    creatListProg 11 0 '0'.toNat '9'.toNat
    put 11 11
  else pure ()

/-- `pstr == tmp->ccl || *(regexp + 1) == ']'`. -/
def badRangeProg (pstr : Int) (r : Nat) : Prog Char Bool :=
  if pstr = 0 then pure true
  else do
    let c ← cell (r + 1)
    pure (c == ']')

/-- The two loops of `compile` at `r`, with at most `n` steps; `i` counts the
nodes. With an error the outer loop still looks at the next character. -/
def compileProg (heap : Heap) : Nat → Nat → PtrPlace → Nat → Prog Char Compiled
  | 0, _, _, _ => pure .outside
  | n + 1, i, .item, r => do
      let c ← cell r
      if c = '\x00' then pure (.nodes [])
      else if c = '\\' then do
        let d ← cell (r + 1)
        digitProg d
        let rest ← compileProg heap n (i + 1) .item (r + 2)
        pure (rest.cons (escapeNode (heap i) d))
      else if c = '[' then do
        let d ← cell (r + 1)
        if d = '^' then compileProg heap n i (.cls true 0 []) (r + 2)
        else compileProg heap n i (.cls false 0 []) (r + 1)
      else do
        let rest ← compileProg heap n (i + 1) .item (r + 1)
        pure (rest.cons (plainNode (heap i) c))
  | n + 1, i, .cls nccl pstr buf, r => do
      let c ← cell r
      if c = '\x00' then do
        put 256 pstr
        let _ ← cell (r + 1)
        pure .error
      else if c = ']' then do
        put 256 pstr
        let rest ← compileProg heap n (i + 1) .item (r + 1)
        pure (rest.cons { type := .list, ch := (heap i).ch, ccl := buf, nccl := nccl })
      else if c = '-' then do
        let bad ← badRangeProg pstr r
        if bad then do
          put 256 pstr
          let _ ← cell (r + 1)
          pure .error
        else do
          let last ← cell (r - 1)
          let d ← cell (r + 1)
          creatListProg 256 pstr (last.toNat + 1) d.toNat
          compileProg heap n i
            (.cls nccl (pstr + ((d.toNat : Int) - last.toNat)) (bufAfter buf (last.toNat + 1) d.toNat))
            (r + 2)
      else do
        put 256 pstr
        compileProg heap n i (.cls nccl (pstr + 1) (buf ++ [c])) (r + 1)

/-! ## The program computes what the text model computes -/

@[simp] theorem putRange_run (m : Nat → Char) (size : Nat) (str : Int) (n : Nat) :
    (putRange size str n).run m = () := rfl

@[simp] theorem digitProg_run (m : Nat → Char) (c : Char) : (digitProg c).run m = () := rfl

theorem badRangeProg_run (m : Nat → Char) (pstr : Int) (r : Nat) :
    (badRangeProg pstr r).run m = true ↔ pstr = 0 ∨ m (r + 1) = ']' := by
  unfold badRangeProg
  by_cases h : pstr = 0
  · simp [h]
  · simp [h]

/-- A place of the text model as the program sees it, with the character in
front of the pointer. -/
inductive SamePlace (m : Nat → Char) (r : Nat) : Place → PtrPlace → Prop
  | item : SamePlace m r .item .item
  | cls {nccl buf last} : 0 < r → m (r - 1) = last →
      SamePlace m r (.cls nccl buf last) (.cls nccl buf.length buf)

theorem bufAfter_eq {buf buf' : CStr} {start stop : Nat} (h : creatList buf start stop = some buf') :
    bufAfter buf start stop = buf' ∧ (buf'.length : Int) = buf.length + ((stop : Int) + 1 - start) := by
  unfold creatList at h
  unfold bufAfter
  split at h
  · rename_i hle
    obtain rfl := Option.some.inj h
    rw [if_pos hle]
    refine ⟨rfl, ?_⟩
    rw [List.length_append, List.length_map, List.length_range']
    omega
  · rename_i hle
    split at h
    · rename_i hback
      obtain rfl := Option.some.inj h
      rw [if_neg hle]
      refine ⟨rfl, ?_⟩
      rw [List.length_take]
      omega
    · exact absurd h (by simp)

theorem cons_ne_outside {re : Re} {c : Compiled} (h : c.cons re ≠ .outside) : c ≠ .outside := by
  rintro rfl
  exact h rfl

/-- A class that does not start with `^`, as the program sees it. -/
theorem ne_caret_of_strAt {m : Nat → Char} {r : Nat} {reg : CStr} (h : StrAt m r reg)
    (hno : ∀ rest, reg = '^' :: rest → False) : m r ≠ '^' := by
  cases reg with
  | nil =>
      have hnul : m r = '\x00' := h
      rw [hnul]
      decide
  | cons d rest =>
      rw [h.1]
      rintro rfl
      exact hno rest rfl

/-- A character that is neither a backslash nor the start of a class. -/
theorem plain_of_not {c : Char} {rest : CStr} (hend : c = '\\' → rest = [] → False)
    (hesc : ∀ d s, c = '\\' → rest = d :: s → False) (hcls : c = '[' → False) : c ≠ '\\' ∧ c ≠ '[' := by
  refine ⟨fun hc => ?_, hcls⟩
  cases rest with
  | nil => exact hend hc rfl
  | cons d s => exact hesc d s hc rfl

/-- Where the text model does not end outside, the program returns its result. -/
theorem compileProg_run {heap : Heap} (m : Nat → Char) {i : Nat} {place : Place} {reg : CStr} :
    ∀ {n r : Nat} {ptr : PtrPlace}, StrAt m r reg → SamePlace m r place ptr → reg.length < n →
      compileFrom heap i place reg ≠ .outside →
      (compileProg heap n i ptr r).run m = compileFrom heap i place reg := by
  fun_induction compileFrom heap i place reg with
  | case1 i =>
      rintro (_ | n) r ptr hstr ⟨⟩ hn -
      · exact absurd hn (by simp)
      · have h0 : m r = '\x00' := hstr
        simp [compileProg, h0]
  | case3 i c rest ih =>
      rintro (_ | n) r ptr ⟨h0, -, h1, -, hrest⟩ ⟨⟩ hn hin
      · exact absurd hn (by simp)
      · have hnext := ih (n := n) hrest .item (by simp at hn; omega) (cons_ne_outside hin)
        simp [compileProg, h0, h1, hnext]
  | case4 i rest ih =>
      rintro (_ | n) r ptr ⟨h0, -, h1, -, hrest⟩ ⟨⟩ hn hin
      · exact absurd hn (by simp)
      · have hnext := ih (n := n) hrest (.cls (by omega) h1) (by simp at hn; omega) hin
        simpa [compileProg, h0, h1] using hnext
  | case5 i rest hno ih =>
      rintro (_ | n) r ptr ⟨h0, -, hrest⟩ ⟨⟩ hn hin
      · exact absurd hn (by simp)
      · have hnext := ih (n := n) hrest (.cls (by omega) h0) (by simp at hn; omega) hin
        have h1 : m (r + 1) ≠ '^' := ne_caret_of_strAt hrest hno
        simpa [compileProg, h0, h1] using hnext
  | case6 i c rest hend hesc hneg hcls ih =>
      rintro (_ | n) r ptr ⟨h0, hc, hrest⟩ ⟨⟩ hn hin
      · exact absurd hn (by simp)
      · have hnext := ih (n := n) hrest .item (by simp at hn; omega) (cons_ne_outside hin)
        obtain ⟨hback, hopen⟩ := plain_of_not hend hesc hcls
        simp [compileProg, h0, hc, hback, hopen, hnext]
  | case7 i nccl buf last hlen =>
      rintro (_ | n) r ptr hstr ⟨⟩ hn -
      · exact absurd hn (by simp)
      · have h0 : m r = '\x00' := hstr
        simp [compileProg, h0]
  | case9 i nccl buf last rest hlen ih =>
      rintro (_ | n) r ptr ⟨h0, -, hrest⟩ ⟨⟩ hn hin
      · exact absurd hn (by simp)
      · have hnext := ih (n := n) hrest .item (by simp at hn; omega) (cons_ne_outside hin)
        simp [compileProg, h0, hnext]
  | case11 i nccl buf last rest hbad hlen =>
      rintro (_ | n) r ptr ⟨h0, -, hrest⟩ ⟨⟩ hn hin
      · exact absurd hn (by simp)
      · have hrun : (badRangeProg buf.length r).run m = true := by
          rw [badRangeProg_run]
          refine hbad.imp (fun h => by rw [h]; rfl) (fun h => ?_)
          obtain ⟨rest, rfl⟩ := List.head?_eq_some_iff.mp h
          exact hrest.1
        simp [compileProg, h0, hrun]
  | case14 i nccl buf last c rest buf' hlist hlen hgood ih =>
      rintro (_ | n) r ptr ⟨h0, -, h1, -, hrest⟩ hptr hn hin
      · exact absurd hn (by simp)
      · cases hptr with
        | cls hr hlast =>
            have hrun : (badRangeProg buf.length r).run m = false := by
              rw [Bool.eq_false_iff, ne_eq, badRangeProg_run, h1]
              refine fun h => hgood (h.imp (fun h => ?_) (fun h => by rw [h]; rfl))
              exact List.length_eq_zero_iff.mp (by omega)
            obtain ⟨hbuf, hlen'⟩ := bufAfter_eq hlist
            have hnext := ih (n := n) hrest (.cls (by omega) h1) (by simp at hn; omega) hin
            have hpstr : (buf.length : Int) + ((c.toNat : Int) - last.toNat) = buf'.length := by
              omega
            simpa [compileProg, h0, h1, hrun, hlast, hbuf, hpstr] using hnext
  | case17 i nccl buf last c rest hend hrange hlen ih =>
      rintro (_ | n) r ptr ⟨h0, hc, hrest⟩ ⟨⟩ hn hin
      · exact absurd hn (by simp)
      · have hnext := ih (n := n) hrest (.cls (by omega) h0) (by simp at hn; omega) hin
        have hstop : c ≠ ']' := fun h => hend h
        have hdash : c ≠ '-' := fun h => hrange h
        rw [List.length_append, List.length_singleton] at hnext
        push_cast at hnext
        simpa [compileProg, h0, hc, hstop, hdash] using hnext
  | case2 | case8 | case10 | case12 | case13 | case15 | case16 | case18 =>
      -- the text model ends outside
      intro n r ptr _ _ _ hin
      exact absurd rfl hin

end OpenAppFilter.Kernel
