import Mathlib.Data.List.FinRange
import Mathlib.Data.List.Nodup
import Mathlib.Logic.Function.Basic

/-!
# Linked lists in a heap

Singly linked lists as a C program has them: a heap of cells, each a value and
the pointer behind it, and the loops that walk them. `Chain h p l` says that the
pointers from `p` on go through the addresses and values of `l` and end in
`NULL`.

A loop is written with a bound on its rounds, and fails when it exceeds it or
reads a cell that is not there. On a list within the bound it does neither
(`unlinkLoop_spec`, `mapLoop_spec`, `findLoop_spec`): unlinking the cells with a
flag leaves the others in their order, each where it was, and touches no other
list. `bucketLoop_spec` lifts what a loop does to one list to a table of lists.
-/

namespace OpenAppFilter.Base

/-- A value and the pointer behind it. -/
structure Cell (V : Type) where
  val : V
  next : Option Nat

/-- The cells that are allocated. -/
abbrev Heap (V : Type) := Nat → Option (Cell V)

variable {V : Type}

/-- The pointers from `p` on go through `l` and arrive at `q`. -/
def Seg (h : Heap V) : Option Nat → List (Nat × V) → Option Nat → Prop
  | p, [], q => p = q
  | p, e :: l, q => p = some e.1 ∧ ∃ next, h e.1 = some ⟨e.2, next⟩ ∧ Seg h next l q

/-- The list that starts at `p`. -/
abbrev Chain (h : Heap V) (p : Option Nat) (l : List (Nat × V)) : Prop := Seg h p l none

theorem seg_append {h : Heap V} {l m : List (Nat × V)} :
    ∀ {p q : Option Nat}, Seg h p (l ++ m) q ↔ ∃ r, Seg h p l r ∧ Seg h r m q := by
  induction l with
  | nil =>
      intro p q
      constructor
      · exact fun hm => ⟨p, rfl, hm⟩
      · rintro ⟨r, rfl, hm⟩
        exact hm
  | cons e l ih =>
      intro p q
      constructor
      · rintro ⟨hp, next, hcell, hrest⟩
        obtain ⟨r, hl, hm⟩ := ih.mp hrest
        exact ⟨r, ⟨hp, next, hcell, hl⟩, hm⟩
      · rintro ⟨r, ⟨hp, next, hcell, hl⟩, hm⟩
        exact ⟨hp, next, hcell, ih.mpr ⟨r, hl, hm⟩⟩

/-- A list is where it was in every heap that agrees on its cells. -/
theorem Seg.congr {h h' : Heap V} {l : List (Nat × V)} :
    ∀ {p q : Option Nat}, Seg h p l q → (∀ a ∈ l.map Prod.fst, h' a = h a) → Seg h' p l q := by
  induction l with
  | nil => exact fun hseg _ => hseg
  | cons e l ih =>
      rintro p q ⟨hp, next, hcell, hrest⟩ hagree
      rw [List.map_cons, List.forall_mem_cons] at hagree
      refine ⟨hp, next, ?_, ih hrest hagree.2⟩
      rw [hagree.1]
      exact hcell

/-- A cell elsewhere is written or freed. -/
theorem Seg.frame {h : Heap V} {l : List (Nat × V)} {p q : Option Nat} (hseg : Seg h p l q) {a : Nat}
    (hout : a ∉ l.map Prod.fst) (c : Option (Cell V)) : Seg (Function.update h a c) p l q := by
  refine hseg.congr (fun x hx => Function.update_of_ne ?_ _ _)
  rintro rfl
  exact hout hx

/-- The cells of a list hold its values. -/
theorem Seg.cell {h : Heap V} {l : List (Nat × V)} :
    ∀ {p q : Option Nat}, Seg h p l q → ∀ e ∈ l, ∃ next, h e.1 = some ⟨e.2, next⟩ := by
  induction l with
  | nil => exact fun _ e he => absurd he List.not_mem_nil
  | cons e l ih =>
      rintro p q ⟨-, next, hcell, hrest⟩
      rw [List.forall_mem_cons]
      exact ⟨⟨next, hcell⟩, ih hrest⟩

/-- A new cell in front of a list. -/
theorem Seg.push {h : Heap V} {l : List (Nat × V)} {p : Option Nat} (hchain : Chain h p l) {a : Nat}
    (hfree : a ∉ l.map Prod.fst) (v : V) :
    Chain (Function.update h a (some ⟨v, p⟩)) (some a) ((a, v) :: l) :=
  ⟨rfl, p, Function.update_self .., hchain.frame hfree _⟩

/-- A cell that is there gets a new value. -/
theorem Seg.write {h : Heap V} {a : Nat} {c : Cell V} (hcell : h a = some c) (f : V → V)
    {l : List (Nat × V)} :
    ∀ {p q : Option Nat}, Seg h p l q →
      Seg (Function.update h a (some ⟨f c.val, c.next⟩)) p
        (l.map (fun e => if e.1 = a then (e.1, f e.2) else e)) q := by
  induction l with
  | nil => exact fun hseg => hseg
  | cons e l ih =>
      rintro p q ⟨hp, next, he, hrest⟩
      by_cases hea : e.1 = a
      · subst hea
        obtain rfl : c = ⟨e.2, next⟩ := Option.some.inj (hcell.symm.trans he)
        rw [List.map_cons, if_pos rfl]
        exact ⟨hp, next, Function.update_self .., ih hrest⟩
      · rw [List.map_cons, if_neg hea]
        exact ⟨hp, next, (Function.update_of_ne hea _ _).trans he, ih hrest⟩

/-- Writing the pointer of the last cell sends the list elsewhere. -/
theorem Seg.relink {h : Heap V} {l : List (Nat × V)} {e : Nat × V} {p q q' : Option Nat}
    (hseg : Seg h p (l ++ [e]) q) (hnew : e.1 ∉ l.map Prod.fst) :
    Seg (Function.update h e.1 (some ⟨e.2, q'⟩)) p (l ++ [e]) q' := by
  obtain ⟨r, hl, hr, -⟩ := seg_append.mp hseg
  exact seg_append.mpr ⟨r, hl.frame hnew _, hr, q', Function.update_self .., rfl⟩

/-- The cell `a` behind `b` is unlinked and freed: the list goes on behind it. -/
theorem Seg.unlink {h : Heap V} {front l : List (Nat × V)} {b : Nat × V} {a : Nat} {v : V}
    {head next : Option Nat} (hkept : Seg h head (front ++ [b]) (some a)) (hl : Chain h next l)
    (hnd : ((front ++ [b] ++ (a, v) :: l).map Prod.fst).Nodup) :
    Seg (Function.update (Function.update h b.1 (some ⟨b.2, next⟩)) a none) head (front ++ [b]) next ∧
      Chain (Function.update (Function.update h b.1 (some ⟨b.2, next⟩)) a none) next l := by
  rw [List.map_append, List.map_cons, List.nodup_append, List.nodup_cons] at hnd
  obtain ⟨hndKept, ⟨haL, -⟩, hdisj⟩ := hnd
  rw [List.map_append, List.nodup_append] at hndKept
  have haKept : a ∉ (front ++ [b]).map Prod.fst := fun hmem => hdisj a hmem a List.mem_cons_self rfl
  have hbFront : b.1 ∉ front.map Prod.fst := fun hmem => hndKept.2.2 b.1 hmem b.1 (by simp) rfl
  have hbL : b.1 ∉ l.map Prod.fst := fun hmem =>
    hdisj b.1 (by simp) b.1 (List.mem_cons_of_mem _ hmem) rfl
  exact ⟨(hkept.relink hbFront).frame haKept _, (hl.frame hbL _).frame haL _⟩

/-! ## Loops over one list -/

/-- The loop that takes the cells with a flag out of a list and frees them:
```
while (node) {
    if (flag) {
        if (prev == NULL) { head = node->next; free(node); node = head; }
        else { prev->next = node->next; free(node); node = prev->next; }
    }
    else { prev = node; node = node->next; }
}
```
It returns the heap, the head and the values it has freed. -/
def unlinkLoop (flag : V → Bool) : Nat → Heap V → (head prev node : Option Nat) →
    Option (Heap V × Option Nat × List V)
  | _, h, head, _, none => some (h, head, [])
  | 0, _, _, _, some _ => none
  | fuel + 1, h, head, prev, some a =>
      match h a with
      | none => none
      | some cell =>
          if flag cell.val then
            match prev with
            | none =>
                (unlinkLoop flag fuel (Function.update h a none) cell.next none cell.next).map
                  (fun r => (r.1, r.2.1, cell.val :: r.2.2))
            | some b =>
                match h b with
                | none => none
                | some before =>
                    let h := Function.update (Function.update h b (some ⟨before.val, cell.next⟩)) a none
                    match h b with
                    | none => none
                    | some before =>
                        (unlinkLoop flag fuel h head (some b) before.next).map
                          (fun r => (r.1, r.2.1, cell.val :: r.2.2))
          else unlinkLoop flag fuel h head (some a) cell.next

/-- A loop that rewrites the value of every cell. -/
def mapLoop (f : V → V) : Nat → Heap V → Option Nat → Option (Heap V)
  | _, h, none => some h
  | 0, _, some _ => none
  | fuel + 1, h, some a =>
      match h a with
      | none => none
      | some cell => mapLoop f fuel (Function.update h a (some ⟨f cell.val, cell.next⟩)) cell.next

/-- A loop that returns the first cell that passes the test. -/
def findLoop (test : V → Bool) : Nat → Heap V → Option Nat → Option (Option Nat)
  | _, _, none => some none
  | 0, _, some _ => none
  | fuel + 1, h, some a =>
      match h a with
      | none => none
      | some cell => if test cell.val then some (some a) else findLoop test fuel h cell.next

/-- A loop that reads the value of every cell. -/
def readLoop : Nat → Heap V → Option Nat → Option (List V)
  | _, _, none => some []
  | 0, _, some _ => none
  | fuel + 1, h, some a =>
      match h a with
      | none => none
      | some cell => (readLoop fuel h cell.next).map (cell.val :: ·)

/-- A round at a cell with the flag: the cell is unlinked, from the head or from the
last cell kept, and the loop goes on behind it. -/
theorem unlinkLoop_drop {flag : V → Bool} {fuel : Nat} {h : Heap V} {head next : Option Nat}
    {kept l : List (Nat × V)} {a : Nat} {v : V} (hkept : Seg h head kept (some a))
    (hcell : h a = some ⟨v, next⟩) (hl : Chain h next l) (hflag : flag v = true)
    (hnd : ((kept ++ (a, v) :: l).map Prod.fst).Nodup) :
    ∃ h₁ head₁, unlinkLoop flag (fuel + 1) h head (kept.getLast?.map Prod.fst) (some a) =
        (unlinkLoop flag fuel h₁ head₁ (kept.getLast?.map Prod.fst) next).map
          (fun r => (r.1, r.2.1, v :: r.2.2)) ∧
      Seg h₁ head₁ kept next ∧ Chain h₁ next l ∧
      ∀ x, x ∉ (kept ++ (a, v) :: l).map Prod.fst → h₁ x = h x := by
  have hfar : ∀ x, x ∉ (kept ++ (a, v) :: l).map Prod.fst → x ∉ kept.map Prod.fst ∧ x ≠ a := by
    intro x hx
    simp only [List.map_append, List.map_cons, List.mem_append, List.mem_cons, not_or] at hx
    exact ⟨hx.1, hx.2.1⟩
  rcases List.eq_nil_or_concat' kept with rfl | ⟨front, b, rfl⟩
  · have haL : a ∉ l.map Prod.fst := (List.nodup_cons.mp hnd).1
    refine ⟨Function.update h a none, next, ?_, rfl, hl.frame haL none, fun x hx => ?_⟩
    · simp only [List.getLast?_nil, Option.map_none, unlinkLoop, hcell, hflag, if_true]
    · exact Function.update_of_ne (hfar x hx).2 _ _
  · have hbA : b.1 ≠ a := by
      rw [List.map_append, List.nodup_append] at hnd
      exact hnd.2.2 b.1 (by simp) a (by simp)
    obtain ⟨_, _, _, _, hbCell, _⟩ := seg_append.mp hkept
    obtain ⟨hkept', hl'⟩ := hkept.unlink hl hnd
    refine ⟨_, head, ?_, hkept', hl', fun x hx => ?_⟩
    · rw [List.getLast?_concat, Option.map_some]
      simp only [unlinkLoop, hcell, hflag, if_true, hbCell, Function.update_of_ne hbA,
        Function.update_self]
    · have hxb : x ≠ b.1 := by
        rintro rfl
        exact (hfar _ hx).1 (by simp)
      rw [Function.update_of_ne (hfar x hx).2, Function.update_of_ne hxb]

/-- Behind the cells `kept`, the loop unlinks the flagged cells of what is left. -/
theorem unlinkLoop_from {flag : V → Bool} (l : List (Nat × V)) :
    ∀ {fuel : Nat} {h : Heap V} {head node : Option Nat} (kept : List (Nat × V)),
      l.length ≤ fuel → Seg h head kept node → Seg h node l none →
      ((kept ++ l).map Prod.fst).Nodup →
      ∃ h' head', unlinkLoop flag fuel h head (kept.getLast?.map Prod.fst) node =
          some (h', head', (l.map Prod.snd).filter flag) ∧
        Chain h' head' (kept ++ l.filter (fun e => !flag e.2)) ∧
        ∀ a, a ∉ (kept ++ l).map Prod.fst → h' a = h a := by
  induction l with
  | nil =>
      intro fuel h head node kept _ hkept hrest _
      obtain rfl : node = none := hrest
      refine ⟨h, head, ?_, ?_, fun _ _ => rfl⟩
      · cases fuel <;> rfl
      · rw [List.filter_nil, List.append_nil]
        exact hkept
  | cons e l ih =>
      intro fuel h head node kept hfuel hkept hrest hnd
      obtain ⟨a, v⟩ := e
      obtain ⟨rfl, next, hcell, hl⟩ := hrest
      obtain ⟨fuel, rfl⟩ : ∃ n, fuel = n + 1 := Nat.exists_eq_add_one.mpr (by simp at hfuel; omega)
      have hlen : l.length ≤ fuel := by simpa using hfuel
      cases hflag : flag v with
      | false =>
          -- the cell stays, and is the last one kept
          have hkept' : Seg h head (kept ++ [(a, v)]) next :=
            seg_append.mpr ⟨some a, hkept, rfl, next, hcell, rfl⟩
          have hsplit : kept ++ (a, v) :: l = kept ++ [(a, v)] ++ l := List.append_cons ..
          obtain ⟨h', head', hrun, hchain, hframe⟩ := ih _ hlen hkept' hl (by rwa [← hsplit])
          refine ⟨h', head', ?_, ?_, ?_⟩
          · rw [List.getLast?_concat, Option.map_some] at hrun
            simp only [unlinkLoop, hcell, hflag, Bool.false_eq_true, if_false]
            rw [hrun]
            simp [hflag]
          · rw [List.append_assoc] at hchain
            simpa [hflag] using hchain
          · rw [hsplit]
            exact hframe
      | true =>
          obtain ⟨h₁, head₁, hdrop, hkept₁, hl₁, hframe₁⟩ := unlinkLoop_drop hkept hcell hl hflag hnd
          have hsub : ((kept ++ l).map Prod.fst).Sublist ((kept ++ (a, v) :: l).map Prod.fst) :=
            (List.Sublist.append_left (List.sublist_cons_self _ _) kept).map Prod.fst
          obtain ⟨h', head', hrun, hchain, hframe⟩ := ih kept hlen hkept₁ hl₁ (hsub.nodup hnd)
          refine ⟨h', head', ?_, ?_, fun x hx => ?_⟩
          · rw [hdrop, hrun]
            simp [hflag]
          · simpa [hflag] using hchain
          · rw [hframe x (fun hmem => hx (hsub.subset hmem)), hframe₁ x hx]

/-- Unlinking leaves the cells without the flag, in their order. -/
theorem unlinkLoop_spec {flag : V → Bool} {fuel : Nat} {h : Heap V} {p : Option Nat}
    {l : List (Nat × V)} (hchain : Chain h p l) (hnd : (l.map Prod.fst).Nodup)
    (hfuel : l.length ≤ fuel) :
    ∃ h' p', unlinkLoop flag fuel h p none p = some (h', p', (l.map Prod.snd).filter flag) ∧
      Chain h' p' (l.filter (fun e => !flag e.2)) ∧ ∀ a, a ∉ l.map Prod.fst → h' a = h a :=
  unlinkLoop_from l [] hfuel rfl hchain hnd

/-- Rewriting leaves every cell where it is, with its new value. -/
theorem mapLoop_spec {f : V → V} (l : List (Nat × V)) :
    ∀ {fuel : Nat} {h : Heap V} {p : Option Nat}, Chain h p l → (l.map Prod.fst).Nodup →
      l.length ≤ fuel →
      ∃ h', mapLoop f fuel h p = some h' ∧ Chain h' p (l.map (fun e => (e.1, f e.2))) ∧
        ∀ a, a ∉ l.map Prod.fst → h' a = h a := by
  induction l with
  | nil =>
      intro fuel h p hchain _ _
      obtain rfl : p = none := hchain
      refine ⟨h, ?_, rfl, fun _ _ => rfl⟩
      cases fuel <;> rfl
  | cons e l ih =>
      intro fuel h p hchain hnd hfuel
      obtain ⟨rfl, next, hcell, hl⟩ := hchain
      obtain ⟨fuel, rfl⟩ : ∃ n, fuel = n + 1 := Nat.exists_eq_add_one.mpr (by simp at hfuel; omega)
      rw [List.map_cons, List.nodup_cons] at hnd
      obtain ⟨h', hrun, hchain', hframe⟩ := ih (hl.frame hnd.1 (some ⟨f e.2, next⟩)) hnd.2
        (by simpa using hfuel)
      refine ⟨h', ?_, ⟨rfl, next, ?_, hchain'⟩, fun x hx => ?_⟩
      · simp only [mapLoop, hcell]
        exact hrun
      · rw [hframe e.1 hnd.1, Function.update_self]
      · rw [List.map_cons, List.mem_cons, not_or] at hx
        rw [hframe x hx.2, Function.update_of_ne hx.1]

/-- Rewriting allocates no cell. -/
theorem mapLoop_free {f : V → V} (fuel : Nat) :
    ∀ {h h' : Heap V} {p : Option Nat}, mapLoop f fuel h p = some h' → ∀ {a}, h a = none → h' a = none := by
  induction fuel with
  | zero =>
      intro h h' p hrun a ha
      cases p with
      | none =>
          obtain rfl : h = h' := by simpa [mapLoop] using hrun
          exact ha
      | some b => simp [mapLoop] at hrun
  | succ fuel ih =>
      intro h h' p hrun a ha
      cases p with
      | none =>
          obtain rfl : h = h' := by simpa [mapLoop] using hrun
          exact ha
      | some b =>
          cases hb : h b with
          | none => simp [mapLoop, hb] at hrun
          | some cell =>
              simp only [mapLoop, hb] at hrun
              apply ih hrun
              have hab : a ≠ b := by
                rintro rfl
                simp [ha] at hb
              rw [Function.update_of_ne hab]
              exact ha

/-- The search returns the first cell that passes the test. -/
theorem findLoop_spec {test : V → Bool} {h : Heap V} (l : List (Nat × V)) :
    ∀ {fuel : Nat} {p : Option Nat}, Chain h p l → l.length ≤ fuel →
      findLoop test fuel h p = some ((l.find? (fun e => test e.2)).map Prod.fst) := by
  induction l with
  | nil =>
      intro fuel p hchain _
      obtain rfl : p = none := hchain
      cases fuel <;> rfl
  | cons e l ih =>
      intro fuel p hchain hfuel
      obtain ⟨rfl, next, hcell, hl⟩ := hchain
      obtain ⟨fuel, rfl⟩ : ∃ n, fuel = n + 1 := Nat.exists_eq_add_one.mpr (by simp at hfuel; omega)
      simp only [findLoop, hcell]
      cases htest : test e.2 with
      | true => simp [htest]
      | false =>
          rw [List.find?_cons_of_neg (by simp [htest])]
          exact ih hl (by simpa using hfuel)

/-- Reading returns the values of the list in their order. -/
theorem readLoop_spec {h : Heap V} (l : List (Nat × V)) :
    ∀ {fuel : Nat} {p : Option Nat}, Chain h p l → l.length ≤ fuel →
      readLoop fuel h p = some (l.map Prod.snd) := by
  induction l with
  | nil =>
      intro fuel p hchain _
      obtain rfl : p = none := hchain
      cases fuel <;> rfl
  | cons e l ih =>
      intro fuel p hchain hfuel
      obtain ⟨rfl, next, hcell, hl⟩ := hchain
      obtain ⟨fuel, rfl⟩ : ∃ n, fuel = n + 1 := Nat.exists_eq_add_one.mpr (by simp at hfuel; omega)
      simp only [readLoop, hcell]
      rw [ih hl (by simpa using hfuel)]
      rfl

/-! ## Tables of lists -/

variable {n : Nat}

/-- The lists of a table: each runs through cells of its own. -/
structure ChainTable (h : Heap V) (heads : Fin n → Option Nat) (chains : Fin n → List (Nat × V)) :
    Prop where
  chain : ∀ i, Chain h (heads i) (chains i)
  distinct : ∀ i, ((chains i).map Prod.fst).Nodup
  apart : ∀ i j, i ≠ j → ∀ a ∈ (chains i).map Prod.fst, a ∉ (chains j).map Prod.fst

/-- The cells of a list are allocated. -/
theorem Seg.allocated {h : Heap V} {l : List (Nat × V)} :
    ∀ {p q : Option Nat}, Seg h p l q → ∀ a ∈ l.map Prod.fst, h a ≠ none := by
  induction l with
  | nil => exact fun _ a ha => absurd ha List.not_mem_nil
  | cons e l ih =>
      rintro p q ⟨-, next, hcell, hl⟩ a ha
      rcases List.mem_cons.mp ha with rfl | ha
      · rw [hcell]
        exact Option.some_ne_none _
      · exact ih hl a ha

/-- One list is replaced by another made of its cells, or of cells of no list. -/
theorem ChainTable.replace {h h' : Heap V} {heads : Fin n → Option Nat}
    {chains : Fin n → List (Nat × V)} (ht : ChainTable h heads chains) {i : Fin n} {p : Option Nat}
    {l : List (Nat × V)} (hchain : Chain h' p l) (hnd : (l.map Prod.fst).Nodup)
    (hother : ∀ j, j ≠ i → ∀ a ∈ (chains j).map Prod.fst, a ∉ l.map Prod.fst ∧ h' a = h a) :
    ChainTable h' (Function.update heads i p) (Function.update chains i l) := by
  constructor
  case chain =>
    intro j
    by_cases hj : j = i
    · subst hj
      rw [Function.update_self, Function.update_self]
      exact hchain
    · rw [Function.update_of_ne hj, Function.update_of_ne hj]
      exact (ht.chain j).congr (fun a ha => (hother j hj a ha).2)
  case distinct =>
    intro j
    by_cases hj : j = i
    · subst hj
      rw [Function.update_self]
      exact hnd
    · rw [Function.update_of_ne hj]
      exact ht.distinct j
  case apart =>
    intro j k hjk a ha hka
    by_cases hj : j = i <;> by_cases hk : k = i
    · exact hjk (hj.trans hk.symm)
    · subst hj
      rw [Function.update_self] at ha
      rw [Function.update_of_ne hk] at hka
      exact (hother k hk a hka).1 ha
    · subst hk
      rw [Function.update_of_ne hj] at ha
      rw [Function.update_self] at hka
      exact (hother j hj a ha).1 hka
    · rw [Function.update_of_ne hj] at ha
      rw [Function.update_of_ne hk] at hka
      exact ht.apart j k hjk a ha hka

/-- A list of the table gets a new cell in front. -/
theorem ChainTable.push {h : Heap V} {heads : Fin n → Option Nat} {chains : Fin n → List (Nat × V)}
    (ht : ChainTable h heads chains) {a : Nat} (hfree : h a = none) (i : Fin n) (v : V) :
    ChainTable (Function.update h a (some ⟨v, heads i⟩)) (Function.update heads i (some a))
      (Function.update chains i ((a, v) :: chains i)) := by
  have hout : ∀ j, a ∉ (chains j).map Prod.fst := fun j hmem => (ht.chain j).allocated a hmem hfree
  refine ht.replace ((ht.chain i).push (hout i) v) ?_ (fun j hj x hx => ?_)
  · rw [List.map_cons, List.nodup_cons]
    exact ⟨hout i, ht.distinct i⟩
  · have hxa : x ≠ a := by
      rintro rfl
      exact hout j hx
    rw [List.map_cons, List.mem_cons, not_or]
    exact ⟨⟨hxa, ht.apart j i hj x hx⟩, Function.update_of_ne hxa _ _⟩

/-- A cell that is there gets a new value. -/
theorem ChainTable.write {h : Heap V} {heads : Fin n → Option Nat} {chains : Fin n → List (Nat × V)}
    (ht : ChainTable h heads chains) {a : Nat} {c : Cell V} (hcell : h a = some c) (f : V → V) :
    ChainTable (Function.update h a (some ⟨f c.val, c.next⟩)) heads
      (fun i => (chains i).map (fun e => if e.1 = a then (e.1, f e.2) else e)) := by
  have hkeys : ∀ i, ((chains i).map (fun e => if e.1 = a then (e.1, f e.2) else e)).map Prod.fst =
      (chains i).map Prod.fst := by
    intro i
    rw [List.map_map]
    refine List.map_congr_left (fun e _ => ?_)
    show (if e.1 = a then (e.1, f e.2) else e).1 = e.1
    split <;> rfl
  constructor
  case chain => exact fun i => (ht.chain i).write hcell f
  case distinct =>
    intro i
    rw [hkeys]
    exact ht.distinct i
  case apart =>
    intro i j hij x hx
    rw [hkeys] at hx ⊢
    exact ht.apart i j hij x hx

/-- `for (i = 0; i < n; i++)` around a loop over the list of bucket `i`, with what
the loop puts out. -/
def bucketLoop {O : Type} (op : Heap V → Option Nat → Option (Heap V × Option Nat × List O)) :
    List (Fin n) → Heap V → (Fin n → Option Nat) →
      Option (Heap V × (Fin n → Option Nat) × List O)
  | [], h, heads => some (h, heads, [])
  | i :: is, h, heads =>
      match op h (heads i) with
      | none => none
      | some (h, p, out) =>
          (bucketLoop op is h (Function.update heads i p)).map (fun r => (r.1, r.2.1, out ++ r.2.2))

/-- What every round keeps of the heap is kept. -/
theorem bucketLoop_keeps {O : Type}
    {op : Heap V → Option Nat → Option (Heap V × Option Nat × List O)} {P : Heap V → Prop}
    (hop : ∀ {h p r}, op h p = some r → P h → P r.1) (is : List (Fin n)) :
    ∀ {h : Heap V} {heads : Fin n → Option Nat} {r : Heap V × (Fin n → Option Nat) × List O},
      bucketLoop op is h heads = some r → P h → P r.1 := by
  induction is with
  | nil =>
      intro h heads r hrun hP
      obtain rfl := Option.some.inj hrun
      exact hP
  | cons i is ih =>
      intro h heads r hrun hP
      cases hround : op h (heads i) with
      | none => simp [bucketLoop, hround] at hrun
      | some q =>
          simp only [bucketLoop, hround] at hrun
          obtain ⟨r', hrest, rfl⟩ := Option.map_eq_some_iff.mp hrun
          have hkept : P r'.1 := ih hrest (hop hround hP)
          exact hkept

/-- What a loop makes of one list, it makes of the lists of all buckets it is run
on. -/
theorem bucketLoop_spec {O : Type} {op : Heap V → Option Nat → Option (Heap V × Option Nat × List O)}
    {F : List (Nat × V) → List (Nat × V)} {G : List (Nat × V) → List O} {bound : Nat}
    (hF : ∀ l, ((F l).map Prod.fst).Sublist (l.map Prod.fst))
    (hop : ∀ h p l, Chain h p l → (l.map Prod.fst).Nodup → l.length ≤ bound →
      ∃ h' p', op h p = some (h', p', G l) ∧ Chain h' p' (F l) ∧
        ∀ a, a ∉ l.map Prod.fst → h' a = h a)
    (is : List (Fin n)) :
    ∀ {h : Heap V} {heads : Fin n → Option Nat} {chains : Fin n → List (Nat × V)},
      ChainTable h heads chains → (∀ i, (chains i).length ≤ bound) → is.Nodup →
      ∃ h' heads', bucketLoop op is h heads = some (h', heads', is.flatMap (fun i => G (chains i))) ∧
        ChainTable h' heads' (fun i => if i ∈ is then F (chains i) else chains i) := by
  induction is with
  | nil =>
      intro h heads chains ht _ _
      exact ⟨h, heads, rfl, by simpa using ht⟩
  | cons i is ih =>
      intro h heads chains ht hbound hnd
      rw [List.nodup_cons] at hnd
      obtain ⟨h₁, p, hrun, hchain, hframe⟩ := hop h (heads i) (chains i) (ht.chain i) (ht.distinct i)
        (hbound i)
      have ht₁ : ChainTable h₁ (Function.update heads i p)
          (Function.update chains i (F (chains i))) := by
        refine ht.replace hchain ((hF _).nodup (ht.distinct i)) (fun j hj a ha => ?_)
        have hout : a ∉ (chains i).map Prod.fst := ht.apart j i hj a ha
        exact ⟨fun hmem => hout ((hF _).subset hmem), hframe a hout⟩
      have hbound₁ : ∀ j, (Function.update chains i (F (chains i)) j).length ≤ bound := by
        intro j
        by_cases hj : j = i
        · subst hj
          rw [Function.update_self]
          have hle := (hF (chains j)).length_le
          rw [List.length_map, List.length_map] at hle
          exact hle.trans (hbound j)
        · rw [Function.update_of_ne hj]
          exact hbound j
      obtain ⟨h', heads', hrest, ht'⟩ := ih ht₁ hbound₁ hnd.2
      -- the other buckets are as they were before this round
      have hsame : ∀ j ∈ is, Function.update chains i (F (chains i)) j = chains j := by
        intro j hj
        refine Function.update_of_ne ?_ _ _
        rintro rfl
        exact hnd.1 hj
      refine ⟨h', heads', ?_, ?_⟩
      · simp only [bucketLoop, hrun, hrest, Option.map_some, List.flatMap_cons]
        rw [List.flatMap_congr (fun j hj => by rw [hsame j hj])]
      · convert ht' using 2 with j
        by_cases hji : j = i
        · subst hji
          simp [hnd.1]
        · simp [hji]

/-- Unlinking in all buckets. -/
theorem ChainTable.unlink {h : Heap V} {heads : Fin n → Option Nat} {chains : Fin n → List (Nat × V)}
    (ht : ChainTable h heads chains) {bound : Nat} (hbound : ∀ i, (chains i).length ≤ bound)
    (flag : V → Bool) :
    ∃ h' heads', bucketLoop (fun h p => unlinkLoop flag bound h p none p) (List.finRange n) h heads =
        some (h', heads', (List.finRange n).flatMap (fun i => ((chains i).map Prod.snd).filter flag)) ∧
      ChainTable h' heads' (fun i => (chains i).filter (fun e => !flag e.2)) := by
  have hkeys : ∀ l : List (Nat × V),
      ((l.filter (fun e => !flag e.2)).map Prod.fst).Sublist (l.map Prod.fst) :=
    fun l => List.filter_sublist.map Prod.fst
  obtain ⟨h', heads', hrun, ht'⟩ := bucketLoop_spec hkeys
    (fun h p l hchain hnd hlen => unlinkLoop_spec hchain hnd hlen) (List.finRange n) ht hbound
    (List.nodup_finRange n)
  exact ⟨h', heads', hrun, by simpa using ht'⟩

/-- Rewriting in all buckets. -/
theorem ChainTable.map {h : Heap V} {heads : Fin n → Option Nat} {chains : Fin n → List (Nat × V)}
    (ht : ChainTable h heads chains) {bound : Nat} (hbound : ∀ i, (chains i).length ≤ bound)
    (f : V → V) :
    ∃ h' heads' out, bucketLoop (O := Unit) (fun h p => (mapLoop f bound h p).map (fun h => (h, p, [])))
        (List.finRange n) h heads = some (h', heads', out) ∧
      ChainTable h' heads' (fun i => (chains i).map (fun e => (e.1, f e.2))) := by
  have hkeys : ∀ l : List (Nat × V),
      ((l.map (fun e => (e.1, f e.2))).map Prod.fst).Sublist (l.map Prod.fst) := by
    intro l
    rw [List.map_map]
    exact List.Sublist.refl _
  have hop : ∀ (h : Heap V) (p : Option Nat) (l : List (Nat × V)), Chain h p l →
      (l.map Prod.fst).Nodup → l.length ≤ bound →
      ∃ h' p', (mapLoop f bound h p).map (fun h => (h, p, ([] : List Unit))) = some (h', p', []) ∧
        Chain h' p' (l.map (fun e => (e.1, f e.2))) ∧ ∀ a, a ∉ l.map Prod.fst → h' a = h a := by
    intro h p l hchain hnd hlen
    obtain ⟨h', hrun, hchain', hframe⟩ := mapLoop_spec l hchain hnd hlen
    refine ⟨h', p, ?_, hchain', hframe⟩
    rw [hrun]
    rfl
  obtain ⟨h', heads', hrun, ht'⟩ := bucketLoop_spec hkeys hop (List.finRange n) ht hbound
    (List.nodup_finRange n)
  exact ⟨h', heads', _, hrun, by simpa using ht'⟩

/-- Reading all buckets. -/
theorem ChainTable.read {h : Heap V} {heads : Fin n → Option Nat} {chains : Fin n → List (Nat × V)}
    (ht : ChainTable h heads chains) {bound : Nat} (hbound : ∀ i, (chains i).length ≤ bound)
    (is : List (Fin n)) :
    (bucketLoop (fun h p => (readLoop bound h p).map (fun out => (h, p, out))) is h heads).map
        (fun r => r.2.2) =
      some (is.flatMap (fun i => (chains i).map Prod.snd)) := by
  induction is with
  | nil => rfl
  | cons i is ih =>
      have hread := readLoop_spec (chains i) (ht.chain i) (hbound i)
      have hsame : Function.update heads i (heads i) = heads := Function.update_eq_self i heads
      obtain ⟨r, hrest, hout⟩ := Option.map_eq_some_iff.mp ih
      simp only [bucketLoop, hread, Option.map_some, hsame, hrest, hout, List.flatMap_cons]

end OpenAppFilter.Base
