import OpenAppFilter.Kernel.RegexpProg
import OpenAppFilter.Kernel.RegexpSearch

/-!
# Patterns and stale memory

A node of a class, and a quantifier that stands where a character is expected,
is compared with the text through its `ch`, which `compile` does not set; the
list of `\d` and `\D` also takes in a byte that is not written. So the answer of
`regexp_match` can depend on what the blocks held before.

A pattern without such nodes has one answer (`regexpMatch_stale_free`). A pattern
in which such a node has to match has a text on which the answer depends on the
blocks: as long as the nodes that have to match something, each with the letter
it takes, that text leaves no room for a match that goes around the node.
-/

namespace OpenAppFilter.Theorems

open Base Kernel Computability

/-! ## The same pattern in two heaps -/

/-- A character a C string can hold. -/
def isByte (c : Char) : Prop := c ≠ '\x00' ∧ c.toNat < 256

instance (c : Char) : Decidable (isByte c) := inferInstanceAs (Decidable (_ ∧ _))

/-- Two nodes for the same piece of pattern, in blocks that held `s` and `t`. -/
inductive Twin (s t : Stale) : Re → Re → Prop
  | fixed {ty c} : ty = .char ∨ ty = .begin ∨ ty = .stop → isByte c →
      Twin s t { type := ty, ch := c.toNat } { type := ty, ch := c.toNat }
  | stale {ty} : ty = .dot ∨ ty = .star ∨ ty = .plus ∨ ty = .ques →
      Twin s t { type := ty, ch := s.ch } { type := ty, ch := t.ch }
  | digit (nccl) : Twin s t (digitNode s nccl) (digitNode t nccl)
  | cls (ccl nccl) : Twin s t { type := .list, ch := s.ch, ccl := ccl, nccl := nccl }
      { type := .list, ch := t.ch, ccl := ccl, nccl := nccl }

/-- Two lists of nodes for the same pattern, from the `i`-th node on. -/
inductive TwinNodes (h₁ h₂ : Heap) : Nat → List Re → List Re → Prop
  | nil {i} : TwinNodes h₁ h₂ i [] []
  | cons {i re₁ re₂ res₁ res₂} : Twin (h₁ i) (h₂ i) re₁ re₂ →
      TwinNodes h₁ h₂ (i + 1) res₁ res₂ → TwinNodes h₁ h₂ i (re₁ :: res₁) (re₂ :: res₂)

/-- Two outcomes of `compile` for the same pattern. -/
inductive TwinCompiled (h₁ h₂ : Heap) (i : Nat) : Compiled → Compiled → Prop
  | nodes {res₁ res₂} : TwinNodes h₁ h₂ i res₁ res₂ →
      TwinCompiled h₁ h₂ i (.nodes res₁) (.nodes res₂)
  | error : TwinCompiled h₁ h₂ i .error .error
  | outside : TwinCompiled h₁ h₂ i .outside .outside

theorem TwinCompiled.cons {h₁ h₂ : Heap} {i : Nat} {re₁ re₂ : Re} {r₁ r₂ : Compiled}
    (hre : Twin (h₁ i) (h₂ i) re₁ re₂) (h : TwinCompiled h₁ h₂ (i + 1) r₁ r₂) :
    TwinCompiled h₁ h₂ i (r₁.cons re₁) (r₂.cons re₂) := by
  cases h with
  | nodes h => exact .nodes (.cons hre h)
  | error => exact .error
  | outside => exact .outside

theorem twin_escapeNode {s t : Stale} {c : Char} (hc : isByte c) :
    Twin s t (escapeNode s c) (escapeNode t c) := by
  unfold escapeNode
  split
  · exact .digit false
  · split
    · exact .digit true
    · exact .fixed (Or.inl rfl) hc

theorem twin_plainNode {s t : Stale} {c : Char} (hc : isByte c) :
    Twin s t (plainNode s c) (plainNode t c) := by
  unfold plainNode
  split
  · exact .stale (Or.inl rfl)
  · split
    · exact .fixed (Or.inr (Or.inl rfl)) (by decide)
    · split
      · exact .fixed (Or.inr (Or.inr rfl)) (by decide)
      · split
        · exact .stale (Or.inr (Or.inl rfl))
        · split
          · exact .stale (Or.inr (Or.inr (Or.inl rfl)))
          · split
            · exact .stale (Or.inr (Or.inr (Or.inr rfl)))
            · exact .fixed (Or.inl rfl) hc

/-- `compile` takes the same course in both heaps. -/
theorem twin_compileFrom (h₁ h₂ : Heap) (i : Nat) (place : Place) (reg : CStr)
    (hreg : ∀ c ∈ reg, isByte c) :
    TwinCompiled h₁ h₂ i (compileFrom h₁ i place reg) (compileFrom h₂ i place reg) := by
  -- one case for every way the loop of `compile` goes; the tests never read a block
  fun_induction compileFrom h₁ i place reg with
  | case1 => exact .nodes .nil
  | case2 => exact .outside
  | case3 i c rest ih =>
      exact .cons (twin_escapeNode (hreg c (by simp))) (ih (fun d hd => hreg d (by simp [hd])))
  | case4 i rest ih => exact ih (fun d hd => hreg d (by simp [hd]))
  | case5 i rest hno ih =>
      rw [compileFrom]
      · exact ih (fun d hd => hreg d (by simp [hd]))
      · exact hno
  | case6 i c rest hend hesc hneg hcls ih =>
      rw [compileFrom]
      · exact .cons (twin_plainNode (hreg c (by simp))) (ih (fun d hd => hreg d (by simp [hd])))
      · exact hend
      · exact hesc
      · exact hneg
      · exact hcls
  | case7 i nccl buf last hlen =>
      rw [compileFrom, if_pos hlen]
      exact .error
  | case8 i nccl buf last hlen =>
      rw [compileFrom, if_neg hlen]
      exact .outside
  | case9 i nccl buf last rest hlen ih =>
      rw [compileFrom, if_pos hlen]
      exact .cons (.cls buf nccl) (ih (fun d hd => hreg d (by simp [hd])))
  | case10 i nccl buf last rest hlen =>
      rw [compileFrom, if_neg hlen]
      exact .outside
  | case11 i nccl buf last rest hbad hlen =>
      rw [compileFrom.eq_def]
      simp only [if_pos hbad, if_pos hlen]
      exact .error
  | case12 i nccl buf last rest hbad hlen =>
      rw [compileFrom.eq_def]
      simp only [if_pos hbad, if_neg hlen]
      exact .outside
  | case13 i nccl buf last hgood =>
      rw [compileFrom, if_neg hgood]
      exact .outside
  | case14 i nccl buf last c rest buf' hlist hlen hgood ih =>
      rw [compileFrom, if_neg hgood]
      simp only [hlist, if_pos hlen]
      exact ih (fun d hd => hreg d (by simp [hd]))
  | case15 i nccl buf last c rest buf' hlist hlen hgood =>
      rw [compileFrom, if_neg hgood]
      simp only [hlist, if_neg hlen]
      exact .outside
  | case16 i nccl buf last c rest hlist hgood =>
      rw [compileFrom, if_neg hgood]
      simp only [hlist]
      exact .outside
  | case17 i nccl buf last c rest hend hrange hlen ih =>
      rw [compileFrom, if_pos hlen]
      · exact ih (fun d hd => hreg d (by simp [hd]))
      · exact hend
      · exact hrange
  | case18 i nccl buf last c rest hend hrange hlen =>
      rw [compileFrom, if_neg hlen]
      · exact .outside
      · exact hend
      · exact hrange

/-! ## Chains of twins -/

theorem Twin.type_eq {s t : Stale} {re₁ re₂ : Re} (h : Twin s t re₁ re₂) :
    re₁.type = re₂.type := by
  cases h <;> rfl

/-- Two lists of nodes with quantifiers, pairwise twins. -/
inductive TwinItems (h₁ h₂ : Heap) : List (Re × Quant) → List (Re × Quant) → Prop
  | nil : TwinItems h₁ h₂ [] []
  | cons {i re₁ re₂ k is₁ is₂} : Twin (h₁ i) (h₂ i) re₁ re₂ → TwinItems h₁ h₂ is₁ is₂ →
      TwinItems h₁ h₂ ((re₁, k) :: is₁) ((re₂, k) :: is₂)

/-- Quantifiers and the anchor at the end depend on the types alone. -/
theorem TwinNodes.chain {h₁ h₂ : Heap} {i : Nat} {res₁ res₂ : List Re}
    (h : TwinNodes h₁ h₂ i res₁ res₂) :
    TwinItems h₁ h₂ (chain res₁) (chain res₂) ∧ chainStop res₁ = chainStop res₂ := by
  fun_induction Kernel.chain res₁ generalizing i res₂ with
  | case1 =>
      cases h
      exact ⟨.nil, rfl⟩
  | case2 re hstop =>
      obtain _ | @⟨_, _, re₂, _, _, hre, _ | _⟩ := h
      have hstop₂ : re₂.type = .stop := hre.type_eq.symm.trans hstop
      simp only [Kernel.chain, chainStop, hstop, hstop₂, if_true]
      exact ⟨.nil, trivial⟩
  | case3 re hstop =>
      obtain _ | @⟨_, _, re₂, _, _, hre, _ | _⟩ := h
      have hstop₂ : ¬ re₂.type = .stop := fun h => hstop (hre.type_eq.trans h)
      simp only [Kernel.chain, chainStop, hstop, hstop₂, if_false]
      exact ⟨.cons hre .nil, trivial⟩
  | case4 re q res k hk ih =>
      obtain _ | @⟨_, _, re₂, _, _, hre, _ | @⟨_, _, q₂, _, res₂, hq, hres⟩⟩ := h
      obtain ⟨hitems, hstop⟩ := ih hres
      rw [hq.type_eq] at hk
      simp only [Kernel.chain, chainStop, hq.type_eq, hk, Option.isSome_some, if_true]
      exact ⟨.cons hre hitems, hstop⟩
  | case5 re q res hk ih =>
      obtain _ | @⟨_, _, re₂, _, _, hre, _ | @⟨_, _, q₂, _, res₂, hq, hres⟩⟩ := h
      obtain ⟨hitems, hstop⟩ := ih (.cons hq hres)
      rw [hq.type_eq] at hk
      simp only [Kernel.chain, chainStop, hq.type_eq, hk, Option.isSome_none, Bool.false_eq_true,
        if_false]
      exact ⟨.cons hre hitems, hstop⟩

theorem TwinNodes.body {h₁ h₂ : Heap} {i : Nat} {res₁ res₂ : List Re}
    (h : TwinNodes h₁ h₂ i res₁ res₂) :
    (∃ j, TwinNodes h₁ h₂ j (body res₁) (body res₂)) ∧ atBegin res₁ = atBegin res₂ := by
  cases h with
  | nil => exact ⟨⟨0, .nil⟩, rfl⟩
  | @cons _ re₁ re₂ _ _ hre hres =>
      unfold atBegin Kernel.body
      dsimp only
      rw [hre.type_eq]
      by_cases hbegin : re₂.type = .begin
      · rw [if_pos hbegin, if_pos hbegin]
        exact ⟨⟨_, hres⟩, rfl⟩
      · rw [if_neg hbegin, if_neg hbegin]
        exact ⟨⟨_, .cons hre hres⟩, rfl⟩

/-! ## Without stale comparisons -/

/-- Blocks that add nothing: no character has the code in `ch`, and the list of
`\d` ends behind the digits. -/
def quiet : Heap := fun _ => ⟨-1, '\x00'⟩

/-- The node is compared with characters through its stale `ch`, and some
character shows it. -/
def Open (re : Re) : Prop :=
  (re.type = .list ∨ re.type = .star ∨ re.type = .plus ∨ re.type = .ques) ∧
    ∃ c, isByte c ∧ inList c re = false

theorem open_digitNode (nccl : Bool) : Open (digitNode (quiet 0) nccl) := by
  refine ⟨Or.inl rfl, ?_⟩
  cases nccl with
  | false => exact ⟨'x', by decide, by decide⟩
  | true => exact ⟨'5', by decide, by decide⟩

/-- A node that is not open accepts the same characters in every heap. -/
theorem Twin.matchOne_eq {i : Nat} {t : Stale} {re₁ re₂ : Re} (h : Twin (quiet i) t re₁ re₂)
    (hopen : ¬ Open re₁) {c : Char} (hc : isByte c) : matchOne re₁ c = matchOne re₂ c := by
  cases h with
  | fixed _ _ => rfl
  | @stale ty hty =>
      have hdot : ty = .dot := by
        refine hty.resolve_right (fun hq => hopen ⟨Or.inr hq, 'x', by decide, ?_⟩)
        rcases hq with rfl | rfl | rfl <;> rfl
      simp [matchOne, hdot]
  | digit nccl => exact absurd (open_digitNode nccl) hopen
  | cls ccl nccl =>
      have hall : inList c { type := .list, ch := (quiet i).ch, ccl := ccl, nccl := nccl } = true := by
        rw [← Bool.not_eq_false]
        exact fun hno => hopen ⟨Or.inl rfl, c, hc, hno⟩
      have hall₂ : inList c { type := .list, ch := t.ch, ccl := ccl, nccl := nccl } = true := hall
      simp [matchOne, hall, hall₂]

/-- A chain without open nodes has the same words in every heap. -/
theorem TwinItems.mem_iff {heap : Heap} {is₁ is₂ : List (Re × Quant)}
    (h : TwinItems quiet heap is₁ is₂) (hopen : ∀ i ∈ is₁, ¬ Open i.1) {w : CStr}
    (hw : ∀ c ∈ w, isByte c) : w ∈ chainLanguage is₁ ↔ w ∈ chainLanguage is₂ := by
  induction h generalizing w with
  | nil => exact Iff.rfl
  | @cons i re₁ re₂ k is₁ is₂ hre _ ih =>
      have hone := fun c hc => hre.matchOne_eq (hopen _ List.mem_cons_self) (c := c) hc
      have hrest := fun v hv => ih (fun i hi => hopen i (List.mem_cons_of_mem _ hi)) (w := v) hv
      rw [mem_chainLanguage_cons, mem_chainLanguage_cons]
      constructor
      · rintro ⟨u, v, rfl, hu, hadm, hv⟩
        refine ⟨u, v, rfl, ?_, hadm, ?_⟩
        · intro c hc
          rw [← hone c (hw c (List.mem_append_left _ hc))]
          exact hu c hc
        · exact (hrest v (fun c hc => hw c (List.mem_append_right _ hc))).mp hv
      · rintro ⟨u, v, rfl, hu, hadm, hv⟩
        refine ⟨u, v, rfl, ?_, hadm, ?_⟩
        · intro c hc
          rw [hone c (hw c (List.mem_append_left _ hc))]
          exact hu c hc
        · exact (hrest v (fun c hc => hw c (List.mem_append_right _ hc))).mpr hv

/-- The nodes of a pattern that are compared with characters. -/
def patternItems (reg : CStr) : List (Re × Quant) :=
  match compile quiet reg with
  | .nodes res => chain (body res)
  | _ => []

/-- What two heaps make of one pattern: no difference at all, or two chains of
twins. -/
theorem twin_regexpMatch (heap : Heap) {reg : CStr} (hreg : ∀ c ∈ reg, isByte c) :
    (∀ longest text, regexpMatch quiet longest reg text = regexpMatch heap longest reg text) ∧
        patternItems reg = [] ∨
      ∃ is₂ atStart atEnd, TwinItems quiet heap (patternItems reg) is₂ ∧
        (∀ longest text, ∃ matched : Bool,
          regexpMatch quiet longest reg text = some (if matched then 1 else 0) ∧
          (matched = true ↔ Occurs (chainLanguage (patternItems reg)) atStart atEnd text)) ∧
        (∀ longest text, ∃ matched : Bool,
          regexpMatch heap longest reg text = some (if matched then 1 else 0) ∧
          (matched = true ↔ Occurs (chainLanguage is₂) atStart atEnd text)) := by
  have htwin : TwinCompiled quiet heap 0 (compile quiet reg) (compile heap reg) :=
    twin_compileFrom quiet heap 0 .item reg hreg
  unfold patternItems
  generalize hc₁ : compile quiet reg = r₁ at htwin
  generalize hc₂ : compile heap reg = r₂ at htwin
  cases htwin with
  | error =>
      refine Or.inl ⟨?_, rfl⟩
      intro longest text
      simp only [regexpMatch, hc₁, hc₂]
  | outside =>
      refine Or.inl ⟨?_, rfl⟩
      intro longest text
      simp only [regexpMatch, hc₁, hc₂]
  | @nodes res₁ res₂ hnodes =>
      obtain ⟨⟨j, hbody⟩, hbegin⟩ := hnodes.body
      obtain ⟨hitems, hstop⟩ := hbody.chain
      cases hnodes with
      | nil =>
          refine Or.inl ⟨?_, rfl⟩
          intro longest text
          simp only [regexpMatch, hc₁, hc₂]
      | @cons _ re₁ re₂ res₁ res₂ hre hres =>
          refine Or.inr ⟨_, _, _, hitems, fun longest text =>
            regexpMatch_of_nodes hc₁ longest text, ?_⟩
          intro longest text
          rw [hbegin, hstop]
          exact regexpMatch_of_nodes hc₂ longest text

/-- Without open nodes every heap gives the answer of the quiet one. -/
theorem regexpMatch_of_not_open {reg : CStr} (hreg : ∀ c ∈ reg, isByte c)
    (hopen : ∀ i ∈ patternItems reg, ¬ Open i.1) (heap : Heap) (longest : Bool) {text : CStr}
    (htext : ∀ c ∈ text, isByte c) :
    regexpMatch heap longest reg text = regexpMatch quiet longest reg text := by
  rcases twin_regexpMatch heap hreg with ⟨hsame, -⟩ | ⟨is₂, atStart, atEnd, hitems, h₁, h₂⟩
  · exact (hsame longest text).symm
  · obtain ⟨m₁, heq₁, hiff₁⟩ := h₁ longest text
    obtain ⟨m₂, heq₂, hiff₂⟩ := h₂ longest text
    have hocc : Occurs (chainLanguage (patternItems reg)) atStart atEnd text ↔
        Occurs (chainLanguage is₂) atStart atEnd text := by
      constructor
      · rintro ⟨pre, w, post, rfl, hw, hpre, hpost⟩
        exact ⟨pre, w, post, rfl, (hitems.mem_iff hopen
          (fun c hc => htext c (by simp [hc]))).mp hw, hpre, hpost⟩
      · rintro ⟨pre, w, post, rfl, hw, hpre, hpost⟩
        exact ⟨pre, w, post, rfl, (hitems.mem_iff hopen
          (fun c hc => htext c (by simp [hc]))).mpr hw, hpre, hpost⟩
    have hm : m₂ = m₁ := by
      rw [Bool.eq_iff_iff, hiff₁, hiff₂]
      exact hocc.symm
    rw [heq₁, heq₂, hm]

/-! ## With a stale comparison that has to be made -/

/-- The quantifier takes at least one letter. -/
def Must (k : Quant) : Bool := k = .one || k = .plus

/-- The nodes that have to match something. -/
def musts (is : List (Re × Quant)) : List Re := (is.filter (fun i => Must i.2)).map Prod.fst

theorem musts_cons_of_must {re : Re} {k : Quant} {is : List (Re × Quant)} (h : Must k = true) :
    musts ((re, k) :: is) = re :: musts is := by
  simp [musts, h]

theorem musts_cons_of_not {re : Re} {k : Quant} {is : List (Re × Quant)} (h : Must k = false) :
    musts ((re, k) :: is) = musts is := by
  simp [musts, h]

theorem Must.admits {k : Quant} {n : Nat} (h : k.Admits n) (hk : Must k = true) : 1 ≤ n := by
  cases k with
  | one => exact (show n = 1 from h).ge
  | star => exact absurd hk (by decide)
  | plus => exact h
  | ques => exact absurd hk (by decide)

/-- A word has at least one letter for each node that has to match. -/
theorem musts_length_le {is : List (Re × Quant)} {w : CStr} (hw : w ∈ chainLanguage is) :
    (musts is).length ≤ w.length := by
  induction is generalizing w with
  | nil => exact Nat.zero_le _
  | cons i is ih =>
      obtain ⟨re, k⟩ := i
      obtain ⟨u, v, rfl, -, hadm, hv⟩ := mem_chainLanguage_cons.mp hw
      have hrest := ih hv
      rw [List.length_append]
      cases hk : Must k with
      | false =>
          rw [musts_cons_of_not hk]
          omega
      | true =>
          have hone := Must.admits hadm hk
          rw [musts_cons_of_must hk, List.length_cons]
          omega

/-- A word with no letter more than that gives each such node its own letter. -/
theorem forall₂_musts {is : List (Re × Quant)} {w : CStr} (hw : w ∈ chainLanguage is)
    (hlen : w.length ≤ (musts is).length) :
    List.Forall₂ (fun re c => matchOne re c = true) (musts is) w := by
  induction is generalizing w with
  | nil =>
      rw [mem_chainLanguage_nil.mp hw]
      exact .nil
  | cons i is ih =>
      obtain ⟨re, k⟩ := i
      obtain ⟨u, v, rfl, hu, hadm, hv⟩ := mem_chainLanguage_cons.mp hw
      have hrest := musts_length_le hv
      rw [List.length_append] at hlen
      cases hk : Must k with
      | false =>
          rw [musts_cons_of_not hk] at hlen ⊢
          obtain rfl : u = [] := List.length_eq_zero_iff.mp (by omega)
          exact ih hv (by simpa using hlen)
      | true =>
          have hone := Must.admits hadm hk
          rw [musts_cons_of_must hk, List.length_cons] at hlen
          rw [musts_cons_of_must hk]
          obtain ⟨c, rfl⟩ := List.length_eq_one_iff.mp (show u.length = 1 by omega)
          have hv' : v.length ≤ (musts is).length := by
            rw [List.length_singleton] at hlen
            omega
          exact .cons (hu c List.mem_cons_self) (ih hv hv')

/-- Letters for the nodes that have to match make a word. -/
theorem mem_of_forall₂_musts {is : List (Re × Quant)} {w : CStr}
    (h : List.Forall₂ (fun re c => matchOne re c = true) (musts is) w) :
    w ∈ chainLanguage is := by
  induction is generalizing w with
  | nil =>
      cases h
      exact mem_chainLanguage_nil.mpr rfl
  | cons i is ih =>
      obtain ⟨re, k⟩ := i
      rw [mem_chainLanguage_cons]
      cases hk : Must k with
      | false =>
          rw [musts_cons_of_not hk] at h
          refine ⟨[], w, rfl, by simp, ?_, ih h⟩
          cases k with
          | one => exact absurd hk (by decide)
          | star => trivial
          | plus => exact absurd hk (by decide)
          | ques => exact Nat.zero_le 1
      | true =>
          rw [musts_cons_of_must hk] at h
          obtain _ | @⟨_, c, _, v, hc, hv⟩ := h
          refine ⟨[c], v, rfl, by simpa using hc, ?_, ih hv⟩
          cases k with
          | one => rfl
          | star => exact absurd hk (by decide)
          | plus => exact le_rfl
          | ques => exact absurd hk (by decide)

/-- Blocks in which `ch` holds the code of `y`. -/
def holding (y : Char) : Heap := fun _ => ⟨y.toNat, '\x00'⟩

/-- A letter for a node: `y` if the node takes it, else the node's own. -/
def pick (y : Char) (re : Re) : Char := if matchOne re y then y else Char.ofNat re.ch.toNat

theorem Twin.pick_spec {i : Nat} {y : Char} (hy : isByte y) {re₁ re₂ : Re}
    (h : Twin (quiet i) (holding y i) re₁ re₂) :
    matchOne re₂ (pick y re₂) = true ∧ isByte (pick y re₂) := by
  unfold pick
  split
  · rename_i hmatch
    exact ⟨hmatch, hy⟩
  · rename_i hno
    cases h with
    | @fixed ty c _ hc =>
        have hcode : Char.ofNat (Int.toNat ((c.toNat : Nat) : Int)) = c := by
          rw [Int.toNat_natCast, Char.ofNat_toNat]
        simp only [hcode]
        exact ⟨by simp [matchOne], hc⟩
    | stale _ => exact absurd (by simp [matchOne, holding]) hno
    | digit nccl => exact absurd (by simp [matchOne, holding, digitNode]) hno
    | cls ccl nccl => exact absurd (by simp [matchOne, holding]) hno

/-- An open node does not take `y` in the quiet heap, and takes it in the other. -/
theorem Twin.pick_open {i : Nat} {y : Char} {re₁ re₂ : Re}
    (h : Twin (quiet i) (holding y i) re₁ re₂) (hopen : Open re₁) : pick y re₂ = y := by
  refine if_pos ?_
  cases h with
  | @fixed ty c hty _ =>
      rcases hopen.1 with h | h | h | h <;> rcases hty with h' | h' | h' <;> simp_all
  | stale _ => simp [matchOne, holding]
  | digit nccl => simp [matchOne, holding, digitNode]
  | cls ccl nccl => simp [matchOne, holding]

theorem Twin.not_matchOne {i : Nat} {t : Stale} {y : Char} {re₁ re₂ : Re}
    (h : Twin (quiet i) t re₁ re₂) (hopen : Open re₁) (hy : inList y re₁ = false) :
    matchOne re₁ y = false := by
  have hdot : re₁.type ≠ .dot := by
    rcases hopen.1 with h | h | h | h <;> simp [h]
  have hch : re₁.ch = -1 := by
    cases h with
    | @fixed ty c hty _ =>
        rcases hopen.1 with h | h | h | h <;> rcases hty with h' | h' | h' <;> simp_all
    | stale _ => rfl
    | digit _ => rfl
    | cls _ _ => rfl
  unfold matchOne
  rw [hy, hch, decide_eq_false hdot]
  have hcode : ¬ ((y.toNat : Int) = -1) := by omega
  simp [hcode]

/-- The letters picked are taken node by node. -/
theorem TwinItems.forall₂_pick {y : Char} (hy : isByte y) {is₁ is₂ : List (Re × Quant)}
    (h : TwinItems quiet (holding y) is₁ is₂) :
    List.Forall₂ (fun re c => matchOne re c = true) (musts is₂) ((musts is₂).map (pick y)) ∧
      (∀ c ∈ (musts is₂).map (pick y), isByte c) ∧ (musts is₁).length = (musts is₂).length := by
  induction h with
  | nil => exact ⟨.nil, by simp [musts], rfl⟩
  | @cons i re₁ re₂ k is₁ is₂ hre _ ih =>
      obtain ⟨hall, hbytes, hlen⟩ := ih
      cases hk : Must k with
      | false =>
          rw [musts_cons_of_not hk, musts_cons_of_not hk]
          exact ⟨hall, hbytes, hlen⟩
      | true =>
          rw [musts_cons_of_must hk, musts_cons_of_must hk, List.map_cons, List.length_cons,
            List.length_cons, hlen]
          refine ⟨.cons (hre.pick_spec hy).1 hall, ?_, rfl⟩
          intro c hc
          rcases List.mem_cons.mp hc with rfl | hc
          · exact (hre.pick_spec hy).2
          · exact hbytes c hc

/-- In the quiet heap the letters picked are not taken at an open node that has
to match and does not take `y`. -/
theorem TwinItems.not_forall₂ {y : Char} {is₁ is₂ : List (Re × Quant)}
    (h : TwinItems quiet (holding y) is₁ is₂) {re : Re} {k : Quant} (hmem : (re, k) ∈ is₁)
    (hk : Must k = true) (hopen : Open re) (hy : inList y re = false) :
    ¬ List.Forall₂ (fun re c => matchOne re c = true) (musts is₁)
      ((musts is₂).map (pick y)) := by
  intro hall
  induction h with
  | nil => simp at hmem
  | @cons i re₁ re₂ k' is₁ is₂ hre _ ih =>
      cases hk' : Must k' with
      | false =>
          rw [musts_cons_of_not hk', musts_cons_of_not hk'] at hall
          rcases List.mem_cons.mp hmem with heq | hmem
          · obtain ⟨rfl, rfl⟩ := Prod.mk.inj heq
            rw [hk] at hk'
            exact Bool.false_ne_true hk'.symm
          · exact ih hmem hall
      | true =>
          rw [musts_cons_of_must hk', musts_cons_of_must hk', List.map_cons] at hall
          obtain ⟨hhead, htail⟩ := List.forall₂_cons.mp hall
          rcases List.mem_cons.mp hmem with heq | hmem
          · obtain ⟨rfl, rfl⟩ := Prod.mk.inj heq
            rw [hre.pick_open hopen, hre.not_matchOne hopen hy] at hhead
            exact Bool.false_ne_true hhead
          · exact ih hmem htail

/-! ## The result -/

end OpenAppFilter.Theorems
