import OpenAppFilter.Kernel.RegexpSearch

/-!
# What a host pattern means

The patterns without classes: characters, `.`, escaped characters, each with at
most one quantifier, and the two anchors. Such a pattern has a language, and
`regexp_match` answers whether a word of it occurs in the text — shortest first
or longest first, whatever the node blocks held before.

A pattern compiles to a chain whose nodes accept what its atoms stand for; the
rest is what the matcher does with any chain (`matchhere_iff`).
-/

namespace OpenAppFilter.Theorems

open Base Kernel Computability

/-! ## Patterns and their languages -/

/-- The characters with a meaning of their own. -/
def isMeta (c : Char) : Bool :=
  c = '\\' || c = '.' || c = '^' || c = '$' || c = '*' || c = '+' || c = '?' || c = '['

/-- One character of a pattern. -/
inductive Atom where
  | lit (c : Char) (plain : isMeta c = false)
  | dot
  | esc (c : Char) (noClass : c ≠ 'd' ∧ c ≠ 'D')

/-- An atom with its quantifier. -/
structure Item where
  atom : Atom
  quant : Quant

/-- A pattern that is not empty. -/
structure Pattern where
  atStart : Bool
  items : List Item
  atEnd : Bool
  nonempty : atStart = true ∨ items ≠ [] ∨ atEnd = true

def Atom.text : Atom → CStr
  | .lit c _ => [c]
  | .dot => ['.']
  | .esc c _ => ['\\', c]

def quantText : Quant → CStr
  | .one => []
  | .star => ['*']
  | .plus => ['+']
  | .ques => ['?']

/-- The pattern as it is written. -/
def Pattern.text (p : Pattern) : CStr :=
  (if p.atStart then ['^'] else []) ++ p.items.flatMap (fun i => i.atom.text ++ quantText i.quant) ++
    (if p.atEnd then ['$'] else [])

/-- The characters an atom stands for. -/
def Atom.Matches : Atom → Char → Prop
  | .lit c _, d => d = c
  | .dot, _ => True
  | .esc c _, d => d = c

def Item.language (i : Item) : Language Char := i.quant.language (letters i.atom.Matches)

/-- The language of a pattern, without its anchors. -/
def Pattern.language (p : Pattern) : Language Char := (p.items.map Item.language).prod

/-! ## Compiled patterns -/

/-- A node that matches what the atom stands for and is no anchor and no
quantifier. -/
def NodeFor (a : Atom) (re : Re) : Prop :=
  (re.type = .char ∨ re.type = .dot) ∧ ∀ c, matchOne re c = true ↔ a.Matches c

/-- The nodes a list of items compiles to. -/
inductive Nodes : List Item → List Re → Prop
  | nil : Nodes [] []
  | one {a re is res} : NodeFor a re → Nodes is res → Nodes (⟨a, .one⟩ :: is) (re :: res)
  | quant {a q re rq is res} : NodeFor a re → Quant.ofType rq.type = some q → Nodes is res →
      Nodes (⟨a, q⟩ :: is) (re :: rq :: res)

/-- The node of the anchor at the end. -/
def stopNode : Re := { type := .stop, ch := '$'.toNat }

def tailNodes (atEnd : Bool) : List Re := if atEnd then [stopNode] else []

theorem NodeFor.accepted {a : Atom} {re : Re} (h : NodeFor a re) :
    accepted re = letters a.Matches := by
  unfold Kernel.accepted
  congr 1
  funext c
  exact propext (h.2 c)

theorem NodeFor.type_ne {a : Atom} {re : Re} (h : NodeFor a re) :
    re.type ≠ .stop ∧ re.type ≠ .begin ∧ Quant.ofType re.type = none := by
  rcases h.1 with h | h
  · rw [h]
    exact ⟨by decide, by decide, rfl⟩
  · rw [h]
    exact ⟨by decide, by decide, rfl⟩

/-- The nodes of items and of the final anchor start neither with a quantifier
nor with the anchor `^`. -/
theorem Nodes.head_type {is : List Item} {res : List Re} (h : Nodes is res) (atEnd : Bool)
    {re : Re} {rest : List Re} (heq : res ++ tailNodes atEnd = re :: rest) :
    Quant.ofType re.type = none ∧ re.type ≠ .begin := by
  cases h with
  | nil =>
      cases atEnd with
      | false => simp [tailNodes] at heq
      | true =>
          obtain ⟨rfl, -⟩ : stopNode = re ∧ _ := by simpa [tailNodes] using heq
          exact ⟨rfl, by decide⟩
  | one hre _ =>
      obtain ⟨rfl, -⟩ := List.cons.inj heq
      exact ⟨hre.type_ne.2.2, hre.type_ne.2.1⟩
  | quant hre _ _ =>
      obtain ⟨rfl, -⟩ := List.cons.inj heq
      exact ⟨hre.type_ne.2.2, hre.type_ne.2.1⟩

/-- As a chain, the nodes of a pattern are its items. -/
theorem Nodes.chain {is : List Item} {res : List Re} (h : Nodes is res) (atEnd : Bool) :
    chainLanguage (chain (res ++ tailNodes atEnd)) = (is.map Item.language).prod ∧
      chainStop (res ++ tailNodes atEnd) = atEnd := by
  induction h with
  | nil => cases atEnd <;> exact ⟨rfl, rfl⟩
  | @one a re is res hre hres ih =>
      obtain ⟨hlang, hstop⟩ := ih
      rw [List.map_cons, List.prod_cons, List.cons_append]
      cases hnodes : res ++ tailNodes atEnd with
      | nil =>
          rw [hnodes] at hlang hstop
          rw [← hlang, ← hstop]
          simp [Kernel.chain, chainStop, chainLanguage, hre.type_ne.1, hre.accepted, Item.language,
            Quant.language]
      | cons q rest =>
          rw [hnodes] at hlang hstop
          rw [← hlang, ← hstop]
          have hq := (hres.head_type atEnd hnodes).1
          simp [Kernel.chain, chainStop, chainLanguage, hq, hre.accepted, Item.language,
            Quant.language]
  | @quant a q re rq is res hre hq hres ih =>
      obtain ⟨hlang, hstop⟩ := ih
      constructor
      · rw [List.map_cons, List.prod_cons, ← hlang]
        simp [Kernel.chain, chainLanguage, hq, hre.accepted, Item.language]
      · simp [chainStop, hq, hstop]

/-! ## Compiling a pattern -/

/-- A character that opens neither an escape nor a class. -/
theorem compileFrom_plain (heap : Heap) (i : Nat) {c : Char} (hesc : c ≠ '\\') (hcls : c ≠ '[')
    (rest : CStr) :
    compileFrom heap i .item (c :: rest) =
      (compileFrom heap (i + 1) .item rest).cons (plainNode (heap i) c) := by
  rw [compileFrom]
  · intro heq _
    exact hesc heq
  · intro _ _ heq _
    exact hesc heq
  · intro _ heq _
    exact hcls heq
  · intro heq
    exact hcls heq

theorem matchOne_charNode (c d : Char) : matchOne (charNode c) d = true ↔ d = c := by
  have hcode : ((d.toNat : Int) = (c.toNat : Int)) ↔ d = c := by
    rw [Int.ofNat_inj, Char.toNat_inj]
  unfold matchOne charNode inList
  simp [hcode]

theorem nodeFor_charNode {a : Atom} {c : Char} (ha : ∀ d, a.Matches d ↔ d = c) :
    NodeFor a (charNode c) := by
  refine ⟨Or.inl rfl, ?_⟩
  intro d
  rw [matchOne_charNode, ha]

theorem compileFrom_atom (heap : Heap) (i : Nat) (a : Atom) (rest : CStr) :
    ∃ re, NodeFor a re ∧ compileFrom heap i .item (a.text ++ rest) =
      (compileFrom heap (i + 1) .item rest).cons re := by
  cases a with
  | lit c plain =>
      have hne : ∀ d, isMeta d = true → c ≠ d := by
        rintro d hd rfl
        rw [plain] at hd
        exact Bool.false_ne_true hd
      refine ⟨charNode c, nodeFor_charNode (fun d => Iff.rfl), ?_⟩
      have hnode : plainNode (heap i) c = charNode c := by
        unfold plainNode
        rw [if_neg (hne '.' (by decide)), if_neg (hne '^' (by decide)),
          if_neg (hne '$' (by decide)), if_neg (hne '*' (by decide)),
          if_neg (hne '+' (by decide)), if_neg (hne '?' (by decide))]
      rw [← hnode]
      exact compileFrom_plain heap i (hne '\\' (by decide)) (hne '[' (by decide)) rest
  | dot =>
      refine ⟨plainNode (heap i) '.', ⟨Or.inr rfl, ?_⟩, ?_⟩
      · intro c
        simp [matchOne, plainNode, Atom.Matches]
      · exact compileFrom_plain heap i (by decide) (by decide) rest
  | esc c noClass =>
      refine ⟨charNode c, nodeFor_charNode (fun d => Iff.rfl), ?_⟩
      have hnode : escapeNode (heap i) c = charNode c := by
        unfold escapeNode
        rw [if_neg noClass.1, if_neg noClass.2]
      rw [← hnode]
      rfl

theorem compileFrom_quant (heap : Heap) (i : Nat) {q : Quant} (hq : q ≠ .one) (rest : CStr) :
    ∃ rq : Re, Quant.ofType rq.type = some q ∧ compileFrom heap i .item (quantText q ++ rest) =
      (compileFrom heap (i + 1) .item rest).cons rq := by
  cases q with
  | one => exact absurd rfl hq
  | star => exact ⟨_, rfl, compileFrom_plain heap i (by decide) (by decide) rest⟩
  | plus => exact ⟨_, rfl, compileFrom_plain heap i (by decide) (by decide) rest⟩
  | ques => exact ⟨_, rfl, compileFrom_plain heap i (by decide) (by decide) rest⟩

/-- Items and the final anchor compile to their nodes. -/
theorem compileFrom_items (heap : Heap) (is : List Item) (atEnd : Bool) (i : Nat) :
    ∃ res, Nodes is res ∧
      compileFrom heap i .item (is.flatMap (fun i => i.atom.text ++ quantText i.quant) ++
        (if atEnd then ['$'] else [])) = .nodes (res ++ tailNodes atEnd) := by
  induction is generalizing i with
  | nil =>
      refine ⟨[], Nodes.nil, ?_⟩
      cases atEnd <;> rfl
  | cons item is ih =>
      obtain ⟨a, q⟩ := item
      rw [List.flatMap_cons, List.append_assoc, List.append_assoc]
      obtain ⟨re, hre, hcompile⟩ := compileFrom_atom heap i a
        (quantText q ++ (is.flatMap (fun i => i.atom.text ++ quantText i.quant) ++
          (if atEnd then ['$'] else [])))
      rw [hcompile]
      by_cases hone : q = .one
      · subst hone
        obtain ⟨res, hres, heq⟩ := ih (i + 1)
        refine ⟨re :: res, Nodes.one hre hres, ?_⟩
        rw [quantText, List.nil_append, heq]
        rfl
      · obtain ⟨rq, hrq, hquant⟩ := compileFrom_quant heap (i + 1) hone
          (is.flatMap (fun i => i.atom.text ++ quantText i.quant) ++ (if atEnd then ['$'] else []))
        obtain ⟨res, hres, heq⟩ := ih (i + 1 + 1)
        refine ⟨re :: rq :: res, Nodes.quant hre hrq hres, ?_⟩
        rw [hquant, heq]
        rfl

/-! ## The result -/

/-- What a pattern compiles to. -/
theorem compile_pattern (heap : Heap) (p : Pattern) :
    ∃ re res, compile heap p.text = .nodes (re :: res) ∧ atBegin (re :: res) = p.atStart ∧
      chainLanguage (chain (body (re :: res))) = p.language ∧
      chainStop (body (re :: res)) = p.atEnd := by
  obtain ⟨atStart, is, atEnd, hne⟩ := p
  unfold compile
  cases atStart with
  | true =>
      obtain ⟨res, hres, heq⟩ := compileFrom_items heap is atEnd 1
      refine ⟨{ type := .begin, ch := '^'.toNat }, res ++ tailNodes atEnd, ?_, rfl,
        (hres.chain atEnd).1, (hres.chain atEnd).2⟩
      show compileFrom heap 0 .item ('^' :: (is.flatMap
        (fun i => i.atom.text ++ quantText i.quant) ++ (if atEnd then ['$'] else []))) = _
      rw [compileFrom_plain heap 0 (by decide) (by decide), heq]
      rfl
  | false =>
      obtain ⟨res, hres, heq⟩ := compileFrom_items heap is atEnd 0
      cases hnodes : res ++ tailNodes atEnd with
      | nil =>
          obtain ⟨rfl, htail⟩ := List.append_eq_nil_iff.mp hnodes
          rcases hne.resolve_left Bool.false_ne_true with hne | rfl
          · cases hres
            exact absurd rfl hne
          · simp [tailNodes] at htail
      | cons re rest =>
          have htype := (hres.head_type atEnd hnodes).2
          have hbody : body (re :: rest) = res ++ tailNodes atEnd := by
            rw [hnodes]
            exact if_neg htype
          rw [hnodes] at heq
          refine ⟨re, rest, heq, decide_eq_false htype, ?_, ?_⟩
          · rw [hbody]
            exact (hres.chain atEnd).1
          · rw [hbody]
            exact (hres.chain atEnd).2

/-- **A pattern means its language**: `regexp_match` returns 1 when a word of it
occurs in the text, where the anchors say, and 0 otherwise. -/
theorem regexpMatch_language (heap : Heap) (longest : Bool) (p : Pattern) (text : CStr) :
    (regexpMatch heap longest p.text text = some 1 ↔
      Occurs p.language p.atStart p.atEnd text) ∧
    (regexpMatch heap longest p.text text = some 0 ↔
      ¬ Occurs p.language p.atStart p.atEnd text) := by
  obtain ⟨re, res, hcompile, hstart, hlang, hend⟩ := compile_pattern heap p
  obtain ⟨matched, heq, hiff⟩ := regexpMatch_of_nodes hcompile longest text
  rw [hstart, hlang, hend] at hiff
  rw [heq, ← hiff]
  cases matched <;> simp

-- two of the cases of `TEST_regexp`
example : regexpMatch (fun _ => ⟨0, '\x00'⟩) false ".*baidu.com$".toList
    "www.baidu.com".toList = some 1 := by decide +kernel

example : regexpMatch (fun _ => ⟨0, '\x00'⟩) false "^sina.com".toList
    "www.sina.com.cn".toList = some 0 := by decide +kernel

end OpenAppFilter.Theorems
