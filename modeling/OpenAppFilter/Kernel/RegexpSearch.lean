import OpenAppFilter.Base.Lang
import OpenAppFilter.Kernel.Regexp

/-!
# What the matcher searches for

The matcher's helpers are all of one shape: take a word off the front of the
text and go on with the rest. Each is shown to search for exactly the splits of
its language (`Base.Splits`). A chain of nodes then is a product of languages,
one factor for a node and the quantifier behind it, and perhaps the anchor at
the end; `matchhere` searches for a split of that product, shortest first or
longest first alike.
-/

namespace OpenAppFilter.Kernel

open Base Computability

/-! ## The helpers search for splits -/

@[simp] theorem matchOneP_eq (re : Re) (c : Char) : matchOneP re c = matchOne re c := by
  unfold matchOneP matchOne
  rw [Bool.or_comm, ← Bool.or_assoc]

/-- The characters a node accepts. -/
def accepted (re : Re) : Language Char := letters (fun c => matchOne re c = true)

theorem matchNext_iff {re : Re} {next : CStr → Bool} {text : CStr} :
    matchNext re next text = true ↔ Splits (accepted re) (fun t => next t = true) text := by
  cases text with
  | nil => simp [matchNext, accepted, splits_letters_nil]
  | cons c text => simp [matchNext, accepted, splits_letters_cons]

theorem matchstar_iff {re : Re} {next : CStr → Bool} {text : CStr} :
    matchstar re next text = true ↔ Splits (accepted re)∗ (fun t => next t = true) text := by
  induction text with
  | nil =>
      rw [splits_kstar]
      simp [matchstar, accepted, splits_letters_nil]
  | cons c text ih =>
      rw [splits_kstar]
      unfold accepted at ih ⊢
      rw [splits_letters_cons, ← ih]
      simp [matchstar]

theorem matchplus_iff {re : Re} {next : CStr → Bool} {text : CStr} :
    matchplus re next text = true ↔
      Splits (accepted re * (accepted re)∗) (fun t => next t = true) text := by
  rw [splits_mul]
  induction text with
  | nil => simp [matchplus, accepted, splits_letters_nil]
  | cons c text ih =>
      unfold accepted at ih ⊢
      rw [splits_letters_cons, splits_kstar, ← ih]
      simp [matchplus]

theorem backTo_iff {next : CStr → Bool} {text : CStr} {n : Nat} :
    backTo next text n = true ↔ ∃ m ≤ n, next (text.drop m) = true := by
  induction n with
  | zero => simp [backTo]
  | succ n ih =>
      rw [backTo, Bool.or_eq_true, ih]
      constructor
      · rintro (hlast | ⟨m, hm, hnext⟩)
        · exact ⟨n + 1, le_rfl, hlast⟩
        · exact ⟨m, Nat.le_succ_of_le hm, hnext⟩
      · rintro ⟨m, hm, hnext⟩
        rcases Nat.lt_or_ge n m with hlt | hle
        · rw [show m = n + 1 by omega] at hnext
          exact Or.inl hnext
        · exact Or.inr ⟨m, hle, hnext⟩

theorem matchstarL_iff {re : Re} {next : CStr → Bool} {text : CStr} :
    matchstarL re next text = true ↔ Splits (accepted re)∗ (fun t => next t = true) text := by
  unfold accepted
  rw [splits_kstar_letters]
  exact backTo_iff

theorem matchplusL_iff {re : Re} {next : CStr → Bool} {text : CStr} :
    matchplusL re next text = true ↔
      Splits (accepted re * (accepted re)∗) (fun t => next t = true) text := by
  rw [splits_mul]
  unfold accepted
  cases text with
  | nil => simp [matchplusL, runLength, splits_letters_nil]
  | cons c text =>
      rw [splits_letters_cons, splits_kstar_letters]
      cases hc : matchOne re c with
      | false => simp [matchplusL, runLength, hc]
      | true =>
          have hrun : runLength re (c :: text) = runLength re text + 1 := by
            unfold runLength
            rw [List.takeWhile_cons_of_pos hc, List.length_cons]
          unfold matchplusL
          rw [hrun]
          simp only [List.drop_succ_cons, List.drop_zero, true_and]
          exact backTo_iff

theorem matchques_iff {re : Re} {next : CStr → Bool} {text : CStr} :
    matchques re next text = true ↔
      Splits (1 + accepted re) (fun t => next t = true) text := by
  rw [splits_add, splits_one]
  unfold accepted
  cases text with
  | nil => simp [matchques, splits_letters_nil]
  | cons c text =>
      rw [splits_letters_cons]
      cases hc : matchOne re c with
      | false => simp [matchques, backTo, hc]
      | true =>
          simp only [matchques, hc, if_true, backTo, Bool.or_eq_true, List.drop_succ_cons,
            List.drop_zero, true_and]
          exact or_comm

/-! ## Chains -/

/-- What stands behind a node. -/
inductive Quant where
  | one
  | star
  | plus
  | ques
  deriving DecidableEq

/-- The quantifier a node type stands for. -/
def Quant.ofType : ReType → Option Quant
  | .star => some .star
  | .plus => some .plus
  | .ques => some .ques
  | _ => none

def Quant.language (L : Language Char) : Quant → Language Char
  | .one => L
  | .star => L∗
  | .plus => L * L∗
  | .ques => 1 + L

/-- The nodes of a chain that are compared with characters, each with its
quantifier. -/
def chain : List Re → List (Re × Quant)
  | [] => []
  | [re] => if re.type = .stop then [] else [(re, .one)]
  | re :: q :: res =>
      match Quant.ofType q.type with
      | some k => (re, k) :: chain res
      | none => (re, .one) :: chain (q :: res)

/-- The chain ends in the anchor `$`. -/
def chainStop : List Re → Bool
  | [] => false
  | [re] => decide (re.type = .stop)
  | _ :: q :: res => if (Quant.ofType q.type).isSome then chainStop res else chainStop (q :: res)

/-- The language of a list of nodes with quantifiers. -/
def chainLanguage (items : List (Re × Quant)) : Language Char :=
  (items.map (fun i => i.2.language (accepted i.1))).prod

/-- How many letters a quantifier takes. -/
def Quant.Admits : Quant → Nat → Prop
  | .one, n => n = 1
  | .star, _ => True
  | .plus, n => 1 ≤ n
  | .ques, n => n ≤ 1

theorem mem_accepted {re : Re} {w : CStr} :
    w ∈ accepted re ↔ (∀ c ∈ w, matchOne re c = true) ∧ w.length = 1 := by
  unfold accepted
  rw [mem_letters]
  constructor
  · rintro ⟨c, hc, rfl⟩
    exact ⟨fun d hd => by rw [List.mem_singleton.mp hd]; exact hc, rfl⟩
  · rintro ⟨hall, hlen⟩
    obtain ⟨c, rfl⟩ := List.length_eq_one_iff.mp hlen
    exact ⟨c, hall c List.mem_cons_self, rfl⟩

/-- A word of a quantified node: letters the node accepts, as many as the
quantifier takes. -/
theorem mem_quant_language {re : Re} {k : Quant} {w : CStr} :
    w ∈ k.language (accepted re) ↔ (∀ c ∈ w, matchOne re c = true) ∧ k.Admits w.length := by
  cases k with
  | one => exact mem_accepted
  | star =>
      show w ∈ (accepted re)∗ ↔ _ ∧ True
      unfold accepted
      rw [mem_kstar_letters, and_true]
  | plus =>
      show w ∈ accepted re * (accepted re)∗ ↔ _ ∧ 1 ≤ w.length
      rw [Language.mem_mul]
      constructor
      · rintro ⟨u, hu, v, hv, rfl⟩
        obtain ⟨huall, hulen⟩ := mem_accepted.mp hu
        unfold accepted at hv
        rw [mem_kstar_letters] at hv
        refine ⟨?_, by rw [List.length_append, hulen]; omega⟩
        intro c hc
        rcases List.mem_append.mp hc with hc | hc
        · exact huall c hc
        · exact hv c hc
      · rintro ⟨hall, hlen⟩
        cases w with
        | nil => simp at hlen
        | cons c w =>
            refine ⟨[c], ⟨c, hall c List.mem_cons_self, rfl⟩, w, ?_, rfl⟩
            unfold accepted
            rw [mem_kstar_letters]
            exact fun d hd => hall d (List.mem_cons_of_mem c hd)
  | ques =>
      show w ∈ 1 + accepted re ↔ _ ∧ w.length ≤ 1
      rw [Language.mem_add, Language.mem_one, mem_accepted]
      constructor
      · rintro (rfl | ⟨hall, hlen⟩)
        · simp
        · exact ⟨hall, hlen.le⟩
      · rintro ⟨hall, hlen⟩
        rcases Nat.le_one_iff_eq_zero_or_eq_one.mp hlen with hlen | hlen
        · exact Or.inl (List.length_eq_zero_iff.mp hlen)
        · exact Or.inr ⟨hall, hlen⟩

theorem mem_chainLanguage_cons {i : Re × Quant} {is : List (Re × Quant)} {w : CStr} :
    w ∈ chainLanguage (i :: is) ↔
      ∃ u v, w = u ++ v ∧ (∀ c ∈ u, matchOne i.1 c = true) ∧ i.2.Admits u.length ∧
        v ∈ chainLanguage is := by
  unfold chainLanguage
  rw [List.map_cons, List.prod_cons, Language.mem_mul]
  constructor
  · rintro ⟨u, hu, v, hv, rfl⟩
    obtain ⟨hall, hadm⟩ := mem_quant_language.mp hu
    exact ⟨u, v, rfl, hall, hadm, hv⟩
  · rintro ⟨u, v, rfl, hall, hadm, hv⟩
    exact ⟨u, mem_quant_language.mpr ⟨hall, hadm⟩, v, hv, rfl⟩

theorem mem_chainLanguage_nil {w : CStr} : w ∈ chainLanguage [] ↔ w = [] := Language.mem_one w

theorem matchfun_of_ofType_none {t : ReType} (h : Quant.ofType t = none) (longest : Bool) :
    matchfun t longest = none := by
  cases t <;> simp [Quant.ofType] at h ⊢ <;> rfl

/-- The helper of a quantifier searches for the splits of the quantified
language. -/
theorem matchfun_iff {t : ReType} {k : Quant} (h : Quant.ofType t = some k) (longest : Bool) :
    ∃ f, matchfun t longest = some f ∧ ∀ re next text, f re next text = true ↔
      Splits (k.language (accepted re)) (fun t => next t = true) text := by
  cases t <;> simp only [Quant.ofType, Option.some.injEq, reduceCtorEq] at h <;> subst h
  · cases longest with
    | false => exact ⟨matchstar, rfl, fun _ _ _ => matchstar_iff⟩
    | true => exact ⟨matchstarL, rfl, fun _ _ _ => matchstarL_iff⟩
  · cases longest with
    | false => exact ⟨matchplus, rfl, fun _ _ _ => matchplus_iff⟩
    | true => exact ⟨matchplusL, rfl, fun _ _ _ => matchplusL_iff⟩
  · exact ⟨matchques, rfl, fun _ _ _ => matchques_iff⟩

/-- `matchhere` takes a word of the chain's language off the front, and goes to
the end of the text when the chain says so. -/
theorem matchhere_iff (longest : Bool) (res : List Re) (text : CStr) :
    matchhere longest res text = true ↔
      Splits (chainLanguage (chain res)) (fun rest => chainStop res = true → rest = []) text := by
  -- the recursion of `matchhere`: a single node, a quantified node, a plain node
  fun_induction chain res generalizing text with
  | case1 => simp [matchhere, chainLanguage, chainStop, splits_one]
  | case2 re hstop => simp [matchhere, chainLanguage, chainStop, splits_one, hstop]
  | case3 re hstop =>
      simp only [matchhere, chainLanguage, chainStop, hstop, List.map_cons, List.map_nil,
        List.prod_cons, List.prod_nil, mul_one, Quant.language]
      rw [if_neg (by decide), matchNext_iff]
      simp
  | case4 re q res k hk ih =>
      obtain ⟨f, hf, hsplits⟩ := matchfun_iff hk longest
      rw [matchhere, hf]
      simp only [chainLanguage, List.map_cons, List.prod_cons, splits_mul, chainStop, hk,
        Option.isSome_some, if_true]
      rw [hsplits]
      simp only [ih]
      rfl
  | case5 re q res hk ih =>
      rw [matchhere, matchfun_of_ofType_none hk]
      simp only [chainLanguage, List.map_cons, List.prod_cons, splits_mul, chainStop, hk,
        Option.isSome_none, Bool.false_eq_true, if_false, Quant.language]
      rw [matchNext_iff]
      simp only [ih]
      rfl

/-! ## The answer -/

/-- The nodes that are matched: without the anchor at the start. -/
def body : List Re → List Re
  | [] => []
  | re :: res => if re.type = .begin then res else re :: res

/-- The chain starts with the anchor `^`. -/
def atBegin : List Re → Bool
  | [] => false
  | re :: _ => decide (re.type = .begin)

/-- `regexp_match` on a pattern that compiles: 1 when a word of the chain's
language occurs where the anchors say, and 0 otherwise. -/
theorem regexpMatch_of_nodes {heap : Heap} {reg : CStr} {re : Re} {res : List Re}
    (hcompile : compile heap reg = .nodes (re :: res)) (longest : Bool) (text : CStr) :
    ∃ matched : Bool, regexpMatch heap longest reg text = some (if matched then 1 else 0) ∧
      (matched = true ↔ Occurs (chainLanguage (chain (body (re :: res)))) (atBegin (re :: res))
        (chainStop (body (re :: res))) text) := by
  unfold regexpMatch
  rw [hcompile]
  refine ⟨_, rfl, ?_⟩
  by_cases hbegin : re.type = .begin
  · simp only [body, atBegin, hbegin, if_true, decide_true]
    rw [matchhere_iff, occurs_start_iff]
  · simp only [body, atBegin, hbegin, if_false, decide_false]
    rw [List.any_eq_true, occurs_anywhere_iff]
    simp only [matchhere_iff, occurs_start_iff]

end OpenAppFilter.Kernel
