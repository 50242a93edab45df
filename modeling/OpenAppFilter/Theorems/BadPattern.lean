import OpenAppFilter.Kernel.Dpi
import OpenAppFilter.Kernel.RegexpProg
import OpenAppFilter.Theorems.HttpReads
import OpenAppFilter.Theorems.ServerName

/-!
# Patterns that do not compile

`regexp_match` returns 1 for a match, 0 for none and -1 when `compile` rejects
the pattern. `af_match_by_url` takes the result for a truth value, so a rejected
pattern matches whatever it is tried on.

The engine of `Regexp` is put in the place of the one the matcher is given
(`withEngine`). What a pattern gives with which `compile` leaves its blocks is
left open.
-/

namespace OpenAppFilter.Theorems

open Base Kernel

/-! ## The matcher with its engine -/

/-- The engine of `regexp.c`: `heaps` is the memory each call finds, `undefined`
what comes out where `compile` leaves its blocks. -/
def withEngine (env : Env) (heaps : CStr → CStr → Heap) (longest : Bool)
    (undefined : CStr → CStr → Int) : Env :=
  { env with
    regexpMatch := fun reg text =>
      (regexpMatch (heaps reg text) longest reg text).getD (undefined reg text) }

/-- The text of a field as it is copied for the match. -/
def fieldText (flow : FlowInfo) (field : Option (Nat × Int)) : Option CStr :=
  field.map (fun f => copyText flow.l4Data f.1 (urlCopyLen f.2))

/-- `regexp_match` returns 1 for the pattern on the field. -/
def FieldMatches (env : Env) (flow : FlowInfo) (field : Option (Nat × Int)) (reg : CStr) : Prop :=
  ∃ text, fieldText flow field = some text ∧ env.regexpMatch reg text = 1

/-- `af_match_by_url` returns `AF_TRUE` only for a match of the host or of the
request line. -/
def MatchesOnly (env : Env) (flow : FlowInfo) (node : AfFeatureNode) : Prop :=
  (afMatchByUrl env flow node).1 = true →
    FieldMatches env flow (urlHost flow) node.hostUrl ∨
      FieldMatches env flow (urlRequest flow) node.requestUrl

/-- The pattern is not there, or `compile` makes nodes of it. -/
def Accepted (reg : CStr) : Prop := reg = [] ∨ ∀ heap, ∃ res, compile heap reg = .nodes res

theorem matchField_true {env : Env} {flow : FlowInfo} {field : Option (Nat × Int)} {reg : CStr} :
    (matchField env flow.l4Data field reg).1 = true ↔
      ∃ text, fieldText flow field = some text ∧ text ≠ [] ∧ reg ≠ [] ∧
        env.regexpMatch reg text ≠ 0 := by
  unfold matchField fieldText
  cases field with
  | none => simp
  | some f => simp [and_assoc]

theorem afMatchByUrl_eq (env : Env) (flow : FlowInfo) (node : AfFeatureNode) :
    (afMatchByUrl env flow node).1 =
      ((matchField env flow.l4Data (urlHost flow) node.hostUrl).1 ||
        (matchField env flow.l4Data (urlRequest flow) node.requestUrl).1) := by
  unfold afMatchByUrl
  dsimp only
  cases (matchField env flow.l4Data (urlHost flow) node.hostUrl).1 <;> rfl

/-- `compile` makes at least one node of a pattern that is not empty. -/
theorem compileFrom_nonempty (heap : Heap) (i : Nat) (place : Place) (reg : CStr)
    (h : reg ≠ [] ∨ ∃ nccl buf last, place = .cls nccl buf last) :
    compileFrom heap i place reg ≠ .nodes [] := by
  have hcons : ∀ (re : Re) (c : Compiled), c.cons re ≠ .nodes [] := by
    intro re c
    cases c <;> simp [Compiled.cons]
  fun_induction compileFrom heap i place reg with
  | case1 =>
      rcases h with h | ⟨_, _, _, h⟩
      · exact absurd rfl h
      · exact absurd h (by simp)
  | case3 => exact hcons _ _
  | case4 i rest ih => exact ih (Or.inr ⟨_, _, _, rfl⟩)
  | case5 i rest hno ih => exact ih (Or.inr ⟨_, _, _, rfl⟩)
  | case6 => exact hcons _ _
  | case9 => exact hcons _ _
  | case14 i nccl buf last c rest buf' hlist hlen hgood ih => exact ih (Or.inr ⟨_, _, _, rfl⟩)
  | case17 i nccl buf last c rest hend hrange hlen ih => exact ih (Or.inr ⟨_, _, _, rfl⟩)
  | case2 | case7 | case8 | case10 | case11 | case12 | case13 | case15 | case16 | case18 =>
      simp

/-- An accepted pattern gives 0 or 1. -/
theorem engine_of_accepted {env : Env} {heaps : CStr → CStr → Heap} {longest : Bool}
    {undefined : CStr → CStr → Int} {reg : CStr} (hreg : reg ≠ []) (h : Accepted reg) (text : CStr) :
    (withEngine env heaps longest undefined).regexpMatch reg text = 0 ∨
      (withEngine env heaps longest undefined).regexpMatch reg text = 1 := by
  obtain ⟨res, hres⟩ := (h.resolve_left hreg) (heaps reg text)
  have hnodes : res ≠ [] := by
    rintro rfl
    exact compileFrom_nonempty _ 0 .item reg (Or.inl hreg) hres
  obtain ⟨re, res, rfl⟩ := List.exists_cons_of_ne_nil hnodes
  show (regexpMatch (heaps reg text) longest reg text).getD _ = 0 ∨
    (regexpMatch (heaps reg text) longest reg text).getD _ = 1
  unfold regexpMatch
  rw [hres]
  dsimp only
  rw [Option.getD_some]
  generalize (if re.type = .begin then matchhere longest res text
    else text.tails.any (matchhere longest (re :: res))) = matched
  cases matched with
  | true => exact Or.inr rfl
  | false => exact Or.inl rfl

/-- A pattern that is not accepted gives -1 on every text, in some memory. -/
theorem engine_of_not_accepted (env : Env) (longest : Bool) {reg : CStr} (h : ¬ Accepted reg) :
    reg ≠ [] ∧ ∃ heap : Heap, ∀ text,
      (withEngine env (fun _ _ => heap) longest (fun _ _ => -1)).regexpMatch reg text = -1 := by
  unfold Accepted at h
  push Not at h
  obtain ⟨hreg, heap, hnone⟩ := h
  refine ⟨hreg, heap, fun text => ?_⟩
  show (regexpMatch heap longest reg text).getD (-1) = -1
  unfold regexpMatch
  cases hc : compile heap reg with
  | nodes res => exact absurd hc (hnone res)
  | error => rfl
  | outside => rfl

/-! ## Two flows -/

/-- A flow with a server name and nothing else. -/
def helloFlow : FlowInfo := dpiMain (helloSegment [0])

/-- A flow with a request line and no host. -/
def requestFlow : FlowInfo := dpiMain (textSegment "GET / HTTP/1.0\r\n\r\n".toList)

theorem helloFlow_fields :
    fieldText helloFlow (urlHost helloFlow) = some "a.com".toList ∧ urlRequest helloFlow = none := by
  decide +kernel

theorem requestFlow_fields :
    urlHost requestFlow = none ∧
      fieldText requestFlow (urlRequest requestFlow) = some "/ HTTP/1.0".toList := by
  decide +kernel

/-- **Only a match makes a flow match**, for every flow and whatever the memory
holds, iff `compile` accepts both patterns of the node. -/
theorem url_match_sound_iff (env : Env) (longest : Bool) (node : AfFeatureNode) :
    (∀ flow heaps undefined, MatchesOnly (withEngine env heaps longest undefined) flow node) ↔
      Accepted node.hostUrl ∧ Accepted node.requestUrl := by
  constructor
  · intro h
    constructor
    · by_contra hbad
      obtain ⟨hreg, heap, hrej⟩ := engine_of_not_accepted env longest hbad
      obtain ⟨hhost, hrequest⟩ := helloFlow_fields
      have htrue : (matchField (withEngine env (fun _ _ => heap) longest (fun _ _ => -1))
          helloFlow.l4Data (urlHost helloFlow) node.hostUrl).1 = true :=
        matchField_true.mpr ⟨_, hhost, by decide, hreg, by rw [hrej]; decide⟩
      have hmatch := h helloFlow (fun _ _ => heap) (fun _ _ => -1)
        (by rw [afMatchByUrl_eq, htrue, Bool.true_or])
      rcases hmatch with ⟨text, -, hone⟩ | ⟨text, htext, -⟩
      · rw [hrej] at hone
        exact absurd hone (by decide)
      · rw [hrequest] at htext
        exact absurd htext (by simp [fieldText])
    · by_contra hbad
      obtain ⟨hreg, heap, hrej⟩ := engine_of_not_accepted env longest hbad
      obtain ⟨hhost, hrequest⟩ := requestFlow_fields
      have htrue : (matchField (withEngine env (fun _ _ => heap) longest (fun _ _ => -1))
          requestFlow.l4Data (urlRequest requestFlow) node.requestUrl).1 = true :=
        matchField_true.mpr ⟨_, hrequest, by decide, hreg, by rw [hrej]; decide⟩
      have hmatch := h requestFlow (fun _ _ => heap) (fun _ _ => -1)
        (by rw [afMatchByUrl_eq, htrue, Bool.or_true])
      rcases hmatch with ⟨text, htext, -⟩ | ⟨text, -, hone⟩
      · rw [hhost] at htext
        exact absurd htext (by simp [fieldText])
      · rw [hrej] at hone
        exact absurd hone (by decide)
  · rintro ⟨hhost, hrequest⟩ flow heaps undefined htrue
    rw [afMatchByUrl_eq, Bool.or_eq_true] at htrue
    rcases htrue with hfield | hfield
    · obtain ⟨text, htext, -, hreg, hne⟩ := matchField_true.mp hfield
      exact Or.inl ⟨text, htext, (engine_of_accepted hreg hhost text).resolve_left hne⟩
    · obtain ⟨text, htext, -, hreg, hne⟩ := matchField_true.mp hfield
      exact Or.inr ⟨text, htext, (engine_of_accepted hreg hrequest text).resolve_left hne⟩

/-- A class without its end matches a flow to `a.com`. -/
def openClass : AfFeatureNode := { appId := 1001#32, proto := 6, hostUrl := "[xyz".toList }

theorem rejected_pattern_matches :
    (∀ heap longest text, regexpMatch heap longest openClass.hostUrl text = some (-1)) ∧
      (afMatchByUrl (withEngine routerEnv (fun _ _ _ => ⟨0, 'a'⟩) false (fun _ _ => 0)) helloFlow
        openClass).1 = true ∧
      ¬ MatchesOnly (withEngine routerEnv (fun _ _ _ => ⟨0, 'a'⟩) false (fun _ _ => 0)) helloFlow
        openClass := by
  have hrej : ∀ heap longest text, regexpMatch heap longest openClass.hostUrl text = some (-1) :=
    fun _ _ _ => rfl
  have htrue : (afMatchByUrl (withEngine routerEnv (fun _ _ _ => ⟨0, 'a'⟩) false (fun _ _ => 0))
      helloFlow openClass).1 = true := by
    decide +kernel
  refine ⟨hrej, htrue, fun h => ?_⟩
  rcases h htrue with ⟨text, -, hone⟩ | ⟨text, htext, -⟩
  · have hengine : (withEngine routerEnv (fun _ _ _ => ⟨0, 'a'⟩) false (fun _ _ => 0)).regexpMatch
        openClass.hostUrl text = -1 := by
      unfold withEngine
      dsimp only
      rw [hrej, Option.getD_some]
    rw [hengine] at hone
    exact absurd hone (by decide)
  · rw [helloFlow_fields.2] at htext
    exact absurd htext (by simp [fieldText])

end OpenAppFilter.Theorems
