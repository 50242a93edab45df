import Mathlib.Data.List.Basic

/-!
# Runs of a step function

A system is a state type, an event type and a total step function. A run is
a list of events taken from a start state. The two shapes of statement used
about runs are

* `EveryStep P` — at every event of the run, `P` holds of the state the event
  meets and of the event itself;
* an invariant carried along the run while every event meets a side
  condition (`run_invariant`, `EveryStep.of_invariant`).
-/

namespace OpenAppFilter.Base

variable {σ ε : Type*} {step : σ → ε → σ}

/-- The state reached from `s` by the events, in order. -/
def run (step : σ → ε → σ) (s : σ) (es : List ε) : σ := es.foldl step s

@[simp] theorem run_nil (s : σ) : run step s [] = s := rfl

@[simp] theorem run_cons (s : σ) (e : ε) (es : List ε) :
    run step s (e :: es) = run step (step s e) es := rfl

theorem run_append (s : σ) (es fs : List ε) :
    run step s (es ++ fs) = run step (run step s es) fs := by
  simp [run, List.foldl_append]

/-- `P` holds at every event of the run, in the state that event meets. -/
def EveryStep (step : σ → ε → σ) (P : σ → ε → Prop) (s : σ) (es : List ε) : Prop :=
  ∀ pre e post, es = pre ++ e :: post → P (run step s pre) e

theorem everyStep_nil {P : σ → ε → Prop} (s : σ) : EveryStep step P s [] := by
  intro pre e post h
  simp at h

/-- A property of every event splits into the first event and the rest. -/
theorem everyStep_cons {P : σ → ε → Prop} {s : σ} {e : ε} {es : List ε} :
    EveryStep step P s (e :: es) ↔ P s e ∧ EveryStep step P (step s e) es := by
  constructor
  · intro h
    refine ⟨h [] e es rfl, ?_⟩
    intro pre e' post heq
    exact h (e :: pre) e' post (by rw [heq]; rfl)
  · rintro ⟨hhead, htail⟩ pre e' post heq
    cases pre with
    | nil =>
        simp only [List.nil_append, List.cons.injEq] at heq
        obtain ⟨rfl, -⟩ := heq
        exact hhead
    | cons e₀ pre =>
        simp only [List.cons_append, List.cons.injEq] at heq
        obtain ⟨rfl, heq⟩ := heq
        exact htail pre e' post heq

/-- A property that can be decided at each event can be decided along a run. -/
instance decidableEveryStep {P : σ → ε → Prop} [∀ s e, Decidable (P s e)] :
    ∀ (s : σ) (es : List ε), Decidable (EveryStep step P s es)
  | s, [] => .isTrue (everyStep_nil s)
  | s, e :: es =>
      have : Decidable (EveryStep step P (step s e) es) := decidableEveryStep (step s e) es
      decidable_of_iff (P s e ∧ EveryStep step P (step s e) es) everyStep_cons.symm

/-- Properties that agree at every event agree on every run. -/
theorem everyStep_congr {P Q : σ → ε → Prop} (h : ∀ s e, P s e ↔ Q s e) (s : σ)
    (es : List ε) : EveryStep step P s es ↔ EveryStep step Q s es := by
  constructor
  · intro hP pre e post heq
    exact (h _ e).mp (hP pre e post heq)
  · intro hQ pre e post heq
    exact (h _ e).mpr (hQ pre e post heq)

/-- The states in which the run meets the events with the property, in order. -/
def statesAt (step : σ → ε → σ) (p : ε → Bool) : σ → List ε → List σ
  | _, [] => []
  | s, e :: es => if p e then s :: statesAt step p (step s e) es else statesAt step p (step s e) es

theorem statesAt_length (p : ε → Bool) (es : List ε) : ∀ s : σ,
    (statesAt step p s es).length = es.countP p := by
  induction es with
  | nil => exact fun _ => rfl
  | cons e es ih =>
      intro s
      rw [statesAt, List.countP_cons]
      by_cases he : p e = true
      · rw [if_pos he, if_pos he, List.length_cons, ih]
      · rw [if_neg he, if_neg he, ih, Nat.add_zero]

/-- An invariant kept by every event that meets the side condition `C` holds
after every run whose events all meet `C`. -/
theorem run_invariant {I : σ → Prop} {C : σ → ε → Prop}
    (hstep : ∀ s e, I s → C s e → I (step s e)) {s : σ} {es : List ε} (h0 : I s)
    (hC : EveryStep step C s es) : I (run step s es) := by
  induction es generalizing s with
  | nil => exact h0
  | cons e es ih =>
      obtain ⟨hhead, htail⟩ := everyStep_cons.mp hC
      exact ih (hstep s e h0 hhead) htail

/-- What an invariant gives at one event, it gives at every event of a run
whose events all meet the side condition. -/
theorem EveryStep.of_invariant {I : σ → Prop} {C P : σ → ε → Prop}
    (hstep : ∀ s e, I s → C s e → I (step s e)) (huse : ∀ s e, I s → C s e → P s e)
    {s : σ} {es : List ε} (h0 : I s) (hC : EveryStep step C s es) :
    EveryStep step P s es := by
  induction es generalizing s with
  | nil => exact everyStep_nil s
  | cons e es ih =>
      obtain ⟨hhead, htail⟩ := everyStep_cons.mp hC
      exact everyStep_cons.mpr ⟨huse s e h0 hhead, ih (hstep s e h0 hhead) htail⟩

/-- The same for a loop that can fail: what every round keeps holds of the state
the whole loop returns. -/
theorem foldlM_invariant {f : σ → ε → Option σ} {I : σ → Prop}
    (hstep : ∀ s e s', f s e = some s' → I s → I s') (es : List ε) :
    ∀ {s s' : σ}, es.foldlM f s = some s' → I s → I s' := by
  induction es with
  | nil =>
      intro s s' h h0
      obtain rfl : s = s' := Option.some.inj h
      exact h0
  | cons e es ih =>
      intro s s' h h0
      rw [List.foldlM_cons] at h
      obtain ⟨s₁, h₁, hrest⟩ := Option.bind_eq_some_iff.mp h
      exact ih hrest (hstep s e s₁ h₁ h0)

end OpenAppFilter.Base
