import OpenAppFilter.Base.Run
import Mathlib.Logic.Function.Basic
import Mathlib.Data.Sum.Basic
import Mathlib.Data.List.Forall2

/-!
# Sessions on a resource that one process holds at a time

A process opens the resource, puts the pieces of a message into a buffer one
after the other, and closes it; closing carries the buffer out. While one
process holds the resource the others wait, and events that have nothing to do
with the resource happen at any moment. A piece that is refused ends its
message: the process closes with what it has put in so far.

Whatever the order of the steps, the state is the one whole messages lead to,
carried out one at a time in the order of the closings (`run_state`), and every
process finds its messages carried out in its own order (`run_sent`).
-/

namespace OpenAppFilter.Base

variable {ι α β σ ε : Type*}

/-- What can be done with the resource: a buffer to start from, putting a piece
into a buffer, carrying a buffer out, and the events beside. -/
structure Resource (α β σ ε : Type*) where
  empty : β
  put : β → α → Option β
  carryOut : σ → β → σ
  event : σ → ε → σ

/-- The holder with its buffer and the pieces it still has, and the messages
every process has yet to open the resource for. -/
structure Sessions (ι α β σ : Type*) where
  state : σ
  holder : Option (ι × β × List α) := none
  scripts : ι → List (List α)

namespace Resource

variable (R : Resource α β σ ε)

/-- The buffer a message leaves. -/
def fill : β → List α → β
  | buf, [] => buf
  | buf, a :: as =>
      match R.put buf a with
      | none => buf
      | some buf => fill buf as

/-- A whole message carried out, or an event beside. -/
def serialStep (s : σ) : (ι × β) ⊕ ε → σ
  | .inl m => R.carryOut s m.2
  | .inr e => R.event s e

/-- The buffers of a process in a history. -/
def sentBy [DecidableEq ι] (p : ι) (h : List ((ι × β) ⊕ ε)) : List β :=
  h.filterMap (fun x => x.getLeft?.bind (fun m => if m.1 = p then some m.2 else none))

theorem mem_sentBy [DecidableEq ι] {p : ι} {m : β} {h : List ((ι × β) ⊕ ε)} :
    m ∈ sentBy p h ↔ Sum.inl (p, m) ∈ h := by
  unfold sentBy
  rw [List.mem_filterMap]
  constructor
  · rintro ⟨x, hx, heq⟩
    cases x with
    | inr e => cases heq
    | inl x =>
        obtain ⟨q, b⟩ := x
        by_cases hq : q = p
        · have hb : b = m := by simpa [hq] using heq
          rw [← hq, ← hb]
          exact hx
        · simp [hq] at heq
  · intro hmem
    exact ⟨_, hmem, by simp⟩

/-- The buffer the holder is going to carry out, if the holder is `p`. -/
def held [DecidableEq ι] (holder : Option (ι × β × List α)) (p : ι) : List β :=
  match holder with
  | none => []
  | some (q, buf, rest) => if q = p then [R.fill buf rest] else []

/-- The buffers a process is still going to carry out. -/
def waiting [DecidableEq ι] (s : Sessions ι α β σ) (p : ι) : List β :=
  R.held s.holder p ++ (s.scripts p).map (R.fill R.empty)

section Step

variable [DecidableEq ι]

/-- The next step of a process, or an event. A process that has to wait, or is
done, does nothing. -/
def step (s : Sessions ι α β σ) : ι ⊕ ε → Sessions ι α β σ
  | .inr e => { s with state := R.event s.state e }
  | .inl p =>
      match s.holder with
      | none =>
          match s.scripts p with
          | [] => s
          | m :: ms =>
              { s with
                holder := some (p, R.empty, m)
                scripts := Function.update s.scripts p ms }
      | some (q, buf, rest) =>
          if p ≠ q then s
          else
            match rest with
            | [] => { s with state := R.carryOut s.state buf, holder := none }
            | a :: as =>
                match R.put buf a with
                | none => { s with holder := some (q, buf, []) }
                | some buf => { s with holder := some (q, buf, as) }

/-- What a step adds to the history: a message when its process closes. -/
def trace (s : Sessions ι α β σ) : ι ⊕ ε → List ((ι × β) ⊕ ε)
  | .inr e => [.inr e]
  | .inl p =>
      match s.holder with
      | some (q, buf, []) => if p = q then [.inl (q, buf)] else []
      | _ => []

/-- The history of a run. -/
def history (s : Sessions ι α β σ) : List (ι ⊕ ε) → List ((ι × β) ⊕ ε)
  | [] => []
  | a :: as => trace s a ++ history (R.step s a) as

theorem step_state (s : Sessions ι α β σ) (a : ι ⊕ ε) :
    (R.step s a).state = run R.serialStep s.state (trace s a) := by
  obtain ⟨state, holder, scripts⟩ := s
  cases a with
  | inr e => rfl
  | inl p =>
      match holder with
      | none =>
          unfold step trace
          dsimp only
          split
          · rfl
          · rfl
      | some (q, buf, []) =>
          unfold step trace
          by_cases hp : p = q
          · simp [hp, serialStep]
          · simp [hp]
      | some (q, buf, a :: as) =>
          unfold step trace
          by_cases hp : p = q
          · simp only [hp, ne_eq, not_true_eq_false, if_false, run_nil]
            split
            · rfl
            · rfl
          · simp [hp]

theorem step_events (s : Sessions ι α β σ) (a : ι ⊕ ε) :
    (trace s a).filterMap Sum.getRight? = a.getRight?.toList := by
  obtain ⟨state, holder, scripts⟩ := s
  cases a with
  | inr e => rfl
  | inl p =>
      match holder with
      | none => rfl
      | some (q, buf, []) =>
          unfold trace
          dsimp only
          split
          · rfl
          · rfl
      | some (q, buf, a :: as) => rfl

/-- A step sends a buffer, or leaves what the process is going to send. -/
theorem step_sent (s : Sessions ι α β σ) (a : ι ⊕ ε) (p : ι) :
    sentBy p (trace s a) ++ R.waiting (R.step s a) p = R.waiting s p := by
  obtain ⟨state, holder, scripts⟩ := s
  cases a with
  | inr e => rfl
  | inl r =>
      match holder with
      | none =>
          unfold step trace waiting
          dsimp only
          cases hscript : scripts r with
          | nil => rfl
          | cons m ms =>
              by_cases hr : r = p
              · subst hr
                simp [sentBy, held, hscript]
              · simp [sentBy, held, hr, Ne.symm hr]
      | some (q, buf, []) =>
          unfold step trace waiting
          by_cases hr : r = q
          · by_cases hq : q = p
            · simp [hr, hq, sentBy, held, fill]
            · simp [hr, hq, sentBy, held]
          · simp [hr, sentBy]
      | some (q, buf, a :: as) =>
          unfold step trace waiting
          by_cases hr : r = q
          · cases hput : R.put buf a with
            | none => simp [hr, sentBy, held, fill, hput]
            | some buf' => simp [hr, sentBy, held, fill, hput]
          · simp [hr, sentBy]

theorem sentBy_append (p : ι) (h h' : List ((ι × β) ⊕ ε)) :
    sentBy p (h ++ h') = sentBy p h ++ sentBy p h' := List.filterMap_append

/-- **The state is that of whole messages carried out one at a time.** -/
theorem run_state (as : List (ι ⊕ ε)) : ∀ s : Sessions ι α β σ,
    (run R.step s as).state = run R.serialStep s.state (R.history s as) := by
  induction as with
  | nil => exact fun _ => rfl
  | cons a as ih =>
      intro s
      rw [run_cons, ih, R.step_state, history, run_append]

/-- **Every process finds its messages carried out in its own order**, the rest
still to come. -/
theorem run_sent (p : ι) (as : List (ι ⊕ ε)) : ∀ s : Sessions ι α β σ,
    sentBy p (R.history s as) ++ R.waiting (run R.step s as) p = R.waiting s p := by
  induction as with
  | nil => exact fun _ => rfl
  | cons a as ih =>
      intro s
      rw [run_cons, history, sentBy_append, List.append_assoc, ih, R.step_sent]

/-- The events beside stand in the history as they happened. -/
theorem run_events (as : List (ι ⊕ ε)) : ∀ s : Sessions ι α β σ,
    (R.history s as).filterMap Sum.getRight? = as.filterMap Sum.getRight? := by
  induction as with
  | nil => exact fun _ => rfl
  | cons a as ih =>
      intro s
      rw [history, List.filterMap_append, step_events, ih, List.filterMap_cons]
      cases a with
      | inl p => rfl
      | inr e => rfl

/-- What holds of every buffer the processes are going to carry out holds of
those in the history. -/
theorem history_forall {P : β → Prop} {s : Sessions ι α β σ}
    (h : ∀ p, ∀ buf ∈ R.waiting s p, P buf) (as : List (ι ⊕ ε)) {p : ι} {buf : β}
    (hmem : Sum.inl (p, buf) ∈ R.history s as) : P buf := by
  apply h p buf
  rw [← R.run_sent p as s]
  exact List.mem_append_left _ (mem_sentBy.mpr hmem)

end Step

/-! ## What the buffers stand for -/

section Lift

variable {μ : Type*} {rel : β → μ → Prop}

/-- Where every buffer of a process stands for something, so does the history,
process by process in order. -/
theorem lift_sent [DecidableEq ι] : ∀ (h : List ((ι × β) ⊕ ε)) (w : ι → List β) (ms : ι → List μ),
    (∀ p, List.Forall₂ rel (sentBy p h ++ w p) (ms p)) →
    ∃ h' : List ((ι × μ) ⊕ ε),
      List.Forall₂ (Sum.LiftRel (fun x y => x.1 = y.1 ∧ rel x.2 y.2) Eq) h h' ∧
      ∀ p, ∃ rest, List.Forall₂ rel (w p) rest ∧ sentBy p h' ++ rest = ms p := by
  intro h
  induction h with
  | nil =>
      intro w ms hrel
      exact ⟨[], .nil, fun p => ⟨ms p, hrel p, rfl⟩⟩
  | cons x h ih =>
      intro w ms hrel
      cases x with
      | inr e =>
          obtain ⟨h', hlift, hsent⟩ := ih w ms hrel
          exact ⟨.inr e :: h', .cons (.inr rfl) hlift, hsent⟩
      | inl x =>
          obtain ⟨q, b⟩ := x
          -- the sender's next buffer stands for its next message
          have hhead : ∃ m rest, ms q = m :: rest ∧ rel b m ∧
              List.Forall₂ rel (sentBy q h ++ w q) rest := by
            have hq := hrel q
            have hcons : sentBy q (Sum.inl (q, b) :: h) = b :: sentBy q h := by
              simp [sentBy]
            rw [hcons, List.cons_append, List.forall₂_cons_left_iff] at hq
            obtain ⟨m, rest, hm, hrest, heq⟩ := hq
            exact ⟨m, rest, heq, hm, hrest⟩
          obtain ⟨m, rest, hms, hm, hrest⟩ := hhead
          have hother : ∀ p, List.Forall₂ rel (sentBy p h ++ w p)
              (Function.update ms q rest p) := by
            intro p
            by_cases hp : p = q
            · subst hp
              rw [Function.update_self]
              exact hrest
            · rw [Function.update_of_ne hp]
              have hskip : sentBy p (Sum.inl (q, b) :: h) = sentBy p h := by
                simp [sentBy, Ne.symm hp]
              have hp' := hrel p
              rwa [hskip] at hp'
          obtain ⟨h', hlift, hsent⟩ := ih w (Function.update ms q rest) hother
          refine ⟨.inl (q, m) :: h', .cons (.inl ⟨rfl, hm⟩) hlift, ?_⟩
          intro p
          obtain ⟨rest', hw, heq⟩ := hsent p
          refine ⟨rest', hw, ?_⟩
          by_cases hp : p = q
          · subst hp
            rw [Function.update_self] at heq
            rw [hms, ← heq]
            simp [sentBy]
          · rw [Function.update_of_ne hp] at heq
            rw [← heq]
            simp [sentBy, Ne.symm hp]

/-- Two histories that agree up to what the buffers stand for, have the same
events. -/
theorem lift_events {h : List ((ι × β) ⊕ ε)} {h' : List ((ι × μ) ⊕ ε)}
    (hlift : List.Forall₂ (Sum.LiftRel (fun x y => x.1 = y.1 ∧ rel x.2 y.2) Eq) h h') :
    h'.filterMap Sum.getRight? = h.filterMap Sum.getRight? := by
  induction hlift with
  | nil => rfl
  | cons hx _ ih =>
      cases hx with
      | inl _ => simpa [List.filterMap_cons] using ih
      | inr he =>
          subst he
          simpa [List.filterMap_cons] using ih

end Lift

end Resource

end OpenAppFilter.Base
