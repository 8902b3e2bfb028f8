import Mathlib.Data.List.Induction

/-!
# Labelled runs of a step relation

`Run step start events final` is a finite run of a nondeterministic step relation, with the
list of events it performed.  A run grows at its end, so an invariant is proved by saying what
one more step preserves (`Run.invariant`), and a fact about some moment of a run is read off by
cutting the run there (`Run.split`, `Run.at_event`).  `Occurred` says that a run took a certain
step, and `Occurred.after` what follows from it for the end of the run.
-/

namespace Transition

variable {σ ε : Type*} {step : σ → ε → σ → Prop}

/-- A run from `start` performing `events`, ending in the last index. -/
inductive Run (step : σ → ε → σ → Prop) (start : σ) : List ε → σ → Prop
  | nil : Run step start [] start
  | snoc {events : List ε} {s t : σ} {event : ε} :
    Run step start events s → step s event t → Run step start (events ++ [event]) t

/-- **Invariant rule.**  A property of the events so far and the state that holds at the start
and survives one more step holds at the end of every run. -/
theorem Run.invariant {start final : σ} {events : List ε} {P : List ε → σ → Prop}
    (run : Run step start events final) (init : P [] start)
    (preserved : ∀ {events s event t}, Run step start events s → P events s →
      step s event t → P (events ++ [event]) t) :
    P events final := by
  induction run with
  | nil => exact init
  | snoc before last ih => exact preserved before ih last

theorem Run.single {s t : σ} {event : ε} (edge : step s event t) : Run step s [event] t :=
  .snoc .nil edge

theorem Run.trans {s m t : σ} {xs ys : List ε}
    (left : Run step s xs m) (right : Run step m ys t) : Run step s (xs ++ ys) t := by
  induction right with
  | nil => simpa using left
  | snoc _ last ih =>
      rw [← List.append_assoc]
      exact .snoc ih last

/-- A run of a relation is one of any that allows more. -/
theorem Run.mono {step' : σ → ε → σ → Prop} {s t : σ} {events : List ε}
    (more : ∀ {s event t}, step s event t → step' s event t) (run : Run step s events t) :
    Run step' s events t := by
  induction run with
  | nil => exact .nil
  | snoc _ last ih => exact .snoc ih (more last)

/-- A run with no event has not moved. -/
theorem Run.of_nil {s t : σ} (run : Run step s [] t) : t = s := by
  generalize shape : ([] : List ε) = events at run
  cases run with
  | nil => rfl
  | snoc before last => simp at shape

/-- The run before the last event, and that event's step. -/
theorem Run.of_snoc {s t : σ} {xs : List ε} {event : ε}
    (run : Run step s (xs ++ [event]) t) : ∃ m, Run step s xs m ∧ step m event t := by
  generalize shape : xs ++ [event] = events at run
  cases run with
  | nil => simp at shape
  | snoc before last =>
      obtain ⟨rfl, same⟩ := List.append_inj' shape rfl
      cases same
      exact ⟨_, before, last⟩

/-- Cut a run between two of its events. -/
theorem Run.split {s t : σ} {xs ys : List ε} (run : Run step s (xs ++ ys) t) :
    ∃ m, Run step s xs m ∧ Run step m ys t := by
  induction ys using List.reverseRecOn generalizing t with
  | nil => exact ⟨t, by simpa using run, .nil⟩
  | append_singleton ys event ih =>
      rw [← List.append_assoc] at run
      obtain ⟨m, before, last⟩ := run.of_snoc
      obtain ⟨cut, left, right⟩ := ih before
      exact ⟨cut, left, .snoc right last⟩

/-- The step a run takes at one of its events, with the run on each side of it. -/
theorem Run.at_event {s t : σ} {xs ys : List ε} {event : ε}
    (run : Run step s (xs ++ event :: ys) t) :
    ∃ before after, Run step s xs before ∧ step before event after ∧ Run step after ys t := by
  obtain ⟨before, left, right⟩ := run.split
  rw [← List.singleton_append] at right
  obtain ⟨after, first, right⟩ := right.split
  rw [← List.nil_append [event]] at first
  obtain ⟨m, empty, edge⟩ := first.of_snoc
  rw [empty.of_nil] at edge
  exact ⟨before, after, left, edge, right⟩

/-! ## A moment of a run -/

/-- A run performing the events came to a step with the property, given its event and the state
it was taken in. -/
def Occurred (step : σ → ε → σ → Prop) (start : σ) (events : List ε) (final : σ)
    (P : σ → ε → Prop) : Prop :=
  ∃ before event after s t, events = before ++ event :: after ∧ Run step start before s ∧
    step s event t ∧ Run step t after final ∧ P s event

theorem Occurred.now {start s t : σ} {events : List ε} {event : ε} {P : σ → ε → Prop}
    (run : Run step start events s) (edge : step s event t) (holds : P s event) :
    Occurred step start (events ++ [event]) t P :=
  ⟨events, event, [], s, t, rfl, run, edge, .nil, holds⟩

theorem Occurred.snoc {start s t : σ} {events : List ε} {event : ε} {P : σ → ε → Prop}
    (occurred : Occurred step start events s P) (edge : step s event t) :
    Occurred step start (events ++ [event]) t P := by
  obtain ⟨before, first, after, a, b, shape, left, here, right, holds⟩ := occurred
  refine ⟨before, first, after ++ [event], a, b, ?_, left, here, right.snoc edge, holds⟩
  rw [shape, List.append_assoc, List.cons_append]

/-- What such a step establishes and every later step keeps holds at the end. -/
theorem Occurred.after {start final : σ} {events : List ε} {P : σ → ε → Prop} {Q : σ → Prop}
    (occurred : Occurred step start events final P)
    (established : ∀ {events s event t}, Run step start events s → step s event t → P s event →
      Q t)
    (kept : ∀ {events s event t}, Run step start events s → step s event t → Q s → Q t) :
    Q final := by
  obtain ⟨before, event, after, s, t, shape, left, here, right, holds⟩ := occurred
  clear shape
  have reached := left.snoc here
  induction right with
  | nil => exact established left here holds
  | snoc more last ih => exact kept (reached.trans more) last ih

/-! ## The states of a run -/

/-- A run together with the states it visits, its two ends included. -/
inductive Trace (step : σ → ε → σ → Prop) (start : σ) : List ε → List σ → σ → Prop
  | nil : Trace step start [] [start] start
  | snoc {events : List ε} {visited : List σ} {s t : σ} {event : ε} :
    Trace step start events visited s → step s event t →
      Trace step start (events ++ [event]) (visited ++ [t]) t

theorem Trace.run {s t : σ} {events : List ε} {visited : List σ}
    (trace : Trace step s events visited t) : Run step s events t := by
  induction trace with
  | nil => exact .nil
  | snoc _ last ih => exact .snoc ih last

theorem Trace.final_mem {s t : σ} {events : List ε} {visited : List σ}
    (trace : Trace step s events visited t) : t ∈ visited := by
  cases trace with
  | nil => exact List.mem_singleton_self _
  | snoc _ _ => exact List.mem_append_right _ (List.mem_singleton_self _)

/-- A property of states that every step of a trace keeps holds in every state it visits. -/
theorem Trace.forall_visited {s t : σ} {events : List ε} {visited : List σ} {P : σ → Prop}
    (trace : Trace step s events visited t) (start : P s)
    (kept : ∀ {a event b}, event ∈ events → P a → step a event b → P b) :
    ∀ a ∈ visited, P a := by
  induction trace with
  | nil =>
      intro a member
      rw [List.mem_singleton.mp member]
      exact start
  | snoc before last ih =>
      have earlier := ih fun member => kept (List.mem_append_left _ member)
      intro a member
      rcases List.mem_append.mp member with old | new
      · exact earlier a old
      · rw [List.mem_singleton.mp new]
        exact kept (List.mem_append_right _ (List.mem_singleton_self _))
          (earlier _ before.final_mem) last

end Transition
