import Bonka.Lib.Run

/-!
# Simulations

One system simulates another when it can follow each of its steps, by a run in which an observer
sees the same.  The observers of the two systems may see different parts of their events
(`observe`, `observe'`); what they do not see, either system may do on its own.  A simulation
carries over from steps to runs (`Simulation.run`) and simulations compose (`Simulation.comp`).
-/

namespace Transition

variable {σ τ υ ε δ ζ ω : Type*} {step : σ → ε → σ → Prop} {step' : τ → δ → τ → Prop}
  {step'' : υ → ζ → υ → Prop} {observe : ε → Option ω} {observe' : δ → Option ω}
  {observe'' : ζ → Option ω}

/-- From related states, the second system follows every step of the first to a related state. -/
structure Simulation (step : σ → ε → σ → Prop) (observe : ε → Option ω) (step' : τ → δ → τ → Prop)
    (observe' : δ → Option ω) (Rel : σ → τ → Prop) : Prop where
  follow : ∀ {s event s' t}, step s event s' → Rel s t →
    ∃ events t', Run step' t events t' ∧ events.filterMap observe' = (observe event).toList ∧
      Rel s' t'

variable {Rel : σ → τ → Prop} {Rel' : τ → υ → Prop}

/-- Follow a whole run. -/
theorem Simulation.run (simulates : Simulation step observe step' observe' Rel) {s s' : σ}
    {t : τ} {events : List ε} (run : Run step s events s') (related : Rel s t) :
    ∃ events' t', Run step' t events' t' ∧
      events'.filterMap observe' = events.filterMap observe ∧ Rel s' t' := by
  induction run with
  | nil => exact ⟨[], t, .nil, rfl, related⟩
  | snoc _ last ih =>
      obtain ⟨before, m, left, sameBefore, here⟩ := ih
      obtain ⟨after, t', right, sameAfter, there⟩ := simulates.follow last here
      refine ⟨before ++ after, t', left.trans right, ?_, there⟩
      rw [List.filterMap_append, List.filterMap_append, sameBefore, sameAfter]
      congr 1

/-- A system that follows one that follows a third follows the third. -/
theorem Simulation.comp (first : Simulation step observe step' observe' Rel)
    (second : Simulation step' observe' step'' observe'' Rel') :
    Simulation step observe step'' observe'' fun s u => ∃ t, Rel s t ∧ Rel' t u := by
  constructor
  intro s event s' u edge related
  obtain ⟨t, left, right⟩ := related
  obtain ⟨events, t', run, same, left'⟩ := first.follow edge left
  obtain ⟨events', u', run', same', right'⟩ := second.run run right
  exact ⟨events', u', run', same'.trans same, t', left', right'⟩

/-- A system follows in lockstep when it does nothing for an unseen step, and one step that looks
the same for any other. -/
theorem Simulation.of_step
    (unseen : ∀ {s event s' t}, step s event s' → Rel s t → observe event = none → Rel s' t)
    (seen : ∀ {s event s' t seen}, step s event s' → Rel s t → observe event = some seen →
      ∃ event' t', step' t event' t' ∧ observe' event' = some seen ∧ Rel s' t') :
    Simulation step observe step' observe' Rel := by
  constructor
  intro s event s' t edge related
  cases look : observe event with
  | none => exact ⟨[], t, .nil, rfl, unseen edge related look⟩
  | some _ =>
      obtain ⟨event', t', edge', same, related'⟩ := seen edge related look
      exact ⟨[event'], t', .single edge', by simp [same], related'⟩

/-- A system that does exactly the seen steps of another, on a part of its state. -/
theorem Simulation.of_projection {observe : ε → Option δ} {part : σ → τ}
    (unseen : ∀ {s event s'}, step s event s' → observe event = none → part s' = part s)
    (seen : ∀ {s event s' event'}, step s event s' → observe event = some event' →
      step' (part s) event' (part s')) :
    Simulation step observe step' some fun s t => part s = t := by
  refine .of_step ?_ ?_
  · intro s event s' t edge related look
    exact (unseen edge look).trans related
  · intro s event s' t event' edge related look
    subst related
    exact ⟨event', part s', seen edge look, rfl, rfl⟩

/-- The part of a run that a projection sees. -/
theorem Simulation.run_projection {observe : ε → Option δ} (part : σ → τ)
    (simulates : Simulation step observe step' some fun s t => part s = t) {s s' : σ}
    {events : List ε} (run : Run step s events s') :
    Run step' (part s) (events.filterMap observe) (part s') := by
  obtain ⟨events', t', run', same, rfl⟩ := simulates.run run rfl
  rw [List.filterMap_some] at same
  rwa [same] at run'

/-- The states that a projection sees of a run. -/
theorem Trace.project {observe : ε → Option δ} {part : σ → τ} {s s' : σ} {events : List ε}
    {visited : List σ} (trace : Trace step s events visited s')
    (unseen : ∀ {s event s'}, step s event s' → observe event = none → part s' = part s)
    (seen : ∀ {s event s' event'}, step s event s' → observe event = some event' →
      step' (part s) event' (part s')) :
    ∃ parts, Trace step' (part s) (events.filterMap observe) parts (part s') ∧
      ∀ b ∈ parts, ∃ a ∈ visited, part a = b := by
  induction trace with
  | nil =>
      refine ⟨_, .nil, fun b member => ⟨s, List.mem_singleton_self _, ?_⟩⟩
      exact (List.mem_singleton.mp member).symm
  | @snoc events visited a b event _ last ih =>
      obtain ⟨parts, trace, back⟩ := ih
      have old : ∀ c ∈ parts, ∃ a ∈ visited ++ [b], part a = c := by
        intro c member
        obtain ⟨a, there, same⟩ := back c member
        exact ⟨a, List.mem_append_left _ there, same⟩
      rw [List.filterMap_append]
      cases look : observe event with
      | none =>
          rw [List.filterMap_cons_none look, List.filterMap_nil, List.append_nil,
            unseen last look]
          exact ⟨parts, trace, old⟩
      | some event' =>
          rw [List.filterMap_cons_some look, List.filterMap_nil]
          refine ⟨_, trace.snoc (seen last look), fun c member => ?_⟩
          rcases List.mem_append.mp member with earlier | new
          · exact old c earlier
          · exact ⟨b, List.mem_append_right _ (List.mem_singleton_self _),
              (List.mem_singleton.mp new).symm⟩

/-- A run that keeps to some of the events. -/
theorem Run.of_restricted {P : ε → Prop} {s s' : σ} {events : List ε}
    (run : Run (fun s event t => step s event t ∧ P event) s events s') :
    Run step s events s' ∧ ∀ event ∈ events, P event := by
  induction run with
  | nil => exact ⟨.nil, fun _ member => by cases member⟩
  | snoc _ last ih =>
      refine ⟨.snoc ih.1 last.1, fun event member => ?_⟩
      rcases List.mem_append.mp member with earlier | same
      · exact ih.2 event earlier
      · rw [List.mem_singleton.mp same]
        exact last.2

end Transition
