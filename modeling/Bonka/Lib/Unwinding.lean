import Mathlib.Data.List.Basic

/-!
# Noninterference by unwinding

Clients take turns on one shared state, each turn one request that answers and moves the state.
If what a client observes of the state is all its own requests depend on, and the requests of
the others leave it alone (`Separates`), then no schedule of the others can be told apart by the
client: its answers and what it observes at the end are those of running alone.
-/

namespace Unwinding

variable {ι ρ σ ω α β : Type*}

/-! ## Schedules -/

/-- The answers and the last state of a list of requests. -/
def runAlone (step : ρ → σ → ω × σ) : List ρ → σ → List ω × σ
  | [], s => ([], s)
  | r :: requests, s =>
      let rest := runAlone step requests (step r s).2
      ((step r s).1 :: rest.1, rest.2)

/-- The answers and the last state of a schedule, which says whose turn it is. -/
def run (step : ρ → σ → ω × σ) : List (ι × ρ) → σ → List (ι × ω) × σ
  | [], s => ([], s)
  | (i, r) :: turns, s =>
      let rest := run step turns (step r s).2
      ((i, (step r s).1) :: rest.1, rest.2)

/-- What of a tagged list belongs to a client. -/
def own [DecidableEq ι] (i : ι) (tagged : List (ι × α)) : List α :=
  tagged.filterMap fun entry => if entry.1 = i then some entry.2 else none

section own

variable [DecidableEq ι]

@[simp] theorem own_nil (i : ι) : own i ([] : List (ι × α)) = [] := rfl

@[simp] theorem own_cons_self (i : ι) (a : α) (tagged : List (ι × α)) :
    own i ((i, a) :: tagged) = a :: own i tagged := by
  simp [own]

theorem own_cons_of_ne {i j : ι} (other : j ≠ i) (a : α) (tagged : List (ι × α)) :
    own i ((j, a) :: tagged) = own i tagged := by
  simp [own, other]

theorem own_map (i : ι) (f : α → β) (tagged : List (ι × α)) :
    own i (tagged.map (Prod.map id f)) = (own i tagged).map f := by
  induction tagged with
  | nil => rfl
  | cons entry tagged ih =>
      rcases entry with ⟨j, a⟩
      by_cases same : j = i
      · subst same
        rw [List.map_cons, own_cons_self, List.map_cons, ← ih]
        exact own_cons_self ..
      · rw [List.map_cons, own_cons_of_ne same, ← ih]
        exact own_cons_of_ne same ..

/-- A list that is all one client's. -/
theorem own_map_mk (i : ι) (l : List α) : own i (l.map (Prod.mk i)) = l := by
  induction l with
  | nil => rfl
  | cons a l ih => rw [List.map_cons, own_cons_self, ih]

theorem mem_own {i : ι} {a : α} {tagged : List (ι × α)} : a ∈ own i tagged ↔ (i, a) ∈ tagged := by
  simp only [own, List.mem_filterMap, Prod.exists, Option.ite_none_right_eq_some,
    Option.some.injEq]
  constructor
  · intro holds
    rcases holds with ⟨j, b, member, rfl, rfl⟩
    exact member
  · intro member
    exact ⟨i, a, member, rfl, rfl⟩

end own

/-- A schedule moves the state as its requests do, whoever sends them. -/
theorem run_snd (step : ρ → σ → ω × σ) (turns : List (ι × ρ)) (s : σ) :
    (run step turns s).2 = (runAlone step (turns.map Prod.snd) s).2 := by
  induction turns generalizing s with
  | nil => rfl
  | cons turn turns ih =>
      rcases turn with ⟨i, r⟩
      exact ih (step r s).2

/-- Schedules of two step functions that correspond request by request. -/
theorem run_map {ρ' ω' : Type*} {step : ρ → σ → ω × σ} {step' : ρ' → σ → ω' × σ} {f : ρ → ρ'}
    {g : ω → ω'} {turns : List (ι × ρ)}
    (same : ∀ i r, (i, r) ∈ turns → ∀ s, step' (f r) s = Prod.map g id (step r s)) (s : σ) :
    run step' (turns.map (Prod.map id f)) s =
      Prod.map (List.map (Prod.map id g)) id (run step turns s) := by
  induction turns generalizing s with
  | nil => rfl
  | cons turn turns ih =>
      rcases turn with ⟨i, r⟩
      have first := same i r List.mem_cons_self s
      have rest := ih (fun j q member => same j q (List.mem_cons_of_mem _ member)) (step r s).2
      simp only [List.map_cons, Prod.map_apply, id_eq, run, first, Prod.map_snd, Prod.map_fst, rest]

/-- What every request of a list keeps is kept by the list. -/
theorem runAlone_preserves {step : ρ → σ → ω × σ} {P : σ → Prop} {requests : List ρ}
    (keeps : ∀ r ∈ requests, ∀ s, P s → P (step r s).2) {s : σ} (holds : P s) :
    P (runAlone step requests s).2 := by
  induction requests generalizing s with
  | nil => exact holds
  | cons r requests ih =>
      exact ih (fun other member => keeps other (List.mem_cons_of_mem _ member))
        (keeps r List.mem_cons_self s holds)

/-! ## Unwinding -/

/-- The requests a client is allowed depend only on what the client observes (`agree`), and do
not change what the others observe. -/
structure Separates (step : ρ → σ → ω × σ) (allowed : ι → ρ → Prop) (agree : ι → σ → σ → Prop) :
    Prop where
  equiv : ∀ i, Equivalence (agree i)
  consistent : ∀ {i r s t}, allowed i r → agree i s t →
    (step r s).1 = (step r t).1 ∧ agree i (step r s).2 (step r t).2
  respects : ∀ {i j r s t}, allowed j r → j ≠ i → agree i s t → agree i (step r s).2 t

variable {step : ρ → σ → ω × σ} {allowed : ι → ρ → Prop} {agree : ι → σ → σ → Prop}

/-- **A client of a schedule cannot tell it from running alone.** -/
theorem Separates.run_alone [DecidableEq ι] (separates : Separates step allowed agree) {i : ι}
    {turns : List (ι × ρ)} (every : ∀ j r, (j, r) ∈ turns → allowed j r) {s t : σ}
    (start : agree i s t) :
    own i (run step turns s).1 = (runAlone step (own i turns) t).1 ∧
      agree i (run step turns s).2 (runAlone step (own i turns) t).2 := by
  induction turns generalizing s t with
  | nil => exact ⟨rfl, start⟩
  | cons turn turns ih =>
      rcases turn with ⟨j, r⟩
      have mine := every j r List.mem_cons_self
      have others := fun k q member => every k q (List.mem_cons_of_mem _ member)
      by_cases same : j = i
      · subst same
        obtain ⟨answer, next⟩ := separates.consistent mine start
        obtain ⟨answers, last⟩ := ih others next
        rw [own_cons_self]
        simp only [run, runAlone, own_cons_self]
        exact ⟨by rw [answer, answers], last⟩
      · rw [own_cons_of_ne same]
        simp only [run, own_cons_of_ne same]
        exact ih others (separates.respects mine same start)

end Unwinding
