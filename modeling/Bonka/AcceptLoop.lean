import Bonka.Lib.Run
import Bonka.Session

/-!
# The accept loop and its permits (`src/server.rs`)

`run_connection_loop` takes a permit of the semaphore before it accepts, hands the permit to the
task of the client, and gives it back itself when `accept` fails.  The task drops it when it ends.
Every permit is at each moment with one of the three (`permits_conserved`), so the limit on clients
is exact and no failure lowers it.
-/

namespace Bonka

open Transition

variable {C : Type}

/-- What `handle_client` returned; its error is only logged. -/
inductive ClientResult
  | ok
  | err
deriving DecidableEq, Repr

/-- The task of a client, which owns `_permit`: in `handle_client`, or after it. -/
inductive ClientTask (C : Type)
  | handling (client : C)
  | ending (client : C) (result : ClientResult)
deriving DecidableEq, Repr

/-- Where the loop stands. -/
inductive LoopStage (C : Type)
  | acquiring
  | accepting
  | accepted (client : C)
  | failed
  | backingOff
deriving DecidableEq, Repr

/-- The permits the loop itself holds: one from `acquire_permit` until the task is spawned or the
permit dropped. -/
def LoopStage.permits : LoopStage C → ℕ
  | .acquiring => 0
  | .accepting => 1
  | .accepted _ => 1
  | .failed => 1
  | .backingOff => 0

structure LoopState (C : Type) where
  /-- Permits free in `connection_limiter`. -/
  available : ℕ
  stage : LoopStage C
  currentDelay : Duration
  /-- The client tasks that have not finished. -/
  tasks : List (ClientTask C)
deriving DecidableEq, Repr

/-- `run_connection_loop` is called with a new semaphore and `current_delay = base_delay`. -/
def LoopState.init (maxConnections : ℕ) (baseDelay : Duration) : LoopState C where
  available := maxConnections
  stage := .acquiring
  currentDelay := baseDelay
  tasks := []

inductive LoopEvent (C : Type)
  | acquire
  | accept (client : C)
  | spawn
  | acceptError
  | dropPermit
  | wake
  /-- `handle_client` of a task returns. -/
  | handled (client : C) (result : ClientResult)
  /-- A task ends and drops its permit. -/
  | finish (client : C)
deriving DecidableEq, Repr

/-- One step of the loop or of a client task. -/
inductive LoopStep (baseDelay maxDelay : Duration) :
    LoopState C → LoopEvent C → LoopState C → Prop
  | acquire {s : LoopState C} {left : ℕ} (stage : s.stage = .acquiring)
      (free : s.available = left + 1) :
      LoopStep baseDelay maxDelay s .acquire { s with available := left, stage := .accepting }
  | accept {s : LoopState C} (stage : s.stage = .accepting) (client : C) :
      LoopStep baseDelay maxDelay s (.accept client)
        { s with stage := .accepted client, currentDelay := baseDelay }
  | spawn {s : LoopState C} {client : C} (stage : s.stage = .accepted client) :
      LoopStep baseDelay maxDelay s .spawn
        { s with stage := .acquiring, tasks := s.tasks ++ [.handling client] }
  | acceptError {s : LoopState C} (stage : s.stage = .accepting) :
      LoopStep baseDelay maxDelay s .acceptError { s with stage := .failed }
  | dropPermit {s : LoopState C} (stage : s.stage = .failed) :
      LoopStep baseDelay maxDelay s .dropPermit
        { s with available := s.available + 1, stage := .backingOff }
  | wake {s : LoopState C} (stage : s.stage = .backingOff) :
      LoopStep baseDelay maxDelay s .wake
        { s with stage := .acquiring, currentDelay := min (s.currentDelay * 2) maxDelay }
  | handled {s : LoopState C} {before after : List (ClientTask C)} {client : C}
      (tasks : s.tasks = before ++ .handling client :: after) (result : ClientResult) :
      LoopStep baseDelay maxDelay s (.handled client result)
        { s with tasks := before ++ .ending client result :: after }
  | finish {s : LoopState C} {before after : List (ClientTask C)} {client : C}
      {result : ClientResult} (tasks : s.tasks = before ++ .ending client result :: after) :
      LoopStep baseDelay maxDelay s (.finish client)
        { s with available := s.available + 1, tasks := before ++ after }

variable {baseDelay maxDelay : Duration} {s t : LoopState C} {event : LoopEvent C}
  {events : List (LoopEvent C)} {maxConnections : ℕ}

/-! ## The permits -/

/-- All permits: those in the semaphore, with the loop and with the client tasks. -/
def LoopState.permits (s : LoopState C) : ℕ := s.available + s.stage.permits + s.tasks.length

/-- A step moves permits from one owner to another. -/
theorem LoopStep.permits_eq (step : LoopStep baseDelay maxDelay s event t) :
    t.permits = s.permits := by
  unfold LoopState.permits
  cases step with
  | acquire stage free => simp [stage, free, LoopStage.permits]
  | accept stage client => simp [stage, LoopStage.permits]
  | spawn stage => simp [stage, LoopStage.permits]; omega
  | acceptError stage => simp [stage, LoopStage.permits]
  | dropPermit stage => simp [stage, LoopStage.permits]
  | wake stage => simp [stage, LoopStage.permits]
  | handled tasks result => simp [tasks]
  | finish tasks => simp [tasks]; omega

theorem run_permits_eq (run : Run (LoopStep baseDelay maxDelay) s events t) :
    t.permits = s.permits := by
  induction run with
  | nil => rfl
  | snoc _ last ih => exact last.permits_eq.trans ih

/-- The delay stays between its base and its maximum. -/
theorem currentDelay_bounds (ordered : baseDelay ≤ maxDelay)
    (run : Run (LoopStep baseDelay maxDelay) (.init maxConnections baseDelay) events s) :
    baseDelay ≤ s.currentDelay ∧ s.currentDelay ≤ maxDelay := by
  induction run with
  | nil => exact ⟨le_refl baseDelay, ordered⟩
  | snoc _ last ih =>
      cases last with
      | accept stage client => exact ⟨le_refl baseDelay, ordered⟩
      | wake stage =>
          refine ⟨le_min ?_ ordered, min_le_right _ _⟩
          exact ih.1.trans (Nat.le_mul_of_pos_right _ (by decide))
      | _ => exact ih

/-! ## Filling up -/

/-- The steps in which a client task makes progress. -/
def LoopEvent.OfTask : LoopEvent C → Prop
  | .handled _ _ | .finish _ => True
  | _ => False

/-- A run of the loop in which no client task moves. -/
def Alone (baseDelay maxDelay : Duration) (s t : LoopState C) : Prop :=
  ∃ events, Run (LoopStep baseDelay maxDelay) s events t ∧ ∀ event ∈ events, ¬ event.OfTask

theorem Alone.refl (s : LoopState C) : Alone baseDelay maxDelay s s :=
  ⟨[], .nil, fun _ member => by cases member⟩

theorem Alone.trans {u : LoopState C} (left : Alone baseDelay maxDelay s t)
    (right : Alone baseDelay maxDelay t u) : Alone baseDelay maxDelay s u := by
  obtain ⟨xs, leftRun, leftIdle⟩ := left
  obtain ⟨ys, rightRun, rightIdle⟩ := right
  refine ⟨xs ++ ys, leftRun.trans rightRun, fun event member => ?_⟩
  rcases List.mem_append.mp member with before | after
  · exact leftIdle event before
  · exact rightIdle event after

theorem Alone.single (step : LoopStep baseDelay maxDelay s event t) (idle : ¬ event.OfTask) :
    Alone baseDelay maxDelay s t :=
  ⟨[event], .single step, fun other member => by rwa [List.mem_singleton.mp member]⟩

/-- From every stage the loop comes back to `acquire_permit`. -/
theorem exists_acquiring (client : C) (s : LoopState C) :
    ∃ t, Alone baseDelay maxDelay s t ∧ t.stage = .acquiring := by
  cases stage : s.stage with
  | acquiring => exact ⟨s, .refl s, stage⟩
  | accepting =>
      have first := Alone.single (@LoopStep.accept _ baseDelay maxDelay _ stage client) id
      have second := Alone.single (@LoopStep.spawn _ baseDelay maxDelay
        { s with stage := .accepted client, currentDelay := baseDelay } _ rfl) id
      exact ⟨_, first.trans second, rfl⟩
  | accepted client =>
      exact ⟨_, .single (@LoopStep.spawn _ baseDelay maxDelay _ _ stage) id, rfl⟩
  | failed =>
      have first := Alone.single (@LoopStep.dropPermit _ baseDelay maxDelay _ stage) id
      have second := Alone.single (@LoopStep.wake _ baseDelay maxDelay
        { s with available := s.available + 1, stage := .backingOff } rfl) id
      exact ⟨_, first.trans second, rfl⟩
  | backingOff => exact ⟨_, .single (@LoopStep.wake _ baseDelay maxDelay _ stage) id, rfl⟩

/-- A loop about to acquire turns every free permit into a client. -/
theorem exists_full (client : C) (s : LoopState C) (stage : s.stage = .acquiring) :
    ∃ t, Alone baseDelay maxDelay s t ∧ t.stage = .acquiring ∧ t.available = 0 := by
  generalize free : s.available = n
  induction n generalizing s with
  | zero => exact ⟨s, .refl s, stage, free⟩
  | succ n ih =>
      have first := Alone.single (@LoopStep.acquire _ baseDelay maxDelay _ _ stage free) id
      have second := Alone.single (@LoopStep.accept _ baseDelay maxDelay
        { s with available := n, stage := .accepting } rfl client) id
      have third := Alone.single (@LoopStep.spawn _ baseDelay maxDelay
        { s with available := n, stage := .accepted client, currentDelay := baseDelay } _ rfl) id
      obtain ⟨t, rest, last, full⟩ := ih
        { s with available := n, stage := .acquiring, currentDelay := baseDelay,
                 tasks := s.tasks ++ [.handling client] } rfl rfl
      exact ⟨t, ((first.trans second).trans third).trans rest, last, full⟩

/-- **The connection limit is exact and no permit is lost.**  In every reachable state the free
permits, the permit of the loop and the unfinished client tasks add up to `max_connections`.  So
there are never more tasks than that, and whatever accepts and clients have failed, the loop can
still bring the tasks up to `max_connections` without waiting for any of them to end. -/
theorem permits_conserved (maxConnections : ℕ) (baseDelay maxDelay : Duration)
    {events : List (LoopEvent C)} {s : LoopState C}
    (run : Run (LoopStep baseDelay maxDelay) (.init maxConnections baseDelay) events s) :
    s.available + s.stage.permits + s.tasks.length = maxConnections ∧
      s.tasks.length ≤ maxConnections ∧
      ∀ _client : C, ∃ more t, Run (LoopStep baseDelay maxDelay) s more t ∧
        (∀ event ∈ more, ¬ event.OfTask) ∧ t.tasks.length = maxConnections := by
  have conserved : s.permits = maxConnections := run_permits_eq run
  have total : s.available + s.stage.permits + s.tasks.length = maxConnections := conserved
  refine ⟨total, by omega, fun client => ?_⟩
  obtain ⟨ready, toReady, stage⟩ := exists_acquiring client s
  obtain ⟨t, toFull, last, full⟩ := exists_full client ready stage
  obtain ⟨more, rest, idle⟩ := toReady.trans toFull
  refine ⟨more, t, rest, idle, ?_⟩
  have after : t.permits = maxConnections := (run_permits_eq rest).trans conserved
  rw [LoopState.permits, last, full] at after
  simpa [LoopStage.permits] using after

/-- A single permit: after an accept that failed, the permit is given to a client, and nothing is
left for a second one. -/
theorem permits_conserved_backoff :
    ∃ events s, Run (LoopStep (C := String) 50 5000) (.init 1 50) events s ∧
      .acceptError ∈ events ∧ s.tasks = [.handling "10.0.0.1:400"] ∧
      s.available + s.stage.permits + s.tasks.length = 1 ∧ s.tasks.length ≤ 1 ∧
      ∃ more t, Run (LoopStep 50 5000) s more t ∧ (∀ event ∈ more, ¬ event.OfTask) ∧
        t.tasks.length = 1 := by
  have run := @Run.nil _ _ (LoopStep (C := String) 50 5000) (.init 1 50)
    |>.snoc (@LoopStep.acquire _ 50 5000 _ 0 rfl rfl)
    |>.snoc (.acceptError rfl)
    |>.snoc (.dropPermit rfl)
    |>.snoc (.wake rfl)
    |>.snoc (@LoopStep.acquire _ 50 5000 _ 0 rfl rfl)
    |>.snoc (.accept rfl "10.0.0.1:400")
    |>.snoc (.spawn rfl)
  obtain ⟨total, bounded, regained⟩ := permits_conserved 1 50 5000 run
  exact ⟨_, _, run, by simp, rfl, total, bounded, regained "10.0.0.1:401"⟩

end Bonka
