import Bonka.Lib.Run
import Mathlib.Data.List.Basic
import Mathlib.Logic.Function.Basic
import Mathlib.Order.WellFounded

/-!
# Programs that take reader-writer locks

A `Program` takes and drops locks and accesses shared data, one atomic step at a time.  Locks are
not re-entrant, and a thread that waits to write may keep new readers out.  A program is `Ordered`
when every lock it takes ranks above those it holds; threads that run ordered programs never come
to stand still (`not_deadlocked`).
-/

namespace Locking

inductive LockMode
  | read
  | write
deriving DecidableEq, Repr

/-- A program over locks `L` and shared data `σ`; `access` updates the data and goes on with what
they were before. -/
inductive Program (L σ α : Type)
  | done (result : α)
  | lock (mode : LockMode) (l : L) (next : Program L σ α)
  | unlock (l : L) (next : Program L σ α)
  | access (update : σ → σ) (next : σ → Program L σ α)

variable {L σ α β T : Type}

namespace Program

/-- First one program, then another that depends on its result. -/
def bind : Program L σ α → (α → Program L σ β) → Program L σ β
  | .done result, f => f result
  | .lock mode l next, f => .lock mode l (next.bind f)
  | .unlock l next, f => .unlock l (next.bind f)
  | .access update next, f => .access update fun s => (next s).bind f

/-- A program under one lock, dropped at its end. -/
def withLock (mode : LockMode) (l : L) (body : Program L σ α) : Program L σ α :=
  .lock mode l (body.bind fun result => .unlock l (.done result))

/-- Read the data. -/
def read (f : σ → α) : Program L σ α := .access id fun s => .done (f s)

/-- Update the data. -/
def modify (update : σ → σ) : Program L σ Unit := .access update fun _ => .done ()

/-- What a program does when no other thread is there. -/
def runAlone : Program L σ α → σ → α × σ
  | .done result, s => (result, s)
  | .lock _ _ next, s => next.runAlone s
  | .unlock _ next, s => next.runAlone s
  | .access update next, s => (next s).runAlone (update s)

/-- The program without its result. -/
def discard (p : Program L σ α) : Program L σ Unit := p.bind fun _ => .done ()

/-- One program after the other, with their results. -/
def forEach {ι : Type} (body : ι → Program L σ α) : List ι → Program L σ (List α)
  | [] => .done []
  | i :: is => (body i).bind fun first => (forEach body is).bind fun rest => .done (first :: rest)

/-- What is left of a pass over an array of locks that holds lock `i`: each lock is kept until the
next one is taken. -/
def passFrom (lockOf : ℕ → L) (f : ℕ → σ → List α) : ℕ → ℕ → List α → Program L σ (List α)
  | 0, i, found => .unlock (lockOf i) (.done found)
  | remaining + 1, i, found =>
      .lock .read (lockOf (i + 1)) <| .unlock (lockOf i) <| .access id fun s =>
        passFrom lockOf f remaining (i + 1) (found ++ f (i + 1) s)

/-- Collect what lies behind each lock of an array. -/
def pass (lockOf : ℕ → L) (f : ℕ → σ → List α) : ℕ → Program L σ (List α)
  | 0 => .done []
  | count + 1 => .lock .read (lockOf 0) <| .access id fun s => passFrom lockOf f count 0 (f 0 s)

/-! ## Programs on their own -/

@[simp] theorem runAlone_bind (p : Program L σ α) (f : α → Program L σ β) (s : σ) :
    (p.bind f).runAlone s = (f (p.runAlone s).1).runAlone (p.runAlone s).2 := by
  induction p generalizing s with
  | done result => rfl
  | lock mode l next ih => exact ih s
  | unlock l next ih => exact ih s
  | access update next ih => exact ih s (update s)

@[simp] theorem runAlone_withLock (mode : LockMode) (l : L) (body : Program L σ α) (s : σ) :
    (withLock mode l body).runAlone s = body.runAlone s := by
  rw [withLock, runAlone, runAlone_bind]
  rfl

@[simp] theorem runAlone_read (f : σ → α) (s : σ) :
    (read f : Program L σ α).runAlone s = (f s, s) := rfl

@[simp] theorem runAlone_modify (update : σ → σ) (s : σ) :
    (modify update : Program L σ Unit).runAlone s = ((), update s) := rfl

@[simp] theorem runAlone_done (result : α) (s : σ) :
    (done result : Program L σ α).runAlone s = (result, s) := rfl

/-- What programs that only read do one after the other. -/
theorem runAlone_forEach_read {ι : Type} (body : ι → Program L σ α) {f : ι → α} {s : σ}
    (reads : ∀ i, (body i).runAlone s = (f i, s)) (is : List ι) :
    (forEach body is).runAlone s = (is.map f, s) := by
  induction is with
  | nil => rfl
  | cons i is ih => rw [forEach, runAlone_bind, reads, runAlone_bind, ih, runAlone_done, List.map]

theorem runAlone_forEach_snd {ι : Type} {body : ι → Program L σ α} {f : σ → ι → σ}
    (does : ∀ i s, ((body i).runAlone s).2 = f s i) (is : List ι) (s : σ) :
    ((forEach body is).runAlone s).2 = is.foldl f s := by
  induction is generalizing s with
  | nil => rfl
  | cons i is ih =>
      rw [forEach, runAlone_bind, runAlone_bind, does, runAlone_done, ih, List.foldl_cons]

theorem runAlone_passFrom (lockOf : ℕ → L) (f : ℕ → σ → List α) (remaining i : ℕ) (found : List α)
    (s : σ) :
    (passFrom lockOf f remaining i found).runAlone s =
      (found ++ (List.range' (i + 1) remaining).flatMap (f · s), s) := by
  induction remaining generalizing i found with
  | zero => simp [passFrom, runAlone]
  | succ remaining ih =>
      rw [passFrom, runAlone, runAlone, runAlone, id_eq, ih, List.range'_succ, List.flatMap_cons,
        List.append_assoc]

/-- A pass that nothing disturbs finds what lies behind the locks, in their order. -/
theorem runAlone_pass (lockOf : ℕ → L) (f : ℕ → σ → List α) (count : ℕ) (s : σ) :
    (pass lockOf f count).runAlone s = ((List.range count).flatMap (f · s), s) := by
  cases count with
  | zero => rfl
  | succ count =>
      rw [pass, runAlone, runAlone, id_eq, runAlone_passFrom, List.range_eq_range',
        List.range'_succ, List.flatMap_cons]

/-! ## Ordered programs -/

variable [DecidableEq L] {rank : L → ℕ} {bound : ℕ}

/-- The locks held after dropping one. -/
def dropLock (l : L) (held : List (L × LockMode)) : List (L × LockMode) :=
  held.filter fun h => h.1 ≠ l

/-- A program that starts with the locks `held` takes each lock above those it holds, drops only
locks it holds, and ends with the locks `after`. -/
def Ordered (rank : L → ℕ) (bound : ℕ) :
    Program L σ α → List (L × LockMode) → List (L × LockMode) → Prop
  | .done _, held, after => held = after
  | .lock mode l next, held, after =>
      (∀ h ∈ held, rank h.1 < rank l) ∧ rank l < bound ∧
        next.Ordered rank bound ((l, mode) :: held) after
  | .unlock l next, held, after =>
      (∃ mode, (l, mode) ∈ held) ∧ next.Ordered rank bound (dropLock l held) after
  | .access _ next, held, after => ∀ s, (next s).Ordered rank bound held after

variable {held middle after : List (L × LockMode)}

theorem Ordered.bind {p : Program L σ α} {f : α → Program L σ β}
    (first : p.Ordered rank bound held middle)
    (second : ∀ result, (f result).Ordered rank bound middle after) :
    (p.bind f).Ordered rank bound held after := by
  induction p generalizing held with
  | done result =>
      cases first
      exact second result
  | lock mode l next ih => exact ⟨first.1, first.2.1, ih first.2.2⟩
  | unlock l next ih => exact ⟨first.1, ih first.2⟩
  | access update next ih => exact fun s => ih s (first s)

/-- A lock above all that are held is not among them, so dropping it undoes taking it. -/
theorem dropLock_cons {l : L} (mode : LockMode) (above : ∀ h ∈ held, rank h.1 < rank l) :
    dropLock l ((l, mode) :: held) = held := by
  have kept : dropLock l held = held := by
    apply List.filter_eq_self.mpr
    intro h member
    have below := above h member
    simp only [ne_eq, decide_not, Bool.not_eq_eq_eq_not, Bool.not_true, decide_eq_false_iff_not]
    intro same
    rw [same] at below
    exact Nat.lt_irrefl _ below
  rw [dropLock, List.filter_cons_of_neg (by simp)]
  exact kept

theorem Ordered.withLock {mode : LockMode} {l : L} {body : Program L σ α}
    (above : ∀ h ∈ held, rank h.1 < rank l) (bounded : rank l < bound)
    (inside : body.Ordered rank bound ((l, mode) :: held) ((l, mode) :: held)) :
    (withLock mode l body).Ordered rank bound held held := by
  refine ⟨above, bounded, inside.bind fun result => ⟨⟨mode, List.mem_cons_self⟩, ?_⟩⟩
  exact dropLock_cons mode above

theorem Ordered.read (f : σ → α) : (read f : Program L σ α).Ordered rank bound held held :=
  fun _ => rfl

theorem Ordered.modify (update : σ → σ) :
    (modify update : Program L σ Unit).Ordered rank bound held held :=
  fun _ => rfl

theorem Ordered.forEach {ι : Type} {body : ι → Program L σ α} {is : List ι}
    (each : ∀ i ∈ is, (body i).Ordered rank bound held held) :
    (forEach body is).Ordered rank bound held held := by
  induction is with
  | nil => rfl
  | cons i is ih =>
      have rest := ih fun j member => each j (List.mem_cons_of_mem _ member)
      exact (each i List.mem_cons_self).bind fun first => rest.bind fun results => rfl

/-- Dropping the lock below the one just taken leaves that one and the rest. -/
theorem dropLock_cons_cons {l l' : L} {mode mode' : LockMode} (climbs : rank l < rank l')
    (above : ∀ h ∈ held, rank h.1 < rank l) :
    dropLock l ((l', mode') :: (l, mode) :: held) = (l', mode') :: held := by
  have other : l' ≠ l := by
    intro same
    rw [same] at climbs
    exact Nat.lt_irrefl _ climbs
  have rest := dropLock_cons mode above
  rw [dropLock] at rest ⊢
  rw [List.filter_cons_of_pos (by simpa using other), rest]

theorem Ordered.passFrom {lockOf : ℕ → L} (f : ℕ → σ → List α)
    (climbs : ∀ i, rank (lockOf i) < rank (lockOf (i + 1))) (remaining : ℕ) {i : ℕ}
    (found : List α) (above : ∀ h ∈ held, rank h.1 < rank (lockOf i))
    (bounded : ∀ j, j ≤ i + remaining → rank (lockOf j) < bound) :
    (passFrom lockOf f remaining i found).Ordered rank bound ((lockOf i, .read) :: held) held := by
  induction remaining generalizing i found with
  | zero => exact ⟨⟨.read, List.mem_cons_self⟩, dropLock_cons _ above⟩
  | succ remaining ih =>
      have higher : ∀ h ∈ held, rank h.1 < rank (lockOf (i + 1)) :=
        fun h member => Nat.lt_trans (above h member) (climbs i)
      refine ⟨?_, bounded _ (by omega), ⟨.read, by simp⟩, fun s => ?_⟩
      · intro h member
        rcases List.mem_cons.mp member with current | old
        · rw [current]
          exact climbs i
        · exact higher h old
      · rw [dropLock_cons_cons (climbs i) above]
        exact ih _ higher fun j below => bounded j (by omega)

theorem Ordered.pass (lockOf : ℕ → L) (f : ℕ → σ → List α)
    (climbs : ∀ i, rank (lockOf i) < rank (lockOf (i + 1))) (count : ℕ)
    (above : ∀ h ∈ held, rank h.1 < rank (lockOf 0))
    (bounded : ∀ j, j < count → rank (lockOf j) < bound) :
    (pass lockOf f count).Ordered rank bound held held := by
  cases count with
  | zero => rfl
  | succ count =>
      refine ⟨above, bounded 0 (by omega), fun s => ?_⟩
      exact .passFrom f climbs count _ above fun j below => bounded j (by omega)

end Program

/-! ## Threads -/

/-- A thread: what is left of its program, and the locks it holds. -/
structure Thread (L σ : Type) where
  program : Program L σ Unit
  held : List (L × LockMode)

/-- The shared data and all threads. -/
structure State (L σ T : Type) where
  data : σ
  threads : T → Thread L σ

namespace State

/-- Every thread idle. -/
def init (data : σ) : State L σ T where
  data := data
  threads _ := ⟨.done (), []⟩

variable (s : State L σ T)

def Holds (t : T) (l : L) (mode : LockMode) : Prop := (l, mode) ∈ (s.threads t).held

/-- The thread is in the middle of a program. -/
def Unfinished (t : T) : Prop := (s.threads t).program ≠ .done ()

/-- The thread waits for a lock. -/
def Waits (t : T) (mode : LockMode) (l : L) : Prop :=
  ∃ next, (s.threads t).program = .lock mode l next

/-- The thread holds the lock, so that it cannot be given out in this mode. -/
def Hinders (t : T) (l : L) : LockMode → Prop
  | .read => s.Holds t l .write
  | .write => ∃ mode, s.Holds t l mode

/-- The lock can be given out in this mode. -/
def Free (l : L) (mode : LockMode) : Prop := ∀ t, ¬ s.Hinders t l mode

/-- Thread `t` waits for a lock that `t'` holds, or to read one that `t'` waits to write. -/
def BlockedBy (t t' : T) : Prop :=
  ∃ mode l, s.Waits t mode l ∧ (s.Hinders t' l mode ∨ mode = .read ∧ t' ≠ t ∧ s.Waits t' .write l)

def Blocked (t : T) : Prop := ∃ t', s.BlockedBy t t'

/-- Some thread is in the middle of a program, and all such threads are blocked. -/
def Deadlocked : Prop := (∃ t, s.Unfinished t) ∧ ∀ t, s.Unfinished t → s.Blocked t

variable [DecidableEq T]

def put (t : T) (thread : Thread L σ) : State L σ T :=
  { s with threads := Function.update s.threads t thread }

end State

variable [DecidableEq L] [DecidableEq T]

/-- One step of one thread; an idle thread may start any of the operations. -/
inductive Step (operations : Program L σ Unit → Prop) : State L σ T → T → State L σ T → Prop
  | start {s : State L σ T} {t : T} {p : Program L σ Unit} :
    (s.threads t).program = .done () → operations p →
    Step operations s t (s.put t ⟨p, (s.threads t).held⟩)
  | acquire {s : State L σ T} {t : T} {mode : LockMode} {l : L} {next : Program L σ Unit} :
    (s.threads t).program = .lock mode l next → s.Free l mode →
    Step operations s t (s.put t ⟨next, (l, mode) :: (s.threads t).held⟩)
  | release {s : State L σ T} {t : T} {l : L} {next : Program L σ Unit} :
    (s.threads t).program = .unlock l next →
    Step operations s t (s.put t ⟨next, Program.dropLock l (s.threads t).held⟩)
  | access {s : State L σ T} {t : T} {update : σ → σ} {next : σ → Program L σ Unit} :
    (s.threads t).program = .access update next →
    Step operations s t
      { s.put t ⟨next s.data, (s.threads t).held⟩ with data := update s.data }

variable {operations : Program L σ Unit → Prop} {rank : L → ℕ} {bound : ℕ} {s s' : State L σ T}
  {t : T}

/-- What is left of every program is ordered, from the locks its thread holds to none. -/
def State.InOrder (rank : L → ℕ) (bound : ℕ) (s : State L σ T) : Prop :=
  ∀ t, (s.threads t).program.Ordered rank bound (s.threads t).held []

theorem Step.inOrder (ordered : ∀ p, operations p → p.Ordered rank bound [] [])
    (inOrder : s.InOrder rank bound) (step : Step operations s t s') : s'.InOrder rank bound := by
  have put : ∀ {thread : Thread L σ} {data : σ},
      thread.program.Ordered rank bound thread.held [] →
      State.InOrder rank bound { s.put t thread with data } := by
    intro thread data own t'
    change (Function.update s.threads t thread t').program.Ordered _ _
      (Function.update s.threads t thread t').held []
    rw [Function.update_apply]
    split
    · exact own
    · exact inOrder t'
  have mine := inOrder t
  cases step with
  | start idle operation =>
      rw [idle] at mine
      have none : (s.threads t).held = [] := mine
      exact put (by rw [none]; exact ordered _ operation)
  | acquire here free =>
      rw [here] at mine
      exact put mine.2.2
  | release here =>
      rw [here] at mine
      exact put mine.2
  | access here =>
      rw [here] at mine
      exact put (mine s.data)

theorem run_inOrder {events : List T} {data : σ}
    (ordered : ∀ p, operations p → p.Ordered rank bound [] [])
    (run : Transition.Run (Step operations) (.init data) events s) : s.InOrder rank bound := by
  induction run with
  | nil => exact fun _ => rfl
  | snoc _ last ih => exact last.inOrder ordered ih

/-! ## No deadlock -/

variable {l : L} {mode : LockMode}

omit [DecidableEq L] [DecidableEq T] in
theorem State.Waits.unfinished (waits : s.Waits t mode l) : s.Unfinished t := by
  obtain ⟨next, program⟩ := waits
  rw [State.Unfinished, program]
  intro same
  cases same

omit [DecidableEq L] [DecidableEq T] in
theorem State.Hinders.exists_holds (hinders : s.Hinders t l mode) : ∃ mode', s.Holds t l mode' := by
  cases mode with
  | read => exact ⟨.write, hinders⟩
  | write => exact hinders

omit [DecidableEq T] in
/-- A thread that holds a lock still has to drop it. -/
theorem State.InOrder.unfinished (inOrder : s.InOrder rank bound) (holds : s.Holds t l mode) :
    s.Unfinished t := by
  intro finished
  have mine := inOrder t
  rw [finished] at mine
  have none : (s.threads t).held = [] := mine
  rw [State.Holds, none] at holds
  cases holds

/-- How far below the bound the lock is that a program waits for, a reader a little further than a
writer of the same lock; 0 for a program that does not wait. -/
def Program.depth (rank : L → ℕ) (bound : ℕ) : Program L σ α → ℕ
  | .lock .read l _ => 2 * (bound - rank l) + 1
  | .lock .write l _ => 2 * (bound - rank l)
  | _ => 0

omit [DecidableEq T] in
/-- The holder of a lock waits, if at all, for a lock of higher rank. -/
theorem State.InOrder.depth_lt_of_holds (inOrder : s.InOrder rank bound)
    (holds : s.Holds t l mode) (bounded : rank l < bound) :
    (s.threads t).program.depth rank bound < 2 * (bound - rank l) := by
  have mine := inOrder t
  cases program : (s.threads t).program with
  | lock mode' l' next =>
      rw [program] at mine
      have climbs : rank l < rank l' := mine.1 _ holds
      have below := mine.2.1
      cases mode' with
      | read => simp only [Program.depth]; omega
      | write => simp only [Program.depth]; omega
  | done | unlock | access => simp only [Program.depth]; omega

omit [DecidableEq T] in
/-- Whoever blocks a thread waits less deep. -/
theorem State.InOrder.depth_lt (inOrder : s.InOrder rank bound) {t' : T}
    (blocked : s.BlockedBy t t') :
    (s.threads t').program.depth rank bound < (s.threads t).program.depth rank bound := by
  obtain ⟨mode, l, ⟨next, program⟩, reason⟩ := blocked
  have mine := inOrder t
  rw [program] at mine ⊢
  have own : 2 * (bound - rank l) ≤ (Program.lock mode l next).depth rank bound := by
    cases mode with
    | read => exact Nat.le_succ _
    | write => exact Nat.le_refl _
  rcases reason with hinders | ⟨rfl, -, next', writer⟩
  · obtain ⟨mode', holds⟩ := hinders.exists_holds
    exact Nat.lt_of_lt_of_le (inOrder.depth_lt_of_holds holds mine.2.1) own
  · rw [writer]
    exact Nat.lt_succ_self _

omit [DecidableEq T] in
/-- In every set of threads there is one that is blocked by none of them. -/
theorem State.InOrder.exists_unblocked (inOrder : s.InOrder rank bound) {threads : Set T}
    (nonempty : threads.Nonempty) : ∃ t ∈ threads, ∀ t' ∈ threads, ¬ s.BlockedBy t t' := by
  have wellFounded := (measure fun t => (s.threads t).program.depth rank bound).wf
  obtain ⟨t, member, least⟩ := wellFounded.has_min threads nonempty
  exact ⟨t, member, fun t' member' blocked => least t' member' (inOrder.depth_lt blocked)⟩

omit [DecidableEq T] in
/-- **No deadlock.**  Threads in order are never all at a standstill: a thread that blocks another
one is not done. -/
theorem State.InOrder.not_deadlocked (inOrder : s.InOrder rank bound) : ¬ s.Deadlocked := by
  intro deadlocked
  obtain ⟨some, stuck⟩ := deadlocked
  have nonempty : Set.Nonempty {t | s.Unfinished t} := some
  obtain ⟨t, unfinished, unblocked⟩ := inOrder.exists_unblocked nonempty
  obtain ⟨t', blocked⟩ := stuck t unfinished
  refine unblocked t' ?_ blocked
  obtain ⟨mode, l, -, hinders | ⟨-, -, writer⟩⟩ := blocked
  · obtain ⟨mode', holds⟩ := hinders.exists_holds
    exact inOrder.unfinished holds
  · exact writer.unfinished

/-- A thread in the middle of a program that is not blocked can take a step. -/
theorem State.exists_step (operations : Program L σ Unit → Prop) (unfinished : s.Unfinished t)
    (free : ¬ s.Blocked t) : ∃ s', Step operations s t s' := by
  cases program : (s.threads t).program with
  | done result => exact absurd program unfinished
  | lock mode l next =>
      refine ⟨_, .acquire program fun t' hinders => free ⟨t', ?_⟩⟩
      exact ⟨mode, l, ⟨next, program⟩, .inl hinders⟩
  | unlock l next => exact ⟨_, .release program⟩
  | access update next => exact ⟨_, .access program⟩

/-- In every run of ordered operations, some thread that is in the middle of one can go on. -/
theorem run_progress {events : List T} {data : σ}
    (ordered : ∀ p, operations p → p.Ordered rank bound [] [])
    (run : Transition.Run (Step operations) (.init data) events s) (unfinished : s.Unfinished t) :
    ∃ t', s.Unfinished t' ∧ ∃ s', Step operations s t' s' := by
  have going : ∃ t', s.Unfinished t' ∧ ¬ s.Blocked t' := by
    by_contra stuck
    simp only [not_exists, not_and, not_not] at stuck
    exact (run_inOrder ordered run).not_deadlocked ⟨⟨t, unfinished⟩, stuck⟩
  obtain ⟨t', unfinished', free⟩ := going
  exact ⟨t', unfinished', State.exists_step operations unfinished' free⟩

end Locking
