import Bonka.Lib.Locking

/-!
# Programs without their locks

Taking and dropping locks changes no data, so seen from the data a program is the sequence of its
accesses (`Program.unlocked`), and a step of a thread does nothing or makes its next access
(`Step.unlocked_cases`).
-/

namespace Locking

variable {L σ α β ι T : Type}

namespace Program

/-! ## The accesses of a program -/

def unlocked : Program L σ α → Program L σ α
  | .done result => .done result
  | .lock _ _ next => next.unlocked
  | .unlock _ next => next.unlocked
  | .access update next => .access update fun s => (next s).unlocked

/-- Collect from one index to the next. -/
def collect (f : ℕ → σ → List α) : ℕ → ℕ → List α → Program L σ (List α)
  | 0, _, found => .done found
  | remaining + 1, i, found => .access id fun s => collect f remaining (i + 1) (found ++ f i s)

@[simp] theorem bind_done (p : Program L σ α) : p.bind .done = p := by
  induction p with
  | done result => rfl
  | lock mode l next ih => rw [bind, ih]
  | unlock l next ih => rw [bind, ih]
  | access update next ih => simp only [bind, ih]

theorem bind_assoc {γ : Type} (p : Program L σ α) (f : α → Program L σ β)
    (g : β → Program L σ γ) : (p.bind f).bind g = p.bind fun result => (f result).bind g := by
  induction p with
  | done result => rfl
  | lock mode l next ih => simp only [bind, ih]
  | unlock l next ih => simp only [bind, ih]
  | access update next ih => simp only [bind, ih]

@[simp] theorem unlocked_bind (p : Program L σ α) (f : α → Program L σ β) :
    (p.bind f).unlocked = p.unlocked.bind fun result => (f result).unlocked := by
  induction p with
  | done result => rfl
  | lock mode l next ih => exact ih
  | unlock l next ih => exact ih
  | access update next ih => simp only [bind, unlocked, ih]

@[simp] theorem unlocked_withLock (mode : LockMode) (l : L) (body : Program L σ α) :
    (withLock mode l body).unlocked = body.unlocked := by
  rw [withLock, unlocked, unlocked_bind]
  exact bind_done _

@[simp] theorem unlocked_done (result : α) :
    (done result : Program L σ α).unlocked = .done result := rfl

@[simp] theorem unlocked_read (f : σ → α) : (read f : Program L σ α).unlocked = read f := rfl

@[simp] theorem unlocked_modify (update : σ → σ) :
    (modify update : Program L σ Unit).unlocked = modify update := rfl

@[simp] theorem unlocked_forEach (body : ι → Program L σ α) (is : List ι) :
    (forEach body is).unlocked = forEach (fun i => (body i).unlocked) is := by
  induction is with
  | nil => rfl
  | cons i is ih => simp only [forEach, unlocked_bind, ih, unlocked_done]

theorem unlocked_passFrom (lockOf : ℕ → L) (f : ℕ → σ → List α) (remaining i : ℕ)
    (found : List α) :
    (passFrom lockOf f remaining i found).unlocked = collect f remaining (i + 1) found := by
  induction remaining generalizing i found with
  | zero => rfl
  | succ remaining ih => simp only [passFrom, unlocked, collect, ih]

@[simp] theorem unlocked_pass (lockOf : ℕ → L) (f : ℕ → σ → List α) (count : ℕ) :
    (pass lockOf f count).unlocked = collect f count 0 [] := by
  cases count with
  | zero => rfl
  | succ count =>
      simp only [pass, unlocked, unlocked_passFrom, collect, List.nil_append, Nat.zero_add]

/-! ## Programs that only read -/

def OnlyReads : Program L σ α → Prop
  | .done _ => True
  | .lock _ _ next => next.OnlyReads
  | .unlock _ next => next.OnlyReads
  | .access update next => update = id ∧ ∀ s, (next s).OnlyReads

theorem OnlyReads.bind {p : Program L σ α} {f : α → Program L σ β} (first : p.OnlyReads)
    (second : ∀ result, (f result).OnlyReads) : (p.bind f).OnlyReads := by
  induction p with
  | done result => exact second result
  | lock mode l next ih => exact ih first
  | unlock l next ih => exact ih first
  | access update next ih => exact ⟨first.1, fun s => ih s (first.2 s)⟩

theorem OnlyReads.unlocked {p : Program L σ α} (reads : p.OnlyReads) : p.unlocked.OnlyReads := by
  induction p with
  | done result => trivial
  | lock mode l next ih => exact ih reads
  | unlock l next ih => exact ih reads
  | access update next ih => exact ⟨reads.1, fun s => ih s (reads.2 s)⟩

theorem OnlyReads.read (f : σ → α) : (read f : Program L σ α).OnlyReads :=
  ⟨rfl, fun _ => trivial⟩

theorem OnlyReads.withLock {mode : LockMode} {l : L} {body : Program L σ α}
    (inside : body.OnlyReads) : (withLock mode l body).OnlyReads :=
  OnlyReads.bind inside fun _ => trivial

theorem OnlyReads.forEach {body : ι → Program L σ α} (each : ∀ i, (body i).OnlyReads)
    (is : List ι) : (forEach body is).OnlyReads := by
  induction is with
  | nil => trivial
  | cons i is ih => exact (each i).bind fun _ => ih.bind fun _ => trivial

theorem OnlyReads.passFrom (lockOf : ℕ → L) (f : ℕ → σ → List α) (remaining i : ℕ)
    (found : List α) : (passFrom lockOf f remaining i found).OnlyReads := by
  induction remaining generalizing i found with
  | zero => trivial
  | succ remaining ih => exact ⟨rfl, fun s => ih _ _⟩

theorem OnlyReads.pass (lockOf : ℕ → L) (f : ℕ → σ → List α) (count : ℕ) :
    (pass lockOf f count).OnlyReads := by
  cases count with
  | zero => trivial
  | succ count => exact ⟨rfl, fun s => .passFrom lockOf f count 0 _⟩

end Program

/-! ## Steps seen from the data -/

variable [DecidableEq L] [DecidableEq T] {operations : Program L σ Unit → Prop}
  {s s' : State L σ T} {t : T}

/-- What a step of a thread in the middle of a program does: nothing, or its next access. -/
theorem Step.unlocked_cases (step : Step (fun _ => False) s t s') :
    s'.data = s.data ∧
        (s'.threads t).program.unlocked = (s.threads t).program.unlocked ∨
      ∃ update next, (s.threads t).program = .access update next ∧ s'.data = update s.data ∧
        (s'.threads t).program.unlocked = (next s.data).unlocked := by
  cases step with
  | start idle operation => exact operation.elim
  | acquire here free =>
      refine .inl ⟨rfl, ?_⟩
      simp only [State.put, Function.update_self, here, Program.unlocked]
  | release here =>
      refine .inl ⟨rfl, ?_⟩
      simp only [State.put, Function.update_self, here, Program.unlocked]
  | access here =>
      refine .inr ⟨_, _, here, rfl, ?_⟩
      simp only [State.put, Function.update_self]

/-- A thread in front of an access takes it. -/
theorem Step.unlocked_access {update : σ → σ} {next : σ → Program L σ Unit}
    (step : Step (fun _ => False) s t s') (here : (s.threads t).program = .access update next) :
    s'.data = update s.data ∧ (s'.threads t).program.unlocked = (next s.data).unlocked := by
  cases step with
  | start idle operation => exact operation.elim
  | acquire there => cases here.symm.trans there
  | release there => cases here.symm.trans there
  | access there =>
      cases here.symm.trans there
      exact ⟨rfl, by simp only [State.put, Function.update_self]⟩

end Locking
