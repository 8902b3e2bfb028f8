import Bonka.Lib.DashMap
import Bonka.Lib.Locking

/-!
# Shared data behind locks

The data fall into parts, one behind each lock.  A program is `Guarded` when each of its accesses
changes only parts whose locks it holds to write and depends only on parts whose locks it holds.
Threads that run guarded programs do not race: what two of them are about to do to the data can be
done in either order (`accesses_commute`), and a part stays as it is while its lock is held, but
for what its writer does (`part_of_holds`).
-/

namespace Locking

variable {L σ α β T : Type} {δ : L → Type}

namespace Program

/-! ## Guarded programs -/

/-- An access under the locks `held`: it changes no part that is not locked to write, and what it
does and how its program goes on depend on the locked parts only. -/
structure Within (part : ∀ l, σ → δ l) (held : List (L × LockMode)) (update : σ → σ)
    (next : σ → Program L σ α) : Prop where
  writes : ∀ s l, (l, .write) ∉ held → part l (update s) = part l s
  next : ∀ s s', (∀ h ∈ held, part h.1 s = part h.1 s') → next s = next s'
  update : ∀ s s', (∀ h ∈ held, part h.1 s = part h.1 s') →
    ∀ l, (l, .write) ∈ held → part l (update s) = part l (update s')

variable [DecidableEq L]

/-- A program that starts with the locks `held` accesses the data within the locks it holds, and
ends with the locks `after`. -/
def Guarded (part : ∀ l, σ → δ l) :
    Program L σ α → List (L × LockMode) → List (L × LockMode) → Prop
  | .done _, held, after => held = after
  | .lock mode l next, held, after => next.Guarded part ((l, mode) :: held) after
  | .unlock l next, held, after => next.Guarded part (dropLock l held) after
  | .access update next, held, after =>
      Within part held update next ∧ ∀ s, (next s).Guarded part held after

variable {part : ∀ l, σ → δ l} {held middle after : List (L × LockMode)}

theorem Guarded.bind {p : Program L σ α} {f : α → Program L σ β}
    (first : p.Guarded part held middle) (second : ∀ result, (f result).Guarded part middle after) :
    (p.bind f).Guarded part held after := by
  induction p generalizing held with
  | done result =>
      cases first
      exact second result
  | lock mode l next ih => exact ih first
  | unlock l next ih => exact ih first
  | access update next ih =>
      obtain ⟨within, rest⟩ := first
      refine ⟨⟨within.writes, fun s s' same => ?_, within.update⟩, fun s => ih s (rest s)⟩
      rw [within.next s s' same]

/-- Dropping a lock that has just been taken leaves those that were held. -/
theorem dropLock_cons_self {l : L} (mode : LockMode) (fresh : ∀ h ∈ held, h.1 ≠ l) :
    dropLock l ((l, mode) :: held) = held := by
  rw [dropLock, List.filter_cons_of_neg (by simp)]
  exact List.filter_eq_self.mpr fun h member => by simpa using fresh h member

theorem Guarded.withLock {mode : LockMode} {l : L} {body : Program L σ α}
    (fresh : ∀ h ∈ held, h.1 ≠ l)
    (inside : body.Guarded part ((l, mode) :: held) ((l, mode) :: held)) :
    (withLock mode l body).Guarded part held held :=
  inside.bind fun _ => dropLock_cons_self mode fresh

/-- `f` is a function of one part. -/
def OfPart (part : ∀ l, σ → δ l) (l : L) (f : σ → β) : Prop :=
  ∀ s s', part l s = part l s' → f s = f s'

omit [DecidableEq L] in
/-- An access that only reads one locked part. -/
theorem Within.read {l : L} {mode : LockMode} {next : σ → Program L σ α} (member : (l, mode) ∈ held)
    (reads : OfPart part l next) : Within part held id next where
  writes _ _ _ := rfl
  next s s' same := reads s s' (same _ member)
  update _ _ same l' writes := same (l', .write) writes

theorem Guarded.read {l : L} {mode : LockMode} {f : σ → α} (member : (l, mode) ∈ held)
    (reads : OfPart part l f) : (read f : Program L σ α).Guarded part held held :=
  ⟨.read member fun s s' same => by rw [reads s s' same], fun _ => rfl⟩

/-- An update of one part, from itself. -/
structure UpdatesPart (part : ∀ l, σ → δ l) (l : L) (update : σ → σ) : Prop where
  others : ∀ s l', l' ≠ l → part l' (update s) = part l' s
  own : OfPart part l fun s => part l (update s)

omit [DecidableEq L] in
/-- An access of the only part that is locked to write. -/
theorem UpdatesPart.within {l : L} {update : σ → σ} (updates : UpdatesPart part l update)
    {next : σ → Program L σ α} (member : (l, .write) ∈ held) (reads : OfPart part l next) :
    Within part held update next where
  writes s l' unlocked := updates.others s l' fun same => unlocked (same ▸ member)
  next s s' same := reads s s' (same _ member)
  update s s' same l' writes := by
    by_cases own : l' = l
    · subst own
      exact updates.own s s' (same _ member)
    · rw [updates.others s l' own, updates.others s' l' own]
      exact same _ writes

theorem Guarded.modify {l : L} {update : σ → σ} (updates : UpdatesPart part l update)
    (member : (l, .write) ∈ held) :
    (modify update : Program L σ Unit).Guarded part held held :=
  ⟨updates.within member fun _ _ _ => rfl, fun _ => rfl⟩

theorem Guarded.forEach {ι : Type} {body : ι → Program L σ α} {is : List ι}
    (each : ∀ i ∈ is, (body i).Guarded part held held) :
    (forEach body is).Guarded part held held := by
  induction is with
  | nil => rfl
  | cons i is ih =>
      have rest := ih fun j member => each j (List.mem_cons_of_mem _ member)
      exact (each i List.mem_cons_self).bind fun first => rest.bind fun results => rfl

theorem Guarded.passFrom {lockOf : ℕ → L} {f : ℕ → σ → List α}
    (distinct : Function.Injective lockOf) (reads : ∀ i, OfPart part (lockOf i) (f i))
    (remaining : ℕ) {i : ℕ} (found : List α) (fresh : ∀ h ∈ held, ∀ j, h.1 ≠ lockOf j) :
    (passFrom lockOf f remaining i found).Guarded part ((lockOf i, .read) :: held) held := by
  induction remaining generalizing i found with
  | zero => exact dropLock_cons_self _ fun h member => fresh h member i
  | succ remaining ih =>
      have dropped : dropLock (lockOf i) ((lockOf (i + 1), .read) :: (lockOf i, .read) :: held) =
          (lockOf (i + 1), .read) :: held := by
        have rest := dropLock_cons_self LockMode.read fun h member => fresh h member i
        rw [dropLock] at rest ⊢
        rw [List.filter_cons_of_pos (by simp [distinct.eq_iff]), rest]
      unfold Program.passFrom
      simp only [Guarded, dropped]
      refine ⟨.read List.mem_cons_self fun s s' same => ?_, fun s => ih _⟩
      rw [reads (i + 1) s s' same]

theorem Guarded.pass {lockOf : ℕ → L} {f : ℕ → σ → List α}
    (distinct : Function.Injective lockOf) (reads : ∀ i, OfPart part (lockOf i) (f i)) (count : ℕ)
    (fresh : ∀ h ∈ held, ∀ j, h.1 ≠ lockOf j) :
    (pass lockOf f count).Guarded part held held := by
  cases count with
  | zero => rfl
  | succ count =>
      refine ⟨.read List.mem_cons_self fun s s' same => ?_, fun s => ?_⟩
      · rw [reads 0 s s' same]
      · exact .passFrom distinct reads count _ fresh

end Program

/-! ## Threads that run guarded programs -/

variable [DecidableEq L] [DecidableEq T] {operations : Program L σ Unit → Prop}
  {part : ∀ l, σ → δ l} {s s' s₁ s₂ : State L σ T} {t t' : T} {l : L} {mode : LockMode}

omit [DecidableEq L] [DecidableEq T] in
theorem State.Free.of_unheld (unheld : ∀ t, ∀ h ∈ (s.threads t).held, h.1 ≠ l) :
    s.Free l mode := by
  intro t hinders
  obtain ⟨mode', holds⟩ := hinders.exists_holds
  exact unheld t _ holds rfl

/-- A lock that is held to write is not held in any other way. -/
def State.Exclusive (s : State L σ T) : Prop :=
  ∀ {t t' l mode}, s.Holds t l .write → s.Holds t' l mode → t' = t ∧ mode = .write

/-- What is left of every program is guarded by the locks its thread holds. -/
def State.Guarded (part : ∀ l, σ → δ l) (s : State L σ T) : Prop :=
  ∀ t, (s.threads t).program.Guarded part (s.threads t).held []

/-- A step gives its thread what is left to do and the locks to hold, and leaves the others be. -/
theorem Step.threads_ne (step : Step operations s t s') (other : t' ≠ t) :
    s'.threads t' = s.threads t' := by
  cases step <;> exact Function.update_of_ne other _ _

/-- The locks that are held after a step were held before it, but for one that was free. -/
theorem Step.holds_cases (step : Step operations s t s') :
    (∀ {u l mode}, s'.Holds u l mode → s.Holds u l mode) ∨
      ∃ l₀ mode₀, s.Free l₀ mode₀ ∧ ∀ {u l mode}, s'.Holds u l mode →
        s.Holds u l mode ∨ u = t ∧ (l, mode) = (l₀, mode₀) := by
  have others : ∀ {u l mode}, u ≠ t → s'.Holds u l mode → s.Holds u l mode := by
    intro u l mode other holds
    rwa [State.Holds, step.threads_ne other] at holds
  have own : ∀ {thread : Thread L σ}, s'.threads t = thread →
      (∀ h ∈ thread.held, h ∈ (s.threads t).held) →
      ∀ {u l mode}, s'.Holds u l mode → s.Holds u l mode := by
    intro thread here kept u l mode holds
    by_cases same : u = t
    · subst same
      rw [State.Holds, here] at holds
      exact kept _ holds
    · exact others same holds
  cases step with
  | start idle operation =>
      exact .inl (own (Function.update_self _ _ _) fun _ member => member)
  | @acquire mode₀ l₀ next here free =>
      refine .inr ⟨l₀, mode₀, free, fun {u l mode} holds => ?_⟩
      by_cases same : u = t
      · subst same
        simp only [State.Holds, State.put, Function.update_self] at holds
        rcases List.mem_cons.mp holds with new | old
        · exact .inr ⟨rfl, new⟩
        · exact .inl old
      · exact .inl (others same holds)
  | release here =>
      exact .inl (own (Function.update_self _ _ _) fun _ member => (List.mem_filter.mp member).1)
  | access here =>
      exact .inl (own (Function.update_self _ _ _) fun _ member => member)

theorem Step.exclusive (exclusive : s.Exclusive) (step : Step operations s t s') :
    s'.Exclusive := by
  intro u u' l mode writer holder
  rcases step.holds_cases with kept | ⟨l₀, mode₀, free, grown⟩
  · exact exclusive (kept writer) (kept holder)
  · rcases grown writer with writer | ⟨rfl, new⟩ <;>
      rcases grown holder with holder | ⟨rfl, new'⟩
    · exact exclusive writer holder
    · -- the lock was not free to be held once more
      cases new'
      refine absurd ?_ (free u)
      cases mode with
      | read => exact writer
      | write => exact ⟨_, writer⟩
    · cases new
      exact absurd ⟨_, holder⟩ (free u')
    · cases new
      cases new'
      exact ⟨rfl, rfl⟩

theorem Step.guarded (starts : ∀ p, operations p → p.Guarded part [] [])
    (guarded : s.Guarded part) (step : Step operations s t s') : s'.Guarded part := by
  intro u
  by_cases other : u = t
  · subst other
    have mine := guarded u
    cases step with
    | start idle operation =>
        rw [idle] at mine
        have none : (s.threads u).held = [] := mine
        simp only [State.put, Function.update_self, none]
        exact starts _ operation
    | acquire here free =>
        rw [here] at mine
        simp only [State.put, Function.update_self]
        exact mine
    | release here =>
        rw [here] at mine
        simp only [State.put, Function.update_self]
        exact mine
    | access here =>
        rw [here] at mine
        simp only [State.put, Function.update_self]
        exact mine.2 s.data
  · rw [step.threads_ne other]
    exact guarded u

/-- Every reachable state of threads that run guarded operations. -/
theorem run_guarded {events : List T} {data : σ}
    (starts : ∀ p, operations p → p.Guarded part [] [])
    (run : Transition.Run (Step operations) (.init data) events s) :
    s.Exclusive ∧ s.Guarded part := by
  induction run with
  | nil => exact ⟨fun writer => (by cases writer), fun _ => rfl⟩
  | snoc _ last ih => exact ⟨last.exclusive ih.1, last.guarded starts ih.2⟩

/-! ## No races -/

omit [DecidableEq T] in
/-- A thread about to access the data does so within its locks. -/
theorem State.Guarded.within (guarded : s.Guarded part) {update : σ → σ}
    {next : σ → Program L σ Unit} (here : (s.threads t).program = .access update next) :
    Program.Within part (s.threads t).held update next := by
  have mine := guarded t
  rw [here] at mine
  exact mine.1

/-- A part stays as it is in a step of a thread that does not hold its lock to write. -/
theorem Step.part_eq (guarded : s.Guarded part) (step : Step operations s t s')
    (unlocked : ¬ s.Holds t l .write) : part l s'.data = part l s.data := by
  cases step with
  | start | acquire | release => rfl
  | access here => exact (guarded.within here).writes _ _ unlocked

/-- **A held lock protects its part.**  While a thread holds a lock, no other thread changes what
lies behind it, and nobody does if it is held to read. -/
theorem Step.part_of_holds (exclusive : s.Exclusive) (guarded : s.Guarded part)
    (step : Step operations s t s') (holds : s.Holds t' l mode)
    (reader : t' = t → mode = .read) : part l s'.data = part l s.data := by
  refine step.part_eq guarded fun writer => ?_
  obtain ⟨same, writes⟩ := exclusive writer holds
  cases (reader same).symm.trans writes

omit [DecidableEq T] in
/-- **Accesses commute.**  Of two threads that are about to access the data, neither sees what the
other one does, and all parts end up the same whoever is first. -/
theorem State.Exclusive.accesses_commute (exclusive : s.Exclusive) (guarded : s.Guarded part)
    (distinct : t ≠ t') {update update' : σ → σ} {next next' : σ → Program L σ Unit}
    (here : (s.threads t).program = .access update next)
    (there : (s.threads t').program = .access update' next') :
    next (update' s.data) = next s.data ∧ next' (update s.data) = next' s.data ∧
      ∀ l, part l (update (update' s.data)) = part l (update' (update s.data)) := by
  have within := guarded.within here
  have within' := guarded.within there
  have apart : ∀ {u u' mode l}, u ≠ u' → (l, mode) ∈ (s.threads u).held →
      (l, .write) ∉ (s.threads u').held :=
    fun other holder writer => other (exclusive writer holder).1
  have unseen : ∀ h ∈ (s.threads t).held, part h.1 (update' s.data) = part h.1 s.data :=
    fun h member => within'.writes _ _ (apart distinct member)
  have unseen' : ∀ h ∈ (s.threads t').held, part h.1 (update s.data) = part h.1 s.data :=
    fun h member => within.writes _ _ (apart distinct.symm member)
  refine ⟨within.next _ _ unseen, within'.next _ _ unseen', fun l => ?_⟩
  by_cases mine : (l, .write) ∈ (s.threads t).held
  · rw [within.update _ _ unseen l mine, within'.writes _ _ (apart distinct mine)]
  · rw [within.writes _ _ mine]
    by_cases yours : (l, .write) ∈ (s.threads t').held
    · rw [within'.update _ _ unseen' l yours]
    · rw [within'.writes _ _ yours, within'.writes _ _ yours, within.writes _ _ mine]

/-! ## Swapping accesses -/

/-- The thread is about to access the data. -/
def State.Accesses (s : State L σ T) (t : T) : Prop :=
  ∃ update next, (s.threads t).program = .access update next

/-- Two states that no guarded program tells apart. -/
structure State.SameParts (part : ∀ l, σ → δ l) (s r : State L σ T) : Prop where
  threads : r.threads = s.threads
  parts : ∀ l, part l r.data = part l s.data

variable {r : State L σ T}

theorem State.SameParts.step (same : s.SameParts part r) (guarded : s.Guarded part)
    (step : Step operations s t s') : ∃ r', Step operations r t r' ∧ s'.SameParts part r' := by
  obtain ⟨data, threads⟩ := r
  obtain ⟨rfl, parts⟩ := same
  cases step with
  | start idle operation => exact ⟨_, .start idle operation, rfl, parts⟩
  | acquire here free => exact ⟨_, .acquire here free, rfl, parts⟩
  | release here => exact ⟨_, .release here, rfl, parts⟩
  | @access update next here =>
      have within := guarded.within here
      refine ⟨_, .access here, ?_, fun l => ?_⟩
      · dsimp only [State.put]
        rw [within.next data s.data fun h _ => parts h.1]
      · dsimp only
        by_cases writes : (l, .write) ∈ (s.threads t).held
        · exact within.update data s.data (fun h _ => parts h.1) l writes
        · rw [within.writes _ _ writes, within.writes _ _ writes]
          exact parts l

theorem State.SameParts.run (starts : ∀ p, operations p → p.Guarded part [] [])
    {events : List T} (same : s.SameParts part r) (guarded : s.Guarded part)
    (run : Transition.Run (Step operations) s events s') :
    ∃ r', Transition.Run (Step operations) r events r' ∧ s'.SameParts part r' := by
  have both : s'.Guarded part ∧
      ∃ r', Transition.Run (Step operations) r events r' ∧ s'.SameParts part r' := by
    induction run with
    | nil => exact ⟨guarded, r, .nil, same⟩
    | snoc _ last ih =>
        obtain ⟨guarded, r', run', same⟩ := ih
        obtain ⟨r'', step, same'⟩ := same.step guarded last
        exact ⟨last.guarded starts guarded, r'', run'.snoc step, same'⟩
  exact both.2

/-- The state after an access. -/
def State.accessed (s : State L σ T) (t : T) (update : σ → σ) (next : σ → Program L σ Unit) :
    State L σ T where
  data := update s.data
  threads := Function.update s.threads t ⟨next s.data, (s.threads t).held⟩

section

variable {update update' : σ → σ} {next next' : σ → Program L σ Unit}

theorem Step.of_access (step : Step operations s t s')
    (here : (s.threads t).program = .access update next) : s' = s.accessed t update next := by
  cases step with
  | start idle => cases here.symm.trans idle
  | acquire there => cases here.symm.trans there
  | release there => cases here.symm.trans there
  | access there =>
      cases here.symm.trans there
      rfl

theorem State.Accesses.exists_run (here : s.Accesses t) (distinct : t ≠ t')
    (there : s.Accesses t') : ∃ s', Transition.Run (Step operations) s [t, t'] s' := by
  obtain ⟨update, next, here⟩ := here
  obtain ⟨update', next', there⟩ := there
  have first : Step operations s t _ := .access here
  rw [← first.threads_ne distinct.symm] at there
  exact ⟨_, (Transition.Run.single first).snoc (.access there)⟩

theorem accessed_swap (exclusive : s.Exclusive) (guarded : s.Guarded part) (distinct : t ≠ t')
    (here : (s.threads t).program = .access update next)
    (there : (s.threads t').program = .access update' next') :
    ((s.accessed t update next).accessed t' update' next').SameParts part
      ((s.accessed t' update' next').accessed t update next) := by
  obtain ⟨unseen, unseen', parts⟩ := exclusive.accesses_commute guarded distinct here there
  refine ⟨?_, parts⟩
  dsimp only [State.accessed]
  rw [unseen, unseen', Function.update_of_ne distinct, Function.update_of_ne distinct.symm,
    Function.update_comm distinct]

/-- **No race.**  When two threads are about to access the data, a run in which they do so one after
the other is a run with the two accesses swapped, and no thread can tell the difference. -/
theorem run_swap (starts : ∀ p, operations p → p.Guarded part [] []) (exclusive : s.Exclusive)
    (guarded : s.Guarded part) (distinct : t ≠ t') (here : s.Accesses t) (there : s.Accesses t')
    {rest : List T}
    (run : Transition.Run (Step operations) s (t :: t' :: rest) s') :
    ∃ r', Transition.Run (Step operations) s (t' :: t :: rest) r' ∧ s'.SameParts part r' := by
  obtain ⟨update, next, here⟩ := here
  obtain ⟨update', next', there⟩ := there
  rw [← List.nil_append (t :: t' :: rest)] at run
  obtain ⟨_, s₁, before, first, run⟩ := run.at_event
  cases before.of_nil
  rw [← List.nil_append (t' :: rest)] at run
  obtain ⟨_, s₂, before, second, run⟩ := run.at_event
  cases before.of_nil
  have guarded₂ := second.guarded starts (first.guarded starts guarded)
  rw [← first.threads_ne distinct.symm] at there
  rw [second.of_access there, first.of_access here] at run guarded₂
  rw [first.threads_ne distinct.symm] at there
  have first' : Step operations s t' (s.accessed t' update' next') := .access there
  have here' := here
  rw [← first'.threads_ne distinct] at here'
  have second' : Step operations _ t ((s.accessed t' update' next').accessed t update next) :=
    .access here'
  obtain ⟨r', run', same⟩ :=
    (accessed_swap exclusive guarded distinct here there).run starts guarded₂ run
  exact ⟨r', (Transition.Run.single first').trans ((Transition.Run.single second').trans run'),
    same⟩

end

/-- While a lock is held to read, or by a thread that does nothing, its part stays as it is. -/
theorem run_part_eq (starts : ∀ p, operations p → p.Guarded part [] []) (exclusive : s.Exclusive)
    (guarded : s.Guarded part) {events : List T}
    (run : Transition.Run (fun s u s' => Step operations s u s' ∧ s.Holds t l mode ∧
      (u = t → mode = .read)) s events s') : part l s'.data = part l s.data := by
  have all : s'.Exclusive ∧ s'.Guarded part ∧ part l s'.data = part l s.data := by
    induction run with
    | nil => exact ⟨exclusive, guarded, rfl⟩
    | snoc _ last ih =>
        obtain ⟨exclusive, guarded, same⟩ := ih
        obtain ⟨step, holds, reader⟩ := last
        refine ⟨step.exclusive exclusive, step.guarded starts guarded, ?_⟩
        rw [step.part_of_holds exclusive guarded holds fun own => reader own.symm, same]
  exact all.2.2

/-! ## Maps in shards -/

namespace Program

variable {K V : Type} {shardOf : K → ℕ}

/-- What lies behind the lock of a shard. -/
abbrev shardPart (shardOf : K → ℕ) (shard : ℕ) (m : DashMap K V) : List (K × V) :=
  m.shardEntries shardOf shard

theorem UpdatesPart.clearShard (shard : ℕ) :
    UpdatesPart (shardPart shardOf) shard fun m : DashMap K V => m.clearShard shardOf shard where
  others m other distinct := by
    rw [shardPart, DashMap.shardEntries_clearShard, if_neg distinct]
  own m m' _ := by
    dsimp only [shardPart]
    rw [DashMap.shardEntries_clearShard, if_pos rfl, DashMap.shardEntries_clearShard, if_pos rfl]

variable [DecidableEq K]

theorem UpdatesPart.erase (key : K) :
    UpdatesPart (shardPart shardOf) (shardOf key) fun m : DashMap K V => m.erase key where
  others m shard other := DashMap.shardEntries_erase_ne m other.symm
  own m m' same := by
    dsimp only [shardPart] at same ⊢
    rw [DashMap.shardEntries_erase, same, DashMap.shardEntries_erase]

theorem UpdatesPart.insert (key : K) (value : V) :
    UpdatesPart (shardPart shardOf) (shardOf key) fun m : DashMap K V => m.insert key value where
  others m shard other := by
    rw [shardPart, DashMap.shardEntries_insert, if_neg other.symm]
    exact DashMap.shardEntries_erase_ne m other.symm
  own m m' same := by
    have erased := (UpdatesPart.erase key).own m m' same
    dsimp only [shardPart] at erased ⊢
    rw [DashMap.shardEntries_insert, if_pos rfl, erased, DashMap.shardEntries_insert, if_pos rfl]

theorem OfPart.lookup (key : K) :
    OfPart (shardPart shardOf) (shardOf key) fun m : DashMap K V => m.lookup key :=
  fun _ _ same => DashMap.lookup_congr same

/-- `entry(key)`: the new value depends on the old one. -/
theorem UpdatesPart.entry (key : K) (f : Option V → V) :
    UpdatesPart (shardPart shardOf) (shardOf key)
      fun m : DashMap K V => m.insert key (f (m.lookup key)) where
  others m := (UpdatesPart.insert key _).others m
  own m m' same := by
    have found : m.lookup key = m'.lookup key := OfPart.lookup key m m' same
    dsimp only
    rw [found]
    exact (UpdatesPart.insert key _).own m m' same

/-- `get_mut(key)`: a value is changed if it is there. -/
theorem UpdatesPart.getMut (key : K) (f : V → V) :
    UpdatesPart (shardPart shardOf) (shardOf key)
      fun m : DashMap K V => (m.lookup key).elim m fun value => m.insert key (f value) where
  others m shard other := by
    cases m.lookup key with
    | none => rfl
    | some value => exact (UpdatesPart.insert key _).others m shard other
  own m m' same := by
    have found : m.lookup key = m'.lookup key := OfPart.lookup key m m' same
    dsimp only
    rw [found]
    cases m'.lookup key with
    | none => exact same
    | some value => exact (UpdatesPart.insert key _).own m m' same

end Program

end Locking
