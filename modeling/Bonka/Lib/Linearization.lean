import Mathlib.Data.List.Nodup

/-!
# Linearization from commit points

An operation of a concurrent object is invoked, takes effect at one event (its commit) and is
answered.  If every commit lies between the invocation and the answer of its own operation, the
order of the commits extends the real-time order of the operations (`commit_order_realTime`), so
it is the order to replay a history in.
-/

namespace Linearization

variable {ε ι : Type*}

/-- What an event of a history does: the operation it invokes, commits or answers. -/
structure Phases (ε ι : Type*) where
  invoke : ε → Option ι
  commit : ε → Option ι
  respond : ε → Option ι

/-- Operations are invoked and committed once, committed after they are invoked and answered
after they are committed. -/
structure Phases.WellFormed (phases : Phases ε ι) (history : List ε) : Prop where
  invokedOnce : (history.filterMap phases.invoke).Nodup
  committedOnce : (history.filterMap phases.commit).Nodup
  commitInvoked : ∀ {xs e ys i}, history = xs ++ e :: ys → phases.commit e = some i →
    i ∈ xs.filterMap phases.invoke
  respondCommitted : ∀ {xs e ys i}, history = xs ++ e :: ys → phases.respond e = some i →
    i ∈ xs.filterMap phases.commit

/-- The order in which the operations of a history take effect. -/
def Phases.commitOrder (phases : Phases ε ι) (history : List ε) : List ι :=
  history.filterMap phases.commit

/-- Real-time order: `i` is answered before `j` is invoked. -/
def Phases.Precedes (phases : Phases ε ι) (history : List ε) (i j : ι) : Prop :=
  ∃ xs e ys f zs, history = xs ++ e :: ys ++ f :: zs ∧
    phases.respond e = some i ∧ phases.invoke f = some j

variable {phases : Phases ε ι} {history : List ε}

/-- What is answered in one part of a history precedes what is invoked in a later part. -/
theorem Phases.precedes_of_mem {xs ys zs : List ε} {e f : ε} {i j : ι} (early : e ∈ xs)
    (late : f ∈ zs) (answered : phases.respond e = some i) (invoked : phases.invoke f = some j) :
    phases.Precedes (xs ++ ys ++ zs) i j := by
  obtain ⟨as, bs, rfl⟩ := List.append_of_mem early
  obtain ⟨ps, qs, rfl⟩ := List.append_of_mem late
  exact ⟨as, e, bs ++ ys ++ ps, f, qs, by simp, answered, invoked⟩

theorem Phases.WellFormed.nil : phases.WellFormed ([] : List ε) where
  invokedOnce := List.nodup_nil
  committedOnce := List.nodup_nil
  commitInvoked shape := by simp at shape
  respondCommitted shape := by simp at shape

/-- A list that ends in `last` is cut at an earlier element or at `last` itself. -/
theorem snoc_eq_append_cons {history xs ys : List ε} {last e : ε}
    (shape : history ++ [last] = xs ++ e :: ys) :
    (∃ ys', ys = ys' ++ [last] ∧ history = xs ++ e :: ys') ∨
      (ys = [] ∧ e = last ∧ history = xs) := by
  rcases List.eq_nil_or_concat ys with rfl | ⟨ys', y, rfl⟩
  · obtain ⟨same, final⟩ := List.append_inj' shape rfl
    exact Or.inr ⟨rfl, by simpa using final.symm, same⟩
  · rw [List.concat_eq_append, ← List.cons_append, ← List.append_assoc] at shape
    obtain ⟨same, final⟩ := List.append_inj' shape rfl
    cases final
    exact Or.inl ⟨ys', by simp, same⟩

/-- One more event keeps a history well formed when it invokes a new operation, commits an
invoked operation for the first time, or answers a committed one. -/
theorem Phases.WellFormed.snoc (wf : phases.WellFormed history) {event : ε}
    (invokes : ∀ i, phases.invoke event = some i → i ∉ history.filterMap phases.invoke)
    (commits : ∀ i, phases.commit event = some i →
      i ∈ history.filterMap phases.invoke ∧ i ∉ history.filterMap phases.commit)
    (responds : ∀ i, phases.respond event = some i → i ∈ history.filterMap phases.commit) :
    phases.WellFormed (history ++ [event]) where
  invokedOnce := by
    rw [List.filterMap_append, List.nodup_append]
    refine ⟨wf.invokedOnce, ?_, ?_⟩
    · cases hinv : phases.invoke event <;> simp [hinv]
    · intro i old j new same
      obtain ⟨e, member, hinv⟩ := List.mem_filterMap.mp new
      cases List.mem_singleton.mp member
      exact invokes j hinv (same ▸ old)
  committedOnce := by
    rw [List.filterMap_append, List.nodup_append]
    refine ⟨wf.committedOnce, ?_, ?_⟩
    · cases hcom : phases.commit event <;> simp [hcom]
    · intro i old j new same
      obtain ⟨e, member, hcom⟩ := List.mem_filterMap.mp new
      cases List.mem_singleton.mp member
      exact (commits j hcom).2 (same ▸ old)
  commitInvoked := by
    intro xs e ys i shape hcom
    rcases snoc_eq_append_cons shape with ⟨ys', -, earlier⟩ | ⟨-, rfl, rfl⟩
    · exact wf.commitInvoked earlier hcom
    · exact (commits i hcom).1
  respondCommitted := by
    intro xs e ys i shape hres
    rcases snoc_eq_append_cons shape with ⟨ys', -, earlier⟩ | ⟨-, rfl, rfl⟩
    · exact wf.respondCommitted earlier hres
    · exact responds i hres

/-- An operation committed in a well-formed history is committed after its invocation. -/
theorem Phases.WellFormed.committed_after_invoke (wf : phases.WellFormed history)
    {xs zs : List ε} {f : ε} {j : ι} (shape : history = xs ++ f :: zs)
    (invoked : phases.invoke f = some j) (committed : j ∈ phases.commitOrder history) :
    j ∈ phases.commitOrder zs := by
  obtain ⟨g, member, hcom⟩ := List.mem_filterMap.mp committed
  obtain ⟨us, vs, cut⟩ := List.append_of_mem member
  have once := wf.invokedOnce
  rw [shape, List.filterMap_append, List.filterMap_cons_some invoked] at once
  have fresh : j ∉ xs.filterMap phases.invoke := fun early =>
    (List.nodup_append.mp once).2.2 j early j (List.mem_cons_self ..) rfl
  -- the commit's own prefix `us` holds the invocation, so `us` reaches past `f`
  have reaches := wf.commitInvoked cut hcom
  rw [cut, List.append_eq_append_iff] at shape
  rcases shape with ⟨mid, rfl, -⟩ | ⟨mid, rfl, tail⟩
  · exact (fresh (by rw [List.filterMap_append]; exact List.mem_append_left _ reaches)).elim
  · cases mid with
    | nil => exact (fresh (by simpa using reaches)).elim
    | cons h rest =>
        obtain ⟨rfl, rfl⟩ := List.cons.inj tail
        exact List.mem_filterMap.mpr ⟨g, by simp, hcom⟩

/-- **Commits respect real time.**  When `i` is answered before the committed operation `j` is
invoked, `i` comes before `j` in the commit order. -/
theorem Phases.WellFormed.commit_order_realTime (wf : phases.WellFormed history) {i j : ι}
    (before : phases.Precedes history i j) (committed : j ∈ phases.commitOrder history) :
    [i, j].Sublist (phases.commitOrder history) := by
  obtain ⟨xs, e, ys, f, zs, shape, answered, invoked⟩ := before
  have early : i ∈ phases.commitOrder xs :=
    wf.respondCommitted (by rw [shape, List.append_assoc, List.cons_append]) answered
  have late : j ∈ phases.commitOrder zs := wf.committed_after_invoke shape invoked committed
  have split : phases.commitOrder history =
      phases.commitOrder xs ++ phases.commitOrder (e :: ys ++ [f]) ++ phases.commitOrder zs := by
    simp only [Phases.commitOrder, ← List.filterMap_append]
    rw [shape]
    simp
  rw [split, ← List.singleton_append]
  exact List.Sublist.append
    ((List.singleton_sublist.mpr early).trans (List.sublist_append_left _ _))
    (List.singleton_sublist.mpr late)

/-! ## Sequential histories -/

section

variable {σ : Type*} {next : σ → ι → σ} {ok : σ → ι → Prop} {start : σ} {order : List ι}

/-- Every operation of `order` is `ok` in the state the operations before it lead to. -/
def Legal (next : σ → ι → σ) (ok : σ → ι → Prop) (start : σ) (order : List ι) : Prop :=
  ∀ before i after, order = before ++ i :: after → ok (before.foldl next start) i

theorem Legal.nil : Legal next ok start [] := by
  intro before i after shape
  simp at shape

theorem Legal.snoc (legal : Legal next ok start order) {i : ι}
    (last : ok (order.foldl next start) i) : Legal next ok start (order ++ [i]) := by
  intro before j after shape
  rcases snoc_eq_append_cons shape with ⟨after', -, earlier⟩ | ⟨-, rfl, rfl⟩
  · exact legal before j after' earlier
  · exact last

end

end Linearization
