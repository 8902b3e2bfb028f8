import Bonka.SessionLeaks

/-!
# Runs in which no creation is overtaken

A handler of the server removes only the session that `create_session` has returned to it, and
the clean-up takes only sessions that have been inactive for its timeout.  As long as no
`create_session` takes as long as the shortest timeout, no removal overtakes a creation
(`PromptStep`), and `prompt_consistent` says what that gives: the index never lists an id without
a session that no thread is about to filter out, and at rest the manager is in a consistent state
of the sequential calls.
-/

namespace Bonka

variable {T : Type} [DecidableEq T]

namespace ThreadState

/-- Thread `t` has not returned from the `create_session` that made the session. -/
def Creating (s : ThreadState T) (t : T) (session : Session) : Prop :=
  s.calls t = some (.insert session) ∨ s.calls t = some (.push session)

/-- No thread is creating, or is going to create, a session with the id. -/
def Created (s : ThreadState T) (id : Id) : Prop :=
  id ∈ s.issued ∧ ∀ t session, s.Creating t session → session.id ≠ id

end ThreadState

/-- How the server uses the manager: only created sessions are removed, every clean-up has at
least the timeout `shortest`, and no creation takes that long. -/
def ThreadEvent.Prompt (shortest : Duration) (s : ThreadState T) : ThreadEvent T → Prop
  | .remove _ id => s.Created id
  | .cleanup _ timeout => shortest ≤ timeout
  | .advance elapsed => ∀ t session, s.Creating t session →
      s.clock + elapsed < session.lastActivity + shortest
  | _ => True

def PromptStep (shortest : Duration) (s : ThreadState T) (event : ThreadEvent T)
    (s' : ThreadState T) : Prop :=
  ThreadStep s event s' ∧ event.Prompt shortest s

/-! ## The ids a thread has still to remove -/

def pendingOf : Option SessionCall → List Id
  | some (.remove ids) => ids
  | some (.retain _ _ ids) => ids
  | some (.drop _ ids) => ids
  | some (.collect _ _ _ _ ids) => ids
  | _ => []

def ThreadState.pending (s : ThreadState T) (t : T) : List Id := pendingOf (s.calls t)

section

variable {s s' : ThreadState T} {event : ThreadEvent T} {id : Id} {t : T}

/-- A thread has an id to remove because it was called with it or found its session inactive. -/
theorem ThreadStep.pending_of (edge : ThreadStep s event s')
    (inv : IndexInv s.role s.manager s.issued s.dropped) (pending : id ∈ s'.pending t) :
    id ∈ s.pending t ∨ event = .remove t id ∨ ∃ now timeout keys visited ids session,
      s.calls t = some (.collect now timeout keys visited ids) ∧
        s.manager.sessions.lookup id = some session ∧
        SessionManager.Expired now timeout session := by
  have moved : ∀ {u next} {P : Prop}, id ∈ pendingOf (Function.update s.calls u next t) →
      (u = t → id ∈ pendingOf next → id ∈ s.pending t ∨ P) → id ∈ s.pending t ∨ P := by
    intro u next P h entered
    rw [Function.update_apply] at h
    split at h
    · rename_i same
      exact entered same.symm h
    · exact Or.inl h
  -- the thread goes on with ids it had
  have goes : ∀ {u call next} {P : Prop}, s.calls u = call → (id ∈ pendingOf next →
      id ∈ pendingOf call) → u = t → id ∈ pendingOf next → id ∈ s.pending t ∨ P := by
    intro u call next P at_call fewer same member
    subst same
    left
    rw [ThreadState.pending, at_call]
    exact fewer member
  cases edge with
  | create idle _ _ _ => exact moved pending (goes idle (by simp [pendingOf]))
  | insert inserting => exact moved pending (goes inserting (by simp [pendingOf]))
  | push pushing => exact moved pending (goes pushing (by simp [pendingOf]))
  | remove other idle =>
      refine moved pending fun same member => Or.inr (Or.inl ?_)
      rw [same, List.mem_singleton.mp member]
  | take removing found => exact moved pending (goes removing (List.mem_cons_of_mem _))
  | miss removing missing => exact moved pending (goes removing (List.mem_cons_of_mem _))
  | retain retaining kept => exact moved pending (goes retaining fun member => member)
  | retainEmpty retaining emptied => exact moved pending (goes retaining fun member => member)
  | dropOrigin dropping => exact moved pending (goes dropping fun member => member)
  | cleanup timeout idle => exact moved pending (goes idle (by simp [pendingOf]))
  | @visit u now timeout keys visited ids other session collecting found unvisited =>
      refine moved pending fun same member => ?_
      subst same
      by_cases expired : SessionManager.Expired now timeout session
      · rw [if_pos expired] at member
        rcases List.mem_append.mp member with old | new
        · left
          rw [ThreadState.pending, collecting]
          exact old
        · rw [List.mem_singleton.mp new, (inv.stored_issued found).1]
          exact Or.inr (Or.inr ⟨now, timeout, keys, visited, ids, session, collecting, found,
            expired⟩)
      · rw [if_neg expired] at member
        left
        rw [ThreadState.pending, collecting]
        exact member
  | collected collecting all => exact moved pending (goes collecting fun member => member)
  | finish removing => exact moved pending (goes removing (by simp [pendingOf]))
  | touch other idle => exact Or.inl pending
  | advance elapsed => exact Or.inl pending

/-! ## What a step does to a creation and to a clean-up -/

theorem ThreadStep.clock_of (edge : ThreadStep s event s') :
    s'.clock = s.clock ∨
      ∃ elapsed, event = .advance elapsed ∧ s' = { s with clock := s.clock + elapsed } := by
  cases edge with
  | advance elapsed => exact Or.inr ⟨elapsed, rfl, rfl⟩
  | _ => exact Or.inl rfl

theorem ThreadStep.collect_of (edge : ThreadStep s event s') {now : Instant} {timeout : Duration}
    {keys visited ids : List Id}
    (collecting : s'.calls t = some (.collect now timeout keys visited ids)) :
    (∃ keys visited ids, s.calls t = some (.collect now timeout keys visited ids)) ∨
      (event = .cleanup t timeout ∧ now = s.clock) := by
  cases edge with
  | touch other idle => exact Or.inl ⟨_, _, _, collecting⟩
  | advance elapsed => exact Or.inl ⟨_, _, _, collecting⟩
  | cleanup other idle =>
      rcases ThreadState.update_calls collecting with ⟨rfl, new⟩ | old
      · cases new
        exact Or.inr ⟨rfl, rfl⟩
      · exact Or.inl ⟨_, _, _, old⟩
  | visit before found unvisited =>
      rcases ThreadState.update_calls collecting with ⟨rfl, new⟩ | old
      · cases new
        exact Or.inl ⟨_, _, _, before⟩
      · exact Or.inl ⟨_, _, _, old⟩
  | _ =>
      rcases ThreadState.update_calls collecting with ⟨-, new⟩ | old
      · cases new
      · exact Or.inl ⟨_, _, _, old⟩

theorem ThreadStep.creating_of (edge : ThreadStep s event s') {session : Session}
    (creating : s'.Creating t session) :
    s.Creating t session ∨ (session.id ∉ s.issued ∧ session.lastActivity = s.clock) := by
  rcases creating with inserting | pushing
  · rcases edge.entered inserting with before | fresh
    · exact Or.inl (Or.inl before)
    · exact Or.inr fresh
  · rcases edge.entered pushing with before | ⟨inserting, -⟩
    · exact Or.inl (Or.inr before)
    · exact Or.inl (Or.inl inserting)

theorem ThreadStep.created_mono (edge : ThreadStep s event s') (created : s.Created id) :
    s'.Created id := by
  refine ⟨edge.issued_mono created.1, fun t session creating same => ?_⟩
  rcases edge.creating_of creating with before | ⟨fresh, -⟩
  · exact created.2 t session before same
  · exact fresh (same ▸ created.1)

/-- A stored session stays, inactive for as long or touched, until a thread removes its id. -/
theorem ThreadStep.stored_kept (edge : ThreadStep s event s')
    (inv : IndexInv s.role s.manager s.issued s.dropped) {session : Session}
    (found : s.manager.sessions.lookup id = some session) :
    (∃ stored, s'.manager.sessions.lookup id = some stored ∧
      (stored.lastActivity = session.lastActivity ∨ stored.lastActivity = s.clock)) ∨
      ∃ t, id ∈ s.pending t := by
  cases edge with
  | @insert u other inserting =>
      have missing := inv.inserting_unstored (t := u)
        (by rw [ThreadState.role, inserting]; rfl)
      have ne : id ≠ other.id := by
        intro same
        subst same
        rw [missing] at found
        cases found
      refine Or.inl ⟨session, ?_, Or.inl rfl⟩
      change (s.manager.insertSession other).sessions.lookup id = some session
      rw [SessionManager.insertSession, DashMap.lookup_insert_if, if_neg ne]
      exact found
  | @take u other ids taken removing found' =>
      by_cases same : id = other
      · subst same
        refine Or.inr ⟨u, ?_⟩
        rw [ThreadState.pending, removing]
        exact List.mem_cons_self ..
      · refine Or.inl ⟨session, ?_, Or.inl rfl⟩
        change (s.manager.takeSession other).sessions.lookup id = some session
        rw [SessionManager.takeSession, DashMap.lookup_erase_if, if_neg same]
        exact found
  | retain retaining kept =>
      exact Or.inl ⟨session, by simpa [ThreadState.act] using found, Or.inl rfl⟩
  | retainEmpty retaining emptied =>
      exact Or.inl ⟨session, by simpa [ThreadState.act] using found, Or.inl rfl⟩
  | touch other idle =>
      left
      rw [SessionManager.lookup_touchSession]
      split
      · rename_i same
        rw [← same, found]
        exact ⟨_, rfl, Or.inr rfl⟩
      · exact ⟨session, found, Or.inl rfl⟩
  | _ => exact Or.inl ⟨session, found, Or.inl rfl⟩

/-! ## The invariant of a prompt run -/

/-- A creation is younger than the shortest timeout and its session stays stored; whatever a
thread has to remove has been created. -/
structure InTime (shortest : Duration) (s : ThreadState T) : Prop where
  creating_young : ∀ {t session}, s.Creating t session →
    session.lastActivity ≤ s.clock ∧ s.clock < session.lastActivity + shortest
  pushing_stored : ∀ {t session}, s.calls t = some (.push session) →
    ∃ stored, s.manager.sessions.lookup session.id = some stored ∧
      session.lastActivity ≤ stored.lastActivity
  cleaning : ∀ {t now timeout keys visited ids},
    s.calls t = some (.collect now timeout keys visited ids) → now ≤ s.clock ∧ shortest ≤ timeout
  pending_created : ∀ {t id}, id ∈ s.pending t → s.Created id

variable {shortest : Duration}

omit [DecidableEq T] in
theorem InTime.init : InTime shortest (ThreadState.init : ThreadState T) where
  creating_young creating := by rcases creating with h | h <;> cases h
  pushing_stored h := by cases h
  cleaning h := by cases h
  pending_created h := by cases h

theorem InTime.creating_step (inTime : InTime shortest s) (positive : 0 < shortest)
    (edge : PromptStep shortest s event s') {session : Session}
    (creating : s'.Creating t session) :
    session.lastActivity ≤ s'.clock ∧ s'.clock < session.lastActivity + shortest := by
  obtain ⟨edge, prompt⟩ := edge
  rcases edge.clock_of with same | ⟨elapsed, rfl, rfl⟩
  · rw [same]
    rcases edge.creating_of creating with before | ⟨-, active⟩
    · exact inTime.creating_young before
    · rw [active]
      exact ⟨le_rfl, Nat.lt_add_of_pos_right positive⟩
  · have before : s.Creating t session := creating
    have young := inTime.creating_young before
    exact ⟨young.1.trans (Nat.le_add_right ..), prompt t session creating⟩

theorem InTime.pushing_step (inTime : InTime shortest s)
    (inv : IndexInv s.role s.manager s.issued s.dropped) (edge : ThreadStep s event s')
    {session : Session} (pushing : s'.calls t = some (.push session)) :
    ∃ stored, s'.manager.sessions.lookup session.id = some stored ∧
      session.lastActivity ≤ stored.lastActivity := by
  rcases edge.entered pushing with before | ⟨-, stored⟩
  · obtain ⟨stored, found, older⟩ := inTime.pushing_stored before
    rcases edge.stored_kept inv found with ⟨after, found', active | active⟩ | ⟨u, pending⟩
    · exact ⟨after, found', older.trans active.ge⟩
    · exact ⟨after, found', (inTime.creating_young (Or.inr before)).1.trans active.ge⟩
    · exact ((inTime.pending_created pending).2 t session (Or.inr before) rfl).elim
  · exact ⟨session, stored, le_rfl⟩

theorem InTime.cleaning_step (inTime : InTime shortest s)
    (edge : PromptStep shortest s event s') {now : Instant} {timeout : Duration}
    {keys visited ids : List Id}
    (collecting : s'.calls t = some (.collect now timeout keys visited ids)) :
    now ≤ s'.clock ∧ shortest ≤ timeout := by
  obtain ⟨edge, prompt⟩ := edge
  have later : s.clock ≤ s'.clock := by
    rcases edge.clock_of with same | ⟨elapsed, -, rfl⟩
    · exact same.ge
    · exact Nat.le_add_right ..
  rcases edge.collect_of collecting with ⟨_, _, _, before⟩ | ⟨rfl, rfl⟩
  · have cleaning := inTime.cleaning before
    exact ⟨cleaning.1.trans later, cleaning.2⟩
  · exact ⟨later, prompt⟩

omit [DecidableEq T] in
/-- A session found inactive for at least the shortest timeout is not being created. -/
theorem InTime.created_of_expired (inTime : InTime shortest s)
    (inv : IndexInv s.role s.manager s.issued s.dropped) {now : Instant} {timeout : Duration}
    {session : Session} (read : now ≤ s.clock) (long : shortest ≤ timeout)
    (found : s.manager.sessions.lookup id = some session)
    (expired : SessionManager.Expired now timeout session) : s.Created id := by
  refine ⟨(inv.stored_issued found).2, fun u other creating same => ?_⟩
  subst same
  have young := inTime.creating_young creating
  rcases creating with inserting | pushing
  · have missing := inv.inserting_unstored (t := u)
      (by rw [ThreadState.role, inserting]; rfl)
    rw [missing] at found
    cases found
  · obtain ⟨stored, found', older⟩ := inTime.pushing_stored pushing
    rw [found] at found'
    cases found'
    have recent : durationSince now session.lastActivity < timeout :=
      calc now - session.lastActivity
        _ ≤ s.clock - session.lastActivity := Nat.sub_le_sub_right read _
        _ ≤ s.clock - other.lastActivity := Nat.sub_le_sub_left older _
        _ < shortest := Nat.sub_lt_left_of_lt_add young.1 young.2
        _ ≤ timeout := long
    exact absurd expired (Nat.not_le.mpr recent)

theorem InTime.step (inTime : InTime shortest s) (positive : 0 < shortest)
    (inv : IndexInv s.role s.manager s.issued s.dropped)
    (edge : PromptStep shortest s event s') : InTime shortest s' where
  creating_young := inTime.creating_step positive edge
  pushing_stored := inTime.pushing_step inv edge.1
  cleaning := inTime.cleaning_step edge
  pending_created := by
    intro t id pending
    apply edge.1.created_mono
    rcases edge.1.pending_of inv pending with
      before | rfl | ⟨now, timeout, keys, visited, ids, session, collecting, found, expired⟩
    · exact inTime.pending_created before
    · exact edge.2
    · have cleaning := inTime.cleaning collecting
      exact inTime.created_of_expired inv cleaning.1 cleaning.2 found expired

variable {events : List (ThreadEvent T)}

theorem PromptStep.run (run : Transition.Run (PromptStep shortest) .init events s) :
    Transition.Run ThreadStep .init events s :=
  run.mono fun edge => edge.1

theorem run_inTime (run : Transition.Run (PromptStep shortest) .init events s)
    (positive : 0 < shortest) : InTime shortest s :=
  run.invariant (P := fun _ s => InTime shortest s) .init fun before inTime edge =>
    inTime.step positive (run_indexInv (PromptStep.run before)) edge

/-- In a prompt run an id is listed only as long as its session is stored or a thread still has
to filter it out. -/
theorem run_covered (run : Transition.Run (PromptStep shortest) .init events s)
    (positive : 0 < shortest) :
    ∀ origin id, id ∈ s.manager.idsOf origin → s.Covered origin id := by
  refine run.invariant
    (P := fun _ s => ∀ origin id, id ∈ s.manager.idsOf origin → s.Covered origin id) ?_ ?_
  · intro origin id listed
    cases listed
  · intro events s event s' before covered edge origin id listed
    have plain := PromptStep.run before
    rcases edge.1.listed_covered (run_indexInv plain) (run_leakInv plain).retaining_pushing
      listed with now | ⟨old, uncovered⟩ | ⟨t, session, -, pushing, rfl, gone⟩
    · exact now
    · exact (uncovered (covered origin id old)).elim
    · -- a session that is being listed is stored
      obtain ⟨stored, found, -⟩ := (run_inTime before positive).pushing_stored pushing
      rw [gone.1] at found
      cases found

/-! ## The index at rest -/

theorem ThreadStep.listed_once (edge : ThreadStep s event s')
    (inv : IndexInv s.role s.manager s.issued s.dropped)
    (once : ∀ origin, (s.manager.idsOf origin).Nodup) (origin : String) :
    (s'.manager.idsOf origin).Nodup := by
  have filtered : ∀ o other, ((s.manager.retainOrigin o other).idsOf origin).Nodup := by
    intro o other
    rw [SessionManager.idsOf_retainOrigin]
    split
    · exact (once o).filter _
    · exact once origin
  cases edge with
  | @push t session pushing =>
      have unlisted : session.id ∉ s.manager.idsOf session.origin :=
        inv.creates_unlisted (t := t) (by rw [ThreadState.role, pushing]; rfl) session.origin
      change ((s.manager.pushOrigin session.origin session.id).idsOf origin).Nodup
      rw [SessionManager.idsOf_pushOrigin]
      split
      · exact List.nodup_append.mpr ⟨once _, List.nodup_singleton _, by
          intro a listed b new same
          cases List.mem_singleton.mp new
          exact unlisted (same ▸ listed)⟩
      · exact once origin
  | retain retaining kept => exact filtered _ _
  | retainEmpty retaining emptied => exact filtered _ _
  | @dropOrigin t o ids dropping =>
      change ((s.manager.removeOrigin o).idsOf origin).Nodup
      rw [SessionManager.idsOf_removeOrigin]
      split
      · exact List.nodup_nil
      · exact once origin
  | touch other idle =>
      rw [SessionManager.idsOf_touchSession]
      exact once origin
  | _ => exact once origin

theorem run_listedOnce (run : Transition.Run ThreadStep .init events s) :
    ∀ origin, (s.manager.idsOf origin).Nodup :=
  run.invariant (P := fun _ s => ∀ origin, (s.manager.idsOf origin).Nodup)
    (fun _ => List.nodup_nil) fun before once edge => edge.listed_once (run_indexInv before) once

/-- **When no creation is overtaken, the index has no id without a session that is not about to
be filtered out, and at rest the manager is consistent**: only a removed entry that held the id
of a stored session can make the two lookups differ then. -/
theorem prompt_consistent (run : Transition.Run (PromptStep shortest) .init events s)
    (positive : 0 < shortest) :
    (∀ origin id, id ∈ s.manager.idsOf origin → s.Covered origin id) ∧
      (s.Quiescent → s.manager.Consistent ∧
        ((∀ order origin, s.manager.LookupsAgree order origin) ↔
          ∀ id ∈ s.dropped, id ∉ s.manager.sessions)) := by
  have inv := run_indexInv (PromptStep.run run)
  have covered := run_covered run positive
  refine ⟨covered, fun rest => ?_⟩
  have consistent : s.manager.Consistent := by
    refine ⟨fun found => (inv.stored_issued found).1, ?_, run_listedOnce (PromptStep.run run)⟩
    intro origin id listed
    rcases covered origin id listed with stored | ⟨t, ids, retaining⟩
    · obtain ⟨session, found⟩ := DashMap.exists_lookup stored
      exact ⟨session, found, inv.origin_of_listed found listed⟩
    · rw [rest t] at retaining
      cases retaining
  exact ⟨consistent, consistent.lookupsAgree_iff_complete.trans (inv.complete_iff rest)⟩

/-- A creation that a clean-up with a long enough timeout visits half-way through. -/
theorem prompt_consistent_visited :
    ∃ s : ThreadState Bool, s.manager.sessions.keys = [1] ∧
      s.manager.idsOf "127.0.0.1:4000" = [1] ∧ s.manager.Consistent := by
  refine ⟨_, ?_, ?_, ((prompt_consistent
    (.snoc (.snoc (.snoc (.snoc (.snoc (.snoc (.snoc (.snoc .nil
      ⟨@ThreadStep.create _ _ _ false ⟨1, 0, 0, "127.0.0.1:4000"⟩ rfl (by decide) le_rfl rfl,
        trivial⟩)
      ⟨.insert (t := false) rfl, trivial⟩)
      ⟨.advance 3, ?_⟩)
      ⟨.cleanup (t := true) 5 rfl, le_refl 5⟩)
      ⟨@ThreadStep.visit _ _ _ true _ _ _ _ _ 1 _ rfl rfl (by decide), trivial⟩)
      ⟨.collected (t := true) rfl fun _ member _ => member, trivial⟩)
      ⟨.push (t := false) rfl, trivial⟩)
      ⟨.finish (t := true) rfl, trivial⟩) (by decide)).2 (.of_bool rfl rfl)).1⟩
  · rfl
  · rfl
  · intro t session creating
    cases t
    · rcases creating with h | h
      · cases h
      · cases h
        decide
    · rcases creating with h | h <;> cases h

end

end Bonka
