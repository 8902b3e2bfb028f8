import Bonka.SessionThreads

/-!
# Ids that stay in the origin index

`create_session` stores a session before it lists its id, and `remove_session` takes the session
out before it filters the id out of the list.  A removal that overtakes the creation filters a
list the id is not in yet, and the id is listed afterwards.  `quiescent_leaked_iff` says that
this is the only way an id without a session is in the index at rest; `leaked_forever` says that
none of these calls takes it out again, so neither is the entry of its origin removed by one.

The lemmas about a step say what it can do to one id: list it, filter it out, store it or take
it.
-/

namespace Bonka

variable {T : Type} [DecidableEq T]

namespace ThreadState

/-- The session of the id is not stored, and no thread still has to filter the id out of a list. -/
def Gone (s : ThreadState T) (id : Id) : Prop :=
  s.manager.sessions.lookup id = none ∧ ∀ t origin ids, s.calls t ≠ some (.retain id origin ids)

/-- The session of the id is stored, or a thread still has to filter the id out of the list. -/
def Covered (s : ThreadState T) (origin : String) (id : Id) : Prop :=
  id ∈ s.manager.sessions ∨ ∃ t ids, s.calls t = some (.retain id origin ids)

/-- The session of the id has been taken out, and no thread is going to store it again. -/
structure Taken (s : ThreadState T) (id : Id) : Prop where
  issued : id ∈ s.issued
  missing : s.manager.sessions.lookup id = none
  notInserting : ∀ t session, s.calls t = some (.insert session) → session.id ≠ id

/-- The id of a session that is gone is listed, and no thread is about to remove the entry. -/
structure Leaked (s : ThreadState T) (origin : String) (id : Id) : Prop where
  listed : id ∈ s.manager.idsOf origin
  gone : s.Gone id
  kept : ∀ t ids, s.calls t ≠ some (.drop origin ids)

/-- What brought thread `t` to its next step, if the last one did. -/
def Entered (s s' : ThreadState T) (t : T) : SessionCall → Prop
  | .insert session => session.id ∉ s.issued ∧ session.lastActivity = s.clock
  | .push session => s.calls t = some (.insert session) ∧
      s'.manager.sessions.lookup session.id = some session
  | .retain id origin _ => ∃ session, s.manager.sessions.lookup id = some session ∧
      session.origin = origin
  | .drop origin _ => s'.manager.originToSessions.lookup origin = some []
  | _ => True

end ThreadState

/-! ## What a step does to one id -/

section

variable {s s' : ThreadState T} {event : ThreadEvent T} {id : Id} {origin : String}

/-- After a step of thread `u`, a thread is where `u` went or where it was. -/
theorem ThreadState.update_calls {u t : T} {next call : Option SessionCall}
    (h : Function.update s.calls u next t = call) :
    (u = t ∧ next = call) ∨ s.calls t = call := by
  rw [Function.update_apply] at h
  split at h
  · exact Or.inl ⟨Eq.symm ‹_›, h⟩
  · exact Or.inr h

/-- A step of thread `u` leaves a thread that was at another call where it was. -/
theorem ThreadState.calls_of_ne {u t : T} {before next call : Option SessionCall}
    (mover : s.calls u = before) (at_call : s.calls t = call) (ne : before ≠ call) :
    Function.update s.calls u next t = call := by
  rw [Function.update_of_ne]
  · exact at_call
  · intro same
    subst same
    exact ne (mover.symm.trans at_call)

/-- What a call does next, or that it returns. -/
inductive SessionCall.Next : SessionCall → Option SessionCall → Prop
  | insert {session : Session} : Next (.insert session) (some (.push session))
  | push {session : Session} : Next (.push session) none
  | take {id : Id} {origin : String} {ids : List Id} :
    Next (.remove (id :: ids)) (some (.retain id origin ids))
  | miss {id : Id} {ids : List Id} : Next (.remove (id :: ids)) (some (.remove ids))
  | retain {id : Id} {origin : String} {ids : List Id} :
    Next (.retain id origin ids) (some (.remove ids))
  | retainEmpty {id : Id} {origin : String} {ids : List Id} :
    Next (.retain id origin ids) (some (.drop origin ids))
  | dropOrigin {origin : String} {ids : List Id} : Next (.drop origin ids) (some (.remove ids))
  | visit {now : Instant} {timeout : Duration} {keys visited visited' ids ids' : List Id} :
    Next (.collect now timeout keys visited ids) (some (.collect now timeout keys visited' ids'))
  | collected {now : Instant} {timeout : Duration} {keys visited ids : List Id} :
    Next (.collect now timeout keys visited ids) (some (.remove ids))
  | finish : Next (.remove []) none

/-- The event starts the call in thread `t`. -/
def ThreadEvent.Starts (t : T) (call : SessionCall) : ThreadEvent T → Prop
  | .create u session => u = t ∧ call = .insert session
  | .remove u id => u = t ∧ call = .remove [id]
  | .cleanup u timeout => u = t ∧ ∃ now keys, call = .collect now timeout keys [] []
  | _ => False

/-- In a step a thread stays where it is, goes on with its call or starts one. -/
theorem ThreadStep.call_cases (edge : ThreadStep s event s') (t : T) :
    s'.calls t = s.calls t ∨ (∃ call, s.calls t = some call ∧ call.Next (s'.calls t)) ∨
      (s.calls t = none ∧ ∃ call, s'.calls t = some call ∧ event.Starts t call) := by
  have goes : ∀ {u call next}, s.calls u = some call → call.Next next →
      Function.update s.calls u next t = s.calls t ∨
        (∃ call, s.calls t = some call ∧ call.Next (Function.update s.calls u next t)) ∨
          (s.calls t = none ∧
            ∃ call, Function.update s.calls u next t = some call ∧ event.Starts t call) := by
    intro u call next at_call moves
    by_cases same : t = u
    · subst same
      exact Or.inr (Or.inl ⟨call, at_call, by rwa [Function.update_self]⟩)
    · exact Or.inl (Function.update_of_ne same ..)
  have starts : ∀ {u call}, s.calls u = none → (u = t → event.Starts t call) →
      Function.update s.calls u (some call) t = s.calls t ∨
        (∃ before, s.calls t = some before ∧
          before.Next (Function.update s.calls u (some call) t)) ∨
          (s.calls t = none ∧
            ∃ next, Function.update s.calls u (some call) t = some next ∧ event.Starts t next) := by
    intro u call idle begins
    by_cases same : t = u
    · subst same
      exact Or.inr (Or.inr ⟨idle, call, Function.update_self .., begins rfl⟩)
    · exact Or.inl (Function.update_of_ne same ..)
  cases edge with
  | create idle => exact starts idle fun same => ⟨same, rfl⟩
  | remove id idle => exact starts idle fun same => ⟨same, rfl⟩
  | cleanup timeout idle => exact starts idle fun same => ⟨same, _, _, rfl⟩
  | insert inserting => exact goes inserting .insert
  | push pushing => exact goes pushing .push
  | take removing found => exact goes removing .take
  | miss removing missing => exact goes removing .miss
  | retain retaining kept => exact goes retaining .retain
  | retainEmpty retaining emptied => exact goes retaining .retainEmpty
  | dropOrigin dropping => exact goes dropping .dropOrigin
  | visit collecting found unvisited => exact goes collecting .visit
  | collected collecting all => exact goes collecting .collected
  | finish removing => exact goes removing .finish
  | touch id idle => exact Or.inl rfl
  | advance elapsed => exact Or.inl rfl

theorem ThreadStep.entered (edge : ThreadStep s event s') {t : T} {call : SessionCall}
    (at_call : s'.calls t = some call) : s.calls t = some call ∨ s.Entered s' t call := by
  -- a thread that did not move is where it was
  have moved : ∀ {u next}, Function.update s.calls u next t = some call →
      (∀ call, next = some call → s.Entered s' u call) →
        s.calls t = some call ∨ s.Entered s' t call := by
    intro u next h entered
    rcases ThreadState.update_calls h with ⟨rfl, new⟩ | before
    · exact Or.inr (entered call new)
    · exact Or.inl before
  cases edge with
  | create idle fresh _ active =>
      exact moved at_call fun _ new => by cases new; exact ⟨fresh, active⟩
  | insert inserting =>
      exact moved at_call fun _ new => by cases new; exact ⟨inserting, AList.lookup_insert _⟩
  | take removing found => exact moved at_call fun _ new => by cases new; exact ⟨_, found, rfl⟩
  | retainEmpty retaining emptied => exact moved at_call fun _ new => by cases new; exact emptied
  | touch id idle => exact Or.inl at_call
  | advance elapsed => exact Or.inl at_call
  | _ => exact moved at_call fun _ new => by cases new <;> trivial

/-- A thread filters an id out of a list by moving on. -/
theorem ThreadStep.filtered (edge : ThreadStep s event s') {t : T} {ids : List Id}
    (retaining : s.calls t = some (.retain id origin ids)) :
    s'.calls t = some (.retain id origin ids) ∨ id ∉ s'.manager.idsOf origin := by
  have filters : id ∉ (s.manager.retainOrigin origin id).idsOf origin := by
    rw [SessionManager.idsOf_retainOrigin, if_pos rfl]
    simp
  cases edge with
  | touch id idle => exact Or.inl retaining
  | advance elapsed => exact Or.inl retaining
  | @retain u other o rest at_call kept =>
      by_cases same : u = t
      · subst same
        rw [at_call] at retaining
        cases retaining
        exact Or.inr filters
      · exact Or.inl ((Function.update_of_ne (Ne.symm same) ..).trans retaining)
  | @retainEmpty u other o rest at_call emptied =>
      by_cases same : u = t
      · subst same
        rw [at_call] at retaining
        cases retaining
        exact Or.inr filters
      · exact Or.inl ((Function.update_of_ne (Ne.symm same) ..).trans retaining)
  | _ => exact Or.inl (ThreadState.calls_of_ne (by assumption) retaining (by simp))

/-- Only `push` lists an id. -/
theorem ThreadStep.listed_of (edge : ThreadStep s event s')
    (listed : id ∈ s'.manager.idsOf origin) :
    id ∈ s.manager.idsOf origin ∨ ∃ t session, event = .push t ∧
      s.calls t = some (.push session) ∧ session.origin = origin ∧ session.id = id := by
  have filtered : ∀ {o other}, id ∈ (s.manager.retainOrigin o other).idsOf origin →
      id ∈ s.manager.idsOf origin := by
    intro o other member
    rw [SessionManager.idsOf_retainOrigin] at member
    split at member
    · rename_i same
      exact same ▸ (List.mem_filter.mp member).1
    · exact member
  cases edge with
  | @push t session pushing =>
      change id ∈ (s.manager.pushOrigin session.origin session.id).idsOf origin at listed
      rw [SessionManager.idsOf_pushOrigin] at listed
      split at listed
      · rename_i same
        rcases List.mem_append.mp listed with old | new
        · exact Or.inl (same ▸ old)
        · exact Or.inr ⟨t, session, rfl, pushing, same.symm, (List.mem_singleton.mp new).symm⟩
      · exact Or.inl listed
  | retain retaining kept => exact Or.inl (filtered listed)
  | retainEmpty retaining emptied => exact Or.inl (filtered listed)
  | @dropOrigin t o ids dropping =>
      change id ∈ (s.manager.removeOrigin o).idsOf origin at listed
      rw [SessionManager.idsOf_removeOrigin] at listed
      split at listed
      · cases listed
      · exact Or.inl listed
  | touch other idle =>
      rw [SessionManager.idsOf_touchSession] at listed
      exact Or.inl listed
  | _ => exact Or.inl listed

/-- A listed id stays listed until a thread filters it out or removes the whole entry. -/
theorem ThreadStep.listed_kept (edge : ThreadStep s event s')
    (listed : id ∈ s.manager.idsOf origin) :
    id ∈ s'.manager.idsOf origin ∨
      (∃ t ids, s.calls t = some (.retain id origin ids) ∧ s'.calls t ≠ s.calls t) ∨
      (id ∈ s'.dropped ∧ ∃ t ids, s.calls t = some (.drop origin ids)) := by
  have filtered : ∀ {o other}, ¬ (o = origin ∧ other = id) →
      id ∈ (s.manager.retainOrigin o other).idsOf origin := by
    intro o other ne
    rw [SessionManager.idsOf_retainOrigin]
    split
    · rename_i same
      subst same
      refine List.mem_filter.mpr ⟨listed, ?_⟩
      simpa using fun same : id = other => ne ⟨rfl, same.symm⟩
    · exact listed
  -- a thread that leaves `retain` is at another call
  have left : ∀ {u call next}, s.calls u = call → next ≠ call →
      Function.update s.calls u next u ≠ s.calls u := by
    intro u call next at_call ne same
    rw [Function.update_self, at_call] at same
    exact ne same
  cases edge with
  | @push t session pushing =>
      left
      change id ∈ (s.manager.pushOrigin session.origin session.id).idsOf origin
      rw [SessionManager.idsOf_pushOrigin]
      split
      · rename_i same
        exact List.mem_append_left _ (same ▸ listed)
      · exact listed
  | @retain t other o ids retaining kept =>
      by_cases same : o = origin ∧ other = id
      · obtain ⟨rfl, rfl⟩ := same
        exact Or.inr (Or.inl ⟨t, ids, retaining, left retaining (by simp)⟩)
      · exact Or.inl (filtered same)
  | @retainEmpty t other o ids retaining emptied =>
      by_cases same : o = origin ∧ other = id
      · obtain ⟨rfl, rfl⟩ := same
        exact Or.inr (Or.inl ⟨t, ids, retaining, left retaining (by simp)⟩)
      · exact Or.inl (filtered same)
  | @dropOrigin t o ids dropping =>
      by_cases same : origin = o
      · subst same
        exact Or.inr (Or.inr ⟨List.mem_append_left _ listed, t, ids, dropping⟩)
      · left
        change id ∈ (s.manager.removeOrigin o).idsOf origin
        rw [SessionManager.idsOf_removeOrigin, if_neg same]
        exact listed
  | touch other idle =>
      left
      rw [SessionManager.idsOf_touchSession]
      exact listed
  | _ => exact Or.inl listed

/-- Only `sessions.remove` takes a session out, and its thread goes on to the list of its origin. -/
theorem ThreadStep.missing_of (edge : ThreadStep s event s')
    (missing : s'.manager.sessions.lookup id = none) :
    s.manager.sessions.lookup id = none ∨ ∃ t session ids, event = .take t ∧
      s.calls t = some (.remove (id :: ids)) ∧ s.manager.sessions.lookup id = some session ∧
        s'.calls t = some (.retain id session.origin ids) := by
  cases edge with
  | @insert t session inserting =>
      change (s.manager.insertSession session).sessions.lookup id = none at missing
      rw [SessionManager.insertSession, DashMap.lookup_insert_if] at missing
      split at missing
      · cases missing
      · exact Or.inl missing
  | @take t other ids session removing found =>
      change (s.manager.takeSession other).sessions.lookup id = none at missing
      rw [SessionManager.takeSession, DashMap.lookup_erase_if] at missing
      split at missing
      · rename_i same
        subst same
        exact Or.inr ⟨t, session, ids, rfl, removing, found, Function.update_self ..⟩
      · exact Or.inl missing
  | retain retaining kept => exact Or.inl (by simpa [ThreadState.act] using missing)
  | retainEmpty retaining emptied => exact Or.inl (by simpa [ThreadState.act] using missing)
  | touch other idle => exact Or.inl (SessionManager.missing_touchSession.mp missing)
  | _ => exact Or.inl missing

/-- Only `sessions.insert` stores a session. -/
theorem ThreadStep.missing_kept (edge : ThreadStep s event s')
    (missing : s.manager.sessions.lookup id = none) :
    s'.manager.sessions.lookup id = none ∨
      ∃ t session, s.calls t = some (.insert session) ∧ session.id = id := by
  cases edge with
  | @insert t session inserting =>
      by_cases same : id = session.id
      · exact Or.inr ⟨t, session, inserting, same.symm⟩
      · left
        change (s.manager.insertSession session).sessions.lookup id = none
        rw [SessionManager.insertSession, DashMap.lookup_insert_if, if_neg same]
        exact missing
  | @take t other ids session removing found =>
      left
      change (s.manager.takeSession other).sessions.lookup id = none
      rw [SessionManager.takeSession, DashMap.lookup_erase_if, missing]
      split <;> rfl
  | retain retaining kept => exact Or.inl (by simpa [ThreadState.act] using missing)
  | retainEmpty retaining emptied => exact Or.inl (by simpa [ThreadState.act] using missing)
  | touch other idle => exact Or.inl (SessionManager.missing_touchSession.mpr missing)
  | _ => exact Or.inl missing

theorem ThreadStep.dropped_mono (edge : ThreadStep s event s') (member : id ∈ s.dropped) :
    id ∈ s'.dropped := by
  cases edge with
  | dropOrigin dropping => exact List.mem_append_right _ member
  | _ => exact member

theorem ThreadStep.issued_mono (edge : ThreadStep s event s') (issued : id ∈ s.issued) :
    id ∈ s'.issued := by
  cases edge with
  | create => exact List.mem_cons_of_mem _ issued
  | _ => exact issued

/-- Only one thread moves. -/
theorem ThreadStep.mover (edge : ThreadStep s event s') {t t' : T} (moved : s'.calls t ≠ s.calls t)
    (moved' : s'.calls t' ≠ s.calls t') : t = t' := by
  have only : ∀ {u v next}, Function.update s.calls u next v ≠ s.calls v → v = u := by
    intro u v next moved
    by_contra ne
    exact moved (Function.update_of_ne ne ..)
  cases edge with
  | touch id idle => exact (moved rfl).elim
  | advance elapsed => exact (moved rfl).elim
  | _ => exact (only moved).trans (only moved').symm

/-- A session about to be listed is listed when its thread moves on. -/
theorem ThreadStep.push_kept (edge : ThreadStep s event s') {t : T} {session : Session}
    (pushing : s.calls t = some (.push session)) :
    s'.calls t = some (.push session) ∨ session.id ∈ s'.manager.idsOf session.origin := by
  cases edge with
  | @push u other at_call =>
      by_cases same : u = t
      · subst same
        rw [at_call] at pushing
        cases pushing
        right
        change session.id ∈ (s.manager.pushOrigin session.origin session.id).idsOf session.origin
        rw [SessionManager.idsOf_pushOrigin, if_pos rfl]
        exact List.mem_append_right _ (List.mem_singleton_self _)
      · exact Or.inl ((Function.update_of_ne (Ne.symm same) ..).trans pushing)
  | touch id idle => exact Or.inl pushing
  | advance elapsed => exact Or.inl pushing
  | _ => exact Or.inl (ThreadState.calls_of_ne (by assumption) pushing (by simp))

end

/-! ## The invariant of a run -/

/-- In the run to `s`, `create_session` listed the id after the removal of its session was through
with the list. -/
def ListedLate (events : List (ThreadEvent T)) (s : ThreadState T) (id : Id) : Prop :=
  ∃ before after t session a b, events = before ++ .push t :: after ∧
    Transition.Run ThreadStep .init before a ∧ ThreadStep a (.push t) b ∧
    Transition.Run ThreadStep b after s ∧
    a.calls t = some (.push session) ∧ session.id = id ∧ a.Gone id

/-- Where the id of a session is while its removal is under way, and why an id without a session
is listed. -/
structure LeakInv (events : List (ThreadEvent T)) (s : ThreadState T) : Prop where
  retaining_pushing : ∀ {t t' id origin ids session},
    s.calls t = some (.retain id origin ids) → s.calls t' = some (.push session) →
    session.id = id → session.origin = origin
  retaining_once : ∀ {t t' id origin origin' ids ids'},
    s.calls t = some (.retain id origin ids) → s.calls t' = some (.retain id origin' ids') → t = t'
  retaining_listed : ∀ {t id origin ids}, s.calls t = some (.retain id origin ids) →
    id ∈ s.manager.idsOf origin ∨
      (∃ t' session, s.calls t' = some (.push session) ∧ session.id = id) ∨ id ∈ s.dropped
  listed_covered : ∀ {origin id}, id ∈ s.manager.idsOf origin →
    s.Covered origin id ∨ ListedLate events s id

section

variable {s s' : ThreadState T} {event : ThreadEvent T} {events : List (ThreadEvent T)}
  {id : Id} {origin : String}

theorem ListedLate.snoc (late : ListedLate events s id) (edge : ThreadStep s event s') :
    ListedLate (events ++ [event]) s' id := by
  obtain ⟨before, after, t, session, a, b, shape, left, push, right, at_call⟩ := late
  refine ⟨before, after ++ [event], t, session, a, b, ?_, left, push, right.snoc edge, at_call⟩
  rw [shape, List.append_assoc, List.cons_append]

omit [DecidableEq T] in
/-- A listed id is listed under the origin of the stored session it belongs to. -/
theorem IndexInv.origin_of_listed {role : T → Role} {manager : SessionManager}
    {issued dropped : List Id} (inv : IndexInv role manager issued dropped) {session : Session}
    (found : manager.sessions.lookup id = some session) (listed : id ∈ manager.idsOf origin) :
    session.origin = origin := by
  rcases inv.stored_covered found with own | ⟨t, pushed, pushing, same, -⟩ | gone
  · exact inv.listed_origin own listed
  · exact (inv.creates_unlisted (t := t) (by rw [pushing, ← same]; rfl) origin listed).elim
  · exact ((inv.dropped_gone gone).2.1 origin listed).elim

omit [DecidableEq T] in
/-- A session about to be listed under its id has the origin of the stored one. -/
theorem IndexInv.origin_of_pushing {role : T → Role} {manager : SessionManager}
    {issued dropped : List Id} (inv : IndexInv role manager issued dropped) {t : T}
    {session pushed : Session} (found : manager.sessions.lookup pushed.id = some session)
    (pushing : role t = .pushing pushed) : pushed.origin = session.origin := by
  have creating : (role t).creates = some pushed.id := by rw [pushing]; rfl
  rcases inv.stored_covered found with own | ⟨t', other, pushing', same, own⟩ | gone
  · exact (inv.creates_unlisted creating session.origin own).elim
  · have here : t = t' := inv.creates_once creating (by rw [pushing', ← same]; rfl)
    subst here
    rw [pushing] at pushing'
    cases pushing'
    exact own
  · exact ((inv.dropped_gone gone).2.2 t creating).elim

omit [DecidableEq T] in
theorem ThreadState.calls_of_pushing {t : T} {session : Session}
    (pushing : s.role t = .pushing session) : s.calls t = some (.push session) := by
  rw [ThreadState.role] at pushing
  cases at_call : s.calls t with
  | none =>
      rw [at_call] at pushing
      cases pushing
  | some call =>
      rw [at_call] at pushing
      cases call <;> cases pushing
      rfl

/-- A listed id that a step leaves uncovered was so before, or the step has just listed it. -/
theorem ThreadStep.listed_covered (edge : ThreadStep s event s')
    (inv : IndexInv s.role s.manager s.issued s.dropped)
    (own : ∀ {t t' id origin ids session}, s.calls t = some (.retain id origin ids) →
      s.calls t' = some (.push session) → session.id = id → session.origin = origin)
    (listed : id ∈ s'.manager.idsOf origin) :
    s'.Covered origin id ∨ (id ∈ s.manager.idsOf origin ∧ ¬ s.Covered origin id) ∨
      ∃ t session, event = .push t ∧ s.calls t = some (.push session) ∧ session.id = id ∧
        s.Gone id := by
  -- the thread that filters the id has not done so, as the id is listed
  have still : ∀ {t ids}, s.calls t = some (.retain id origin ids) → s'.Covered origin id := by
    intro t ids retaining
    rcases edge.filtered retaining with still | unlisted
    · exact Or.inr ⟨t, ids, still⟩
    · exact (unlisted listed).elim
  rcases edge.listed_of listed with old | ⟨t, session, rfl, pushing, rfl, rfl⟩
  · by_cases covered : s.Covered origin id
    · left
      rcases covered with stored | ⟨t, ids, retaining⟩
      · cases found : s'.manager.sessions.lookup id with
        | some session => exact Or.inl (DashMap.mem_of_lookup found)
        | none =>
            rcases edge.missing_of found with before | ⟨t, session, ids, -, -, taken, retaining⟩
            · obtain ⟨session, found⟩ := DashMap.exists_lookup stored
              rw [before] at found
              cases found
            · rw [inv.origin_of_listed taken old] at retaining
              exact Or.inr ⟨t, ids, retaining⟩
      · exact still retaining
    · exact Or.inr (Or.inl ⟨old, covered⟩)
  · by_cases retained : ∃ t' o ids, s.calls t' = some (.retain session.id o ids)
    · obtain ⟨t', o, ids, retaining⟩ := retained
      rw [← own retaining pushing rfl] at retaining
      exact Or.inl (still retaining)
    · cases found : s.manager.sessions.lookup session.id with
      | some stored =>
          left
          left
          cases edge
          exact DashMap.mem_of_lookup found
      | none =>
          exact Or.inr (Or.inr ⟨t, session, rfl, pushing, rfl, found,
            fun t' o ids retaining => retained ⟨t', o, ids, retaining⟩⟩)

theorem LeakInv.init : LeakInv [] (ThreadState.init : ThreadState T) where
  retaining_pushing h := by cases h
  retaining_once h := by cases h
  retaining_listed h := by cases h
  listed_covered h := by cases h

omit [DecidableEq T] in
theorem IndexInv.taken (inv : IndexInv s.role s.manager s.issued s.dropped) {t : T}
    {ids : List Id} (retaining : s.calls t = some (.retain id origin ids)) : s.Taken id := by
  obtain ⟨issued, missing, notInserting⟩ :=
    inv.taking_gone (t := t) (by rw [ThreadState.role, retaining]; rfl)
  exact ⟨issued, missing, fun t' session inserting =>
    notInserting t' session (by rw [ThreadState.role, inserting]; rfl)⟩

theorem ThreadState.Taken.step (taken : s.Taken id) (edge : ThreadStep s event s') :
    s'.Taken id where
  issued := edge.issued_mono taken.issued
  missing := by
    rcases edge.missing_kept taken.missing with missing | ⟨t, session, inserting, same⟩
    · exact missing
    · exact (taken.notInserting t session inserting same).elim
  notInserting := by
    intro t session inserting same
    rcases edge.entered inserting with before | ⟨fresh, -⟩
    · exact taken.notInserting t session before same
    · exact fresh (same ▸ taken.issued)

section

variable (run : Transition.Run ThreadStep .init events s) (leaks : LeakInv events s)
  (edge : ThreadStep s event s')
include run leaks edge

theorem LeakInv.retaining_pushing_step {t t' : T} {ids : List Id} {session : Session}
    (retaining : s'.calls t = some (.retain session.id origin ids))
    (pushing : s'.calls t' = some (.push session)) : session.origin = origin := by
  have inv := run_indexInv run
  rcases edge.entered retaining with before | ⟨stored, found, rfl⟩
  · rcases edge.entered pushing with before' | ⟨inserting, -⟩
    · exact leaks.retaining_pushing before before' rfl
    · -- a session being removed has been stored
      exact ((inv.taken before).notInserting t' session inserting rfl).elim
  · rcases edge.entered pushing with before' | ⟨inserting, -⟩
    · exact inv.origin_of_pushing found (by rw [ThreadState.role, before']; rfl)
    · have missing := inv.inserting_unstored (t := t')
        (by rw [ThreadState.role, inserting]; rfl)
      rw [missing] at found
      cases found

theorem LeakInv.retaining_once_step {t t' : T} {origin' : String} {ids ids' : List Id}
    (retaining : s'.calls t = some (.retain id origin ids))
    (retaining' : s'.calls t' = some (.retain id origin' ids')) : t = t' := by
  have inv := run_indexInv run
  -- a session being removed cannot be taken again
  have again : ∀ {t t' origin origin' ids ids'}, s.calls t = some (.retain id origin ids) →
      s'.calls t' = some (.retain id origin' ids') → s.calls t' = s'.calls t' := by
    intro t t' origin origin' ids ids' before retaining
    rcases edge.entered retaining with before' | ⟨session, found, -⟩
    · exact before'.trans retaining.symm
    · rw [(inv.taken before).missing] at found
      cases found
  by_cases before : s.calls t = s'.calls t
  · have before' := again (before.trans retaining) retaining'
    exact leaks.retaining_once (before.trans retaining) (before'.trans retaining')
  · by_cases before' : s.calls t' = s'.calls t'
    · exact (before (again (before'.trans retaining') retaining)).elim
    · exact edge.mover (Ne.symm before) (Ne.symm before')

theorem LeakInv.retaining_listed_step {t : T} {ids : List Id}
    (retaining : s'.calls t = some (.retain id origin ids)) :
    id ∈ s'.manager.idsOf origin ∨
      (∃ t' session, s'.calls t' = some (.push session) ∧ session.id = id) ∨
      id ∈ s'.dropped := by
  have inv := run_indexInv run
  rcases edge.entered retaining with before | ⟨session, found, rfl⟩
  · rcases leaks.retaining_listed before with listed | ⟨t', session, pushing, same⟩ | dropped
    · rcases edge.listed_kept listed with still | ⟨u, ids', retaining', moved⟩ | ⟨dropped, -⟩
      · exact Or.inl still
      · -- the only thread that filters the id has not moved
        cases leaks.retaining_once before retaining'
        exact (moved (retaining.trans before.symm)).elim
      · exact Or.inr (Or.inr dropped)
    · rcases edge.push_kept pushing with still | listed
      · exact Or.inr (Or.inl ⟨t', session, still, same⟩)
      · rw [leaks.retaining_pushing before pushing same, same] at listed
        exact Or.inl listed
    · exact Or.inr (Or.inr (edge.dropped_mono dropped))
  · rcases inv.stored_covered found with listed | ⟨t', pushed, pushing, same, own⟩ | dropped
    · rcases edge.listed_kept listed with still | ⟨u, ids', retaining', -⟩ | ⟨dropped, -⟩
      · exact Or.inl still
      · rw [(inv.taken retaining').missing] at found
        cases found
      · exact Or.inr (Or.inr dropped)
    · rcases edge.push_kept (ThreadState.calls_of_pushing pushing) with still | listed
      · exact Or.inr (Or.inl ⟨t', pushed, still, same⟩)
      · rw [own, same] at listed
        exact Or.inl listed
    · exact Or.inr (Or.inr (edge.dropped_mono dropped))

/-- One step of any thread keeps the invariant. -/
theorem LeakInv.step : LeakInv (events ++ [event]) s' where
  retaining_pushing retaining pushing same := by
    subst same
    exact leaks.retaining_pushing_step run edge retaining pushing
  retaining_once := leaks.retaining_once_step run edge
  retaining_listed := leaks.retaining_listed_step run edge
  listed_covered := by
    intro origin id listed
    rcases edge.listed_covered (run_indexInv run) leaks.retaining_pushing listed with
      covered | ⟨old, uncovered⟩ | ⟨t, session, rfl, pushing, same, gone⟩
    · exact Or.inl covered
    · rcases leaks.listed_covered old with covered | late
      · exact (uncovered covered).elim
      · exact Or.inr (late.snoc edge)
    · exact Or.inr ⟨events, [], t, session, s, s', rfl, run, edge, .nil, pushing, same, gone⟩

end

theorem run_leakInv (run : Transition.Run ThreadStep .init events s) : LeakInv events s :=
  run.invariant .init fun before leaks edge => leaks.step before edge

/-- A session that is gone stays gone, unless a thread is still about to store it. -/
theorem ThreadState.Gone.step (gone : s.Gone id) (edge : ThreadStep s event s')
    (stored : ∀ t session, s.calls t = some (.insert session) → session.id ≠ id) :
    s'.Gone id := by
  constructor
  · rcases edge.missing_kept gone.1 with missing | ⟨t, session, inserting, same⟩
    · exact missing
    · exact (stored t session inserting same).elim
  · intro t o ids retaining
    rcases edge.entered retaining with before | ⟨session, found, -⟩
    · exact gone.2 t o ids before
    · rw [gone.1] at found
      cases found

omit [DecidableEq T] in
/-- No thread is about to store the session of an id no thread is about to list. -/
theorem not_inserting (uncreated : ∀ t, (s.role t).creates ≠ some id) (t : T) (session : Session)
    (inserting : s.calls t = some (.insert session)) : session.id ≠ id := by
  intro same
  apply uncreated t
  rw [ThreadState.role, inserting, ← same]
  rfl

/-! ## Leaked ids -/

/-- The session of the id is gone, and the id is listed or was in an entry that was removed. -/
def ThreadState.Stranded (s : ThreadState T) (id : Id) : Prop :=
  s.Gone id ∧ ((∃ origin, id ∈ s.manager.idsOf origin) ∨ id ∈ s.dropped)

/-- The listing of an id whose session is gone. -/
theorem ThreadStep.push_stranded (edge : ThreadStep s event s')
    (inv : IndexInv s.role s.manager s.issued s.dropped) {t : T} {session : Session}
    (push : event = .push t) (pushing : s.calls t = some (.push session))
    (gone : s.Gone session.id) : s'.Stranded session.id := by
  subst push
  have creating : (s.role t).creates = some session.id := by
    rw [ThreadState.role, pushing]
    rfl
  refine ⟨gone.step edge fun t' other inserting same => ?_, Or.inl ⟨session.origin, ?_⟩⟩
  · have here : t' = t :=
      inv.creates_once (by rw [ThreadState.role, inserting, ← same]; rfl) creating
    subst here
    rw [pushing] at inserting
    cases inserting
  · rcases edge.push_kept pushing with still | listed
    · cases edge
      cases (Function.update_self ..).symm.trans still
    · exact listed

theorem ThreadState.Stranded.step (stranded : s.Stranded id) (edge : ThreadStep s event s')
    (inv : IndexInv s.role s.manager s.issued s.dropped) : s'.Stranded id := by
  obtain ⟨gone, ⟨origin, listed⟩ | dropped⟩ := stranded
  · refine ⟨gone.step edge (not_inserting fun t h => inv.creates_unlisted h origin listed), ?_⟩
    rcases edge.listed_kept listed with still | ⟨t, ids, retaining, -⟩ | ⟨dropped, -⟩
    · exact Or.inl ⟨origin, still⟩
    · exact (gone.2 t origin ids retaining).elim
    · exact Or.inr dropped
  · exact ⟨gone.step edge (not_inserting (inv.dropped_gone dropped).2.2),
      Or.inr (edge.dropped_mono dropped)⟩

/-- From a late listing on the id is listed without a session, or in a removed entry. -/
theorem ListedLate.stranded (late : ListedLate events s id) : s.Stranded id := by
  obtain ⟨before, after, t, session, a, b, shape, left, push, right, pushing, rfl, gone⟩ := late
  have reached := left.snoc push
  clear shape
  induction right with
  | nil => exact push.push_stranded (run_indexInv left) rfl pushing gone
  | snoc run edge ih => exact ih.step edge (run_indexInv (reached.trans run))

omit [DecidableEq T] in
theorem ThreadState.Quiescent.leaked (rest : s.Quiescent) (listed : id ∈ s.manager.idsOf origin)
    (missing : s.manager.sessions.lookup id = none) : s.Leaked origin id := by
  refine ⟨listed, ⟨missing, fun t o ids retaining => ?_⟩, fun t ids dropping => ?_⟩
  · rw [rest t] at retaining
    cases retaining
  · rw [rest t] at dropping
    cases dropping

/-- **At rest an id without a session is listed exactly when its listing came after its removal
and its entry was not removed with it.** -/
theorem quiescent_leaked_iff (run : Transition.Run ThreadStep .init events s) (rest : s.Quiescent)
    (id : Id) :
    (∃ origin, s.Leaked origin id) ↔ ListedLate events s id ∧ id ∉ s.dropped := by
  have inv := run_indexInv run
  constructor
  · intro leaked
    obtain ⟨origin, listed, gone, -⟩ := leaked
    refine ⟨?_, fun dropped => (inv.dropped_gone dropped).2.1 origin listed⟩
    rcases (run_leakInv run).listed_covered listed with (stored | ⟨t, ids, retaining⟩) | late
    · obtain ⟨session, found⟩ := DashMap.exists_lookup stored
      rw [gone.1] at found
      cases found
    · exact (gone.2 t origin ids retaining).elim
    · exact late
  · intro holds
    obtain ⟨late, kept⟩ := holds
    obtain ⟨gone, ⟨origin, listed⟩ | dropped⟩ := late.stranded
    · exact ⟨origin, rest.leaked listed gone.1⟩
    · exact (kept dropped).elim

theorem ThreadState.Quiescent.of_bool {s : ThreadState Bool} (one : s.calls true = none)
    (other : s.calls false = none) : s.Quiescent := by
  intro t
  cases t
  · exact other
  · exact one

/-- The clean-up takes the session of a client between the two maps of its creation. -/
theorem quiescent_leaked_iff_overtaken :
    ∃ (events : List (ThreadEvent Bool)) (s : ThreadState Bool),
      s.Quiescent ∧ s.manager.sessions.keys = [] ∧ ListedLate events s 1 ∧ 1 ∉ s.dropped := by
  refine ⟨_, _, .of_bool ?_ ?_, ?_, (quiescent_leaked_iff
    (.snoc (.snoc (.snoc (.snoc (.snoc (.snoc (.snoc (.snoc (.snoc (.snoc .nil
      (@ThreadStep.create _ _ _ false ⟨1, 0, 0, "127.0.0.1:4000"⟩ rfl (by decide) le_rfl rfl))
      (.insert (t := false) rfl))
      (.advance 1))
      (.cleanup (t := true) 1 rfl))
      (@ThreadStep.visit _ _ _ true _ _ _ _ _ 1 _ rfl rfl (by decide)))
      (.collected (t := true) rfl fun _ member _ => member))
      (.take (t := true) rfl rfl))
      (.retain (t := true) rfl (by decide)))
      (.finish (t := true) rfl))
      (.push (t := false) rfl)) (.of_bool ?_ ?_) 1).mp
    ⟨"127.0.0.1:4000", (ThreadState.Quiescent.of_bool ?_ ?_).leaked (by decide) ?_⟩⟩ <;> rfl

/-- **A leaked id is listed for ever**, whatever sessions the threads go on to create, remove,
touch and clean up. -/
theorem leaked_forever (run : Transition.Run ThreadStep .init events s)
    (leaked : s.Leaked origin id) {more : List (ThreadEvent T)}
    (on : Transition.Run ThreadStep s more s') : s'.Leaked origin id := by
  induction on with
  | nil => exact leaked
  | @snoc more m s' event before edge ih =>
      have inv := run_indexInv (run.trans before)
      have listed : id ∈ s'.manager.idsOf origin := by
        rcases edge.listed_kept ih.listed with
          still | ⟨t, ids, retaining, -⟩ | ⟨-, t, ids, dropping⟩
        · exact still
        · exact (ih.gone.2 t origin ids retaining).elim
        · exact (ih.kept t ids dropping).elim
      refine ⟨listed, ih.gone.step edge
        (not_inserting fun t h => inv.creates_unlisted h origin ih.listed), ?_⟩
      intro t ids dropping
      rcases edge.entered dropping with earlier | emptied
      · exact ih.kept t ids earlier
      · -- a list that holds the id is never found empty
        rw [SessionManager.idsOf, emptied] at listed
        cases listed

/-- A second session of the origin comes and goes, and the entry is still there. -/
theorem leaked_forever_entry :
    ∃ s : ThreadState Bool, s.issued = [2, 1] ∧ s.manager.sessions.keys = [] ∧
      s.Leaked "127.0.0.1:4000" 1 := by
  refine ⟨_, ?_, ?_, leaked_forever
    (.snoc (.snoc (.snoc (.snoc (.snoc (.snoc (.snoc .nil
      (@ThreadStep.create _ _ _ false ⟨1, 0, 0, "127.0.0.1:4000"⟩ rfl (by decide) le_rfl rfl))
      (.insert (t := false) rfl))
      (.remove (t := true) 1 rfl))
      (.take (t := true) rfl rfl))
      (.retain (t := true) rfl (by decide)))
      (.finish (t := true) rfl))
      (.push (t := false) rfl)) ((ThreadState.Quiescent.of_bool ?_ ?_).leaked (by decide) ?_)
    (.snoc (.snoc (.snoc (.snoc (.snoc (.snoc (.snoc .nil
      (@ThreadStep.create _ _ _ true ⟨2, 0, 0, "127.0.0.1:4000"⟩ rfl (by decide) le_rfl rfl))
      (.insert (t := true) rfl))
      (.push (t := true) rfl))
      (.remove (t := true) 2 rfl))
      (.take (t := true) rfl rfl))
      (.retain (t := true) rfl (by decide)))
      (.finish (t := true) rfl))⟩ <;> rfl

end

end Bonka
