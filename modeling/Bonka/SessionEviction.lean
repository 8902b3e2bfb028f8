import Bonka.SessionThreads

/-!
# What a clean-up evicts while other threads run

`cleanup_inactive_sessions` tests the sessions first and removes the ones it has collected later,
so a session can be touched between its test and its removal.  `evicted_inactive_iff` says that
this is the only way for a clean-up to remove a session that is not inactive: without such a touch
the session it removes has been inactive since before it read the clock.
-/

namespace Bonka

open Transition

variable {T : Type} [DecidableEq T]

/-- A step of the threads when `create_session` may come upon an id that was given before. -/
inductive SharedStep : ThreadState T → ThreadEvent T → ThreadState T → Prop
  | step {s s' : ThreadState T} {event : ThreadEvent T} :
    ThreadStep s event s' → SharedStep s event s'
  | create {s : ThreadState T} {t : T} {session : Session} :
    s.calls t = none → session.startTime ≤ s.clock → session.lastActivity = s.clock →
    SharedStep s (.create t session)
      { s.act t s.manager (some (.insert session)) with issued := session.id :: s.issued }

variable {s s' start : ThreadState T} {event : ThreadEvent T} {events : List (ThreadEvent T)}
  {t : T} {now : Instant} {timeout : Duration} {id : Id} {session : Session}

/-! ## What a step does to `sessions` -/

/-- The step is the `sessions.insert` of a `create_session`, which stores the session. -/
def Stores (s : ThreadState T) (event : ThreadEvent T) (session : Session) : Prop :=
  ∃ t, event = .insert t ∧ s.calls t = some (.insert session)

theorem SharedStep.clock_le (edge : SharedStep s event s') : s.clock ≤ s'.clock := by
  cases edge with
  | step edge =>
      cases edge with
      | advance elapsed => exact Nat.le_add_right ..
      | _ => exact le_refl _
  | create => exact le_refl _

theorem clock_le (run : Run SharedStep s events s') : s.clock ≤ s'.clock := by
  induction run with
  | nil => exact le_refl _
  | snoc _ last ih => exact ih.trans last.clock_le

/-- What a step does to an id in `sessions`: it stores a session under it, touches the session
stored there, or leaves that session alone unless it removes it. -/
theorem SharedStep.lookup_step (edge : SharedStep s event s') (id : Id) :
    (∃ other, Stores s event other ∧ other.id = id ∧
        s'.manager.sessions.lookup id = some other) ∨
      (∃ t, event = .touch t id ∧ s'.manager.sessions.lookup id =
        (s.manager.sessions.lookup id).map (Session.touch · s.clock)) ∨
      ((∀ other, Stores s event other → other.id ≠ id) ∧ (∀ t, event ≠ .touch t id) ∧
        (s'.manager.sessions.lookup id = none ∨
          s'.manager.sessions.lookup id = s.manager.sessions.lookup id)) := by
  have away : (∀ t, event ≠ .insert t) → (∀ t, event ≠ .touch t id) →
      (s'.manager.sessions.lookup id = none ∨
        s'.manager.sessions.lookup id = s.manager.sessions.lookup id) →
      (∀ other, Stores s event other → other.id ≠ id) ∧ (∀ t, event ≠ .touch t id) ∧
        (s'.manager.sessions.lookup id = none ∨
          s'.manager.sessions.lookup id = s.manager.sessions.lookup id) := by
    intro none untouched kept
    refine ⟨fun other stores => ?_, untouched, kept⟩
    obtain ⟨t, same, -⟩ := stores
    exact absurd same (none t)
  cases edge with
  | create =>
      exact .inr (.inr (away (fun _ same => by cases same) (fun _ same => by cases same)
        (.inr rfl)))
  | step edge =>
      cases edge with
      | @insert t session here =>
          by_cases own : session.id = id
          · exact .inl ⟨session, ⟨t, rfl, here⟩, own, own ▸ AList.lookup_insert ..⟩
          · refine .inr (.inr ⟨fun other stores => ?_, fun _ same => (by cases same), .inr ?_⟩)
            · obtain ⟨t', same, there⟩ := stores
              cases same
              rw [here] at there
              cases there
              exact own
            · exact AList.lookup_insert_ne (Ne.symm own)
      | @take t taken ids session here found =>
          refine .inr (.inr (away (fun _ same => by cases same) (fun _ same => by cases same) ?_))
          by_cases same : id = taken
          · exact .inl (same ▸ AList.lookup_erase ..)
          · exact .inr (AList.lookup_erase_ne same)
      | @touch t touched idle =>
          by_cases same : id = touched
          · subst same
            refine .inr (.inl ⟨t, rfl, ?_⟩)
            rw [SessionManager.lookup_touchSession, if_pos rfl]
          · refine .inr (.inr (away (fun _ same => by cases same) (fun _ other => ?_) (.inr ?_)))
            · cases other
              exact same rfl
            · rw [SessionManager.lookup_touchSession, if_neg same]
      | retain | retainEmpty =>
          refine .inr (.inr (away (fun _ same => by cases same) (fun _ same => by cases same) ?_))
          exact .inr (by simp only [ThreadState.act, SessionManager.sessions_retainOrigin])
      | _ =>
          exact .inr (.inr (away (fun _ same => by cases same) (fun _ same => by cases same)
            (.inr rfl)))

theorem SharedStep.keyed (edge : SharedStep s event s') (keyed : s.manager.Keyed) :
    s'.manager.Keyed := by
  intro id session stored
  rcases edge.lookup_step id with ⟨other, -, own, here⟩ | ⟨t, -, touched⟩ | ⟨-, -, gone | kept⟩
  · rw [here] at stored
    cases stored
    exact own
  · rw [touched] at stored
    obtain ⟨before, found, rfl⟩ := Option.map_eq_some_iff.mp stored
    have own : before.id = id := keyed found
    exact own
  · rw [gone] at stored
    cases stored
  · exact keyed (kept ▸ stored)

/-! ## The ids a clean-up has to remove -/

/-- The ids a call of `cleanup_inactive_sessions` that started at `now` still has to remove; a
call of another kind has none to speak of. -/
def SessionCall.toRemove (now : Instant) (timeout : Duration) : SessionCall → Option (List Id)
  | .collect now' timeout' _ _ ids => if now' = now ∧ timeout' = timeout then some ids else none
  | .remove ids | .retain _ _ ids | .drop _ ids => some ids
  | .insert _ | .push _ => none

/-- The thread that takes the step; time passes without one. -/
def ThreadEvent.thread : ThreadEvent T → Option T
  | .create t _ | .insert t | .push t | .remove t _ | .take t | .retain t | .dropOrigin t _ => t
  | .cleanup t _ | .visit t _ | .collected t | .finish t | .touch t _ => t
  | .advance _ => none

theorem SharedStep.calls_of_other (edge : SharedStep s event s') (other : event.thread ≠ some t) :
    s'.calls t = s.calls t := by
  have ne : ∀ {t'}, event.thread = some t' → t ≠ t' := by
    intro t' own same
    exact other (same ▸ own)
  cases edge with
  | create => exact Function.update_of_ne (ne rfl) ..
  | step edge =>
      cases edge with
      | touch | advance => rfl
      | _ => exact Function.update_of_ne (ne rfl) ..

/-- The ids that the clean-up thread `t` is in still has to remove. -/
def ThreadState.toRemove (s : ThreadState T) (t : T) (now : Instant) (timeout : Duration) :
    Option (List Id) :=
  (s.calls t).bind (SessionCall.toRemove now timeout)

/-- A step adds to the ids of a clean-up only the one it has just tested. -/
theorem SharedStep.toRemove {ids : List Id} (edge : SharedStep s event s')
    (unfinished : event ≠ .finish t) (keyed : s.manager.Keyed)
    (cleaning : s.toRemove t now timeout = some ids) :
    ∃ ids', s'.toRemove t now timeout = some ids' ∧
      ∀ id ∈ ids', id ∈ ids ∨ event = .visit t id := by
  obtain ⟨call, here, cleaning⟩ := Option.bind_eq_some_iff.mp cleaning
  have next : ∀ {call' ids'}, s'.calls t = some call' → call'.toRemove now timeout = some ids' →
      s'.toRemove t now timeout = some ids' := fun there left =>
    Option.bind_eq_some_iff.mpr ⟨_, there, left⟩
  by_cases own : event.thread = some t
  · cases edge with
    | create idle =>
        cases own
        rw [here] at idle
        cases idle
    | step edge =>
        cases edge with
        | create idle | remove _ idle | cleanup _ idle =>
            cases own
            rw [here] at idle
            cases idle
        | touch => exact ⟨ids, next here cleaning, fun id member => .inl member⟩
        | advance => cases own
        | insert there | push there =>
            cases own
            rw [here] at there
            cases there
            cases cleaning
        | take there | miss there =>
            cases own
            rw [here] at there
            cases there
            cases cleaning
            exact ⟨_, next (Function.update_self ..) rfl,
              fun id member => .inl (List.mem_cons_of_mem _ member)⟩
        | retain there | retainEmpty there | dropOrigin there =>
            cases own
            rw [here] at there
            cases there
            cases cleaning
            exact ⟨_, next (Function.update_self ..) rfl, fun id member => .inl member⟩
        | visit there stored unvisited =>
            cases own
            rw [here] at there
            cases there
            simp only [SessionCall.toRemove, Option.ite_none_right_eq_some, Option.some.injEq]
              at cleaning
            obtain ⟨⟨rfl, rfl⟩, rfl⟩ := cleaning
            refine ⟨_, next (Function.update_self ..) (if_pos ⟨rfl, rfl⟩), fun other member => ?_⟩
            split at member
            · rcases List.mem_append.mp member with old | new
              · exact .inl old
              · rw [List.mem_singleton.mp new, keyed stored]
                exact .inr rfl
            · exact .inl member
        | collected there =>
            cases own
            rw [here] at there
            cases there
            simp only [SessionCall.toRemove, Option.ite_none_right_eq_some, Option.some.injEq]
              at cleaning
            obtain ⟨-, rfl⟩ := cleaning
            exact ⟨_, next (Function.update_self ..) rfl, fun id member => .inl member⟩
        | finish there =>
            cases own
            exact absurd rfl unfinished
  · exact ⟨ids, next ((edge.calls_of_other own).trans here) cleaning, fun id member => .inl member⟩

/-- A clean-up has collected ids it has tested only. -/
def ThreadState.Tested (s : ThreadState T) : Prop :=
  ∀ ⦃t now timeout keys visited ids⦄,
    s.calls t = some (.collect now timeout keys visited ids) → ∀ id ∈ ids, id ∈ visited

theorem SharedStep.tested (edge : SharedStep s event s') (keyed : s.manager.Keyed)
    (tested : s.Tested) : s'.Tested := by
  intro t now timeout keys visited ids here
  by_cases own : event.thread = some t
  · cases edge with
    | create idle =>
        cases own
        cases (Function.update_self ..).symm.trans here
    | step edge =>
        cases edge with
        | touch | advance => exact tested here
        | cleanup =>
            cases own
            cases (Function.update_self ..).symm.trans here
            intro id member
            cases member
        | visit there stored unvisited =>
            cases own
            cases (Function.update_self ..).symm.trans here
            intro id member
            have earlier := tested there
            split at member
            · rcases List.mem_append.mp member with old | new
              · exact List.mem_cons_of_mem _ (earlier id old)
              · rw [List.mem_singleton.mp new, keyed stored]
                exact List.mem_cons_self
            · exact List.mem_cons_of_mem _ (earlier id member)
        | _ =>
            cases own
            cases (Function.update_self ..).symm.trans here
  · exact tested ((edge.calls_of_other own).symm.trans here)

theorem run_tested (run : Run SharedStep .init events s) : s.manager.Keyed ∧ s.Tested := by
  induction run with
  | nil => exact ⟨fun _ _ stored => (by cases stored), fun _ _ _ _ _ _ here => (by cases here)⟩
  | snoc _ last ih => exact ⟨last.keyed ih.1, last.tested ih.1 ih.2⟩

/-- Thread `t` is in a clean-up that read the clock at `now`. -/
structure CleaningUp (t : T) (now : Instant) (timeout : Duration) (s : ThreadState T) : Prop where
  keyed : s.manager.Keyed
  tested : s.Tested
  toRemove : ∃ ids, s.toRemove t now timeout = some ids

theorem CleaningUp.run (cleaning : CleaningUp t now timeout start)
    (run : Run SharedStep start events s) (unfinished : .finish t ∉ events) :
    CleaningUp t now timeout s := by
  induction run with
  | nil => exact cleaning
  | snoc _ last ih =>
      obtain ⟨keyed, tested, ids, left⟩ := ih fun member =>
        unfinished (List.mem_append_left _ member)
      obtain ⟨ids', left', -⟩ :=
        last.toRemove (fun same => unfinished (by rw [← same]; simp)) keyed left
      exact ⟨last.keyed keyed, last.tested keyed tested, ids', left'⟩

/-- A session is inactive when the clean-up has just tested and collected it. -/
theorem SharedStep.inactive_of_visit {ids : List Id} (edge : SharedStep s (.visit t id) s')
    (tested : s.Tested) (cleaning : s'.toRemove t now timeout = some ids) (member : id ∈ ids)
    (stored : s'.manager.sessions.lookup id = some session) :
    SessionManager.Expired now timeout session := by
  cases edge with
  | step edge =>
      cases edge with
      | @visit _ _ _ _ _ _ _ found there present unvisited =>
          obtain ⟨call, here, cleaning⟩ := Option.bind_eq_some_iff.mp cleaning
          cases (Function.update_self ..).symm.trans here
          simp only [SessionCall.toRemove, Option.ite_none_right_eq_some, Option.some.injEq]
            at cleaning
          obtain ⟨⟨rfl, rfl⟩, rfl⟩ := cleaning
          have same : some found = some session := present.symm.trans stored
          cases same
          split at member
          · assumption
          · exact absurd (tested there id member) unvisited

/-! ## Touches between the test and the removal -/

/-- A run since whose last test of the id by `t`, or last storing of a session under the id that
was inactive already, the id has been neither touched nor given to another session. -/
inductive LeftAlone (t : T) (now : Instant) (timeout : Duration) (id : Id)
    (start : ThreadState T) : List (ThreadEvent T) → ThreadState T → Prop
  | tested {events : List (ThreadEvent T)} {s s' : ThreadState T} :
    Run SharedStep start events s → SharedStep s (.visit t id) s' →
    LeftAlone t now timeout id start (events ++ [.visit t id]) s'
  | replaced {events : List (ThreadEvent T)} {s s' : ThreadState T} {event : ThreadEvent T}
    {session : Session} :
    Run SharedStep start events s → SharedStep s event s' → Stores s event session →
    session.id = id → SessionManager.Expired now timeout session →
    LeftAlone t now timeout id start (events ++ [event]) s'
  | step {events : List (ThreadEvent T)} {s s' : ThreadState T} {event : ThreadEvent T} :
    LeftAlone t now timeout id start events s → SharedStep s event s' →
    (∀ t', event ≠ .touch t' id) → (∀ session, Stores s event session → session.id ≠ id) →
    LeftAlone t now timeout id start (events ++ [event]) s'

/-- A run in which a `touch_session` has found a session under the id that no other session has
replaced since. -/
inductive Touched (id : Id) (start : ThreadState T) : List (ThreadEvent T) → ThreadState T → Prop
  | touch {events : List (ThreadEvent T)} {s s' : ThreadState T} {t : T} :
    Run SharedStep start events s → (s.manager.touchSession id s.clock).2 = true →
    SharedStep s (.touch t id) s' → Touched id start (events ++ [.touch t id]) s'
  | step {events : List (ThreadEvent T)} {s s' : ThreadState T} {event : ThreadEvent T} :
    Touched id start events s → SharedStep s event s' →
    (∀ session, Stores s event session → session.id ≠ id) →
    Touched id start (events ++ [event]) s'

theorem LeftAlone.run (alone : LeftAlone t now timeout id start events s) :
    Run SharedStep start events s := by
  induction alone with
  | tested before last => exact .snoc before last
  | replaced before last => exact .snoc before last
  | step _ last _ _ ih => exact .snoc ih last

theorem Touched.run (touched : Touched id start events s) : Run SharedStep start events s := by
  induction touched with
  | touch before _ last => exact .snoc before last
  | step _ last _ ih => exact .snoc ih last

theorem SharedStep.active_of_touch (edge : SharedStep s (.touch t id) s')
    (stored : s'.manager.sessions.lookup id = some session) : session.lastActivity = s.clock := by
  rcases edge.lookup_step id with ⟨other, stores, -⟩ | ⟨t', -, touched⟩ | ⟨-, untouched, -⟩
  · obtain ⟨t', same, -⟩ := stores
    cases same
  · rw [touched] at stored
    obtain ⟨before, -, rfl⟩ := Option.map_eq_some_iff.mp stored
    rfl
  · exact absurd rfl (untouched t)

/-- A session that is touched stays active until another one replaces it. -/
theorem Touched.active (touched : Touched id start events s)
    (stored : s.manager.sessions.lookup id = some session) :
    start.clock ≤ session.lastActivity := by
  induction touched generalizing session with
  | touch before _ last =>
      rw [last.active_of_touch stored]
      exact clock_le before
  | step before last unreplaced ih =>
      rcases last.lookup_step id with ⟨other, stores, own, -⟩ | ⟨t, rfl, -⟩ | ⟨-, -, gone | kept⟩
      · exact absurd own (unreplaced other stores)
      · rw [last.active_of_touch stored]
        exact clock_le before.run
      · rw [gone] at stored
        cases stored
      · exact ih (kept ▸ stored)

theorem SharedStep.lookup_of_stores (edge : SharedStep s event s')
    (stores : Stores s event session) :
    s'.manager.sessions.lookup session.id = some session := by
  obtain ⟨t, rfl, here⟩ := stores
  cases edge with
  | step edge =>
      cases edge with
      | insert there =>
          rw [here] at there
          cases there
          exact AList.lookup_insert ..

/-- The ids that are left after a step were left before it, or have just been tested. -/
theorem CleaningUp.left_before {ids : List Id} (cleaning : CleaningUp t now timeout s)
    (last : SharedStep s event s') (unfinished : .finish t ∉ events ++ [event])
    (left : s'.toRemove t now timeout = some ids) (member : id ∈ ids) :
    event = .visit t id ∨ ∃ before, s.toRemove t now timeout = some before ∧ id ∈ before := by
  obtain ⟨before, leftBefore⟩ := cleaning.toRemove
  obtain ⟨ids', left', grows⟩ :=
    last.toRemove (fun same => unfinished (by rw [← same]; simp)) cleaning.keyed leftBefore
  rw [left] at left'
  cases left'
  rcases grows id member with old | tested
  · exact .inr ⟨before, leftBefore, old⟩
  · exact .inl tested

/-- An id left alone holds an inactive session, if the clean-up has it among those to remove. -/
theorem LeftAlone.inactive (alone : LeftAlone t now timeout id start events s)
    (cleaning : CleaningUp t now timeout start) (unfinished : .finish t ∉ events) {ids : List Id}
    (left : s.toRemove t now timeout = some ids) (member : id ∈ ids)
    (stored : s.manager.sessions.lookup id = some session) :
    SessionManager.Expired now timeout session := by
  have earlier : ∀ {xs : List (ThreadEvent T)} {event}, .finish t ∉ xs ++ [event] →
      .finish t ∉ xs := fun absent member => absent (List.mem_append_left _ member)
  induction alone generalizing session ids with
  | tested before last =>
      exact last.inactive_of_visit (cleaning.run before (earlier unfinished)).tested left member
        stored
  | replaced before last stores own expired =>
      rw [← own, last.lookup_of_stores stores] at stored
      cases stored
      exact expired
  | step before last untouched unreplaced ih =>
      have then' := cleaning.run before.run (earlier unfinished)
      rcases then'.left_before last unfinished left member with rfl | ⟨ids', left', member'⟩
      · exact last.inactive_of_visit then'.tested left member stored
      · rcases last.lookup_step id with ⟨other, stores, own, -⟩ | ⟨t', touch, -⟩ |
          ⟨-, -, gone | kept⟩
        · exact absurd own (unreplaced other stores)
        · exact absurd touch (untouched t')
        · rw [gone] at stored
          cases stored
        · exact ih (earlier unfinished) left' member' (kept ▸ stored)

/-- An inactive session that the clean-up is to remove has been left alone. -/
theorem leftAlone_of_inactive (run : Run SharedStep start events s)
    (cleaning : CleaningUp t now timeout start) (begun : start.toRemove t now timeout = some [])
    (clock : start.clock = now) (positive : 0 < timeout) (unfinished : .finish t ∉ events)
    {ids : List Id} (left : s.toRemove t now timeout = some ids) (member : id ∈ ids)
    (stored : s.manager.sessions.lookup id = some session)
    (inactive : SessionManager.Expired now timeout session) :
    LeftAlone t now timeout id start events s := by
  induction run generalizing session ids with
  | nil =>
      rw [begun] at left
      cases left
      cases member
  | snoc before last ih =>
      have earlier := fun member => unfinished (List.mem_append_left _ member)
      rcases last.lookup_step id with ⟨other, stores, own, here⟩ | ⟨t', rfl, -⟩ |
        ⟨unreplaced, untouched, gone | kept⟩
      · rw [here] at stored
        cases stored
        exact .replaced before last stores own inactive
      · have active := last.active_of_touch stored
        have later := clock_le before
        have none : durationSince now session.lastActivity = 0 :=
          Nat.sub_eq_zero_of_le (by rw [active, ← clock]; exact later)
        rw [SessionManager.Expired, none] at inactive
        exact absurd positive (Nat.not_lt.mpr inactive)
      · rw [gone] at stored
        cases stored
      · rcases (cleaning.run before earlier).left_before last unfinished left member with
          rfl | ⟨ids', left', member'⟩
        · exact .tested before last
        · exact .step (ih earlier left' member' (kept ▸ stored) inactive) last untouched unreplaced

/-! ## The removals of a clean-up -/

/-- The session a removal step of a thread takes is the one at the head of its ids. -/
theorem head_of_take (removal : SharedStep s (.take t) s')
    (stored : s.manager.sessions.lookup id = some session)
    (gone : s'.manager.sessions.lookup id = none) :
    ∃ ids, s.calls t = some (.remove (id :: ids)) := by
  cases removal with
  | step removal =>
      cases removal with
      | @take _ taken ids other here found =>
          by_cases same : id = taken
          · exact ⟨ids, same ▸ here⟩
          · have kept : (s.manager.sessions.erase taken).lookup id = none := gone
            rw [AList.lookup_erase_ne same, stored] at kept
            cases kept
      | miss =>
          have kept : s.manager.sessions.lookup id = none := gone
          rw [stored] at kept
          cases kept

/-- A clean-up that has begun has collected nothing. -/
theorem toRemove_of_cleanup (begun : SharedStep s (.cleanup t timeout) s') :
    s'.toRemove t s.clock timeout = some [] ∧ s'.clock = s.clock := by
  cases begun with
  | step begun =>
      cases begun with
      | cleanup timeout idle =>
          refine ⟨Option.bind_eq_some_iff.mpr ⟨_, Function.update_self .., ?_⟩, rfl⟩
          exact if_pos ⟨rfl, rfl⟩

/-- **A clean-up removes only inactive sessions, except for those touched after their test.**  Let a
clean-up with a positive timeout begin at `s₀`, and take a session out of `sessions` at `s₂`.  The
session has been inactive for the timeout before the clock reading of the clean-up, and no
`touch_session` has found it since, exactly when its id has been left alone: it was not touched
after its test, or after a session that was inactive already came to be stored under it. -/
theorem evicted_inactive_iff {before middle : List (ThreadEvent T)} {s₀ s₁ s₂ s₃ : ThreadState T}
    (reached : Run SharedStep .init before s₀)
    (begun : SharedStep s₀ (.cleanup t timeout) s₁) (positive : 0 < timeout)
    (run : Run SharedStep s₁ middle s₂) (unfinished : .finish t ∉ middle)
    (removal : SharedStep s₂ (.take t) s₃)
    (stored : s₂.manager.sessions.lookup id = some session)
    (gone : s₃.manager.sessions.lookup id = none) :
    (timeout ≤ durationSince s₀.clock session.lastActivity ∧ ¬ Touched id s₁ middle s₂) ↔
      LeftAlone t s₀.clock timeout id s₁ middle s₂ := by
  obtain ⟨nothing, clock⟩ := toRemove_of_cleanup begun
  obtain ⟨keyed, tested⟩ := run_tested (reached.snoc begun)
  have cleaning : CleaningUp t s₀.clock timeout s₁ := ⟨keyed, tested, [], nothing⟩
  obtain ⟨ids, removing⟩ := head_of_take removal stored gone
  have left : s₂.toRemove t s₀.clock timeout = some (id :: ids) :=
    Option.bind_eq_some_iff.mpr ⟨_, removing, rfl⟩
  constructor
  · intro evicted
    exact leftAlone_of_inactive run cleaning nothing clock positive unfinished left
      List.mem_cons_self stored evicted.1
  · intro alone
    have inactive := alone.inactive cleaning unfinished left List.mem_cons_self stored
    refine ⟨inactive, fun touched => ?_⟩
    -- a touch would have made the session active
    have none : durationSince s₀.clock session.lastActivity = 0 :=
      Nat.sub_eq_zero_of_le (clock ▸ touched.active stored)
    rw [SessionManager.Expired, none] at inactive
    exact absurd positive (Nat.not_lt.mpr inactive)

/-- A manager with one session has no id but the one that is visited. -/
theorem only_key {session : Session} {id : Id}
    (member : id ∈ (AList.insert session.id session (∅ : DashMap Id Session)).keys) :
    id ∈ [session.id] := by
  rwa [AList.insert_empty, AList.keys_singleton] at member

/-- A session idle for 100 goes in a clean-up of all that are idle for 50, and nothing has touched
it since the clean-up began. -/
theorem evicted_inactive_iff_idle :
    ∃ (before middle : List (ThreadEvent Bool)) (s₀ s₁ s₂ s₃ : ThreadState Bool)
      (session : Session),
      Run SharedStep .init before s₀ ∧ SharedStep s₀ (.cleanup true 50) s₁ ∧
        Run SharedStep s₁ middle s₂ ∧ SharedStep s₂ (.take true) s₃ ∧
        s₂.manager.sessions.lookup 1 = some session ∧ s₃.manager.sessions.lookup 1 = none ∧
        50 ≤ durationSince s₀.clock session.lastActivity ∧ ¬ Touched 1 s₁ middle s₂ := by
  have before := @Run.nil _ _ (SharedStep (T := Bool)) .init
    |>.snoc (.step (@ThreadStep.create _ _ _ false ⟨1, 0, 0, "127.0.0.1:4000"⟩ rfl (by decide)
      le_rfl rfl))
    |>.snoc (.step (.insert (t := false) rfl))
    |>.snoc (.step (.push (t := false) rfl))
    |>.snoc (.step (.advance 100))
  have start : ∀ {events} {s : ThreadState Bool}, Run SharedStep .init events s →
      s.calls true = none → SharedStep s (.cleanup true 50)
        (s.act true s.manager (some (.collect s.clock 50 s.manager.sessions.keys [] []))) :=
    fun _ idle => .step (.cleanup 50 idle)
  have begun := start before rfl
  have stay : ∀ {s event} {s' : ThreadState Bool}, SharedStep s event s' →
      Run SharedStep s' [] s' := fun _ => .nil
  have middle := stay begun
    |>.snoc (.step (@ThreadStep.visit _ _ _ true _ _ _ _ _ 1 _ rfl rfl List.not_mem_nil))
    |>.snoc (.step (.collected (t := true) rfl fun _ member _ => only_key member))
  have evicted := (@evicted_inactive_iff _ _ true 50 1 ⟨1, 0, 0, "127.0.0.1:4000"⟩ _ _ _ _ _ _
    before begun (by decide) middle (by simp) (.step (.take rfl rfl)) rfl rfl).mpr ?alone
  case alone =>
    refine .step (.tested .nil
      (.step (@ThreadStep.visit _ _ _ true _ _ _ _ _ 1 _ rfl rfl List.not_mem_nil)))
      (.step (.collected (t := true) rfl ?_)) (fun _ same => by cases same) ?_
    · intro id member _
      exact only_key member
    · intro other stores
      obtain ⟨_, same, -⟩ := stores
      cases same
  exact ⟨_, _, _, _, _, _, _, before, begun, middle, .step (.take rfl rfl), rfl, rfl, evicted⟩

/-- A session that is touched between its test and its removal: `touch_session` returns true after
the clean-up has read the clock, and the clean-up removes the session all the same. -/
theorem touched_session_evicted :
    ∃ (before middle : List (ThreadEvent Bool)) (s₀ s₁ s₂ s₃ : ThreadState Bool)
      (session : Session),
      Run SharedStep .init before s₀ ∧ SharedStep s₀ (.cleanup true 50) s₁ ∧
        Run SharedStep s₁ middle s₂ ∧ Touched 1 s₁ middle s₂ ∧
        SharedStep s₂ (.take true) s₃ ∧ s₂.manager.sessions.lookup 1 = some session ∧
        s₃.manager.sessions.lookup 1 = none ∧
        ¬ 50 ≤ durationSince s₀.clock session.lastActivity := by
  refine ⟨_, _, _, _, _, _, _,
    .snoc (.snoc (.snoc (.snoc .nil
      (.step (@ThreadStep.create _ _ _ false ⟨1, 0, 0, "127.0.0.1:4000"⟩ rfl (by decide)
        le_rfl rfl)))
      (.step (.insert (t := false) rfl)))
      (.step (.push (t := false) rfl)))
      (.step (.advance 100)),
    .step (.cleanup (t := true) 50 rfl),
    .snoc (.snoc (.snoc .nil
      (.step (@ThreadStep.visit _ _ _ true _ _ _ _ _ 1 _ rfl rfl List.not_mem_nil)))
      (.step (@ThreadStep.touch _ _ _ false 1 rfl)))
      (.step (.collected (t := true) rfl ?_)), ?_,
    .step (.take (t := true) rfl rfl), rfl, rfl, ?_⟩
  · intro id member _
    exact only_key member
  · refine .step (.touch (.snoc .nil
      (.step (@ThreadStep.visit _ _ _ true _ _ _ _ _ 1 _ rfl rfl List.not_mem_nil))) rfl
      (.step (@ThreadStep.touch _ _ _ false 1 rfl))) (.step (.collected (t := true) rfl ?_)) ?_
    · intro id member _
      exact only_key member
    · intro other stores
      obtain ⟨_, same, -⟩ := stores
      cases same
  · decide

end Bonka
