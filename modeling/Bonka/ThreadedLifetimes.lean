import Bonka.SessionLifetime
import Bonka.ThreadedSessions

/-!
# What a handler leaves behind

When `handle_client` returns, its session should be in neither map.  A handler whose
`send_response` fails returns without calling `remove_session`, and the session stays until a
clean-up takes it.  When the clean-up has taken the session first, the handler's own
`remove_session` finds nothing and returns, though the id may still be listed: the clean-up may
not have filtered the list yet, or may have done so before `create_session` listed the id.
`session_removed_iff` says that nothing else keeps a session from being forgotten.
-/

namespace Bonka

open Transition

variable {C : Type} [DecidableEq C]

/-! ## What is left of a session -/

/-- The session is gone: it is stored nowhere and listed under no origin. -/
def SessionManager.Forgets (manager : SessionManager) (id : Id) : Prop :=
  id ∉ manager.sessions ∧ ∀ origin, id ∉ manager.idsOf origin

/-- A removal has taken the session and has still to filter its id out of the list. -/
def ThreadState.Filtering {T : Type} (s : ThreadState T) (id : Id) : Prop :=
  ∃ t origin ids, s.calls t = some (.retain id origin ids)

/-- In the run to `s` a clean-up took the session. -/
def TakenByCleanup (env : ServerEnv) (events : List (ThreadedEvent C)) (s : ThreadedServer C)
    (id : Id) : Prop :=
  Occurred (FreshStep env) .init events s fun a event =>
    event = .cleanup (.take none) ∧ id ∈ a.sessions.manager.sessions ∧
      ∃ ids, a.sessions.calls none = some (.remove (id :: ids))

/-- In the run to `s` a `create_session` listed the id after the removal of its session was
through with the list. -/
def Overtaken (env : ServerEnv) (events : List (ThreadedEvent C)) (s : ThreadedServer C)
    (id : Id) : Prop :=
  Occurred (FreshStep env) .init events s fun a event =>
    ∃ c session, event = .session c (.push (some c)) ∧
      a.sessions.calls (some c) = some (.push session) ∧ session.id = id ∧ a.sessions.Gone id

/-! ## What a handler is doing in a call -/

/-- The call is `create_session`, which gives the session this id. -/
def SessionCall.Creates (id : Id) : SessionCall → Prop
  | .insert session | .push session => session.id = id
  | _ => False

/-- The call is `remove_session` of the id. -/
def SessionCall.Removes (id : Id) : SessionCall → Prop
  | .remove ids => ids = [id] ∨ ids = []
  | .retain other _ ids => other = id ∧ ids = []
  | .drop _ ids => ids = []
  | _ => False

section

variable {T : Type} [DecidableEq T] {s s' : ThreadState T} {event : ThreadEvent T} {t : T}
  {id : Id} {call call' : SessionCall}

/-- A call of `remove_session` goes on with its id. -/
theorem ThreadStep.removes_kept (edge : ThreadStep s event s') (before : s.calls t = some call)
    (removes : call.Removes id) (at_call : s'.calls t = some call') : call'.Removes id := by
  rcases edge.call_cases t with same | ⟨now, here, moves⟩ | ⟨idle, -⟩
  · rw [same, before] at at_call
    cases at_call
    exact removes
  · rw [before] at here
    cases here
    rw [at_call] at moves
    cases moves with
    | take =>
        rcases removes with one | none
        · cases one
          exact ⟨rfl, rfl⟩
        · cases none
    | miss =>
        rcases removes with one | none
        · cases one
          exact Or.inr rfl
        · cases none
    | retain => exact Or.inr removes.2
    | retainEmpty => exact removes.2
    | dropOrigin => exact Or.inr removes
    | insert | visit | collected => exact removes.elim
  · rw [before] at idle
    cases idle

omit [DecidableEq T] in
theorem SessionCall.Creates.creating (at_call : s.calls t = some call) (creates : call.Creates id) :
    ∃ session, s.Creating t session ∧ session.id = id := by
  cases call with
  | insert session => exact ⟨session, Or.inl at_call, creates⟩
  | push session => exact ⟨session, Or.inr at_call, creates⟩
  | _ => exact creates.elim

omit [DecidableEq T] in
theorem ThreadState.Creating.creates {session : Session} (creating : s.Creating t session)
    (at_call : s.calls t = some call) : call.Creates session.id := by
  rcases creating with h | h
  · rw [at_call] at h
    cases h
    rfl
  · rw [at_call] at h
    cases h
    rfl

/-- A session about to be stored is stored when its thread moves on. -/
theorem ThreadStep.insert_kept (edge : ThreadStep s event s') {session : Session}
    (inserting : s.calls t = some (.insert session)) :
    s'.calls t = some (.insert session) ∨ session.id ∈ s'.manager.sessions := by
  cases edge with
  | @insert u other at_call =>
      by_cases same : u = t
      · subst same
        rw [at_call] at inserting
        cases inserting
        exact Or.inr (DashMap.mem_of_lookup (AList.lookup_insert _))
      · exact Or.inl ((Function.update_of_ne (Ne.symm same) ..).trans inserting)
  | touch id idle => exact Or.inl inserting
  | advance elapsed => exact Or.inl inserting
  | _ => exact Or.inl (ThreadState.calls_of_ne (by assumption) inserting (by simp))

end

/-! ## The invariant -/

/-- What the handlers in a call are doing, how a session came to be missing, and how an id without
a session came to be listed. -/
structure Removals (env : ServerEnv) (events : List (ThreadedEvent C)) (s : ThreadedServer C) :
    Prop where
  acting : ∀ {c call}, s.sessions.calls (some c) = some call → ∃ conn, s.connections c = some conn ∧
    ((conn.stage = .reading ∧ call.Creates conn.sessionId) ∨
      (conn.stage = .closing ∧ call.Removes conn.sessionId))
  missing : ∀ {c conn}, s.connections c = some conn →
    conn.sessionId ∉ s.sessions.manager.sessions →
    (∃ session, s.sessions.calls (some c) = some (.insert session)) ∨
      TakenByCleanup env events s conn.sessionId ∨ conn.stage.PastLoop
  listed : ∀ {origin id}, id ∈ s.sessions.manager.idsOf origin →
    s.sessions.Covered origin id ∨ Overtaken env events s id

section

variable {env : ServerEnv} {s s' : ThreadedServer C} {event : ThreadedEvent C}
  {events : List (ThreadedEvent C)} {c : C} {conn conn' : Connection}

theorem Removals.init : Removals env [] (.init : ThreadedServer C) where
  acting h := by cases h
  missing found := by cases found
  listed h := by cases h

/-- The handler of a new connection is creating its session. -/
theorem ThreadedStep.accepted {addr : String} {id : Id}
    (edge : ThreadedStep env s (.accept c addr id) s') :
    ∃ session, s'.sessions.calls (some c) = some (.insert session) ∧ session.id = id ∧
      s'.connections c = some (.accepted addr id) := by
  cases edge with
  | @accept _ _ _ session _ free length created edge =>
      refine ⟨session, ?_, rfl, Function.update_self ..⟩
      cases edge with
      | create => exact Function.update_self ..
      | step edge =>
          cases edge
          exact Function.update_self ..

theorem ThreadedStep.removing (edge : ThreadedStep env s (.remove c) s') :
    ∃ conn, s'.connections c = some conn ∧ conn.stage = .closing ∧
      s'.sessions.calls (some c) = some (.remove [conn.sessionId]) := by
  cases edge with
  | remove found stage edge =>
      refine ⟨_, found, stage, ?_⟩
      cases edge with
      | step edge =>
          cases edge
          exact Function.update_self ..

/-- A handler that a step finds or leaves in a call stays at its stage. -/
theorem FreshStep.stage_kept (edge : FreshStep env s event s') {call call' : SessionCall}
    (found : s.connections c = some conn) (before : s.sessions.calls (some c) = some call)
    (at_call : s'.sessions.calls (some c) = some call') :
    ∃ conn', s'.connections c = some conn' ∧ conn'.sessionId = conn.sessionId ∧
      conn'.stage = conn.stage := by
  obtain ⟨conn', found'⟩ := edge.1.connection_kept found
  rcases edge.1.connection_cases found' with
    ⟨addr, id, -, free, -⟩ | ⟨other, old, own, same | ⟨idle, -⟩ | ⟨-, -, finished, -⟩⟩
  · rw [found] at free
    cases free
  · rw [found] at old
    cases old
    exact ⟨conn', found', own, same⟩
  · rw [before] at idle
    cases idle
  · rw [at_call] at finished
    cases finished

/-- A call of a handler starts with its connection, or behind its loop. -/
theorem FreshStep.starts (edge : FreshStep env s event s') {call : SessionCall}
    (idle : s.sessions.calls (some c) = none)
    (at_call : s'.sessions.calls (some c) = some call) : ∃ conn, s'.connections c = some conn ∧
      ((conn.stage = .reading ∧ call.Creates conn.sessionId) ∨
        (conn.stage = .closing ∧ call.Removes conn.sessionId)) := by
  rcases edge.performs with same | ⟨e, step, performs⟩
  · rw [same, idle] at at_call
    cases at_call
  · rcases step.started idle at_call with
      ⟨session, rfl⟩ | ⟨id, rfl, -⟩ | ⟨timeout, rfl⟩
    · cases performs with
      | accept =>
          obtain ⟨made, inserting, own, found⟩ := edge.1.accepted
          rw [at_call] at inserting
          cases inserting
          exact ⟨_, found, Or.inl ⟨rfl, own⟩⟩
      | session continues | cleanup continues => exact continues.elim
    · cases performs with
      | remove own =>
          obtain ⟨conn, found, stage, removing⟩ := edge.1.removing
          rw [at_call] at removing
          cases removing
          exact ⟨conn, found, Or.inr ⟨stage, Or.inl rfl⟩⟩
      | session continues | cleanup continues => exact continues.elim
    · cases performs with
      | session continues | cleanup continues => exact continues.elim

/-- A call goes on with the same id. -/
theorem FreshStep.call_kept (edge : FreshStep env s event s') {call call' : SessionCall}
    (before : s.sessions.calls (some c) = some call)
    (at_call : s'.sessions.calls (some c) = some call') (id : Id) :
    (call.Creates id → call'.Creates id) ∧ (call.Removes id → call'.Removes id) := by
  rcases edge.performs with same | ⟨e, step, -⟩
  · rw [same, before] at at_call
    cases at_call
    exact ⟨fun h => h, fun h => h⟩
  · refine ⟨fun creates => ?_, fun removes => step.removes_kept before removes at_call⟩
    obtain ⟨session, creating, rfl⟩ := creates.creating before
    rcases step.creating_kept creating with still | finished
    · exact still.creates at_call
    · rw [at_call] at finished
      cases finished

theorem Removals.acting_step (inv : Removals env events s) (edge : FreshStep env s event s')
    {call' : SessionCall} (at_call : s'.sessions.calls (some c) = some call') :
    ∃ conn, s'.connections c = some conn ∧
      ((conn.stage = .reading ∧ call'.Creates conn.sessionId) ∨
        (conn.stage = .closing ∧ call'.Removes conn.sessionId)) := by
  cases before : s.sessions.calls (some c) with
  | none => exact edge.starts before at_call
  | some call =>
      obtain ⟨conn, found, doing⟩ := inv.acting before
      obtain ⟨conn', found', own, stage⟩ := edge.stage_kept found before at_call
      obtain ⟨creates, removes⟩ := edge.call_kept before at_call conn.sessionId
      refine ⟨conn', found', ?_⟩
      rw [own, stage]
      exact doing.imp (And.imp_right creates) (And.imp_right removes)

/-- A handler past its loop stays there. -/
theorem ThreadedStep.pastLoop_kept (edge : ThreadedStep env s event s')
    (found : s'.connections c = some conn') (old : s.connections c = some conn)
    (past : conn.stage.PastLoop) : conn'.stage.PastLoop := by
  rcases edge.connection_cases found with
    ⟨addr, id, -, free, -⟩ | ⟨other, here, -, same | ⟨-, inLoop, -⟩ | ⟨-, -, -, returned⟩⟩
  · rw [old] at free
    cases free
  · rw [old] at here
    cases here
    exact same ▸ past
  · rw [old] at here
    cases here
    cases stage : conn.stage <;> rw [stage] at inLoop past
    case closing => exact inLoop.elim
    case returned => exact inLoop.elim
    all_goals exact past.elim
  · exact returned ▸ trivial

/-- A session that a step takes is taken by the clean-up, or by its handler on the way out. -/
theorem Removals.taken (inv : Removals env events s) (owns : Owns s'.sessionOf s'.sessions)
    (run : Run (FreshStep env) .init events s) (edge : FreshStep env s event s')
    (found : s'.connections c = some conn) (stored : conn.sessionId ∈ s.sessions.manager.sessions)
    (gone : conn.sessionId ∉ s'.sessions.manager.sessions) :
    TakenByCleanup env (events ++ [event]) s' conn.sessionId ∨ conn.stage.PastLoop := by
  rcases edge.performs with same | ⟨e, step, performs⟩
  · exact (gone (same ▸ stored)).elim
  · rcases step.missing_of (AList.lookup_eq_none.mpr gone) with
      before | ⟨t, session, ids, rfl, removing, -, retaining⟩
    · exact (AList.lookup_eq_none.mp before stored).elim
    · cases t with
      | none =>
          left
          cases performs with
          | session _ own => cases own
          | cleanup => exact .now run edge ⟨rfl, stored, ids, removing⟩
      | some d =>
          right
          obtain ⟨other, found', ⟨-, creates⟩ | ⟨stage, own, -⟩⟩ := inv.acting_step edge retaining
          · exact creates.elim
          · -- only its own handler removes it
            have same : c = d := owns.apart (ThreadedServer.sessionOf_of_found found)
              ((ThreadedServer.sessionOf_of_found found').trans (congrArg some own.symm))
            subst same
            rw [found] at found'
            cases found'
            rw [stage]
            trivial

theorem Removals.missing_step (inv : Removals env events s)
    (run : Run (FreshStep env) .init events s) (edge : FreshStep env s event s')
    (found : s'.connections c = some conn')
    (gone : conn'.sessionId ∉ s'.sessions.manager.sessions) :
    (∃ session, s'.sessions.calls (some c) = some (.insert session)) ∨
      TakenByCleanup env (events ++ [event]) s' conn'.sessionId ∨ conn'.stage.PastLoop := by
  have owns := (run_serving (run.snoc edge)).owns
  by_cases accepts : s.connections c = none
  · rcases edge.1.connection_cases found with ⟨addr, id, rfl, -⟩ | ⟨conn, old, -⟩
    · obtain ⟨session, inserting, -⟩ := edge.1.accepted
      exact Or.inl ⟨session, inserting⟩
    · rw [accepts] at old
      cases old
  · obtain ⟨conn, old⟩ := Option.ne_none_iff_exists'.mp accepts
    have own : conn'.sessionId = conn.sessionId := by
      rcases edge.1.connection_cases found with ⟨-, -, -, free, -⟩ | ⟨other, here, own, -⟩
      · exact (accepts free).elim
      · rw [old] at here
        cases here
        exact own
    by_cases stored : conn'.sessionId ∈ s.sessions.manager.sessions
    · exact Or.inr (inv.taken owns run edge found stored gone)
    · rw [own] at stored
      rcases inv.missing old stored with ⟨session, inserting⟩ | taken | past
      · left
        obtain ⟨other, here, ⟨-, creates⟩ | ⟨-, removes⟩⟩ := inv.acting inserting
        · rw [old] at here
          cases here
          rcases edge.performs with same | ⟨e, step, -⟩
          · exact ⟨session, same ▸ inserting⟩
          · rcases step.insert_kept inserting with still | stored
            · exact ⟨session, still⟩
            · have mine : session.id = conn'.sessionId := Eq.trans creates own.symm
              exact (gone (mine ▸ stored)).elim
        · exact removes.elim
      · exact Or.inr (Or.inl (own ▸ taken.snoc edge))
      · exact Or.inr (Or.inr (edge.1.pastLoop_kept found old past))

theorem Removals.listed_step (inv : Removals env events s)
    (run : Run (FreshStep env) .init events s) (edge : FreshStep env s event s')
    {origin : String} {id : Id} (listed : id ∈ s'.sessions.manager.idsOf origin) :
    s'.sessions.Covered origin id ∨ Overtaken env (events ++ [event]) s' id := by
  rcases edge.performs with same | ⟨e, step, performs⟩
  · rw [same] at listed ⊢
    exact (inv.listed listed).imp_right fun overtaken => overtaken.snoc edge
  · obtain ⟨more, plain⟩ := run_sessions run
    rcases step.listed_covered (run_indexInv plain) (run_leakInv plain).retaining_pushing listed
      with covered | ⟨old, uncovered⟩ | ⟨t, session, rfl, pushing, same, gone⟩
    · exact Or.inl covered
    · rcases inv.listed old with covered | overtaken
      · exact (uncovered covered).elim
      · exact Or.inr (overtaken.snoc edge)
    · right
      obtain ⟨c, rfl, -⟩ := (run_serving run).owns.creating (Or.inr pushing)
      cases performs with
      | session _ own =>
          cases own
          exact .now run edge ⟨_, session, rfl, pushing, same, gone⟩
      | cleanup _ own => cases own

theorem run_removals (run : Run (FreshStep env) .init events s) : Removals env events s := by
  refine run.invariant .init ?_
  intro events s event s' before inv edge
  exact ⟨inv.acting_step edge, inv.missing_step before edge, inv.listed_step before edge⟩

/-! ## What has happened stays so -/

theorem FreshStep.session_step {e : ThreadEvent (Option C)}
    (edge : FreshStep env s (.session c e) s') : ThreadStep s.sessions e s'.sessions := by
  obtain ⟨edge, -⟩ := edge
  cases edge with
  | session _ continues _ edge =>
      exact edge.threadStep fun t session same => (continues.ne_create t session same).elim

theorem FreshStep.cleanup_step {e : ThreadEvent (Option C)}
    (edge : FreshStep env s (.cleanup e) s') : ThreadStep s.sessions e s'.sessions := by
  obtain ⟨edge, -⟩ := edge
  cases edge with
  | cleanup _ continues edge =>
      exact edge.threadStep fun t session same => (continues.ne_create t session same).elim

theorem ThreadStep.take_stored {T : Type} [DecidableEq T] {s s' : ThreadState T} {t : T} {id : Id}
    {ids : List Id} (edge : ThreadStep s (.take t) s') (stored : id ∈ s.manager.sessions)
    (removing : s.calls t = some (.remove (id :: ids))) :
    ∃ origin, s'.calls t = some (.retain id origin ids) := by
  cases edge with
  | take here found =>
      rw [removing] at here
      cases here
      exact ⟨_, Function.update_self ..⟩
  | miss here missing =>
      rw [removing] at here
      cases here
      exact (AList.lookup_eq_none.mp missing stored).elim

/-- A session the clean-up has taken is not stored again. -/
theorem TakenByCleanup.unstored {id : Id} (taken : TakenByCleanup env events s id) :
    id ∉ s.sessions.manager.sessions := by
  refine AList.lookup_eq_none.mp
    (taken.after (Q := fun s : ThreadedServer C => s.sessions.Taken id) ?_ ?_).missing
  · intro events a event b before edge holds
    obtain ⟨rfl, stored, ids, removing⟩ := holds
    obtain ⟨origin, retaining⟩ := edge.cleanup_step.take_stored stored removing
    exact (run_sessions_inv (before.snoc edge)).taken retaining
  · intro events a event b before edge taken
    rcases edge.performs with same | ⟨e, step, -⟩
    · exact same ▸ taken
    · exact taken.step step

/-- An overtaken listing leaves the id listed, or in an entry that was removed. -/
theorem Overtaken.stranded {id : Id} (overtaken : Overtaken env events s id) :
    s.sessions.Stranded id := by
  refine overtaken.after (Q := fun s : ThreadedServer C => s.sessions.Stranded id) ?_ ?_
  · intro events a event b before edge holds
    obtain ⟨c, session, rfl, pushing, rfl, gone⟩ := holds
    exact edge.session_step.push_stranded (run_sessions_inv before) rfl pushing gone
  · intro events a event b before edge stranded
    rcases edge.performs with same | ⟨e, step, -⟩
    · exact same ▸ stranded
    · exact stranded.step step (run_sessions_inv before)

/-! ## When the handler has returned -/

omit [DecidableEq C] in
theorem ServerEvent.sendError_mem_outside {events : List (ServerEvent C)} :
    .client c .sendError ∈ events.filterMap ServerEvent.outside ↔
      .client c .sendError ∈ events := by
  rw [List.mem_filterMap]
  refine ⟨fun member => ?_, fun member => ⟨_, member, rfl⟩⟩
  obtain ⟨event, member, same⟩ := member
  cases event with
  | client d action =>
      cases action <;> cases same
      exact member
  | _ => cases same

omit [DecidableEq C] in
theorem ThreadedEvent.sendError_mem_outside :
    .client c .sendError ∈ events.filterMap ThreadedEvent.outside ↔
      .client c .sendError ∈ events := by
  rw [List.mem_filterMap]
  refine ⟨fun member => ?_, fun member => ⟨_, member, rfl⟩⟩
  obtain ⟨event, member, same⟩ := member
  cases event with
  | client d action =>
      cases action <;> cases same
      exact member
  | _ => cases same

/-- A handler has returned an error exactly when a send of its connection failed. -/
theorem sendError_iff (run : Run (ThreadedStep env) .init events s)
    (found : s.connections c = some conn) {result : Except ServerError Unit}
    (returned : conn.stage = .returned result) :
    .client c .sendError ∈ events ↔ result ≠ .ok () := by
  -- to its client the server is one with whole calls
  obtain ⟨events', t, run', same, seen⟩ := simulates_threads.run (t := .init) run ⟨rfl, rfl, rfl⟩
  rw [← ThreadedEvent.sendError_mem_outside, ← same, ServerEvent.sendError_mem_outside]
  rw [seen.connections] at found
  constructor
  · intro failed ok
    obtain ⟨error, stage⟩ := returned_of_sendError run' found failed
    rw [returned, ok] at stage
    cases stage
  · intro notOk
    cases result with
    | ok _ => exact (notOk rfl).elim
    | error error => exact mem_actionsOf.mp ((connection_inv run' found).failed returned)

section

variable (run : Run (FreshStep env) .init events s) (found : s.connections c = some conn)
  {result : Except ServerError Unit} (returned : conn.stage = .returned result)
include run found returned

theorem returned_idle : s.sessions.calls (some c) = none := by
  cases at_call : s.sessions.calls (some c) with
  | none => rfl
  | some call =>
      obtain ⟨other, here, ⟨stage, -⟩ | ⟨stage, -⟩⟩ := (run_removals run).acting at_call
      · rw [found] at here
        cases here
        rw [returned] at stage
        cases stage
      · rw [found] at here
        cases here
        rw [returned] at stage
        cases stage

theorem unstored_iff : conn.sessionId ∉ s.sessions.manager.sessions ↔
    .client c .sendError ∉ events ∨ TakenByCleanup env events s conn.sessionId := by
  have failed := sendError_iff (run.mono fun edge => edge.1) found returned
  constructor
  · intro unstored
    rcases (run_removals run).missing found unstored with ⟨session, inserting⟩ | taken | past
    · rw [returned_idle run found returned] at inserting
      cases inserting
    · exact Or.inr taken
    · rw [returned] at past
      cases result with
      | ok _ => exact Or.inl fun sent => failed.mp sent rfl
      | error error => exact past.elim
  · intro holds
    rcases holds with sent | taken
    · have ok : result = .ok () := by
        by_contra error
        exact sent (failed.mpr error)
      subst ok
      exact AList.lookup_eq_none.mp ((run_serving run).returned found returned).2
    · exact taken.unstored

theorem unlisted_iff (unstored : conn.sessionId ∉ s.sessions.manager.sessions) :
    (∀ origin, conn.sessionId ∉ s.sessions.manager.idsOf origin) ↔
      conn.sessionId ∈ s.sessions.dropped ∨
        (¬ s.sessions.Filtering conn.sessionId ∧ ¬ Overtaken env events s conn.sessionId) := by
  have inv := run_sessions_inv run
  constructor
  · intro unlisted
    by_cases dropped : conn.sessionId ∈ s.sessions.dropped
    · exact Or.inl dropped
    · refine Or.inr ⟨fun filtering => ?_, fun overtaken => ?_⟩
      · obtain ⟨t, origin, ids, retaining⟩ := filtering
        obtain ⟨more, plain⟩ := run_sessions run
        rcases (run_leakInv plain).retaining_listed retaining with
          listed | ⟨t', session, pushing, same⟩ | gone
        · exact unlisted origin listed
        · -- the only thread that lists the id is the handler, which has returned
          have serving := run_serving run
          obtain ⟨d, rfl, own⟩ := serving.owns.creating (Or.inr pushing)
          cases serving.owns.apart (ThreadedServer.sessionOf_of_found found) (same ▸ own)
          rw [returned_idle run found returned] at pushing
          cases pushing
        · exact dropped gone
      · obtain ⟨-, ⟨origin, listed⟩ | gone⟩ := overtaken.stranded
        · exact unlisted origin listed
        · exact dropped gone
  · intro holds origin listed
    rcases holds with dropped | ⟨notFiltering, notOvertaken⟩
    · exact (inv.dropped_gone dropped).2.1 origin listed
    · rcases (run_removals run).listed listed with (stored | ⟨t, ids, retaining⟩) | overtaken
      · exact unstored stored
      · exact notFiltering ⟨t, origin, ids, retaining⟩
      · exact notOvertaken overtaken

end

/-- **A returned handler has left nothing behind exactly when** none of its sends failed or a
clean-up took the session, **and** no removal of the session is still midway and none was through
before the session was listed, unless the entry of its origin was removed with its id in it. -/
theorem session_removed_iff (run : Run (FreshStep env) .init events s)
    (found : s.connections c = some conn) {result : Except ServerError Unit}
    (returned : conn.stage = .returned result) :
    s.sessions.manager.Forgets conn.sessionId ↔
      (.client c .sendError ∉ events ∨ TakenByCleanup env events s conn.sessionId) ∧
        (conn.sessionId ∈ s.sessions.dropped ∨
          (¬ s.sessions.Filtering conn.sessionId ∧
            ¬ Overtaken env events s conn.sessionId)) := by
  rw [SessionManager.Forgets, ← unstored_iff run found returned]
  exact and_congr_right fun unstored => unlisted_iff run found returned unstored

/-- A client that exits leaves nothing behind. -/
theorem session_removed_iff_exit :
    ∃ (events : List (ThreadedEvent Unit)) (s : ThreadedServer Unit) (conn : Connection),
      Run (FreshStep (.proto3 .byLength)) .init events s ∧ s.connections () = some conn ∧
        conn.stage = .returned (.ok ()) ∧ s.sessions.manager.Forgets conn.sessionId := by
  have run := @Run.nil _ _ (FreshStep (C := Unit) (.proto3 .byLength)) .init
    |>.snoc ⟨@ThreadedStep.accept _ _ _ _ () "a" (List.replicate 16 0) _ _ rfl rfl rfl
      (.create rfl le_rfl rfl), List.not_mem_nil⟩
    |>.snoc ⟨@ThreadedStep.session _ _ _ _ () (.insert (some ())) _ rfl trivial nofun
      (.step (.insert rfl)), trivial⟩
    |>.snoc ⟨@ThreadedStep.session _ _ _ _ () (.push (some ())) _ rfl trivial nofun
      (.step (.push rfl)), trivial⟩
    |>.snoc ⟨.client (c := ()) rfl id (fun own => by cases own) (.send [24, 5] rfl), trivial⟩
    |>.snoc ⟨.client (c := ()) rfl id (fun _ => rfl)
      (@ClientStep.read _ _ _ _ _ { commandType := 5 } rfl rfl (by decide) (by decide)), trivial⟩
    |>.snoc ⟨.touch (c := ()) rfl rfl (.step (.touch _ rfl)), trivial⟩
    |>.snoc ⟨.client (c := ()) rfl id (fun _ => rfl) (.exec 0 rfl (by decide)), trivial⟩
    |>.snoc ⟨.client (c := ()) rfl id (fun _ => rfl) (.reply rfl rfl), trivial⟩
    |>.snoc ⟨.remove (c := ()) rfl rfl (.step (.remove _ rfl)), trivial⟩
    |>.snoc ⟨@ThreadedStep.session _ _ _ _ () (.take (some ())) _ rfl trivial nofun
      (.step (.take rfl rfl)), trivial⟩
    |>.snoc ⟨@ThreadedStep.session _ _ _ _ () (.retain (some ())) _ rfl trivial nofun
      (.step (.retainEmpty rfl (by decide))), trivial⟩
    |>.snoc ⟨@ThreadedStep.session _ _ _ _ () (.dropOrigin (some ()) "a") _ rfl trivial nofun
      (.step (.dropOrigin rfl)), trivial⟩
    |>.snoc ⟨.removed (c := ()) rfl rfl (.step (.finish rfl)), trivial⟩
  refine ⟨_, _, _, run, ThreadedServer.put_self, rfl,
    (session_removed_iff run ThreadedServer.put_self rfl).mpr ⟨Or.inl ?_, Or.inr ⟨?_, ?_⟩⟩⟩
  · simp
  · intro filtering
    obtain ⟨t, origin, ids, retaining⟩ := filtering
    cases t <;> cases retaining
  · intro overtaken
    obtain ⟨-, ⟨origin, listed⟩ | dropped⟩ := overtaken.stranded
    · cases listed
    · cases dropped

/-- The visit of a session that the clean-up finds inactive. -/
theorem ThreadStep.visitExpired {T : Type} [DecidableEq T] {s : ThreadState T} {t : T}
    {now : Instant} {timeout : Duration} {keys visited ids : List Id} {id : Id} {session : Session}
    (collecting : s.calls t = some (.collect now timeout keys visited ids))
    (found : s.manager.sessions.lookup id = some session) (unvisited : id ∉ visited)
    (expired : SessionManager.Expired now timeout session) :
    ThreadStep s (.visit t id) (s.act t s.manager
      (some (.collect now timeout keys (id :: visited) (ids ++ [session.id])))) := by
  have visit := ThreadStep.visit collecting found unvisited
  rwa [if_pos expired] at visit

/-- The client resets the connection before its response is sent: the handler returns and its
session stays.  Another client comes back after half an hour and hangs up while the clean-up has
taken its session and not yet filtered the list: its handler returns and the id is listed. -/
theorem session_left_behind :
    (∃ (events : List (ThreadedEvent Unit)) (s : ThreadedServer Unit) (conn : Connection),
      Run (FreshStep (.proto3 .byLength)) .init events s ∧ s.connections () = some conn ∧
        conn.stage = .returned (.error .sendResponse) ∧
        ¬ s.sessions.manager.Forgets conn.sessionId) ∧
    ∃ (events : List (ThreadedEvent Unit)) (s : ThreadedServer Unit) (conn : Connection),
      Run (FreshStep (.proto3 .byLength)) .init events s ∧ s.connections () = some conn ∧
        conn.stage = .returned (.ok ()) ∧ ¬ s.sessions.manager.Forgets conn.sessionId := by
  have created := @Run.nil _ _ (FreshStep (C := Unit) (.proto3 .byLength)) .init
    |>.snoc ⟨@ThreadedStep.accept _ _ _ _ () "a" (List.replicate 16 0) _ _ rfl rfl rfl
      (.create rfl le_rfl rfl), List.not_mem_nil⟩
    |>.snoc ⟨@ThreadedStep.session _ _ _ _ () (.insert (some ())) _ rfl trivial nofun
      (.step (.insert rfl)), trivial⟩
    |>.snoc ⟨@ThreadedStep.session _ _ _ _ () (.push (some ())) _ rfl trivial nofun
      (.step (.push rfl)), trivial⟩
  constructor
  · have run := created
      |>.snoc ⟨.client (c := ()) rfl id (fun own => by cases own)
        (.send [24, 1, 34, 1, 97] rfl), trivial⟩
      |>.snoc ⟨.client (c := ()) rfl id (fun _ => rfl)
        (@ClientStep.read _ _ _ _ _ { commandType := 1, key := some "a" } rfl rfl
          (by decide) (by decide)), trivial⟩
      |>.snoc ⟨.touch (c := ()) rfl rfl (.step (.touch _ rfl)), trivial⟩
      |>.snoc ⟨.client (c := ()) rfl id (fun _ => rfl) (.exec 0 rfl (by decide)), trivial⟩
      |>.snoc ⟨.client (c := ()) rfl id (fun _ => rfl) (.sendErrorReply rfl), trivial⟩
    exact ⟨_, _, _, run, ThreadedServer.put_self, rfl, fun forgets => forgets.1 (by decide)⟩
  · have run := created
      |>.snoc ⟨.advance (.fromSecs 1801) (.step (.advance _)), trivial⟩
      |>.snoc ⟨.tick (Nat.le_of_ble_eq_true rfl) (.step (.cleanup _ rfl)), trivial⟩
      |>.snoc ⟨@ThreadedStep.cleanup _ _ _ _ (.visit none 17) _ rfl trivial
        (.step (.visitExpired rfl rfl List.not_mem_nil (Nat.le_of_ble_eq_true rfl))), trivial⟩
      |>.snoc ⟨@ThreadedStep.cleanup _ _ _ _ (.collected none) _ rfl trivial
        (.step (.collected rfl fun _ member _ => member)), trivial⟩
      |>.snoc ⟨@ThreadedStep.cleanup _ _ _ _ (.take none) _ rfl trivial
        (.step (@ThreadStep.take _ _ _ none 17 [] _ rfl rfl)), trivial⟩
      |>.snoc ⟨.client (c := ()) rfl id (fun own => by cases own) .hangUp, trivial⟩
      |>.snoc ⟨.client (c := ()) rfl id (fun _ => rfl) (.endOfStream rfl rfl rfl), trivial⟩
      |>.snoc ⟨.remove (c := ()) rfl rfl (.step (.remove _ rfl)), trivial⟩
      |>.snoc ⟨@ThreadedStep.session _ _ _ _ () (.take (some ())) _ rfl trivial nofun
        (.step (.miss rfl rfl)), trivial⟩
      |>.snoc ⟨.removed (c := ()) rfl rfl (.step (.finish rfl)), trivial⟩
    exact ⟨_, _, _, run, ThreadedServer.put_self, rfl, fun forgets => forgets.2 "a" (by decide)⟩

end

end Bonka
