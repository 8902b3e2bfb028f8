import Bonka.SessionLifetime
import Bonka.SessionPrompt
import Bonka.ThreadedServer

/-!
# The sessions of the threaded server

The handlers of the server use the session manager as `PromptStep` asks: each removes the session
it created, after its creation has returned.  So when no two creations draw one id and no creation
takes half an hour, no session and no id outlives its handler, and after the last handler has
returned the manager is as new (`sessions_recovered`).
-/

namespace Bonka

open Transition

/-! ## What a step does to a call -/

section

variable {T : Type} [DecidableEq T] {s s' : ThreadState T} {event : ThreadEvent T} {t : T}
  {id : Id}

/-- The session of the id has been created and removed. -/
def ThreadState.Removed (s : ThreadState T) (id : Id) : Prop :=
  s.Created id ∧ s.manager.sessions.lookup id = none

theorem ThreadState.Removed.step (removed : s.Removed id) (edge : ThreadStep s event s') :
    s'.Removed id := by
  refine ⟨edge.created_mono removed.1, ?_⟩
  rcases edge.missing_kept removed.2 with missing | ⟨t, session, inserting, same⟩
  · exact missing
  · exact (removed.1.2 t session (Or.inl inserting) same).elim

/-- How a call starts. -/
theorem ThreadStep.started (edge : ThreadStep s event s') {call : SessionCall}
    (idle : s.calls t = none) (at_call : s'.calls t = some call) :
    (∃ session, event = .create t session) ∨ (∃ id, event = .remove t id ∧ call = .remove [id]) ∨
      ∃ timeout, event = .cleanup t timeout := by
  rcases edge.call_cases t with same | ⟨before, here, -⟩ | ⟨-, made, new, starts⟩
  · rw [same, idle] at at_call
    cases at_call
  · rw [idle] at here
    cases here
  · rw [at_call] at new
    cases new
    cases event with
    | create u session => exact Or.inl ⟨session, by rw [starts.1]⟩
    | remove u id => exact Or.inr (Or.inl ⟨id, by rw [starts.1], starts.2⟩)
    | cleanup u timeout => exact Or.inr (Or.inr ⟨timeout, by rw [starts.1]⟩)
    | _ => exact starts.elim

theorem ThreadStep.idle_of_remove (edge : ThreadStep s (.remove t id) s') : s.calls t = none := by
  cases edge with
  | remove _ idle => exact idle

/-- A creation goes on until it returns. -/
theorem ThreadStep.creating_kept (edge : ThreadStep s event s') {session : Session}
    (creating : s.Creating t session) : s'.Creating t session ∨ s'.calls t = none := by
  rcases edge.call_cases t with same | ⟨call, here, moves⟩ | ⟨idle, -⟩
  · exact Or.inl (creating.imp same.trans same.trans)
  · rcases creating with inserting | pushing
    · rw [inserting] at here
      cases here
      generalize after : s'.calls t = next at moves
      cases moves
      exact Or.inl (Or.inr after)
    · rw [pushing] at here
      cases here
      generalize s'.calls t = next at moves
      cases moves
      exact Or.inr rfl
  · rcases creating with inserting | pushing
    · rw [idle] at inserting
      cases inserting
    · rw [idle] at pushing
      cases pushing

/-- A thread has an id to remove until it has removed it or found it missing. -/
theorem ThreadStep.pending_kept (edge : ThreadStep s event s') (pending : id ∈ s.pending t) :
    id ∈ s'.pending t ∨ s'.manager.sessions.lookup id = none := by
  -- the ids a thread has to remove only shrink by the one it takes
  have moved : ∀ {u call next} {P : Prop}, s.calls u = call →
      (id ∈ pendingOf call → id ∈ pendingOf next ∨ P) →
        id ∈ pendingOf (Function.update s.calls u next t) ∨ P := by
    intro u call next P at_call kept
    rw [Function.update_apply]
    split
    · rename_i same
      subst same
      rw [ThreadState.pending, at_call] at pending
      exact kept pending
    · exact Or.inl pending
  cases edge with
  | create idle _ _ _ => exact moved idle fun member => by cases member
  | insert inserting => exact moved inserting fun member => by cases member
  | push pushing => exact moved pushing fun member => by cases member
  | remove other idle => exact moved idle fun member => by cases member
  | @take u other ids session removing found =>
      refine moved removing fun member => ?_
      rcases List.mem_cons.mp member with same | rest
      · right
        change (s.manager.takeSession other).sessions.lookup id = none
        rw [SessionManager.takeSession, DashMap.lookup_erase_if, if_pos same]
      · exact Or.inl rest
  | @miss u other ids removing missing =>
      refine moved removing fun member => ?_
      rcases List.mem_cons.mp member with same | rest
      · exact Or.inr (same ▸ missing)
      · exact Or.inl rest
  | retain retaining kept => exact moved retaining Or.inl
  | retainEmpty retaining emptied => exact moved retaining Or.inl
  | dropOrigin dropping => exact moved dropping Or.inl
  | cleanup timeout idle => exact moved idle fun member => by cases member
  | @visit u now timeout keys visited ids other session collecting found unvisited =>
      refine moved collecting fun member => Or.inl ?_
      change id ∈ if SessionManager.Expired now timeout session then ids ++ [session.id] else ids
      split
      · exact List.mem_append_left _ member
      · exact member
  | collected collecting all => exact moved collecting Or.inl
  | finish removing => exact moved removing fun member => by cases member
  | touch other idle => exact Or.inl pending
  | advance elapsed => exact Or.inl pending

/-- The list of an entry is empty only while a thread is about to remove the entry. -/
def ThreadState.EmptiesDropped (s : ThreadState T) : Prop :=
  ∀ origin, s.manager.originToSessions.lookup origin = some [] →
    ∃ t ids, s.calls t = some (.drop origin ids)

theorem ThreadStep.emptiesDropped (edge : ThreadStep s event s') (empties : s.EmptiesDropped) :
    s'.EmptiesDropped := by
  have stays : ∀ {origin u call next}, s.calls u = call →
      (∀ ids, call ≠ some (.drop origin ids)) →
      s.manager.originToSessions.lookup origin = some [] →
        ∃ t ids, Function.update s.calls u next t = some (.drop origin ids) := by
    intro origin u call next at_call other emptied
    obtain ⟨t, ids, dropping⟩ := empties origin emptied
    exact ⟨t, ids, ThreadState.calls_of_ne at_call dropping (other ids)⟩
  have retained : ∀ {o origin other}, o ≠ origin →
      (s.manager.retainOrigin origin other).originToSessions.lookup o =
        s.manager.originToSessions.lookup o := by
    intro o origin other ne
    unfold SessionManager.retainOrigin
    split
    · exact AList.lookup_insert_ne ne
    · rfl
  intro o emptied
  cases edge with
  | @push u session pushing =>
      change (s.manager.pushOrigin session.origin session.id).originToSessions.lookup o = _
        at emptied
      rw [SessionManager.pushOrigin, DashMap.lookup_insert_if] at emptied
      split at emptied
      · simp at emptied
      · exact stays pushing (by simp) emptied
  | @retain u other origin ids retaining kept =>
      by_cases same : o = origin
      · subst same
        exact (kept emptied).elim
      · exact stays retaining (by simp) ((retained same).symm.trans emptied)
  | @retainEmpty u other origin ids retaining _ =>
      by_cases same : o = origin
      · subst same
        exact ⟨u, ids, Function.update_self ..⟩
      · exact stays retaining (by simp) ((retained same).symm.trans emptied)
  | @dropOrigin u origin ids dropping =>
      change (s.manager.removeOrigin origin).originToSessions.lookup o = _ at emptied
      rw [SessionManager.removeOrigin, DashMap.lookup_erase_if] at emptied
      split at emptied
      · cases emptied
      · rename_i ne
        exact stays dropping (by simpa using fun same => (ne same.symm).elim) emptied
  | touch id idle =>
      rw [SessionManager.originToSessions_touchSession] at emptied
      exact empties o emptied
  | advance elapsed => exact empties o emptied
  | _ => exact stays (by assumption) (by simp) emptied

theorem run_emptiesDropped {events : List (ThreadEvent T)} (run : Run ThreadStep .init events s) :
    s.EmptiesDropped :=
  run.invariant (P := fun _ s => s.EmptiesDropped) (fun _ emptied => by cases emptied)
    fun _ empties edge => edge.emptiesDropped empties

end

/-! ## Whose session is whose -/

variable {C : Type} [DecidableEq C]

/-- The id of the session that each handler has asked for. -/
def ThreadedServer.sessionOf (s : ThreadedServer C) (c : C) : Option Id :=
  (s.connections c).map Connection.sessionId

/-- Every id was given to one handler, which alone creates and removes its session. -/
structure Owns (sessionOf : C → Option Id) (s : ThreadState (Option C)) : Prop where
  issued : ∀ {c id}, sessionOf c = some id → id ∈ s.issued
  owned : ∀ {id}, id ∈ s.issued → ∃ c, sessionOf c = some id
  apart : ∀ {c c' id}, sessionOf c = some id → sessionOf c' = some id → c = c'
  creating : ∀ {t session}, s.Creating t session →
    ∃ c, t = some c ∧ sessionOf c = some session.id
  removing : ∀ {c id call}, sessionOf c = some id → s.calls (some c) = some call →
    (∀ session, ¬ s.Creating (some c) session) →
    id ∈ s.pending (some c) ∨ s.manager.sessions.lookup id = none

/-- The calls that the threads of the server start, apart from creations. -/
def ThreadEvent.OfServer (sessionOf : C → Option Id) : ThreadEvent (Option C) → Prop
  | .create _ _ => False
  | .remove t id => ∃ c, t = some c ∧ sessionOf c = some id
  | .cleanup t _ => t = none
  | _ => True

section

variable {sessionOf : C → Option Id} {s s' : ThreadState (Option C)}
  {event : ThreadEvent (Option C)} {c : C} {id : Id}

omit [DecidableEq C] in
theorem Owns.init : Owns (fun _ : C => none) .init where
  issued h := by cases h
  owned h := by cases h
  apart h := by cases h
  creating creating := by rcases creating with h | h <;> cases h
  removing h := by cases h

omit [DecidableEq C] in
/-- A handler that is not creating its session has created it. -/
theorem Owns.created (owns : Owns sessionOf s) (own : sessionOf c = some id)
    (done : ∀ session, ¬ s.Creating (some c) session) : s.Created id := by
  refine ⟨owns.issued own, fun t session creating same => ?_⟩
  obtain ⟨c', rfl, own'⟩ := owns.creating creating
  rw [same] at own'
  rw [owns.apart own own'] at done
  exact done session creating

omit [DecidableEq C] in
theorem not_creating_of_idle {T : Type} {s : ThreadState T} {t : T} (idle : s.calls t = none)
    (session : Session) : ¬ s.Creating t session := by
  intro creating
  rcases creating with h | h
  · rw [idle] at h
    cases h
  · rw [idle] at h
    cases h

theorem Owns.create (owns : Owns sessionOf s) {session : Session} (free : sessionOf c = none)
    (fresh : session.id ∉ s.issued) (edge : ThreadStep s (.create (some c) session) s') :
    Owns (Function.update sessionOf c (some session.id)) s' := by
  have before : ∀ {d id}, Function.update sessionOf c (some session.id) d = some id →
      (d = c ∧ id = session.id) ∨ (d ≠ c ∧ sessionOf d = some id) := by
    intro d id h
    rw [Function.update_apply] at h
    split at h
    · exact Or.inl ⟨‹_›, (Option.some.inj h).symm⟩
    · exact Or.inr ⟨‹_›, h⟩
  have after : ∀ {d id}, sessionOf d = some id →
      Function.update sessionOf c (some session.id) d = some id := by
    intro d id own
    rw [Function.update_of_ne]
    · exact own
    · intro same
      rw [same, free] at own
      cases own
  cases edge with
  | create idle _ _ _ =>
      -- the other threads are where they were
      have calls : ∀ {t}, t ≠ some c →
          (s.act (some c) s.manager (some (.insert session))).calls t = s.calls t :=
        fun ne => Function.update_of_ne ne ..
      refine ⟨?_, ?_, ?_, ?_, ?_⟩
      · intro d id own
        rcases before own with ⟨-, rfl⟩ | ⟨-, own⟩
        · exact List.mem_cons_self ..
        · exact List.mem_cons_of_mem _ (owns.issued own)
      · intro id member
        rcases List.mem_cons.mp member with rfl | member
        · exact ⟨c, Function.update_self ..⟩
        · obtain ⟨d, own⟩ := owns.owned member
          exact ⟨d, after own⟩
      · intro d d' id own own'
        rcases before own with ⟨rfl, new⟩ | ⟨-, old⟩ <;>
          rcases before own' with ⟨rfl, new'⟩ | ⟨-, old'⟩
        · rfl
        · exact (fresh (owns.issued (new ▸ old'))).elim
        · exact (fresh (owns.issued (new' ▸ old))).elim
        · exact owns.apart old old'
      · intro t other creating
        by_cases mine : t = some c
        · subst mine
          refine ⟨c, rfl, ?_⟩
          rcases creating with h | h
          · rw [show other = session by cases (Function.update_self ..).symm.trans h; rfl]
            exact Function.update_self ..
          · cases (Function.update_self ..).symm.trans h
        · have old : s.Creating t other := by
            rw [ThreadState.Creating, ← calls mine]
            exact creating
          obtain ⟨d, rfl, own⟩ := owns.creating old
          exact ⟨d, rfl, after own⟩
      · intro d id call own at_call done
        rcases before own with ⟨rfl, rfl⟩ | ⟨ne, own⟩
        · exact (done session (Or.inl (Function.update_self ..))).elim
        · have elsewhere : some d ≠ some c := fun same => ne (Option.some.inj same)
          have same := calls elsewhere
          change id ∈ pendingOf ((s.act (some c) s.manager (some (.insert session))).calls
            (some d)) ∨ s.manager.sessions.lookup id = none
          rw [same]
          refine owns.removing own (same.symm.trans at_call) fun other creating => done other ?_
          rw [ThreadState.Creating, same]
          exact creating

/-- A step of any other call leaves every session with its handler. -/
theorem Owns.step (owns : Owns sessionOf s) (inv : IndexInv s.role s.manager s.issued s.dropped)
    (server : event.OfServer sessionOf) (edge : ThreadStep s event s') : Owns sessionOf s' := by
  have issued : s'.issued = s.issued := by
    cases edge with
    | create => exact server.elim
    | _ => rfl
  refine ⟨fun own => issued ▸ owns.issued own, fun member => owns.owned (issued ▸ member),
    owns.apart, ?_, ?_⟩
  · intro t session creating
    rcases edge.creating_of creating with before | ⟨fresh, -⟩
    · exact owns.creating before
    · have known := (edge.indexInv inv).creates_issued (t := t)
        (show _ = some session.id by
          rw [ThreadState.role]
          rcases creating with h | h <;> rw [h] <;> rfl)
      exact (fresh (issued ▸ known)).elim
  · intro c id call own at_call done
    cases before : s.calls (some c) with
    | none =>
        rcases edge.started before at_call with ⟨_, rfl⟩ | ⟨other, rfl, rfl⟩ | ⟨_, rfl⟩
        · exact server.elim
        · obtain ⟨d, same, own'⟩ := server
          cases same
          rw [own] at own'
          cases own'
          left
          rw [ThreadState.pending, at_call]
          exact List.mem_singleton_self _
        · cases server
    | some earlier =>
        have finished : ∀ session, ¬ s.Creating (some c) session := by
          intro session creating
          rcases edge.creating_kept creating with still | returned
          · exact done session still
          · rw [at_call] at returned
            cases returned
        rcases owns.removing own before finished with pending | missing
        · exact edge.pending_kept pending
        · exact Or.inr (ThreadState.Removed.step ⟨owns.created own finished, missing⟩ edge).2

end

/-! ## What the server does to the sessions -/

/-- No id is drawn twice. -/
def ThreadedEvent.Fresh (s : ThreadedServer C) : ThreadedEvent C → Prop
  | .accept _ _ sessionId => sessionId ∉ s.sessions.issued
  | _ => True

def FreshStep (env : ServerEnv) (s : ThreadedServer C) (event : ThreadedEvent C)
    (s' : ThreadedServer C) : Prop :=
  ThreadedStep env s event s' ∧ event.Fresh s

/-- The step on the sessions that an event of the server is. -/
inductive ThreadedEvent.Performs (sessionOf : C → Option Id) :
    ThreadedEvent C → ThreadEvent (Option C) → Prop
  | accept {c : C} {addr : String} (session : Session) :
    Performs sessionOf (.accept c addr session.id) (.create (some c) session)
  | touch {c : C} {hit : Bool} (id : Id) :
    Performs sessionOf (.client c (.touch hit)) (.touch (some c) id)
  | remove {c : C} {id : Id} :
    sessionOf c = some id → Performs sessionOf (.remove c) (.remove (some c) id)
  | session {c : C} {event : ThreadEvent (Option C)} :
    event.Continues → event.thread = some (some c) →
    Performs sessionOf (.session c event) event
  | removed {c : C} : Performs sessionOf (.removed c) (.finish (some c))
  | tick : Performs sessionOf .tick (.cleanup none sessionTimeout)
  | cleanup {event : ThreadEvent (Option C)} :
    event.Continues → event.thread = some none → Performs sessionOf (.cleanup event) event
  | advance (elapsed : Duration) : Performs sessionOf (.advance elapsed) (.advance elapsed)

section

variable {env : ServerEnv} {s s' : ThreadedServer C} {event : ThreadedEvent C}
  {events : List (ThreadedEvent C)} {c : C} {conn conn' : Connection}

theorem SharedStep.threadStep {T : Type} [DecidableEq T] {s s' : ThreadState T}
    {event : ThreadEvent T} (edge : SharedStep s event s')
    (fresh : ∀ t session, event = .create t session → session.id ∉ s.issued) :
    ThreadStep s event s' := by
  cases edge with
  | step edge => exact edge
  | create idle past active => exact .create idle (fresh _ _ rfl) past active

theorem ThreadEvent.Continues.ne_create {T : Type} {event : ThreadEvent T}
    (continues : event.Continues) (t : T) (session : Session) : event ≠ .create t session := by
  intro same
  subst same
  exact continues

omit [DecidableEq C] in
theorem ThreadedServer.sessionOf_of_found (found : s.connections c = some conn) :
    s.sessionOf c = some conn.sessionId := by
  rw [sessionOf, found]
  rfl

theorem FreshStep.performs (edge : FreshStep env s event s') :
    s'.sessions = s.sessions ∨
      ∃ e, ThreadStep s.sessions e s'.sessions ∧ event.Performs s.sessionOf e := by
  obtain ⟨edge, fresh⟩ := edge
  cases edge with
  | @accept c addr randomBytes session sessions free length created edge =>
      refine Or.inr ⟨_, edge.threadStep fun t other same => ?_, .accept session⟩
      cases same
      exact fresh
  | client => exact Or.inl rfl
  | touch _ _ edge => exact Or.inr ⟨_, edge.threadStep nofun, .touch _⟩
  | remove found _ edge =>
      exact Or.inr ⟨_, edge.threadStep nofun, .remove (ThreadedServer.sessionOf_of_found found)⟩
  | session own continues _ edge =>
      exact Or.inr ⟨_, edge.threadStep fun t session same =>
        (continues.ne_create t session same).elim, .session continues own⟩
  | removed _ _ edge => exact Or.inr ⟨_, edge.threadStep nofun, .removed⟩
  | tick _ edge => exact Or.inr ⟨_, edge.threadStep nofun, .tick⟩
  | cleanup own continues edge =>
      exact Or.inr ⟨_, edge.threadStep fun t session same =>
        (continues.ne_create t session same).elim, .cleanup continues own⟩
  | advance elapsed edge => exact Or.inr ⟨_, edge.threadStep nofun, .advance elapsed⟩

theorem run_sessions (run : Run (FreshStep env) s events s') :
    ∃ more, Run ThreadStep s.sessions more s'.sessions := by
  induction run with
  | nil => exact ⟨[], .nil⟩
  | snoc _ last ih =>
      obtain ⟨more, run⟩ := ih
      rcases last.performs with same | ⟨e, edge, -⟩
      · exact ⟨more, same ▸ run⟩
      · exact ⟨_, run.snoc edge⟩

theorem run_sessions_inv (run : Run (FreshStep env) .init events s) :
    IndexInv s.sessions.role s.sessions.manager s.sessions.issued s.sessions.dropped := by
  obtain ⟨more, run⟩ := run_sessions run
  exact run_indexInv run

/-! ## What a step does to a connection -/

theorem ThreadedServer.put_self : (s.put c conn).connections c = some conn :=
  Function.update_self ..

theorem ThreadedServer.put_cases {d : C} (found : (s.put c conn').connections d = some conn) :
    (d = c ∧ conn = conn') ∨ (d ≠ c ∧ s.connections d = some conn) := by
  simp only [ThreadedServer.put, Function.update_apply] at found
  split at found
  · exact Or.inl ⟨‹_›, (Option.some.inj found).symm⟩
  · exact Or.inr ⟨‹_›, found⟩

/-- Between its calls on the session manager a handler moves on within its loop, or leaves it. -/
theorem ClientStep.stage_cases {now : Instant} {state state' : ServerState} {action : ClientAction}
    (edge : ClientStep env now state conn action state' conn') (notSessions : ¬ action.OnSessions) :
    conn'.sessionId = conn.sessionId ∧ (conn'.stage = conn.stage ∨
      (action.byHandler = true ∧ conn.stage.InLoop ∧ conn'.stage ≠ .returned (.ok ()))) := by
  cases edge with
  | send | hangUp | receive => exact ⟨rfl, Or.inl rfl⟩
  | touch | remove => exact (notSessions trivial).elim
  | reply stage _ =>
      refine ⟨rfl, Or.inr ⟨rfl, stage ▸ trivial, ?_⟩⟩
      dsimp only
      split <;> simp
  | read stage | readMalformed _ stage | endOfStream stage | codecError stage | scan _ stage
  | list _ stage | exec _ stage | reject stage | sendErrorReply stage | sendErrorReject stage =>
      exact ⟨rfl, Or.inr ⟨rfl, stage ▸ trivial, by simp⟩⟩

/-- A connection is new, or keeps its session and its stage, unless its handler moves on between
two calls or has its session removed. -/
theorem ThreadedStep.connection_cases (edge : ThreadedStep env s event s')
    (found : s'.connections c = some conn') :
    (∃ addr id, event = .accept c addr id ∧ s.connections c = none ∧
        conn' = .accepted addr id) ∨
      ∃ conn, s.connections c = some conn ∧ conn'.sessionId = conn.sessionId ∧
        (conn'.stage = conn.stage ∨
          (s.sessions.calls (some c) = none ∧ conn.stage.InLoop ∧
            conn'.stage ≠ .returned (.ok ())) ∨
          (s.sessions.calls (some c) = some (.remove []) ∧ conn.stage = .closing ∧
            s'.sessions.calls (some c) = none ∧ conn'.stage = .returned (.ok ()))) := by
  cases edge with
  | accept free =>
      rcases ThreadedServer.put_cases found with ⟨rfl, rfl⟩ | ⟨-, old⟩
      · exact Or.inl ⟨_, _, rfl, free, rfl⟩
      · exact Or.inr ⟨_, old, rfl, Or.inl rfl⟩
  | client here notSessions idle edge =>
      rcases ThreadedServer.put_cases found with ⟨rfl, rfl⟩ | ⟨-, old⟩
      · obtain ⟨own, still | ⟨byHandler, inLoop, running⟩⟩ := edge.stage_cases notSessions
        · exact Or.inr ⟨_, here, own, Or.inl still⟩
        · exact Or.inr ⟨_, here, own, Or.inr (Or.inl ⟨idle byHandler, inLoop, running⟩)⟩
      · exact Or.inr ⟨_, old, rfl, Or.inl rfl⟩
  | touch here stage edge =>
      rcases ThreadedServer.put_cases found with ⟨rfl, rfl⟩ | ⟨-, old⟩
      · cases edge.threadStep nofun with
        | touch _ idle =>
            exact Or.inr ⟨_, here, rfl, Or.inr (Or.inl ⟨idle, stage ▸ trivial, by simp⟩)⟩
      · exact Or.inr ⟨_, old, rfl, Or.inl rfl⟩
  | removed here stage edge =>
      rcases ThreadedServer.put_cases found with ⟨rfl, rfl⟩ | ⟨-, old⟩
      · cases edge.threadStep nofun with
        | finish removing =>
            exact Or.inr ⟨_, here, rfl,
              Or.inr (Or.inr ⟨removing, stage, Function.update_self .., rfl⟩)⟩
      · exact Or.inr ⟨_, old, rfl, Or.inl rfl⟩
  | _ => exact Or.inr ⟨_, found, rfl, Or.inl rfl⟩

theorem ThreadedStep.connection_kept (edge : ThreadedStep env s event s')
    (found : s.connections c = some conn) : ∃ conn', s'.connections c = some conn' := by
  have kept : ∀ {d : C} {later : Connection},
      ∃ conn', Function.update s.connections d (some later) c = some conn' := by
    intro d later
    rw [Function.update_apply]
    split
    · exact ⟨_, rfl⟩
    · exact ⟨_, found⟩
  cases edge with
  | accept | client | touch | removed => exact kept
  | _ => exact ⟨_, found⟩

theorem ThreadedServer.sessionOf_put (s : ThreadedServer C) (c : C) (conn : Connection) :
    (s.put c conn).sessionOf = Function.update s.sessionOf c (some conn.sessionId) := by
  funext d
  simp only [sessionOf, put, Function.update_apply]
  split <;> rfl

theorem ThreadedServer.sessionOf_put_same (found : s.connections c = some conn)
    (same : conn'.sessionId = conn.sessionId) : (s.put c conn').sessionOf = s.sessionOf := by
  rw [sessionOf_put, same, Function.update_eq_iff]
  exact ⟨(sessionOf_of_found found).symm, fun _ _ => rfl⟩

/-- Only a new connection gets a session. -/
theorem ThreadedStep.sessionOf_eq (edge : ThreadedStep env s event s')
    (notAccept : ∀ c addr id, event ≠ .accept c addr id) : s'.sessionOf = s.sessionOf := by
  cases edge with
  | accept => exact (notAccept _ _ _ rfl).elim
  | client found notSessions _ edge =>
      exact ThreadedServer.sessionOf_put_same found (edge.stage_cases notSessions).1
  | touch found => exact ThreadedServer.sessionOf_put_same found rfl
  | removed found => exact ThreadedServer.sessionOf_put_same found rfl
  | _ => rfl

/-! ## Each handler has its own session -/

/-- The handlers use the session manager as they should, and those that have returned without an
error have removed their session. -/
structure Serving (s : ThreadedServer C) : Prop where
  owns : Owns s.sessionOf s.sessions
  returned : ∀ {c conn}, s.connections c = some conn → conn.stage = .returned (.ok ()) →
    s.sessions.Removed conn.sessionId

omit [DecidableEq C] in
/-- The calls the server makes, apart from creations. -/
theorem ThreadedEvent.Performs.ofServer {sessionOf : C → Option Id} {e : ThreadEvent (Option C)}
    (performs : event.Performs sessionOf e) (notAccept : ∀ c addr id, event ≠ .accept c addr id) :
    e.OfServer sessionOf := by
  cases performs with
  | accept => exact (notAccept _ _ _ rfl).elim
  | remove own => exact ⟨_, rfl, own⟩
  | tick => rfl
  | session continues | cleanup continues =>
      cases e with
      | create | remove | cleanup => exact continues.elim
      | _ => trivial
  | _ => trivial

theorem Serving.owns_step (run : Run (FreshStep env) .init events s) (serving : Serving s)
    (edge : FreshStep env s event s') : Owns s'.sessionOf s'.sessions := by
  have performs := edge.performs
  obtain ⟨edge, fresh⟩ := edge
  by_cases accepts : ∃ c addr id, event = .accept c addr id
  · obtain ⟨c, addr, id, rfl⟩ := accepts
    cases edge with
    | accept free length created edge =>
        rw [ThreadedServer.sessionOf_put]
        refine serving.owns.create ?_ fresh (edge.threadStep ?_)
        · rw [ThreadedServer.sessionOf, free]
          rfl
        · intro t other same
          cases same
          exact fresh
  · have notAccept : ∀ c addr id, event ≠ .accept c addr id :=
      fun c addr id same => accepts ⟨c, addr, id, same⟩
    rw [edge.sessionOf_eq notAccept]
    rcases performs with same | ⟨e, edge, performs⟩
    · exact same ▸ serving.owns
    · exact serving.owns.step (run_sessions_inv run) (performs.ofServer notAccept) edge

omit [DecidableEq C] in
/-- A handler that is about to return has removed its session. -/
theorem Serving.removed (serving : Serving s) (found : s.connections c = some conn)
    (removing : s.sessions.calls (some c) = some (.remove [])) :
    s.sessions.Removed conn.sessionId := by
  have own := ThreadedServer.sessionOf_of_found found
  have done : ∀ session, ¬ s.sessions.Creating (some c) session := by
    intro session creating
    rcases creating with h | h <;> rw [removing] at h <;> cases h
  refine ⟨serving.owns.created own done, ?_⟩
  rcases serving.owns.removing own removing done with pending | missing
  · rw [ThreadState.pending, removing] at pending
    cases pending
  · exact missing

theorem FreshStep.removed_mono {id : Id} (edge : FreshStep env s event s')
    (removed : s.sessions.Removed id) : s'.sessions.Removed id := by
  rcases edge.performs with same | ⟨e, edge, -⟩
  · exact same ▸ removed
  · exact removed.step edge

theorem run_serving (run : Run (FreshStep env) .init events s) : Serving s := by
  refine run.invariant (P := fun _ s => Serving s) ⟨.init, fun found => by cases found⟩ ?_
  intro events s event s' before serving edge
  refine ⟨serving.owns_step before edge, fun found finished => ?_⟩
  rcases edge.1.connection_cases found with
    ⟨addr, id, -, -, rfl⟩ | ⟨conn, old, own, same | ⟨-, -, running⟩ | ⟨removing, -⟩⟩
  · cases finished
  · exact own ▸ edge.removed_mono (serving.returned old (same.symm.trans finished))
  · exact (running finished).elim
  · exact own ▸ edge.removed_mono (serving.removed old removing)

end

/-! ## Runs on time -/

/-- No id is drawn twice, and no creation takes as long as the timeout of the clean-up. -/
def ThreadedEvent.OnTime (s : ThreadedServer C) : ThreadedEvent C → Prop
  | .accept _ _ sessionId => sessionId ∉ s.sessions.issued
  | .advance elapsed => ∀ t session, s.sessions.Creating t session →
      s.sessions.clock + elapsed < session.lastActivity + sessionTimeout
  | _ => True

def OnTimeStep (env : ServerEnv) (s : ThreadedServer C) (event : ThreadedEvent C)
    (s' : ThreadedServer C) : Prop :=
  ThreadedStep env s event s' ∧ event.OnTime s

section

variable {env : ServerEnv} {s s' : ThreadedServer C} {event : ThreadedEvent C}
  {events : List (ThreadedEvent C)}

theorem OnTimeStep.fresh (edge : OnTimeStep env s event s') : FreshStep env s event s' := by
  obtain ⟨edge, onTime⟩ := edge
  refine ⟨edge, ?_⟩
  cases event with
  | accept => exact onTime
  | _ => trivial

theorem OnTimeStep.run (run : Run (OnTimeStep env) .init events s) :
    Run (FreshStep env) .init events s :=
  run.mono fun edge => edge.fresh

/-- A server on time uses the session manager as `PromptStep` asks. -/
theorem Serving.prompt (serving : Serving s) (edge : OnTimeStep env s event s') :
    s'.sessions = s.sessions ∨ ∃ e, PromptStep sessionTimeout s.sessions e s'.sessions := by
  rcases edge.fresh.performs with same | ⟨e, step, performs⟩
  · exact Or.inl same
  · refine Or.inr ⟨e, step, ?_⟩
    cases performs with
    | remove own => exact serving.owns.created own (not_creating_of_idle step.idle_of_remove)
    | tick => exact le_refl sessionTimeout
    | advance elapsed => exact edge.2
    | session continues | cleanup continues =>
        cases e with
        | remove | cleanup | advance => exact continues.elim
        | _ => trivial
    | _ => trivial

theorem run_prompt (run : Run (OnTimeStep env) .init events s) :
    ∃ more, Run (PromptStep sessionTimeout) .init more s.sessions := by
  refine run.invariant
    (P := fun _ s => ∃ more, Run (PromptStep sessionTimeout) .init more s.sessions) ⟨[], .nil⟩ ?_
  intro events s event s' before prompt edge
  obtain ⟨more, prompt⟩ := prompt
  rcases (run_serving (OnTimeStep.run before)).prompt edge with same | ⟨e, step⟩
  · exact ⟨more, same ▸ prompt⟩
  · exact ⟨_, prompt.snoc step⟩

/-! ## Nothing outlives its handler -/

theorem run_stored (run : Run (FreshStep env) .init events s) {id : Id} {session : Session}
    (found : s.sessions.manager.sessions.lookup id = some session) :
    ∃ c conn, s.connections c = some conn ∧ conn.sessionId = id ∧
      conn.stage ≠ .returned (.ok ()) := by
  have serving := run_serving run
  obtain ⟨c, own⟩ := serving.owns.owned ((run_sessions_inv run).stored_issued found).2
  obtain ⟨conn, connected, rfl⟩ := Option.map_eq_some_iff.mp own
  refine ⟨c, conn, connected, rfl, fun finished => ?_⟩
  rw [(serving.returned connected finished).2] at found
  cases found

/-- **No session outlives its handler.**  In a run on time every stored session is that of a
handler that has not returned, or has failed to send; and when all handlers have returned and the
clean-up is waiting, the manager is as new. -/
theorem sessions_recovered (run : Run (OnTimeStep env) .init events s) :
    (∀ id session, s.sessions.manager.sessions.lookup id = some session →
      ∃ c conn, s.connections c = some conn ∧ conn.sessionId = id ∧
        conn.stage ≠ .returned (.ok ())) ∧
      (s.sessions.Quiescent →
        (∀ c conn, s.connections c = some conn → conn.stage = .returned (.ok ())) →
        s.sessions.manager = .new) := by
  have stored := OnTimeStep.run run
  refine ⟨fun id session found => run_stored stored found, fun rest finished => ?_⟩
  obtain ⟨events, prompt⟩ := run_prompt run
  have unstored : ∀ id, s.sessions.manager.sessions.lookup id = none := by
    intro id
    cases found : s.sessions.manager.sessions.lookup id with
    | none => rfl
    | some session =>
        obtain ⟨c, conn, connected, -, serving⟩ := run_stored stored found
        exact (serving (finished c conn connected)).elim
  have unlisted : ∀ origin, s.sessions.manager.originToSessions.lookup origin = none := by
    intro origin
    cases entry : s.sessions.manager.originToSessions.lookup origin with
    | none => rfl
    | some ids =>
        cases ids with
        | nil =>
            obtain ⟨t, ids, dropping⟩ := run_emptiesDropped (PromptStep.run prompt) origin entry
            rw [rest t] at dropping
            cases dropping
        | cons id ids =>
            have listed : id ∈ s.sessions.manager.idsOf origin := by
              rw [SessionManager.idsOf, entry]
              exact List.mem_cons_self ..
            rcases run_covered prompt (by decide) origin id listed with stored | ⟨t, ids, filters⟩
            · obtain ⟨session, found⟩ := DashMap.exists_lookup stored
              rw [unstored id] at found
              cases found
            · rw [rest t] at filters
              cases filters
  have sessions := DashMap.eq_empty unstored
  have origins := DashMap.eq_empty unlisted
  cases manager : s.sessions.manager
  rw [manager] at sessions origins
  subst sessions origins
  rfl

/-- A client comes and goes. -/
theorem sessions_recovered_one :
    ∃ s : ThreadedServer Unit, s.sessions.issued = [17] ∧ s.sessions.manager = .new := by
  have run := @Run.nil _ _ (OnTimeStep (C := Unit) (.proto3 .byLength)) .init
    |>.snoc ⟨@ThreadedStep.accept _ _ _ _ () "a" (List.replicate 16 0) _ _ rfl rfl rfl
      (.create rfl le_rfl rfl), List.not_mem_nil⟩
    |>.snoc ⟨@ThreadedStep.session _ _ _ _ () (.insert (some ())) _ rfl trivial nofun
      (.step (.insert rfl)), trivial⟩
    |>.snoc ⟨@ThreadedStep.session _ _ _ _ () (.push (some ())) _ rfl trivial nofun
      (.step (.push rfl)), trivial⟩
    |>.snoc ⟨.client (c := ()) rfl id (fun own => by cases own) .hangUp, trivial⟩
    |>.snoc ⟨.client (c := ()) rfl id (fun _ => rfl) (.endOfStream rfl rfl rfl), trivial⟩
    |>.snoc ⟨.remove (c := ()) rfl rfl (.step (.remove _ rfl)), trivial⟩
    |>.snoc ⟨@ThreadedStep.session _ _ _ _ () (.take (some ())) _ rfl trivial nofun
      (.step (.take rfl rfl)), trivial⟩
    |>.snoc ⟨@ThreadedStep.session _ _ _ _ () (.retain (some ())) _ rfl trivial nofun
      (.step (.retainEmpty rfl (by decide))), trivial⟩
    |>.snoc ⟨@ThreadedStep.session _ _ _ _ () (.dropOrigin (some ()) "a") _ rfl trivial nofun
      (.step (.dropOrigin rfl)), trivial⟩
    |>.snoc ⟨.removed (c := ()) rfl rfl (.step (.finish rfl)), trivial⟩
  refine ⟨_, rfl, (sessions_recovered run).2 (fun t => ?_) fun c conn found => ?_⟩
  · cases t <;> rfl
  · cases found
    rfl

end

end Bonka
