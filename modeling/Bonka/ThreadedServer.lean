import Bonka.ConnectionProgress
import Bonka.SessionErasure
import Bonka.SessionEviction

/-!
# The server with its session calls under way

In `ServerStep` a connection creates and removes its session in one step.  Here the handlers and
the clean-up are threads that share the `SessionManager`, and every access to its maps is a step
of its own: thread `some c` is `handle_client` of connection `c`, and thread `none` is
`run_session_cleanup`.

To its clients that makes no difference (`threaded_run_atomic`): what they send and receive, and
what happens to the store, is the same in some run of `ServerStep`.
-/

namespace Bonka

open Transition

variable {C : Type} [DecidableEq C]

/-- The sessions with the calls in progress on them, the store, every connection so far and the
next tick of the clean-up. -/
structure ThreadedServer (C : Type) where
  sessions : ThreadState (Option C)
  kvStore : KeyValueStore
  connections : C → Option Connection
  nextTick : Instant

inductive ThreadedEvent (C : Type)
  /-- `handle_client` starts, and `create_session` with it. -/
  | accept (c : C) (addr : String) (sessionId : Id)
  | client (c : C) (action : ClientAction)
  /-- `handle_client` calls `remove_session`. -/
  | remove (c : C)
  /-- A step within `create_session` or `remove_session` of a handler. -/
  | session (c : C) (event : ThreadEvent (Option C))
  /-- `remove_session` returns, and `handle_client` after it. -/
  | removed (c : C)
  /-- The clean-up starts another pass. -/
  | tick
  | cleanup (event : ThreadEvent (Option C))
  | advance (elapsed : Duration)

/-- A step of a call that is under way. -/
def ThreadEvent.Continues {T : Type} : ThreadEvent T → Prop
  | .create _ _ | .remove _ _ | .cleanup _ _ | .touch _ _ | .advance _ => False
  | _ => True

/-- A call on the session manager. -/
def ClientAction.OnSessions : ClientAction → Prop
  | .touch _ | .remove => True
  | _ => False

namespace ThreadedServer

def init : ThreadedServer C where
  sessions := .init
  kvStore := .new
  connections _ := none
  nextTick := cleanupPeriod

/-- Connection `c` becomes `conn`. -/
def put (s : ThreadedServer C) (c : C) (conn : Connection) : ThreadedServer C :=
  { s with connections := Function.update s.connections c (some conn) }

/-- The state that a step between two calls sees. -/
def state (s : ThreadedServer C) : ServerState where
  sessionManager := s.sessions.manager
  kvStore := s.kvStore

end ThreadedServer

/-- One step of the server.  A handler takes the steps of `ClientStep` between its calls on the
session manager; its client does not wait for those. -/
inductive ThreadedStep (env : ServerEnv) :
    ThreadedServer C → ThreadedEvent C → ThreadedServer C → Prop
  | accept {s : ThreadedServer C} {c : C} {addr : String} {randomBytes : Wire.Bytes}
    {session : Session} {sessions : ThreadState (Option C)} :
    s.connections c = none → randomBytes.length = 16 →
    Session.new env.ids addr (some randomBytes) s.sessions.clock s.sessions.clock = session →
    SharedStep s.sessions (.create (some c) session) sessions →
    ThreadedStep env s (.accept c addr session.id)
      ({ s with sessions }.put c (.accepted addr session.id))
  | client {s : ThreadedServer C} {c : C} {conn conn' : Connection} {action : ClientAction}
    {state : ServerState} :
    s.connections c = some conn → ¬ action.OnSessions →
    (action.byHandler = true → s.sessions.calls (some c) = none) →
    ClientStep env s.sessions.clock s.state conn action state conn' →
    ThreadedStep env s (.client c action) ({ s with kvStore := state.kvStore }.put c conn')
  | touch {s : ThreadedServer C} {c : C} {conn : Connection} {request : Proto.Request}
    {sessions : ThreadState (Option C)} :
    s.connections c = some conn → conn.stage = .touching request →
    SharedStep s.sessions (.touch (some c) conn.sessionId) sessions →
    ThreadedStep env s
      (.client c (.touch (s.sessions.manager.touchSession conn.sessionId s.sessions.clock).2))
      ({ s with sessions }.put c { conn with stage := .processing request 0 [] })
  | remove {s : ThreadedServer C} {c : C} {conn : Connection}
    {sessions : ThreadState (Option C)} :
    s.connections c = some conn → conn.stage = .closing →
    SharedStep s.sessions (.remove (some c) conn.sessionId) sessions →
    ThreadedStep env s (.remove c) { s with sessions }
  | session {s : ThreadedServer C} {c : C} {event : ThreadEvent (Option C)}
    {sessions : ThreadState (Option C)} :
    event.thread = some (some c) → event.Continues → event ≠ .finish (some c) →
    SharedStep s.sessions event sessions →
    ThreadedStep env s (.session c event) { s with sessions }
  | removed {s : ThreadedServer C} {c : C} {conn : Connection}
    {sessions : ThreadState (Option C)} :
    s.connections c = some conn → conn.stage = .closing →
    SharedStep s.sessions (.finish (some c)) sessions →
    ThreadedStep env s (.removed c)
      ({ s with sessions }.put c { conn with stage := .returned (.ok ()) })
  | tick {s : ThreadedServer C} {sessions : ThreadState (Option C)} :
    s.nextTick ≤ s.sessions.clock →
    SharedStep s.sessions (.cleanup none sessionTimeout) sessions →
    ThreadedStep env s .tick { s with sessions, nextTick := s.nextTick + cleanupPeriod }
  | cleanup {s : ThreadedServer C} {event : ThreadEvent (Option C)}
    {sessions : ThreadState (Option C)} :
    event.thread = some none → event.Continues → SharedStep s.sessions event sessions →
    ThreadedStep env s (.cleanup event) { s with sessions }
  | advance {s : ThreadedServer C} {sessions : ThreadState (Option C)} (elapsed : Duration) :
    SharedStep s.sessions (.advance elapsed) sessions →
    ThreadedStep env s (.advance elapsed) { s with sessions }

/-! ## The same for clients as with whole calls -/

/-- What happens apart from the sessions, as an event of the server with whole calls. -/
def ThreadedEvent.outside : ThreadedEvent C → Option (ServerEvent C)
  | .accept c addr sessionId => some (.accept c addr sessionId)
  | .client c action => (ServerEvent.client c action).outside
  | .removed c => some (.client c .remove)
  | .advance elapsed => some (.advance elapsed)
  | _ => none

/-- The server with whole calls is where the other is for its clients. -/
structure ThreadedServer.Seen (s : ThreadedServer C) (t : Server C) : Prop where
  clock : s.sessions.clock = t.clock
  connections : s.connections = t.connections
  kvStore : s.kvStore = t.state.kvStore

variable {env : ServerEnv} {s s' : ThreadedServer C} {t : Server C}

theorem ThreadedServer.Seen.put (seen : s.Seen t) (c : C) (conn : Connection)
    {sessions : ThreadState (Option C)} {kvStore : KeyValueStore} {state : ServerState}
    (clock : sessions.clock = t.clock) (same : kvStore = state.kvStore) :
    ({ s with sessions, kvStore }.put c conn).Seen (t.put c state conn) where
  clock := clock
  connections := by
    unfold ThreadedServer.put Server.put
    rw [seen.connections]
  kvStore := same

/-- Only the clock moves the clock. -/
theorem SharedStep.clock_eq {T : Type} [DecidableEq T] {s s' : ThreadState T}
    {event : ThreadEvent T} (edge : SharedStep s event s')
    (still : ∀ elapsed, event ≠ .advance elapsed) : s'.clock = s.clock := by
  cases edge with
  | create => rfl
  | step edge =>
      cases edge with
      | advance elapsed => exact (still elapsed rfl).elim
      | _ => rfl

theorem ThreadEvent.Continues.ne_advance {T : Type} {event : ThreadEvent T}
    (continues : event.Continues) (elapsed : Duration) : event ≠ .advance elapsed := by
  intro same
  subst same
  exact continues

/-- The server with whole calls follows, creating a session when its creation starts and removing
it when its removal returns. -/
theorem simulates_threads :
    Simulation (ThreadedStep env) ThreadedEvent.outside (ServerStep env) ServerEvent.outside
      (ThreadedServer.Seen (C := C)) := by
  refine .of_step ?_ ?_
  · intro s event s' t edge seen unseen
    have silent : ∀ {event : ThreadEvent (Option C)} {sessions : ThreadState (Option C)},
        SharedStep s.sessions event sessions → (∀ elapsed, event ≠ .advance elapsed) →
          sessions.clock = t.clock := fun edge still => (edge.clock_eq still).trans seen.clock
    cases edge with
    | remove _ _ edge => exact ⟨silent edge nofun, seen.connections, seen.kvStore⟩
    | session _ continues _ edge =>
        exact ⟨silent edge continues.ne_advance, seen.connections, seen.kvStore⟩
    | tick _ edge => exact ⟨silent edge nofun, seen.connections, seen.kvStore⟩
    | cleanup _ continues edge =>
        exact ⟨silent edge continues.ne_advance, seen.connections, seen.kvStore⟩
    | @client c _ _ action => cases action <;> cases unseen
    | accept | touch | removed | advance => cases unseen
  · intro s event s' t look edge seen same
    cases edge with
    | @accept c addr randomBytes session sessions fresh length created edge =>
        rw [seen.connections] at fresh
        have created' : t.state.sessionManager.createSession env.ids addr randomBytes t.clock
            t.clock = ((t.state.sessionManager.createSession env.ids addr randomBytes t.clock
              t.clock).1, session) := by
          rw [seen.clock] at created
          exact Prod.ext rfl created
        exact ⟨_, _, .accept fresh length created', same,
          seen.put c _ ((edge.clock_eq nofun).trans seen.clock) seen.kvStore⟩
    | @client c conn conn' action state found _ _ edge =>
        rw [seen.connections] at found
        obtain ⟨action', other, edge', alike, kept⟩ := edge.follow seen.kvStore c
        rw [seen.clock] at edge'
        exact ⟨_, _, .client found edge', alike.trans same, seen.put c conn' seen.clock kept⟩
    | @touch c conn request sessions found stage edge =>
        rw [seen.connections] at found
        exact ⟨_, _, .client found (.touch stage), same,
          seen.put c _ ((edge.clock_eq nofun).trans seen.clock) seen.kvStore⟩
    | @removed c conn sessions found stage edge =>
        rw [seen.connections] at found
        exact ⟨_, _, .client found (.remove stage), same,
          seen.put c _ ((edge.clock_eq nofun).trans seen.clock) seen.kvStore⟩
    | @advance sessions elapsed edge =>
        refine ⟨_, _, .advance elapsed, same, ?_, seen.connections, seen.kvStore⟩
        cases edge with
        | step edge =>
            cases edge
            change s.sessions.clock + elapsed = t.clock + elapsed
            rw [seen.clock]
    | remove | session | tick | cleanup => cases same

/-- **The races of the session manager are invisible to clients.** -/
theorem threaded_run_atomic {events : List (ThreadedEvent C)}
    (run : Run (ThreadedStep env) .init events s) :
    ∃ events' t, Run (ServerStep env) .init events' t ∧
      events'.filterMap ServerEvent.outside = events.filterMap ThreadedEvent.outside ∧
      s.Seen t :=
  simulates_threads.run run ⟨rfl, rfl, rfl⟩

/-- A client sends its first frame before its handler has listed the session. -/
theorem threaded_run_atomic_early :
    ∃ (events : List (ServerEvent Unit)) (t : Server Unit),
      Run (ServerStep (.proto3 .byLength)) .init events t ∧
        events.filterMap ServerEvent.outside =
          [.accept () "a" 17, .client () (.send 0 [24, 1, 34, 1, 97]),
            .client () (.read 0 [24, 1, 34, 1, 97])] := by
  have run := @Run.nil _ _ (ThreadedStep (C := Unit) (.proto3 .byLength)) .init
    |>.snoc (@ThreadedStep.accept _ _ _ _ () "a" (List.replicate 16 0) _ _ rfl rfl rfl
      (.create rfl le_rfl rfl))
    |>.snoc (.client (c := ()) rfl id (fun own => by cases own) (.send [24, 1, 34, 1, 97] rfl))
    |>.snoc (@ThreadedStep.session _ _ _ _ () (.insert (some ())) _ rfl trivial nofun
      (.step (.insert rfl)))
    |>.snoc (@ThreadedStep.session _ _ _ _ () (.push (some ())) _ rfl trivial nofun
      (.step (.push rfl)))
    |>.snoc (.client (c := ()) rfl id (fun _ => rfl)
      (@ClientStep.read _ _ _ _ _ { commandType := 1, key := some "a" }
        rfl rfl (by decide) (by decide)))
  obtain ⟨events, t, run', same, -⟩ := threaded_run_atomic run
  exact ⟨events, t, run', same⟩

end Bonka
