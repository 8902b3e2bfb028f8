import Bonka.Lib.Simulation
import Bonka.ServerRun

/-!
# What clients see of sessions

Nothing: `handle_client` drops the result of `touch_session`, and no command looks at a session.
A server with any sessions can follow any run of another with the same connections and the same
store, up to what `touch_session` returns, and it needs no clean-up for that
(`sessions_invisible`).  So no client is ever disconnected or answered differently because its
session has expired, was evicted or shares its id with another.
-/

namespace Bonka

open Transition

variable {C : Type} [DecidableEq C] {env : ServerEnv} {s s' t : Server C}

/-- What happens apart from the sessions: nothing in a step of the clean-up, and in
`touch_session` not whether it finds the session. -/
def ServerEvent.outside : ServerEvent C → Option (ServerEvent C)
  | .client c (.touch _) => some (.client c (.touch true))
  | .cleanup _ => none
  | event => some event

def ServerEvent.IsCleanup : ServerEvent C → Prop
  | .cleanup _ => True
  | _ => False

/-- Two servers that differ in their sessions and their clean-up only. -/
structure Server.AgreesWith (s t : Server C) : Prop where
  clock : s.clock = t.clock
  connections : s.connections = t.connections
  kvStore : s.state.kvStore = t.state.kvStore

theorem Server.AgreesWith.put (agrees : s.AgreesWith t) (c : C) (conn : Connection)
    {state state' : ServerState} (kvStore : state.kvStore = state'.kvStore) :
    (s.put c state conn).AgreesWith (t.put c state' conn) where
  clock := agrees.clock
  connections := by
    unfold Server.put
    rw [agrees.connections]
  kvStore := kvStore

omit [DecidableEq C] in
/-- A step of a connection is possible with other sessions, and changes the connection and the
store in the same way. -/
theorem ClientStep.follow {now : Instant} {state state' other : ServerState}
    {conn conn' : Connection} {action : ClientAction}
    (edge : ClientStep env now state conn action state' conn')
    (kvStore : state.kvStore = other.kvStore) (c : C) :
    ∃ action' other', ClientStep env now other conn action' other' conn' ∧
      (ServerEvent.client c action').outside = (ServerEvent.client c action).outside ∧
      state'.kvStore = other'.kvStore := by
  cases edge with
  | send frame opened => exact ⟨_, _, .send frame opened, rfl, kvStore⟩
  | hangUp => exact ⟨_, _, .hangUp, rfl, kvStore⟩
  | receive here => exact ⟨_, _, .receive here, rfl, kvStore⟩
  | read stage found short decoded => exact ⟨_, _, .read stage found short decoded, rfl, kvStore⟩
  | readMalformed timestamp stage found short decoded =>
      exact ⟨_, _, .readMalformed timestamp stage found short decoded, rfl, kvStore⟩
  | endOfStream stage ended taken => exact ⟨_, _, .endOfStream stage ended taken, rfl, kvStore⟩
  | codecError stage => exact ⟨_, _, .codecError stage, rfl, kvStore⟩
  | touch stage => exact ⟨_, _, .touch stage, rfl, kvStore⟩
  | scan found stage isList more keys =>
      exact ⟨_, _, .scan found stage isList more (kvStore ▸ keys), rfl, kvStore⟩
  | list timestamp stage isList done =>
      exact ⟨_, _, .list timestamp stage isList done, rfl, kvStore⟩
  | exec timestamp stage other =>
      rw [kvStore]
      exact ⟨_, _, .exec timestamp stage other, rfl, rfl⟩
  | reply stage sent => exact ⟨_, _, .reply stage sent, rfl, kvStore⟩
  | reject stage sent => exact ⟨_, _, .reject stage sent, rfl, kvStore⟩
  | sendErrorReply stage => exact ⟨_, _, .sendErrorReply stage, rfl, kvStore⟩
  | sendErrorReject stage => exact ⟨_, _, .sendErrorReject stage, rfl, kvStore⟩
  | remove stage => exact ⟨_, _, .remove stage, rfl, kvStore⟩

/-- A server without a clean-up follows any server with the same connections and store. -/
theorem simulates_without_cleanup :
    Simulation (ServerStep env) ServerEvent.outside
      (fun s (event : ServerEvent C) t => ServerStep env s event t ∧ ¬ event.IsCleanup)
      ServerEvent.outside Server.AgreesWith := by
  refine .of_step ?_ ?_
  · intro s event s' t edge agrees unseen
    cases edge with
    | cleanup _ => exact ⟨agrees.clock, agrees.connections, agrees.kvStore⟩
    | @client c _ _ action =>
        cases action <;> cases unseen
    | accept | advance => cases unseen
  · intro s event s' t seen edge agrees look
    cases edge with
    | @accept c addr randomBytes manager session fresh length created =>
        rw [agrees.connections] at fresh
        -- the new session does not depend on the others
        have created' : t.state.sessionManager.createSession env.ids addr randomBytes t.clock
            t.clock = ((t.state.sessionManager.createSession env.ids addr randomBytes t.clock
              t.clock).1, session) := by
          have own := congrArg Prod.snd created
          rw [agrees.clock] at own
          exact Prod.ext rfl own
        exact ⟨_, _, ⟨.accept fresh length created', id⟩, look, agrees.put c _ agrees.kvStore⟩
    | @client c conn conn' action state' found edge =>
        rw [agrees.connections] at found
        obtain ⟨action', other', edge', same, kept⟩ := edge.follow agrees.kvStore c
        rw [agrees.clock] at edge'
        exact ⟨_, _, ⟨.client found edge', id⟩, same.trans look, agrees.put c conn' kept⟩
    | cleanup _ => cases look
    | advance elapsed =>
        refine ⟨_, _, ⟨.advance elapsed, id⟩, look, ?_, agrees.connections, agrees.kvStore⟩
        dsimp only
        rw [agrees.clock]

/-- **Sessions are invisible to clients.**  Whatever sessions a server starts with and whatever its
clean-up does in a run, any server with the same connections and the same store can take the same
steps without a clean-up: the same frames are read and the same responses sent, and the connections
and the store come out the same. -/
theorem sessions_invisible {events : List (ServerEvent C)} (agrees : s.AgreesWith t)
    (run : Run (ServerStep env) s events s') :
    ∃ events' t', Run (ServerStep env) t events' t' ∧ (∀ event ∈ events', ¬ event.IsCleanup) ∧
      events'.filterMap ServerEvent.outside = events.filterMap ServerEvent.outside ∧
      s'.AgreesWith t' := by
  obtain ⟨events', t', followed, same, agrees'⟩ := simulates_without_cleanup.run run agrees
  obtain ⟨whole, none⟩ := followed.of_restricted
  exact ⟨events', t', whole, none, same, agrees'⟩

/-- A client whose session was evicted reads a key like one whose session is there. -/
theorem sessions_invisible_evicted :
    ∃ (events events' : List (ServerEvent Unit)) (s t : Server Unit),
      Run (ServerStep (.proto3 .byLength)) .init events s ∧
        .cleanup (.evict 17) ∈ events ∧ .client () (.touch false) ∈ events ∧
        Run (ServerStep (.proto3 .byLength)) .init events' t ∧
        (∀ event ∈ events', ¬ event.IsCleanup) ∧ s.AgreesWith t := by
  have run := @Run.nil _ _ (ServerStep (C := Unit) (.proto3 .byLength)) .init
    |>.snoc (@ServerStep.accept _ _ _ _ () "a" (List.replicate 16 0) _ _ rfl rfl rfl)
    |>.snoc (.advance sessionTimeout)
    |>.snoc (.cleanup (.tick (by decide)))
    |>.snoc (.cleanup
      (@CleanupStep.testExpired _ _ _ _ _ _ _ 17 _ rfl List.not_mem_nil (by decide)))
    |>.snoc (.cleanup (.collected fun _ member => .inl member))
    |>.snoc (show ServerStep _ _ (.cleanup (.evict 17)) _ from .cleanup .evict)
    |>.snoc (.client (c := ()) rfl (.send [24, 1, 34, 1, 97] rfl))
    |>.snoc (.client (c := ()) Server.put_self
      (@ClientStep.read _ _ _ _ _ { commandType := 1, key := some "a" }
        rfl rfl (by decide) (by decide)))
    |>.snoc (show ServerStep _ _ (.client () (.touch false)) _ from
      .client Server.put_self (.touch rfl))
    |>.snoc (.client (c := ()) Server.put_self (.exec 0 rfl (by decide)))
    |>.snoc (.client (c := ()) Server.put_self (.reply rfl rfl))
  obtain ⟨events', t, run', none, -, agrees⟩ := sessions_invisible ⟨rfl, rfl, rfl⟩ run
  exact ⟨_, events', _, t, run, by simp, by simp, run', none, agrees⟩

end Bonka
