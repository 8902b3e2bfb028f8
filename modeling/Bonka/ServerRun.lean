import Bonka.Lib.Run
import Bonka.ProtoWire
import Bonka.Server
import Bonka.Session
import Mathlib.Logic.Function.Basic

/-!
# Runs of the server (`src/server.rs`)

`run_connection_loop` spawns one `handle_client` per connection and `run_session_cleanup` runs
beside them, all on one `ServerState`.  A run interleaves their steps with those of the clients
and of the clock: `ClientStep` is one step of one connection, `CleanupStep` one step of the
clean-up, and `ServerStep` picks whose turn it is.

Each call on the session manager and each `get`, `insert` or `remove` on the store is one step;
`LIST` goes over the shards of the store one step at a time.  A client may send ahead of the
responses it has read.  The connection limit and the retries of `accept` are left out, so the
runs include those with any number of connections.
-/

namespace Bonka

open Proto

/-- `LengthDelimitedCodec::new()` refuses longer frames, in both directions. -/
def maxFrameLength : ℕ := 8 * 1024 * 1024

/-- `Duration::from_secs(60)` in `run_session_cleanup`. -/
def cleanupPeriod : Duration := .fromSecs 60

/-- `Duration::from_secs(1800)` in `run_session_cleanup`. -/
def sessionTimeout : Duration := .fromSecs 1800

/-- What the server takes from other crates: the protobuf codec, the source of session ids and
the shards a map spreads its keys over. -/
structure ServerEnv where
  decodeRequest : Bytes → Option Request
  encodeResponse : Response → Bytes
  ids : IdSource
  shards : ℕ
  shardOf : String → ℕ
  shardOf_lt : ∀ key, shardOf key < shards

/-- Ids for runs on fixed inputs: the length of what is hashed. -/
def IdSource.byLength : IdSource where
  digest bytes := UInt64.ofNat bytes.length
  appSecret := []

/-- The server on the proto3 wire format, with a store of one shard. -/
def ServerEnv.proto3 (ids : IdSource) : ServerEnv where
  decodeRequest := Request.decode
  encodeResponse := Response.encode
  ids := ids
  shards := 1
  shardOf _ := 0
  shardOf_lt _ := Nat.one_pos

structure ServerState where
  sessionManager : SessionManager
  kvStore : KeyValueStore

def initServerState : ServerState where
  sessionManager := .new
  kvStore := .new

/-- The failure that ends `handle_client` once it has its session. -/
inductive ServerError
  | sendResponse
deriving DecidableEq, Repr

/-- A frame as the codec writes it: the length of the payload, big-endian, and the payload. -/
def frameBytes (payload : Bytes) : Bytes := Wire.beBytes 4 payload.length ++ payload

@[simp] theorem length_frameBytes (payload : Bytes) :
    (frameBytes payload).length = payload.length + 4 := by
  rw [frameBytes, List.length_append, Wire.length_beBytes, Nat.add_comm]

/-- A stream starts with at most one frame. -/
theorem frameBytes_append_inj {payload payload' rest rest' : Bytes}
    (short : payload.length < 2 ^ 32) (short' : payload'.length < 2 ^ 32)
    (same : frameBytes payload ++ rest = frameBytes payload' ++ rest') :
    payload = payload' ∧ rest = rest' := by
  simp only [frameBytes, List.append_assoc] at same
  obtain ⟨lengths, rests⟩ := List.append_inj same (by simp only [Wire.length_beBytes])
  have length : payload.length = payload'.length := by
    have fits : payload.length < 256 ^ 4 := short
    rw [← Wire.ofBeBytes_beBytes fits, lengths, Wire.ofBeBytes_beBytes (by omega)]
  exact List.append_inj rests length

/-- The bytes that `send_response` hands to the socket; the codec refuses a response over its
limit. -/
def sendResponse (env : ServerEnv) (response : Response) : Except ServerError Bytes :=
  if (env.encodeResponse response).length ≤ maxFrameLength then
    .ok (frameBytes (env.encodeResponse response))
  else .error .sendResponse

/-- Where `handle_client` is, after `create_session`. -/
inductive HandlerStage
  /-- At `framed.next()`. -/
  | reading
  /-- Before `touch_session`. -/
  | touching (request : Request)
  /-- In `process_command`; a `LIST` has gone over `shards` shards and found `keys`. -/
  | processing (request : Request) (shards : ℕ) (keys : List String)
  /-- Before `send_response` of the response to `request`. -/
  | replying (request : Request) (response : Response)
  /-- Before `send_response` of the reply to a frame that does not decode. -/
  | rejecting (response : Response)
  /-- After the loop, before `remove_session`. -/
  | closing
  | returned (result : Except ServerError Unit)

/-- In the message loop. -/
def HandlerStage.InLoop : HandlerStage → Prop
  | .closing | .returned _ => False
  | _ => True

/-- Past the message loop, which was left without an error. -/
def HandlerStage.PastLoop : HandlerStage → Prop
  | .closing | .returned (.ok _) => True
  | _ => False

/-- A response on its way back; `request` only records what it answers (`none` for a frame that
does not decode). -/
structure Reply where
  request : Option Request
  response : Response

/-- One connection: `handle_client` and its client.  `frames` are all the frames the client has
sent, `taken` of them read; `replies` are all the responses sent back, `received` of them
received. -/
structure Connection where
  addr : String
  sessionId : Id
  stage : HandlerStage
  frames : List Bytes
  taken : ℕ
  ended : Bool
  replies : List Reply
  received : ℕ

/-- A connection whose `handle_client` has just called `create_session`. -/
def Connection.accepted (addr : String) (sessionId : Id) : Connection where
  addr := addr
  sessionId := sessionId
  stage := .reading
  frames := []
  taken := 0
  ended := false
  replies := []
  received := 0

/-- A step of one connection.  Frames, and the responses to them, are counted from zero. -/
inductive ClientAction
  | send (n : ℕ) (frame : Bytes)
  | hangUp
  | receive (n : ℕ) (reply : Reply)
  | read (n : ℕ) (frame : Bytes)
  | endOfStream
  | codecError
  | touch (hit : Bool)
  | scan (shard : ℕ)
  | exec (n : ℕ) (request : Request) (response : Response)
  | reply (n : ℕ) (response : Response)
  | reject (n : ℕ) (response : Response)
  | sendError
  | remove

/-- A step that `handle_client` takes by itself when reading does not fail. -/
def ClientAction.OfHandler : ClientAction → Prop
  | .send _ _ | .hangUp | .receive _ _ | .codecError => False
  | _ => True

/-- One step of a connection on the shared state, at clock reading `now`. -/
inductive ClientStep (env : ServerEnv) (now : Instant) :
    ServerState → Connection → ClientAction → ServerState → Connection → Prop
  | send {state : ServerState} {conn : Connection} (frame : Bytes) :
    conn.ended = false →
    ClientStep env now state conn (.send conn.frames.length frame) state
      { conn with frames := conn.frames ++ [frame] }
  | hangUp {state : ServerState} {conn : Connection} :
    ClientStep env now state conn .hangUp state { conn with ended := true }
  | receive {state : ServerState} {conn : Connection} {reply : Reply} :
    conn.replies[conn.received]? = some reply →
    ClientStep env now state conn (.receive conn.received reply) state
      { conn with received := conn.received + 1 }
  | read {state : ServerState} {conn : Connection} {frame : Bytes} {request : Request} :
    conn.stage = .reading → conn.frames[conn.taken]? = some frame →
    frame.length ≤ maxFrameLength → env.decodeRequest frame = some request →
    ClientStep env now state conn (.read conn.taken frame) state
      { conn with stage := .touching request, taken := conn.taken + 1 }
  | readMalformed {state : ServerState} {conn : Connection} {frame : Bytes}
    (timestamp : UInt64) :
    conn.stage = .reading → conn.frames[conn.taken]? = some frame →
    frame.length ≤ maxFrameLength → env.decodeRequest frame = none →
    ClientStep env now state conn (.read conn.taken frame) state
      { conn with
        stage := .rejecting (invalidRequestResponse timestamp), taken := conn.taken + 1 }
  | endOfStream {state : ServerState} {conn : Connection} :
    conn.stage = .reading → conn.ended = true → conn.taken = conn.frames.length →
    ClientStep env now state conn .endOfStream state { conn with stage := .closing }
  | codecError {state : ServerState} {conn : Connection} :
    conn.stage = .reading →
    ClientStep env now state conn .codecError state { conn with stage := .closing }
  | touch {state : ServerState} {conn : Connection} {request : Request} :
    conn.stage = .touching request →
    ClientStep env now state conn
      (.touch (state.sessionManager.touchSession conn.sessionId now).2)
      { state with
        sessionManager := (state.sessionManager.touchSession conn.sessionId now).1 }
      { conn with stage := .processing request 0 [] }
  | scan {state : ServerState} {conn : Connection} {request : Request} {shard : ℕ}
    {keys : List String} (found : List String) :
    conn.stage = .processing request shard keys → request.getCommandType = .commandList →
    shard < env.shards →
    found.Perm (state.kvStore.data.keys.filter fun key => env.shardOf key = shard) →
    ClientStep env now state conn (.scan shard) state
      { conn with stage := .processing request (shard + 1) (keys ++ found) }
  | list {state : ServerState} {conn : Connection} {request : Request} {shards : ℕ}
    {keys : List String} (timestamp : UInt64) :
    conn.stage = .processing request shards keys → request.getCommandType = .commandList →
    env.shards ≤ shards →
    ClientStep env now state conn
      (.exec conn.replies.length request (createKeysResponse timestamp request.id keys)) state
      { conn with stage := .replying request (createKeysResponse timestamp request.id keys) }
  | exec {state : ServerState} {conn : Connection} {request : Request} {shards : ℕ}
    {keys : List String} (timestamp : UInt64) :
    conn.stage = .processing request shards keys → request.getCommandType ≠ .commandList →
    ClientStep env now state conn
      (.exec conn.replies.length request
        (processCommand timestamp default request state.kvStore).1)
      { state with kvStore := (processCommand timestamp default request state.kvStore).2 }
      { conn with
        stage := .replying request (processCommand timestamp default request state.kvStore).1 }
  | reply {state : ServerState} {conn : Connection} {request : Request} {response : Response}
    {bytes : Bytes} :
    conn.stage = .replying request response → sendResponse env response = .ok bytes →
    ClientStep env now state conn (.reply conn.replies.length response) state
      { conn with
        stage := if response.getResultType = .resultExit then .closing else .reading,
        replies := conn.replies ++ [⟨some request, response⟩] }
  | reject {state : ServerState} {conn : Connection} {response : Response} {bytes : Bytes} :
    conn.stage = .rejecting response → sendResponse env response = .ok bytes →
    ClientStep env now state conn (.reject conn.replies.length response) state
      { conn with stage := .reading, replies := conn.replies ++ [⟨none, response⟩] }
  | sendErrorReply {state : ServerState} {conn : Connection} {request : Request}
    {response : Response} :
    conn.stage = .replying request response →
    ClientStep env now state conn .sendError state
      { conn with stage := .returned (.error .sendResponse) }
  | sendErrorReject {state : ServerState} {conn : Connection} {response : Response} :
    conn.stage = .rejecting response →
    ClientStep env now state conn .sendError state
      { conn with stage := .returned (.error .sendResponse) }
  | remove {state : ServerState} {conn : Connection} :
    conn.stage = .closing →
    ClientStep env now state conn .remove
      { state with sessionManager := (state.sessionManager.removeSession conn.sessionId).1 }
      { conn with stage := .returned (.ok ()) }

/-! ## The clean-up task -/

/-- Where `run_session_cleanup` is. -/
inductive CleanupStage
  /-- At `interval.tick()`. -/
  | waiting
  /-- In the iteration of a pass that read the clock at `now`: `keys` were stored when it began,
  `visited` have been tested and `ids` are to be removed. -/
  | collecting (now : Instant) (keys visited ids : List Id)
  /-- Removing the collected ids. -/
  | removing (ids : List Id)

structure Cleanup where
  stage : CleanupStage
  nextTick : Instant

/-- The first tick of the interval has completed at time zero. -/
def Cleanup.init : Cleanup where
  stage := .waiting
  nextTick := cleanupPeriod

inductive CleanupAction
  | tick
  /-- The pass reads how long session `id` has been idle. -/
  | test (id : Id) (idle : Duration)
  | collected
  | evict (id : Id)
  | done

/-- One step of the clean-up.  Its iteration visits a stored session at most once, in any order,
and ends when every entry it began with is visited or gone. -/
inductive CleanupStep (now : Instant) :
    SessionManager → Cleanup → CleanupAction → SessionManager → Cleanup → Prop
  | tick {manager : SessionManager} {nextTick : Instant} :
    nextTick ≤ now →
    CleanupStep now manager ⟨.waiting, nextTick⟩ .tick manager
      ⟨.collecting now manager.sessions.keys [] [], nextTick + cleanupPeriod⟩
  | testActive {manager : SessionManager} {nextTick started : Instant} {keys visited ids : List Id}
    {id : Id} {session : Session} :
    manager.sessions.lookup id = some session → id ∉ visited →
    ¬ SessionManager.Expired started sessionTimeout session →
    CleanupStep now manager ⟨.collecting started keys visited ids, nextTick⟩
      (.test id (durationSince started session.lastActivity)) manager
      ⟨.collecting started keys (id :: visited) ids, nextTick⟩
  | testExpired {manager : SessionManager} {nextTick started : Instant}
    {keys visited ids : List Id} {id : Id} {session : Session} :
    manager.sessions.lookup id = some session → id ∉ visited →
    SessionManager.Expired started sessionTimeout session →
    CleanupStep now manager ⟨.collecting started keys visited ids, nextTick⟩
      (.test id (durationSince started session.lastActivity)) manager
      ⟨.collecting started keys (id :: visited) (ids ++ [session.id]), nextTick⟩
  | collected {manager : SessionManager} {nextTick started : Instant}
    {keys visited ids : List Id} :
    (∀ id ∈ keys, id ∈ visited ∨ manager.sessions.lookup id = none) →
    CleanupStep now manager ⟨.collecting started keys visited ids, nextTick⟩ .collected manager
      ⟨.removing ids, nextTick⟩
  | evict {manager : SessionManager} {nextTick : Instant} {id : Id} {ids : List Id} :
    CleanupStep now manager ⟨.removing (id :: ids), nextTick⟩ (.evict id)
      (manager.removeSession id).1 ⟨.removing ids, nextTick⟩
  | done {manager : SessionManager} {nextTick : Instant} :
    CleanupStep now manager ⟨.removing [], nextTick⟩ .done manager ⟨.waiting, nextTick⟩

/-! ## The whole server -/

/-- The shared state, the clock, every connection so far and the clean-up task. -/
structure Server (C : Type) where
  state : ServerState
  clock : Instant
  connections : C → Option Connection
  cleanup : Cleanup

inductive ServerEvent (C : Type)
  /-- `handle_client` starts and `create_session` gives the connection its id. -/
  | accept (c : C) (addr : String) (sessionId : Id)
  | client (c : C) (action : ClientAction)
  | cleanup (action : CleanupAction)
  | advance (elapsed : Duration)

variable {C : Type} [DecidableEq C]

def Server.init : Server C where
  state := initServerState
  clock := 0
  connections _ := none
  cleanup := .init

/-- Connection `c` becomes `conn` and the shared state becomes `state`. -/
def Server.put (s : Server C) (c : C) (state : ServerState) (conn : Connection) : Server C :=
  { s with state, connections := Function.update s.connections c (some conn) }

theorem Server.put_self {s : Server C} {c : C} {state : ServerState} {conn : Connection} :
    (s.put c state conn).connections c = some conn :=
  Function.update_self ..

theorem Server.put_ne {s : Server C} {c d : C} {state : ServerState} {conn : Connection}
    (ne : d ≠ c) : (s.put c state conn).connections d = s.connections d :=
  Function.update_of_ne ne ..

inductive ServerStep (env : ServerEnv) : Server C → ServerEvent C → Server C → Prop
  | accept {s : Server C} {c : C} {addr : String} {randomBytes : Bytes}
    {manager : SessionManager} {session : Session} :
    s.connections c = none → randomBytes.length = 16 →
    s.state.sessionManager.createSession env.ids addr randomBytes s.clock s.clock =
      (manager, session) →
    ServerStep env s (.accept c addr session.id)
      (s.put c { s.state with sessionManager := manager } (.accepted addr session.id))
  | client {s : Server C} {c : C} {conn conn' : Connection} {action : ClientAction}
    {state : ServerState} :
    s.connections c = some conn → ClientStep env s.clock s.state conn action state conn' →
    ServerStep env s (.client c action) (s.put c state conn')
  | cleanup {s : Server C} {action : CleanupAction} {manager : SessionManager}
    {cleanup : Cleanup} :
    CleanupStep s.clock s.state.sessionManager s.cleanup action manager cleanup →
    ServerStep env s (.cleanup action)
      { s with state := { s.state with sessionManager := manager }, cleanup }
  | advance {s : Server C} (elapsed : Duration) :
    ServerStep env s (.advance elapsed) { s with clock := s.clock + elapsed }

end Bonka
