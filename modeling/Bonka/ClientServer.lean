import Bonka.ClientPairing
import Bonka.ConnectionRuns
import Bonka.Lib.Simulation

/-!
# Python clients and the server together

Any number of `BonkaClient`s, each in one call at a time, on connections of one server.  The bytes
a client sends are frames of its connection once they are whole, and the responses of its handler
are bytes on their way to the client.  A run interleaves the steps of the clients (`LinkStep`) with
those of the server (`ServerStep`).

Until a call of a client is broken off, its connection and its calls are in step
(`Link.InTouch`): frame `n` is the request of its call `n`, and what it reads is the reply to it.
-/

namespace Bonka

open Proto Transition

variable {C : Type} [DecidableEq C]

/-! ## The system -/

structure System (C : Type) where
  server : Server C
  links : C → Link

def System.init : System C where
  server := .init
  links _ := .connected

inductive SystemEvent (C : Type)
  /-- A call starts to send its request. -/
  | call (c : C) (call : ClientCall) (request : Request)
  | link (c : C) (event : LinkEvent)
  | server (event : ServerEvent C)

def SystemEvent.ofServer : SystemEvent C → Option (ServerEvent C)
  | .server event => some event
  | _ => none

/-- Events of the server in which no byte passes between it and a client. -/
def ServerEvent.Inside : ServerEvent C → Prop
  | .client _ (.send _ _) | .client _ (.receive _ _) => False
  | _ => True

def System.putLink (s : System C) (c : C) (link : Link) : System C :=
  { s with links := Function.update s.links c link }

theorem System.putLink_links_self {s : System C} {c : C} {link : Link} :
    (s.putLink c link).links c = link :=
  Function.update_self _ _ _

theorem System.putLink_links_ne {s : System C} {c d : C} {link : Link} (other : c ≠ d) :
    (s.putLink d link).links c = s.links c :=
  Function.update_of_ne other _ _

/-- One step of a client, of the server or of the bytes under way. -/
inductive SystemStep (codec : PyCodec) (env : ServerEnv) :
    System C → SystemEvent C → System C → Prop
  | call {s : System C} {c : C} {call : ClientCall} {timestamp : UInt64} {request : Request}
    {requestId : ℕ} :
    (s.links c).stage = .idle →
    call.prepare (s.links c).requestId timestamp = (.ok request, requestId) →
    (codec.serialize request).length < 2 ^ 32 →
    SystemStep codec env s (.call c call request)
      (s.putLink c
        { s.links c with
          requestId, stage := .sending request (frameBytes (codec.serialize request)) })
  /-- Any other step of a client; the answers come from the server. -/
  | link {s : System C} {c : C} {event : LinkEvent} {link : Link} :
    LinkStep codec env (fun _ _ => False) (s.links c) event link → ¬ event.IsCall →
    SystemStep codec env s (.link c event) (s.putLink c link)
  /-- A whole frame arrives at the server. -/
  | deliver {s : System C} {c : C} {n : ℕ} {payload rest : Bytes} {server : Server C} :
    (s.links c).toServer = frameBytes payload ++ rest → payload.length < 2 ^ 32 →
    ServerStep env s.server (.client c (.send n payload)) server →
    SystemStep codec env s (.server (.client c (.send n payload)))
      ({ s with server }.putLink c { s.links c with toServer := rest })
  /-- A response is on its way to the client. -/
  | respond {s : System C} {c : C} {n : ℕ} {reply : Reply} {server : Server C} :
    ServerStep env s.server (.client c (.receive n reply)) server →
    SystemStep codec env s (.server (.client c (.receive n reply)))
      ({ s with server }.putLink c
        { s.links c with
          toClient := (s.links c).toClient ++ frameBytes (env.encodeResponse reply.response) })
  | server {s : System C} {event : ServerEvent C} {server : Server C} :
    event.Inside → ServerStep env s.server event server →
    SystemStep codec env s (.server event) { s with server }

variable {codec : PyCodec} {env : ServerEnv} {s s' : System C} {event : SystemEvent C}
  {events : List (SystemEvent C)} {c : C} {n : ℕ} {request : Request} {response : Response}

def serverEvents (events : List (SystemEvent C)) : List (ServerEvent C) :=
  events.filterMap SystemEvent.ofServer

omit [DecidableEq C] in
@[simp] theorem serverEvents_append (xs ys : List (SystemEvent C)) :
    serverEvents (xs ++ ys) = serverEvents xs ++ serverEvents ys :=
  List.filterMap_append

omit [DecidableEq C] in
@[simp] theorem serverEvents_call (call : ClientCall) (request : Request)
    (events : List (SystemEvent C)) :
    serverEvents (.call c call request :: events) = serverEvents events := rfl

omit [DecidableEq C] in
@[simp] theorem serverEvents_link (event : LinkEvent) (events : List (SystemEvent C)) :
    serverEvents (.link c event :: events) = serverEvents events := rfl

omit [DecidableEq C] in
theorem mem_serverEvents {event : ServerEvent C} :
    event ∈ serverEvents events ↔ .server event ∈ events := by
  rw [serverEvents, List.mem_filterMap]
  constructor
  · intro given
    obtain ⟨other, member, same⟩ := given
    cases other with
    | server other =>
        cases same
        exact member
    | call | link => cases same
  · intro member
    exact ⟨_, member, rfl⟩

theorem SystemStep.server_eq (edge : SystemStep codec env s event s')
    (unseen : event.ofServer = none) : s'.server = s.server := by
  cases edge <;> first | rfl | cases unseen

theorem SystemStep.serverStep {event' : ServerEvent C} (edge : SystemStep codec env s event s')
    (seen : event.ofServer = some event') : ServerStep env s.server event' s'.server := by
  cases edge <;> cases seen <;> assumption

/-- The server's part of a run is a run of the server. -/
theorem system_server_run (run : Run (SystemStep codec env) s events s') :
    Run (ServerStep env) s.server (serverEvents events) s'.server := by
  refine Simulation.run_projection System.server (.of_projection ?_ ?_) run
  · exact SystemStep.server_eq
  · exact SystemStep.serverStep

/-! ## What a connection of the server has got and given -/

/-- The frames that client `c` has got through to the server. -/
def Server.framesOf (server : Server C) (c : C) : List Bytes :=
  (server.connections c).elim [] Connection.frames

def Server.repliesOf (server : Server C) (c : C) : List Reply :=
  (server.connections c).elim [] Connection.replies

def Server.receivedOf (server : Server C) (c : C) : ℕ :=
  (server.connections c).elim 0 Connection.received

/-- Frames that were read and responses that were sent are within the limit of the codec. -/
structure Connection.Short (env : ServerEnv) (conn : Connection) : Prop where
  frames : ∀ {n frame}, n < conn.taken → conn.frames[n]? = some frame →
    frame.length ≤ maxFrameLength
  replies : ∀ reply ∈ conn.replies, (env.encodeResponse reply.response).length ≤ maxFrameLength

theorem sendResponse_short {bytes : Bytes} (sent : sendResponse env response = .ok bytes) :
    (env.encodeResponse response).length ≤ maxFrameLength := by
  unfold sendResponse at sent
  split at sent
  · assumption
  · cases sent

theorem connection_short {serverEvents : List (ServerEvent C)} {server : Server C}
    (run : Run (ServerStep env) .init serverEvents server) {conn : Connection}
    (found : server.connections c = some conn) : conn.Short env := by
  have both := connection_invariant (P := fun actions conn =>
    conn.Inv env actions ∧ conn.Short env)
    (fun addr sessionId => ⟨.accepted addr sessionId,
      ⟨fun less => absurd less (Nat.not_lt_zero _), fun _ member => by cases member⟩⟩) ?_ run found
  · exact both.2
  · intro actions now state conn action state' conn' both edge
    obtain ⟨inv, short⟩ := both
    refine ⟨inv.step edge, ?_⟩
    have taking : ∀ {frame : Bytes}, conn.frames[conn.taken]? = some frame →
        frame.length ≤ maxFrameLength → ∀ {n other}, n < conn.taken + 1 →
        conn.frames[n]? = some other → other.length ≤ maxFrameLength := by
      intro frame here within n other less there
      rcases Nat.lt_succ_iff_lt_or_eq.mp less with earlier | same
      · exact short.frames earlier there
      · rw [same, here] at there
        cases there
        exact within
    have answering : ∀ {reply : Reply},
        (env.encodeResponse reply.response).length ≤ maxFrameLength →
        ∀ other ∈ conn.replies ++ [reply],
          (env.encodeResponse other.response).length ≤ maxFrameLength := by
      intro reply within other member
      rcases List.mem_append.mp member with earlier | new
      · exact short.replies other earlier
      · rwa [List.mem_singleton.mp new]
    cases edge with
    | send frame opened =>
        refine ⟨fun {n other} less there => ?_, short.replies⟩
        have before : n < conn.frames.length := less.trans_le inv.taken_le
        rw [List.getElem?_append_left before] at there
        exact short.frames less there
    | read stage here within => exact ⟨taking here within, short.replies⟩
    | readMalformed timestamp stage here within => exact ⟨taking here within, short.replies⟩
    | reply stage sent => exact ⟨short.frames, answering (sendResponse_short sent)⟩
    | reject stage sent => exact ⟨short.frames, answering (sendResponse_short sent)⟩
    | _ => exact ⟨short.frames, short.replies⟩

/-- What has been answered, or is about to be, has been read. -/
theorem Connection.Inv.answered_le {actions : List ClientAction} {conn : Connection}
    (inv : conn.Inv env actions) :
    conn.replies.length + conn.stage.unanswered ≤ conn.taken := by
  have position := inv.position
  cases stage : conn.stage with
  | returned result =>
      rw [stage] at position
      cases result with
      | ok => exact position.ge
      | error => exact position.ge
  | reading | closing =>
      rw [stage] at position
      exact position.ge
  | replying | rejecting =>
      rw [stage] at position
      simp [HandlerStage.unanswered, position.1]
  | touching | processing =>
      rw [stage] at position
      simp [HandlerStage.unanswered, position.1]

/-- A response was sent before it is received. -/
theorem connection_received_le {serverEvents : List (ServerEvent C)} {server : Server C}
    (run : Run (ServerStep env) .init serverEvents server) {conn : Connection}
    (found : server.connections c = some conn) :
    conn.received ≤ conn.replies.length := by
  refine connection_invariant (P := fun _ conn => conn.received ≤ conn.replies.length)
    (fun _ _ => le_rfl) ?_ run found
  intro actions now state conn action state' conn' before edge
  cases edge with
  | receive here => exact (List.getElem?_eq_some_iff.mp here).1
  | reply | reject =>
      rw [List.length_append]
      exact before.trans (Nat.le_add_right _ _)
  | _ => exact before

/-- A command that was run was read from the frame of its number. -/
theorem executed_frame {serverEvents : List (ServerEvent C)} {server : Server C}
    (run : Run (ServerStep env) .init serverEvents server)
    (executed : .client c (.exec n request response) ∈ serverEvents) :
    ∃ frame, .client c (.send n frame) ∈ serverEvents ∧
      env.decodeRequest frame = some request ∧ frame.length ≤ maxFrameLength := by
  obtain ⟨conn, found⟩ := exists_connection run executed
  have inv := connection_inv run found
  have traced := connection_traced run found
  have member := mem_actionsOf.mpr executed
  obtain ⟨frame, here, decoded⟩ := traced.decoded member
  have less := (traced.executed_lt member).trans_le inv.answered_le
  exact ⟨frame, mem_actionsOf.mp (traced.sent.mpr here), decoded,
    (connection_short run found).frames less here⟩

/-- What a reply answers: the frame of its number, within the limit and decoded. -/
theorem replied_frame {serverEvents : List (ServerEvent C)} {server : Server C}
    (run : Run (ServerStep env) .init serverEvents server) {reply : Reply}
    (replied : (server.repliesOf c)[n]? = some reply) :
    ∃ frame, (server.framesOf c)[n]? = some frame ∧ env.decodeRequest frame = reply.request ∧
      frame.length ≤ maxFrameLength ∧
      (env.encodeResponse reply.response).length ≤ maxFrameLength := by
  unfold Server.repliesOf at replied
  unfold Server.framesOf
  cases found : server.connections c with
  | none =>
      rw [found] at replied
      cases replied
  | some conn =>
      rw [found] at replied
      have inv := connection_inv run found
      have short := connection_short run found
      obtain ⟨frame, here, decoded⟩ := (inv.answered replied).1
      have within : n < conn.replies.length := (List.getElem?_eq_some_iff.mp replied).1
      have less : n < conn.taken :=
        within.trans_le ((Nat.le_add_right _ _).trans inv.answered_le)
      exact ⟨frame, here, decoded, short.frames less here,
        short.replies reply (List.mem_of_getElem? replied)⟩

/-- Nothing has passed between client `c` and the server. -/
structure Server.Quiet (c : C) (server server' : Server C) : Prop where
  frames : server'.framesOf c = server.framesOf c
  received : server'.receivedOf c = server.receivedOf c
  replies : ∀ {n : ℕ} {reply}, (server.repliesOf c)[n]? = some reply →
    (server'.repliesOf c)[n]? = some reply

omit [DecidableEq C] in
theorem Server.Quiet.of_connections {server server' : Server C}
    (same : server'.connections c = server.connections c) : server.Quiet c server' where
  frames := by rw [framesOf, same, framesOf]
  received := by rw [receivedOf, same, receivedOf]
  replies replied := by rwa [repliesOf, same]

/-- A step of another connection. -/
theorem ServerStep.quiet_of_ne {server server' : Server C} {d : C} {action : ClientAction}
    (edge : ServerStep env server (.client d action) server') (other : c ≠ d) :
    server.Quiet c server' := by
  cases edge with
  | client found edge => exact .of_connections (Server.put_ne other)

/-- A step inside the server may add a reply. -/
theorem ServerStep.quiet_of_inside {server server' : Server C} {event : ServerEvent C}
    (edge : ServerStep env server event server') (inside : event.Inside) (c : C) :
    server.Quiet c server' := by
  cases edge with
  | @accept d _ _ _ _ fresh =>
      by_cases same : c = d
      · subst same
        refine ⟨?_, ?_, fun replied => ?_⟩
        · simp [Server.framesOf, fresh, Server.put_self, Connection.accepted]
        · simp [Server.receivedOf, fresh, Server.put_self, Connection.accepted]
        · rw [Server.repliesOf, fresh] at replied
          cases replied
      · exact .of_connections (Server.put_ne same)
  | @client d conn conn' action state' found edge =>
      by_cases same : c = d
      · subst same
        have kept : conn'.frames = conn.frames ∧ conn'.received = conn.received ∧
            ∃ more, conn'.replies = conn.replies ++ more := by
          cases edge with
          | send | receive => exact inside.elim
          | reply | reject => exact ⟨rfl, rfl, _, rfl⟩
          | _ => exact ⟨rfl, rfl, [], (List.append_nil _).symm⟩
        obtain ⟨frames, received, more, replies⟩ := kept
        refine ⟨?_, ?_, fun {n reply} replied => ?_⟩
        · simp [Server.framesOf, found, Server.put_self, frames]
        · simp [Server.receivedOf, found, Server.put_self, received]
        · have there : conn.replies[n]? = some reply := by
            simpa [Server.repliesOf, found] using replied
          have less := (List.getElem?_eq_some_iff.mp there).1
          rw [← there]
          simp [Server.repliesOf, Server.put_self, replies, List.getElem?_append_left less]
      · exact .of_connections (Server.put_ne same)
  | cleanup | advance => exact .of_connections rfl

/-- A frame gets through. -/
theorem ServerStep.sent {server server' : Server C} {payload : Bytes}
    (edge : ServerStep env server (.client c (.send n payload)) server') :
    n = (server.framesOf c).length ∧ server'.framesOf c = server.framesOf c ++ [payload] ∧
      server'.receivedOf c = server.receivedOf c ∧ server'.repliesOf c = server.repliesOf c := by
  cases edge with
  | client found edge =>
      cases edge with
      | send frame opened =>
          simp [Server.framesOf, Server.receivedOf, Server.repliesOf, found, Server.put_self]

/-- A response is received. -/
theorem ServerStep.receipt {server server' : Server C} {reply : Reply}
    (edge : ServerStep env server (.client c (.receive n reply)) server') :
    n = server.receivedOf c ∧ (server.repliesOf c)[n]? = some reply ∧
      server'.framesOf c = server.framesOf c ∧ server'.receivedOf c = n + 1 ∧
      server'.repliesOf c = server.repliesOf c := by
  cases edge with
  | client found edge =>
      cases edge with
      | receive here =>
          simpa [Server.framesOf, Server.receivedOf, Server.repliesOf, found, Server.put_self]
            using here

/-! ## The call under way -/

/-- A call of client `c` returns. -/
def SystemEvent.isReturn (c : C) : SystemEvent C → Bool
  | .link d (.returned _ _) => d = c
  | _ => false

/-- How many calls of client `c` have returned. -/
def returns (c : C) (events : List (SystemEvent C)) : ℕ := events.countP (SystemEvent.isReturn c)

/-- A call of client `c` starts or returns. -/
def SystemEvent.Boundary (c : C) : SystemEvent C → Prop
  | .call d _ _ => d = c
  | .link d (.returned _ _) => d = c
  | _ => False

theorem SystemEvent.not_isReturn (inner : ¬ event.Boundary c) : event.isReturn c = false := by
  cases event with
  | link d event =>
      cases event with
      | returned => simpa [isReturn, Boundary] using inner
      | _ => rfl
  | call | server => rfl

theorem returns_snoc (inner : ¬ event.Boundary c) :
    returns c (events ++ [event]) = returns c events := by
  simp [returns, SystemEvent.not_isReturn inner]

/-- Client `c` is in its call `n`, counted from zero, whose request is `request`. -/
def Asked (events : List (SystemEvent C)) (c : C) (n : ℕ) (request : Request) : Prop :=
  ∃ earlier call later, events = earlier ++ .call c call request :: later ∧
    (∀ event ∈ later, ¬ event.Boundary c) ∧ returns c earlier = n ∧
    ∃ requestId timestamp next, call.prepare requestId timestamp = (.ok request, next)

theorem Asked.snoc (asked : Asked events c n request) (inner : ¬ event.Boundary c) :
    Asked (events ++ [event]) c n request := by
  obtain ⟨earlier, call, later, rfl, alone, count, prepared⟩ := asked
  refine ⟨earlier, call, later ++ [event], by simp, fun other member => ?_, count, prepared⟩
  rcases List.mem_append.mp member with before | same
  · exact alone other before
  · rwa [List.mem_singleton.mp same]

/-- The last frame of the connection is the request of call `n`. -/
structure Delivered (codec : PyCodec) (events : List (SystemEvent C)) (server : Server C) (c : C)
    (n : ℕ) (request : Request) : Prop where
  asked : Asked events c n request
  last : (server.framesOf c).length = n + 1
  frame : (server.framesOf c)[n]? = some (codec.serialize request)

/-- The reply to the last frame of the connection is received. -/
structure Received (events : List (SystemEvent C)) (server : Server C) (c : C) (n : ℕ)
    (reply : Reply) : Prop where
  count : server.receivedOf c = n + 1
  replied : (server.repliesOf c)[n]? = some reply
  event : .server (.client c (.receive n reply)) ∈ events

/-- What is under way between a client and the server belongs to the call under way. -/
def Link.InTouch (codec : PyCodec) (env : ServerEnv) (events : List (SystemEvent C))
    (server : Server C) (c : C) (link : Link) : Prop :=
  match link.stage with
  | .idle =>
      returns c events = (server.framesOf c).length ∧
        server.receivedOf c = (server.framesOf c).length ∧ link.toServer = [] ∧ link.toClient = []
  | .sending request unsent =>
      Asked events c (server.framesOf c).length request ∧
        server.receivedOf c = (server.framesOf c).length ∧
        (codec.serialize request).length < 2 ^ 32 ∧ unsent ≠ [] ∧
        link.toServer ++ unsent = frameBytes (codec.serialize request) ∧ link.toClient = []
  | .readingLength request =>
      (Asked events c (server.framesOf c).length request ∧
          server.receivedOf c = (server.framesOf c).length ∧
          (codec.serialize request).length < 2 ^ 32 ∧
          link.toServer = frameBytes (codec.serialize request) ∧ link.toClient = []) ∨
        ∃ n, Delivered codec events server c n request ∧ link.toServer = [] ∧
          (server.receivedOf c = n ∧ link.toClient = [] ∨
            ∃ reply, Received events server c n reply ∧
              link.toClient = frameBytes (env.encodeResponse reply.response))
  | .readingBody request length responseBytes =>
      ∃ n reply, Delivered codec events server c n request ∧ Received events server c n reply ∧
        link.toServer = [] ∧
        responseBytes ++ link.toClient = env.encodeResponse reply.response ∧
        length = (env.encodeResponse reply.response).length

variable {server server' : Server C} {link link' : Link} {reply : Reply}

theorem Delivered.quiet (delivered : Delivered codec events server c n request)
    (inner : ¬ event.Boundary c) (frames : server'.framesOf c = server.framesOf c) :
    Delivered codec (events ++ [event]) server' c n request where
  asked := delivered.asked.snoc inner
  last := frames ▸ delivered.last
  frame := frames ▸ delivered.frame

omit [DecidableEq C] in
theorem Received.quiet (received : Received events server c n reply)
    (quiet : server.Quiet c server') : Received (events ++ [event]) server' c n reply where
  count := quiet.received.trans received.count
  replied := quiet.replies received.replied
  event := List.mem_append_left _ received.event

/-- A step in which nothing passes between the client and the server. -/
theorem Link.InTouch.quiet (event : SystemEvent C)
    (inTouch : link.InTouch codec env events server c) (inner : ¬ event.Boundary c)
    (quiet : server.Quiet c server') :
    link.InTouch codec env (events ++ [event]) server' c := by
  unfold InTouch at inTouch ⊢
  cases stage : link.stage with
  | idle =>
      rw [stage] at inTouch
      simp only [returns_snoc inner, quiet.frames, quiet.received]
      exact inTouch
  | sending request unsent =>
      rw [stage] at inTouch
      simp only [quiet.frames, quiet.received]
      exact ⟨inTouch.1.snoc inner, inTouch.2⟩
  | readingLength request =>
      rw [stage] at inTouch
      simp only [quiet.frames, quiet.received]
      rcases inTouch with ⟨asked, rest⟩ |
        ⟨n, delivered, toServer, waiting | ⟨reply, received, bytes⟩⟩
      · exact .inl ⟨asked.snoc inner, rest⟩
      · exact .inr ⟨n, delivered.quiet inner quiet.frames, toServer, .inl waiting⟩
      · exact .inr ⟨n, delivered.quiet inner quiet.frames, toServer,
          .inr ⟨reply, received.quiet quiet, bytes⟩⟩
  | readingBody request length responseBytes =>
      rw [stage] at inTouch
      obtain ⟨n, reply, delivered, received, rest⟩ := inTouch
      exact ⟨n, reply, delivered.quiet inner quiet.frames, received.quiet quiet, rest⟩

/-- Until a call returns, none has returned since it began. -/
theorem Asked.returns_eq (asked : Asked events c n request) : returns c events = n := by
  obtain ⟨earlier, call, later, rfl, alone, rfl, -⟩ := asked
  have none : later.countP (SystemEvent.isReturn c) = 0 := by
    rw [List.countP_eq_zero]
    intro event member
    simp [SystemEvent.not_isReturn (alone event member)]
  simp [returns, none, SystemEvent.isReturn]

/-- A call starts. -/
theorem Link.InTouch.call (inTouch : link.InTouch codec env events server c)
    (idle : link.stage = .idle) {call : ClientCall} {timestamp : UInt64} {requestId : ℕ}
    (prepared : call.prepare link.requestId timestamp = (.ok request, requestId))
    (sendable : (codec.serialize request).length < 2 ^ 32) :
    InTouch codec env (events ++ [.call c call request]) server c
      { link with
        requestId, stage := .sending request (frameBytes (codec.serialize request)) } := by
  unfold InTouch at inTouch ⊢
  rw [idle] at inTouch
  obtain ⟨count, received, toServer, toClient⟩ := inTouch
  refine ⟨⟨events, call, [], rfl, by simp, count, _, _, _, prepared⟩, received, sendable, ?_,
    by simp [toServer], toClient⟩
  exact List.ne_nil_of_length_pos (by simp)

/-- A step of the client that breaks nothing off. -/
theorem Link.InTouch.step (laws : WireLaws codec env) {sent : List (ServerEvent C)}
    (run : Run (ServerStep env) .init sent server) {event : LinkEvent}
    (inTouch : link.InTouch codec env events server c)
    (edge : LinkStep codec env (fun _ _ => False) link event link') (notCall : ¬ event.IsCall)
    (unbroken : ∀ error, event ≠ .brokenOff error) :
    link'.InTouch codec env (events ++ [.link c event]) server c := by
  have still : server.Quiet c server := .of_connections rfl
  cases edge with
  | call => exact absurd trivial notCall
  | answer _ _ answered => exact answered.elim
  | breakSend | breakLength | cutLength | breakBody => exact absurd rfl (unbroken _)
  | @refuse _ _ error _ idle =>
      have quiet := inTouch.quiet (.link c (.refused error)) id still
      unfold InTouch at quiet ⊢
      rw [idle] at quiet
      dsimp only
      rwa [idle]
  | refuseLength idle =>
      have quiet := inTouch.quiet (.link c (.refused .structError)) id still
      unfold InTouch at quiet ⊢
      rw [idle] at quiet
      dsimp only
      rwa [idle]
  | @refuseSend request stage =>
      have quiet := inTouch.quiet (.link c (.refused .socketError)) id still
      unfold InTouch at quiet ⊢
      rw [stage] at quiet
      obtain ⟨asked, received, -, -, parts, toClient⟩ := quiet
      exact ⟨asked.returns_eq, received, List.append_left_eq_self.mp parts, toClient⟩
  | @send request bytes unsent stage nonempty =>
      have quiet := inTouch.quiet (.link c (.sent bytes)) id still
      unfold InTouch at quiet ⊢
      rw [stage] at quiet
      obtain ⟨asked, received, sendable, -, parts, toClient⟩ := quiet
      rw [← List.append_assoc] at parts
      by_cases done : unsent = []
      · simp only [if_pos done]
        rw [done, List.append_nil] at parts
        exact .inl ⟨asked, received, sendable, parts, toClient⟩
      · simp only [if_neg done]
        exact ⟨asked, received, sendable, done, parts, toClient⟩
  | @length request bytes rest length stage arrived unpacked =>
      have quiet := inTouch.quiet (.link c (.received bytes)) id still
      unfold InTouch at quiet ⊢
      rw [stage] at quiet
      have four : bytes.length = 4 := by
        unfold unpackLength at unpacked
        split at unpacked
        · assumption
        · cases unpacked
      have nonempty : link.toClient ≠ [] := by
        rw [arrived]
        exact List.ne_nil_of_length_pos (by simp [four])
      rcases quiet with ⟨-, -, -, -, empty⟩ |
        ⟨n, delivered, toServer, ⟨-, empty⟩ | ⟨reply, received, toClient⟩⟩
      · exact absurd empty nonempty
      · exact absurd empty nonempty
      · obtain ⟨frame, -, -, -, short⟩ := replied_frame run received.replied
        rw [arrived, frameBytes] at toClient
        obtain ⟨rfl, rfl⟩ := List.append_inj toClient (by rw [four, Wire.length_beBytes])
        rw [unpackLength_beBytes (short.trans_lt (by decide))] at unpacked
        cases unpacked
        exact ⟨n, reply, delivered, received, toServer, rfl, rfl⟩
  | @body request length responseBytes bytes rest stage arrived nonempty within =>
      have quiet := inTouch.quiet (.link c (.received bytes)) id still
      unfold InTouch at quiet ⊢
      rw [stage] at quiet
      obtain ⟨n, reply, delivered, received, toServer, parts, length⟩ := quiet
      refine ⟨n, reply, delivered, received, toServer, ?_, length⟩
      rw [List.append_assoc, ← arrived, parts]
  | @finish request responseBytes response stage parsed =>
      unfold InTouch at inTouch ⊢
      rw [stage] at inTouch
      obtain ⟨n, reply, delivered, received, toServer, parts, length⟩ := inTouch
      have count := delivered.asked.returns_eq
      have empty : link.toClient.length = 0 := by
        rw [← parts, List.length_append] at length
        omega
      refine ⟨?_, ?_, toServer, List.eq_nil_of_length_eq_zero empty⟩
      · rw [delivered.last, ← count]
        simp [returns, SystemEvent.isReturn]
      · rw [delivered.last, received.count]
  | @undecodable request responseBytes stage parsed =>
      unfold InTouch at inTouch
      rw [stage] at inTouch
      obtain ⟨n, reply, delivered, received, toServer, parts, length⟩ := inTouch
      have empty : link.toClient.length = 0 := by
        rw [← parts, List.length_append] at length
        omega
      rw [List.eq_nil_of_length_eq_zero empty, List.append_nil] at parts
      obtain ⟨frame, -, -, -, short⟩ := replied_frame run received.replied
      rw [parts, laws.response _ short] at parsed
      cases parsed

/-- A whole frame under way is the request of the call under way. -/
theorem Link.InTouch.framed {payload rest : Bytes}
    (inTouch : link.InTouch codec env events server c)
    (framed : link.toServer = frameBytes payload ++ rest) (short : payload.length < 2 ^ 32) :
    ∃ request, link.stage = .readingLength request ∧ payload = codec.serialize request ∧
      rest = [] ∧ Asked events c (server.framesOf c).length request ∧
      server.receivedOf c = (server.framesOf c).length ∧ link.toClient = [] := by
  have silent : link.toServer ≠ [] := by
    rw [framed]
    exact List.ne_nil_of_length_pos (by simp)
  unfold InTouch at inTouch
  cases stage : link.stage with
  | idle =>
      rw [stage] at inTouch
      exact absurd inTouch.2.2.1 silent
  | sending request unsent =>
      rw [stage] at inTouch
      obtain ⟨-, -, sendable, more, parts, -⟩ := inTouch
      exact absurd framed (not_framed_of_part sendable short parts more)
  | readingBody request length responseBytes =>
      rw [stage] at inTouch
      obtain ⟨n, reply, -, -, toServer, -⟩ := inTouch
      exact absurd toServer silent
  | readingLength request =>
      rw [stage] at inTouch
      rcases inTouch with ⟨asked, count, sendable, toServer, toClient⟩ | ⟨n, -, toServer, -⟩
      · rw [toServer, ← List.append_nil (frameBytes _)] at framed
        obtain ⟨rfl, rfl⟩ := frameBytes_append_inj sendable short framed
        exact ⟨request, rfl, rfl, rfl, asked, count, toClient⟩
      · exact absurd toServer silent

/-- A frame gets through: it is the request of the call under way. -/
theorem Link.InTouch.deliver {payload rest : Bytes}
    (inTouch : link.InTouch codec env events server c)
    (framed : link.toServer = frameBytes payload ++ rest) (short : payload.length < 2 ^ 32)
    (edge : ServerStep env server (.client c (.send n payload)) server') :
    InTouch codec env (events ++ [.server (.client c (.send n payload))]) server' c
      { link with toServer := rest } := by
  obtain ⟨rfl, frames, received, replies⟩ := edge.sent
  obtain ⟨request, stage, rfl, rfl, asked, count, toClient⟩ := inTouch.framed framed short
  unfold InTouch
  rw [stage]
  refine .inr ⟨_, ⟨asked.snoc id, ?_, ?_⟩, rfl, .inl ⟨received.trans count, toClient⟩⟩
  · rw [frames, List.length_append, List.length_singleton]
  · simp [frames]

/-- A response is received: it is the reply to the call under way. -/
theorem Link.InTouch.respond {sent : List (ServerEvent C)}
    (run : Run (ServerStep env) .init sent server)
    (inTouch : link.InTouch codec env events server c)
    (edge : ServerStep env server (.client c (.receive n reply)) server') :
    InTouch codec env (events ++ [.server (.client c (.receive n reply))]) server' c
      { link with
        toClient := link.toClient ++ frameBytes (env.encodeResponse reply.response) } := by
  obtain ⟨rfl, replied, frames, received, replies⟩ := edge.receipt
  obtain ⟨frame, here, -⟩ := replied_frame run replied
  have less := (List.getElem?_eq_some_iff.mp here).1
  unfold InTouch at inTouch ⊢
  cases stage : link.stage with
  | idle =>
      rw [stage] at inTouch
      obtain ⟨-, count, -⟩ := inTouch
      omega
  | sending request unsent =>
      rw [stage] at inTouch
      obtain ⟨-, count, -⟩ := inTouch
      omega
  | readingBody request length responseBytes =>
      rw [stage] at inTouch
      obtain ⟨n, reply, delivered, got, -⟩ := inTouch
      have last := delivered.last
      have count := got.count
      omega
  | readingLength request =>
      rw [stage] at inTouch
      rcases inTouch with ⟨-, count, -⟩ |
        ⟨n, delivered, toServer, ⟨rfl, toClient⟩ | ⟨reply, got, -⟩⟩
      · omega
      · refine .inr ⟨_, delivered.quiet id frames, toServer, .inr ⟨reply, ⟨received, ?_, ?_⟩, ?_⟩⟩
        · rw [replies, replied]
        · exact List.mem_append_right _ (List.mem_singleton_self _)
        · rw [toClient, List.nil_append]
      · have last := delivered.last
        have count := got.count
        omega

/-- Until one of its calls is broken off, a client is in touch with the server. -/
theorem inTouch_of_unbroken (laws : WireLaws codec env)
    (run : Run (SystemStep codec env) .init events s)
    (unbroken : ∀ error, .link c (.brokenOff error) ∉ events) :
    (s.links c).InTouch codec env events s.server c := by
  induction run with
  | nil => exact ⟨rfl, rfl, rfl, rfl⟩
  | @snoc events s s' event before last ih =>
      simp only [List.mem_append, List.mem_singleton, not_or] at unbroken
      have inTouch := ih fun error => (unbroken error).1
      have served := system_server_run before
      have put : ∀ {server : Server C} {d : C} {link : Link}, c ≠ d →
          ¬ event.Boundary c → s.server.Quiet c server →
          ((System.putLink { s with server } d link).links c).InTouch codec env
            (events ++ [event]) server c := by
        intro server d link other inner quiet
        rw [System.putLink_links_ne other]
        exact inTouch.quiet event inner quiet
      cases last with
      | @call d call timestamp request requestId idle prepared sendable =>
          by_cases same : c = d
          · subst same
            rw [System.putLink_links_self]
            exact inTouch.call idle prepared sendable
          · exact put same (fun own => same own.symm) (.of_connections rfl)
      | @link d event link edge notCall =>
          by_cases same : c = d
          · subst same
            rw [System.putLink_links_self]
            exact inTouch.step laws served edge notCall fun error broken =>
              (unbroken error).2 (by rw [broken])
          · refine put same (fun own => ?_) (.of_connections rfl)
            cases event with
            | returned => exact same own.symm
            | _ => exact own.elim
      | @deliver d n payload rest server framed short edge =>
          by_cases same : c = d
          · subst same
            rw [System.putLink_links_self]
            exact inTouch.deliver framed short edge
          · exact put same id (edge.quiet_of_ne same)
      | @respond d n reply server edge =>
          by_cases same : c = d
          · subst same
            rw [System.putLink_links_self]
            exact inTouch.respond served edge
          · exact put same id (edge.quiet_of_ne same)
      | server inside edge => exact inTouch.quiet _ id (edge.quiet_of_inside inside c)

end Bonka
