import Bonka.ClientServer
import Bonka.ConnectionProgress

/-!
# A call comes to its end

A Python client that waits for its response waits only for its own handler and for the bytes
between the two.  From any state in which a call is under way, whatever the other clients, their
handlers and the clean-up have left unfinished, a bounded number of steps of these alone lets the
call return, unless the response to it is over the limit of the codec (`call_returns`).
-/

namespace Bonka

open Proto Transition

variable {C : Type} [DecidableEq C] {env : ServerEnv} {conn conn' : Connection}
  {action : ClientAction} {request : Request} {n : ℕ}

/-! ## The handler answers -/

/-- Steps that take a request further: nothing fails and nobody leaves. -/
def ClientAction.Proceeds : ClientAction → Prop
  | .hangUp | .endOfStream | .codecError | .sendError | .remove => False
  | _ => True

/-- How many steps `handle_client` takes at most before it has answered the frame in hand, or the
next one. -/
def HandlerStage.stepsToReply (shards : ℕ) : HandlerStage → ℕ
  | .reading => shards + 4
  | .touching _ => shards + 3
  | .processing _ visited _ => shards - visited + 2
  | _ => 1

/-- Frame `n` is a request, and it is its turn. -/
structure Connection.Serving (env : ServerEnv) (conn : Connection) (n : ℕ) (request : Request) :
    Prop where
  frame : ∃ frame, conn.frames[n]? = some frame ∧ frame.length ≤ maxFrameLength ∧
    env.decodeRequest frame = some request
  unanswered : conn.replies.length = n
  inLoop : conn.stage.InLoop

/-- The response to the request is over the limit of the codec. -/
def Connection.TooLong (env : ServerEnv) (conn : Connection) (request : Request) : Prop :=
  ∃ response error, conn.stage = .replying request response ∧
    sendResponse env response = .error error

theorem ClientStep.received_eq {now : Instant} {state state' : ServerState}
    (edge : ClientStep env now state conn action state' conn') (own : action.byHandler = true) :
    conn'.received = conn.received := by
  cases edge <;> first | rfl | cases own

/-- The handler has a step to take, and it is one of those that are left. -/
theorem Connection.Serving.exists_step {actions : List ClientAction}
    (serving : conn.Serving env n request) (inv : conn.Inv env actions) (state : ServerState)
    (now : Instant) :
    conn.TooLong env request ∨ ∃ action state' conn',
      ClientStep env now state conn action state' conn' ∧ action.Proceeds ∧
        action.byHandler = true ∧ ((∃ reply, conn'.replies[n]? = some reply) ∨
          conn'.Serving env n request ∧
            conn'.stage.stepsToReply env.shards < conn.stage.stepsToReply env.shards) := by
  obtain ⟨⟨frame, here, short, decoded⟩, rfl, inLoop⟩ := serving
  have position := inv.position
  have mine : ∀ {request'}, FrameAt env conn.frames conn.replies.length request' →
      request' = some request := by
    intro request' at_n
    obtain ⟨frame', there, decoded'⟩ := at_n
    cases here.symm.trans there
    exact decoded'.symm.trans decoded
  cases stage : conn.stage with
  | reading =>
      rw [stage] at position
      have same : conn.taken = conn.replies.length := position
      rw [← same] at here
      refine .inr ⟨_, _, _, .read stage here short decoded, trivial, rfl,
        .inr ⟨⟨⟨frame, same ▸ here, short, decoded⟩, rfl, trivial⟩, ?_⟩⟩
      exact Nat.lt_succ_self _
  | touching request' =>
      rw [stage] at position
      cases mine position.2
      refine .inr ⟨_, _, _, .touch stage, trivial, rfl,
        .inr ⟨⟨⟨frame, here, short, decoded⟩, rfl, trivial⟩, ?_⟩⟩
      simp only [HandlerStage.stepsToReply]
      omega
  | processing request' visited keys =>
      rw [stage] at position
      cases mine position.2
      by_cases isList : request.getCommandType = .commandList
      · by_cases more : visited < env.shards
        · refine .inr ⟨_, _, _, .scan _ stage isList more (.refl _), trivial, rfl,
            .inr ⟨⟨⟨frame, here, short, decoded⟩, rfl, trivial⟩, ?_⟩⟩
          simp only [HandlerStage.stepsToReply]
          omega
        · refine .inr ⟨_, _, _, .list 0 stage isList (Nat.not_lt.mp more), trivial, rfl,
            .inr ⟨⟨⟨frame, here, short, decoded⟩, rfl, trivial⟩, ?_⟩⟩
          simp only [HandlerStage.stepsToReply]
          omega
      · refine .inr ⟨_, _, _, .exec 0 stage isList, trivial, rfl,
          .inr ⟨⟨⟨frame, here, short, decoded⟩, rfl, trivial⟩, ?_⟩⟩
        simp only [HandlerStage.stepsToReply]
        omega
  | replying request' response =>
      rw [stage] at position
      cases mine position.2.1
      cases sent : sendResponse env response with
      | ok bytes =>
          exact .inr ⟨_, _, _, .reply stage sent, trivial, rfl,
            .inl ⟨⟨some request, response⟩, List.getElem?_concat_length⟩⟩
      | error error => exact .inl ⟨response, error, stage, sent⟩
  | rejecting response =>
      rw [stage] at position
      cases mine position.2.1
  | closing | returned result =>
      rw [stage] at inLoop
      exact inLoop.elim

/-- The steps of a handler that go on with the frame in hand. -/
def Serve (c : C) (events : List (ServerEvent C)) : Prop :=
  ∀ event ∈ events, ∃ action : ClientAction, action.Proceeds ∧ action.byHandler = true ∧
    event = .client c action

/-- Left to itself, a handler comes to answer the frame. -/
theorem exists_reply {actions : List ClientAction} {s : Server C} {c : C}
    (inv : conn.Inv env actions) (found : s.connections c = some conn)
    (serving : conn.Serving env n request) :
    ∃ more t conn', Run (ServerStep env) s more t ∧ Serve c more ∧
      more.length ≤ conn.stage.stepsToReply env.shards ∧ t.connections c = some conn' ∧
      conn'.received = conn.received ∧
      ((∃ reply, conn'.replies[n]? = some reply) ∨ conn'.TooLong env request) := by
  generalize bound : conn.stage.stepsToReply env.shards = steps
  induction steps using Nat.strong_induction_on generalizing s conn actions with
  | _ steps ih =>
      rcases serving.exists_step inv s.state s.clock with tooLong |
        ⟨action, state', next, edge, proceeds, own, goesOn⟩
      · exact ⟨[], s, conn, .nil, fun _ member => (by cases member), Nat.zero_le _, found, rfl,
          .inr tooLong⟩
      · have first : ServerStep env s (.client c action) (s.put c state' next) :=
          .client found edge
        have serve : Serve c [.client c action] := by
          intro event member
          exact ⟨action, proceeds, own, List.mem_singleton.mp member⟩
        have received := edge.received_eq own
        rcases goesOn with answered | ⟨serving', less⟩
        · refine ⟨_, _, next, .single first, serve, ?_, Server.put_self, received, .inl answered⟩
          subst bound
          cases conn.stage <;> simp only [HandlerStage.stepsToReply, List.length_singleton] <;>
            omega
        · obtain ⟨more, t, final, run, ofHandler, within, there, still, outcome⟩ :=
            ih _ (bound ▸ less) (inv.step edge) Server.put_self serving' rfl
          refine ⟨[.client c action] ++ more, t, final, (Run.single first).trans run, ?_, ?_,
            there, still.trans received, outcome⟩
          · intro event member
            rcases List.mem_append.mp member with here | later
            · exact serve event here
            · exact ofHandler event later
          · simp only [List.length_append, List.length_singleton]
            omega

/-! ## The call returns -/

/-- A step of a call under way that breaks nothing off. -/
def LinkEvent.Proceeds : LinkEvent → Prop
  | .sent _ | .received _ | .returned _ _ => True
  | _ => False

/-- A step of the call of client `c`: of the client, of its handler or of the bytes between them. -/
def SystemEvent.Proceeds (c : C) : SystemEvent C → Prop
  | .link d event => d = c ∧ event.Proceeds
  | .server (.client d action) => d = c ∧ action.Proceeds
  | _ => False

/-- Within the number of steps of its own, the call of client `c` returns, or the response to it is
too long. -/
def System.Settles (codec : PyCodec) (env : ServerEnv) (c : C) (request : Request) (steps : ℕ)
    (s : System C) : Prop :=
  ∃ more t, Run (SystemStep codec env) s more t ∧ (∀ event ∈ more, event.Proceeds c) ∧
    more.length ≤ steps ∧
    ((∃ response, .link c (.returned request response) ∈ more ∧ (t.links c).stage = .idle) ∨
      ∃ conn, t.server.connections c = some conn ∧ conn.TooLong env request)

variable {codec : PyCodec} {s m : System C} {c : C} {event : SystemEvent C}
  {more : List (SystemEvent C)} {steps : ℕ} {response : Response}

theorem System.Settles.prepend (run : Run (SystemStep codec env) s more m)
    (proceeds : ∀ event ∈ more, event.Proceeds c) (rest : m.Settles codec env c request steps) :
    s.Settles codec env c request (more.length + steps) := by
  obtain ⟨later, t, run', proceeds', within, outcome⟩ := rest
  refine ⟨more ++ later, t, run.trans run', ?_, ?_, ?_⟩
  · intro event member
    rcases List.mem_append.mp member with earlier | member
    · exact proceeds event earlier
    · exact proceeds' event member
  · rw [List.length_append]
    exact Nat.add_le_add_left within _
  · rcases outcome with ⟨response, returned, idle⟩ | tooLong
    · exact .inl ⟨response, List.mem_append_right _ returned, idle⟩
    · exact .inr tooLong

theorem System.Settles.step (edge : SystemStep codec env s event m) (proceeds : event.Proceeds c)
    (rest : m.Settles codec env c request steps) :
    s.Settles codec env c request (steps + 1) := by
  rw [Nat.add_comm]
  refine rest.prepend (.single edge) fun other member => ?_
  rw [List.mem_singleton.mp member]
  exact proceeds

theorem System.Settles.mono {fewer : ℕ} (rest : s.Settles codec env c request fewer)
    (le : fewer ≤ steps) : s.Settles codec env c request steps := by
  obtain ⟨more, t, run, proceeds, within, outcome⟩ := rest
  exact ⟨more, t, run, proceeds, within.trans le, outcome⟩

/-- The response is read in one go, or is there already. -/
theorem settles_body {length : ℕ} {responseBytes : Bytes}
    (stage : (s.links c).stage = .readingBody request length responseBytes)
    (parts : responseBytes ++ (s.links c).toClient = env.encodeResponse response)
    (whole : length = (env.encodeResponse response).length)
    (parsed : codec.parse (env.encodeResponse response) = some response) :
    s.Settles codec env c request 2 := by
  have finish : ∀ {m : System C},
      (m.links c).stage = .readingBody request (env.encodeResponse response).length
        (env.encodeResponse response) → m.Settles codec env c request 1 := by
    intro m stage
    refine ⟨[.link c (.returned request response)], _, .single (.link (.finish stage parsed) id),
      ?_, le_rfl, .inl ⟨response, List.mem_singleton_self _, ?_⟩⟩
    · intro event member
      rw [List.mem_singleton.mp member]
      exact ⟨rfl, trivial⟩
    · rw [System.putLink_links_self]
  subst whole
  by_cases empty : (s.links c).toClient = []
  · rw [empty, List.append_nil] at parts
    rw [parts] at stage
    exact (finish stage).mono (Nat.le_succ _)
  · have within : responseBytes.length + (s.links c).toClient.length ≤
        (env.encodeResponse response).length := by
      rw [← parts, List.length_append]
    refine .step (.link (.body stage (List.append_nil _).symm empty within) id) ⟨rfl, trivial⟩ ?_
    refine finish ?_
    rw [System.putLink_links_self, parts]

theorem settles_length (stage : (s.links c).stage = .readingLength request)
    (arrived : (s.links c).toClient = frameBytes (env.encodeResponse response))
    (short : (env.encodeResponse response).length ≤ maxFrameLength)
    (parsed : codec.parse (env.encodeResponse response) = some response) :
    s.Settles codec env c request 3 := by
  have unpacked := unpackLength_beBytes (short.trans_lt (by decide))
  refine .step (.link (.length stage arrived unpacked) id) ⟨rfl, trivial⟩ ?_
  exact settles_body (by rw [System.putLink_links_self]) (by rw [System.putLink_links_self]; rfl)
    rfl parsed

/-- The handler has answered. -/
theorem settles_receive (laws : WireLaws codec env) {events : List (ServerEvent C)}
    (run : Run (ServerStep env) .init events s.server)
    (stage : (s.links c).stage = .readingLength request) (silent : (s.links c).toClient = [])
    (found : s.server.connections c = some conn) {reply : Reply}
    (answered : conn.replies[conn.received]? = some reply) :
    s.Settles codec env c request 4 := by
  have short := (connection_short run found).replies reply (List.mem_of_getElem? answered)
  refine .step (.respond (.client found (.receive answered))) ⟨rfl, trivial⟩ ?_
  refine settles_length ?_ ?_ short (laws.response _ short)
  · rw [System.putLink_links_self]
    exact stage
  · rw [System.putLink_links_self, silent, List.nil_append]

/-- Steps of the handler are steps of the system. -/
theorem Serve.lift (codec : PyCodec) {events : List (ServerEvent C)} {server : Server C}
    (serve : Serve c events)
    (run : Run (ServerStep env) s.server events server) :
    Run (SystemStep codec env) s (events.map .server) { s with server } ∧
      ∀ event ∈ events.map SystemEvent.server, event.Proceeds c := by
  constructor
  · induction run with
    | nil => exact .nil
    | snoc _ last ih =>
        rw [List.map_append]
        refine (ih fun event member => serve event (List.mem_append_left _ member)).snoc
          (.server ?_ last)
        obtain ⟨action, -, own, rfl⟩ :=
          serve _ (List.mem_append_right _ (List.mem_singleton_self _))
        cases action <;> first | exact trivial | cases own
  · intro event member
    obtain ⟨event, there, rfl⟩ := List.mem_map.mp member
    obtain ⟨action, proceeds, -, rfl⟩ := serve event there
    exact ⟨rfl, proceeds⟩

/-- The request is with the handler. -/
theorem settles_serve (laws : WireLaws codec env) {events : List (ServerEvent C)}
    (run : Run (ServerStep env) .init events s.server)
    (stage : (s.links c).stage = .readingLength request) (silent : (s.links c).toClient = [])
    (found : s.server.connections c = some conn) (serving : conn.Serving env n request)
    (received : conn.received = n) : s.Settles codec env c request (env.shards + 8) := by
  obtain ⟨more, server, conn', going, serve, within, there, same, outcome⟩ :=
    exists_reply (connection_inv run found) found serving
  obtain ⟨lifted, proceeds⟩ := serve.lift codec going
  have settled : System.Settles codec env c request 4 { s with server } := by
    rcases outcome with ⟨reply, answered⟩ | tooLong
    · rw [← received, ← same] at answered
      exact settles_receive laws (run.trans going) stage silent there answered
    · exact ⟨[], _, .nil, fun _ member => (by cases member), Nat.zero_le _,
        .inr ⟨conn', there, tooLong⟩⟩
  refine (settled.prepend lifted proceeds).mono ?_
  rw [List.length_map]
  have most : conn.stage.stepsToReply env.shards ≤ env.shards + 4 := by
    cases conn.stage <;> simp only [HandlerStage.stepsToReply] <;> omega
  omega

/-- The request is whole on its way to the server. -/
theorem settles_deliver (laws : WireLaws codec env) {events : List (ServerEvent C)}
    (run : Run (ServerStep env) .init events s.server)
    (stage : (s.links c).stage = .readingLength request)
    (sent : (s.links c).toServer = frameBytes (codec.serialize request))
    (silent : (s.links c).toClient = []) (found : s.server.connections c = some conn)
    (received : conn.received = conn.frames.length) (inLoop : conn.stage.InLoop)
    (opened : conn.ended = false) (short : (codec.serialize request).length ≤ maxFrameLength) :
    s.Settles codec env c request (env.shards + 9) := by
  have inv := connection_inv run found
  have answered : conn.replies.length = conn.frames.length := by
    have most := (Nat.le_add_right _ _).trans (inv.answered_le.trans inv.taken_le)
    have least := connection_received_le run found
    omega
  have edge : ServerStep env s.server
      (.client c (.send conn.frames.length (codec.serialize request))) _ :=
    .client found (.send _ opened)
  rw [← List.append_nil (frameBytes _)] at sent
  refine .step (.deliver sent (short.trans_lt (by decide)) edge) ⟨rfl, trivial⟩ ?_
  refine settles_serve laws (run.snoc edge) ?_ ?_ Server.put_self ⟨⟨_, ?_, short, ?_⟩, ?_, ?_⟩
    received
  · rw [System.putLink_links_self]
    exact stage
  · rw [System.putLink_links_self]
    exact silent
  · exact List.getElem?_concat_length
  · exact laws.request request short
  · exact answered
  · exact inLoop

/-- The request that a call sends. -/
def CallStage.asks : CallStage → Option Request
  | .idle => none
  | .sending request _ | .readingLength request | .readingBody request _ _ => some request

/-- **A call waits for its own handler alone.**  When the call of a client that is in touch with
the server is under way, its request within the limit of the codec and its connection not lost, at
most ten steps of the client, of its handler and of the bytes between them, and one for each shard
of the store, let the call return, or show that the response to it is over the limit.  Nothing
that the other clients, their handlers and the clean-up have left undone stands in the way. -/
theorem call_returns (laws : WireLaws codec env) {events : List (SystemEvent C)}
    (run : Run (SystemStep codec env) .init events s)
    (unbroken : ∀ error, .link c (.brokenOff error) ∉ events)
    (calling : (s.links c).stage.asks = some request)
    (found : s.server.connections c = some conn) (inLoop : conn.stage.InLoop)
    (opened : conn.ended = false) (short : (codec.serialize request).length ≤ maxFrameLength) :
    ∃ more t, Run (SystemStep codec env) s more t ∧ (∀ event ∈ more, event.Proceeds c) ∧
      more.length ≤ env.shards + 10 ∧
      ((∃ response, .link c (.returned request response) ∈ more ∧ (t.links c).stage = .idle) ∨
        ∃ conn', t.server.connections c = some conn' ∧ conn'.TooLong env request) := by
  have served := system_server_run run
  have inv := connection_inv served found
  have inTouch := inTouch_of_unbroken laws run unbroken
  have settles : ∀ {steps}, s.Settles codec env c request steps → steps ≤ env.shards + 10 →
      s.Settles codec env c request (env.shards + 10) := fun settles le => settles.mono le
  unfold Link.InTouch at inTouch
  simp only [Server.framesOf, Server.receivedOf, found, Option.elim] at inTouch
  cases stage : (s.links c).stage with
  | idle =>
      rw [stage] at calling
      cases calling
  | sending request' unsent =>
      rw [stage] at calling inTouch
      cases calling
      obtain ⟨-, received, -, more, parts, silent⟩ := inTouch
      rw [← List.append_nil unsent] at stage
      refine System.Settles.step (.link (.send stage more) id) ⟨rfl, trivial⟩ ?_
      refine settles_deliver laws served ?_ ?_ ?_ found received inLoop opened short
      · rw [System.putLink_links_self]
        rfl
      · rw [System.putLink_links_self]
        exact parts
      · rw [System.putLink_links_self]
        exact silent
  | readingLength request' =>
      rw [stage] at calling inTouch
      cases calling
      rcases inTouch with ⟨-, received, -, sent, silent⟩ |
        ⟨n, delivered, -, ⟨received, silent⟩ | ⟨reply, got, arrived⟩⟩
      · exact settles (settles_deliver laws served stage sent silent found received inLoop opened
          short) (by omega)
      · have last := delivered.last
        have frame := delivered.frame
        simp only [Server.framesOf, found, Option.elim] at last frame
        have least := connection_received_le served found
        rcases (received ▸ least).lt_or_eq with more | unanswered
        · rw [← received] at more
          exact settles (settles_receive laws served stage silent found
            (List.getElem?_eq_getElem more)) (by omega)
        · exact settles (settles_serve laws served stage silent found
            ⟨⟨_, frame, short, laws.request request short⟩, unanswered.symm, inLoop⟩ received)
            (by omega)
      · obtain ⟨-, -, -, -, fits⟩ := replied_frame served got.replied
        exact settles (settles_length stage arrived fits (laws.response _ fits)) (by omega)
  | readingBody request' length responseBytes =>
      rw [stage] at calling inTouch
      cases calling
      obtain ⟨n, reply, -, got, -, parts, whole⟩ := inTouch
      obtain ⟨-, -, -, -, fits⟩ := replied_frame served got.replied
      exact settles (settles_body stage parts whole (laws.response _ fits)) (by omega)

/-- A response over the limit is a list of keys, or one that does not fit for some store. -/
theorem Connection.TooLong.not_fits {serverEvents : List (ServerEvent C)} {server : Server C}
    (wire : env.WireLength) (run : Run (ServerStep env) .init serverEvents server)
    (found : server.connections c = some conn) (tooLong : conn.TooLong env request) :
    request.getCommandType = .commandList ∨
      ∃ timestamp store, ¬ ReplyFits timestamp request store := by
  obtain ⟨response, error, stage, failed⟩ := tooLong
  obtain ⟨n, executed⟩ : ∃ n, .client c (.exec n request response) ∈ serverEvents :=
    ⟨_, mem_actionsOf.mp ((connection_traced run found).unanswered stage)⟩
  obtain ⟨_, _, shape⟩ := List.append_of_mem executed
  rw [shape] at run
  obtain ⟨before, _, _, edge, _⟩ := run.at_event
  cases edge with
  | client here edge =>
      cases edge with
      | list _ _ isList _ => exact .inl isList
      | exec timestamp _ _ =>
          refine .inr ⟨timestamp, before.state.kvStore, fun fits => ?_⟩
          rw [← size_processCommand_le_iff, ← sendResponse_ok_iff_size wire] at fits
          obtain ⟨bytes, sent⟩ := fits
          rw [sent] at failed
          cases failed

/-- A `set` returns though another client has stopped in the middle of its request. -/
theorem call_returns_set :
    ∃ (events more : List (SystemEvent Bool)) (s t : System Bool) (request : Request),
      Run (SystemStep .proto3 (.proto3 .byLength)) .init events s ∧
        (∃ other, (s.links true).stage = .sending other [1, 24, 1, 34, 1, 97]) ∧
        request.getCommandType = .commandSet ∧ (s.links false).stage.asks = some request ∧
        Run (SystemStep .proto3 (.proto3 .byLength)) s more t ∧
        (∀ event ∈ more, event.Proceeds false) ∧ more.length ≤ 11 ∧
        ∃ response, .link false (.returned request response) ∈ more ∧
          (t.links false).stage = .idle := by
  have run := @Run.nil _ _ (SystemStep (C := Bool) .proto3 (.proto3 .byLength)) .init
    |>.snoc (@SystemStep.server _ _ _ _ _ (.accept false "a" _) _ trivial
      (@ServerStep.accept _ _ _ _ false "a" (List.replicate 16 0) _ _ rfl rfl rfl))
    |>.snoc (@SystemStep.server _ _ _ _ _ (.accept true "bc" _) _ trivial
      (@ServerStep.accept _ _ _ _ true "bc" (List.replicate 16 0) _ _ rfl rfl rfl))
    |>.snoc (@SystemStep.call _ _ _ _ _ true (.get (.ofUnicode "a")) 0
      { id := some 1, commandType := 1, key := some "a" } _ rfl rfl (by decide))
    |>.snoc (@SystemStep.link _ _ _ _ _ true _ _
      (@LinkStep.send _ _ _ _ _ [0, 0, 0, 7, 8] [1, 24, 1, 34, 1, 97] rfl (by decide)) id)
    |>.snoc (@SystemStep.call _ _ _ _ _ false (.set (.ofUnicode "a") (.int 7)) 0
      { id := some 1, commandType := 2, key := some "a", value := some ⟨some (.uintValue 7)⟩ } _
      rfl rfl (by decide))
  obtain ⟨more, t, going, proceeds, within, outcome⟩ := @call_returns _ _ _ _ _ _ _ false
    (.proto3 .byLength) _ run (by simp) rfl rfl trivial rfl (by decide)
  refine ⟨_, more, _, t, _, run, ⟨_, rfl⟩, ?isSet, rfl, going, proceeds, within, ?returned⟩
  case isSet => decide
  case returned =>
    rcases outcome with returned | ⟨conn, found, tooLong⟩
    · exact returned
    · -- the response to a `SET` is short
      rcases tooLong.not_fits (.proto3 .byLength) (system_server_run (run.trans going)) found with
        isList | ⟨timestamp, store, long⟩
      · exact absurd isList (by decide)
      · exact absurd trivial long

end Bonka
