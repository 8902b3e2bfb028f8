import Bonka.ClientValues

/-!
# Responses and requests on one connection

`_send_request` step by step, on a connection on which any call may be broken off by an exception:
the caller catches it and goes on calling, and what was under way stays on the connection.  The
server answers the frames it gets in their order, each with one response that echoes the id
(`ServerEnv.MayAnswer`), and the responses wait in `toClient` until somebody reads them.

Until the first call is broken off, the connection is empty between two calls, and a call that
returns has read the response to its own request (`returned_own_response`).  After that it may
have read an older one (`stale_response`): ids are echoed and never compared.
-/

namespace Bonka

open Proto Transition

/-! ## One connection -/

/-- Where the client is in `_send_request`. -/
inductive CallStage
  | idle
  /-- In `sendall`, with the bytes that have not been sent. -/
  | sending (request : Request) (unsent : Bytes)
  /-- At `recv(4)`. -/
  | readingLength (request : Request)
  /-- In the loop that reads the body. -/
  | readingBody (request : Request) (length : ℕ) (responseBytes : Bytes)
deriving DecidableEq, Repr

/-- A connected client, and the bytes under way in both directions. -/
structure Link where
  requestId : ℕ
  stage : CallStage
  toServer : Bytes
  toClient : Bytes
deriving DecidableEq, Repr

/-- After `connect`. -/
def Link.connected : Link where
  requestId := 0
  stage := .idle
  toServer := []
  toClient := []

inductive LinkEvent
  /-- A call starts, with its id from `_next_id`. -/
  | called (id : ℕ) (request : Request)
  /-- A call raises before it has sent a byte. -/
  | refused (error : PyError)
  | sent (bytes : Bytes)
  /-- The server answers a frame. -/
  | answered (payload : Bytes) (response : Response)
  | received (bytes : Bytes)
  /-- A call raises after its first byte was sent and before its response was read. -/
  | brokenOff (error : PyError)
  /-- A call has read a response and `ParseFromString` raises. -/
  | undecodable
  | returned (request : Request) (response : Response)
deriving DecidableEq, Repr

section

variable (codec : PyCodec) (env : ServerEnv) (answers : Bytes → Response → Prop)

/-- One step of the client, of the server or of what is under way.  A call that is broken off
leaves the connection as it is. -/
inductive LinkStep : Link → LinkEvent → Link → Prop
  | call {link : Link} {call : ClientCall} {timestamp : UInt64} {request : Request}
      {requestId : ℕ} (idle : link.stage = .idle)
      (prepared : call.prepare link.requestId timestamp = (.ok request, requestId))
      (sendable : (codec.serialize request).length < 2 ^ 32) :
      LinkStep link (.called requestId request)
        { link with requestId, stage := .sending request (frameBytes (codec.serialize request)) }
  | refuse {link : Link} {call : ClientCall} {timestamp : UInt64} {error : PyError}
      {requestId : ℕ} (idle : link.stage = .idle)
      (prepared : call.prepare link.requestId timestamp = (.error error, requestId)) :
      LinkStep link (.refused error) { link with requestId }
  | refuseLength {link : Link} {call : ClientCall} {timestamp : UInt64} {request : Request}
      {requestId : ℕ} (idle : link.stage = .idle)
      (prepared : call.prepare link.requestId timestamp = (.ok request, requestId))
      (long : 2 ^ 32 ≤ (codec.serialize request).length) :
      LinkStep link (.refused .structError) { link with requestId }
  | refuseSend {link : Link} {request : Request}
      (stage : link.stage = .sending request (frameBytes (codec.serialize request))) :
      LinkStep link (.refused .socketError) { link with stage := .idle }
  | send {link : Link} {request : Request} {bytes unsent : Bytes}
      (stage : link.stage = .sending request (bytes ++ unsent)) (nonempty : bytes ≠ []) :
      LinkStep link (.sent bytes)
        { link with
          stage := if unsent = [] then .readingLength request else .sending request unsent
          toServer := link.toServer ++ bytes }
  | breakSend {link : Link} {request : Request} {unsent : Bytes}
      (stage : link.stage = .sending request unsent)
      (begun : unsent ≠ frameBytes (codec.serialize request)) :
      LinkStep link (.brokenOff .socketError) { link with stage := .idle }
  | answer {link : Link} {payload rest : Bytes} {response : Response}
      (framed : link.toServer = frameBytes payload ++ rest)
      (accepted : payload.length ≤ maxFrameLength) (answered : answers payload response)
      (sent : (env.encodeResponse response).length ≤ maxFrameLength) :
      LinkStep link (.answered payload response)
        { link with
          toServer := rest
          toClient := link.toClient ++ frameBytes (env.encodeResponse response) }
  | length {link : Link} {request : Request} {bytes rest : Bytes} {length : ℕ}
      (stage : link.stage = .readingLength request) (arrived : link.toClient = bytes ++ rest)
      (unpacked : unpackLength bytes = some length) :
      LinkStep link (.received bytes)
        { link with stage := .readingBody request length [], toClient := rest }
  | breakLength {link : Link} {request : Request} (stage : link.stage = .readingLength request) :
      LinkStep link (.brokenOff .socketError) { link with stage := .idle }
  | cutLength {link : Link} {request : Request} {bytes rest : Bytes}
      (stage : link.stage = .readingLength request) (arrived : link.toClient = bytes ++ rest)
      (nonempty : bytes ≠ []) (cut : bytes.length < 4) :
      LinkStep link (.brokenOff .structError) { link with stage := .idle, toClient := rest }
  | body {link : Link} {request : Request} {length : ℕ} {responseBytes bytes rest : Bytes}
      (stage : link.stage = .readingBody request length responseBytes)
      (arrived : link.toClient = bytes ++ rest) (nonempty : bytes ≠ [])
      (within : responseBytes.length + bytes.length ≤ length) :
      LinkStep link (.received bytes)
        { link with
          stage := .readingBody request length (responseBytes ++ bytes), toClient := rest }
  | breakBody {link : Link} {request : Request} {length : ℕ} {responseBytes : Bytes}
      (stage : link.stage = .readingBody request length responseBytes)
      (more : responseBytes.length < length) :
      LinkStep link (.brokenOff .socketError) { link with stage := .idle }
  | finish {link : Link} {request : Request} {responseBytes : Bytes} {response : Response}
      (stage : link.stage = .readingBody request responseBytes.length responseBytes)
      (parsed : codec.parse responseBytes = some response) :
      LinkStep link (.returned request response) { link with stage := .idle }
  | undecodable {link : Link} {request : Request} {responseBytes : Bytes}
      (stage : link.stage = .readingBody request responseBytes.length responseBytes)
      (parsed : codec.parse responseBytes = none) :
      LinkStep link .undecodable { link with stage := .idle }

end

/-! ## The server of the repository -/

/-- The responses the server may give to a frame: at any time, and whatever the store holds. -/
def ServerEnv.MayAnswer (env : ServerEnv) (payload : Bytes) (response : Response) : Prop :=
  ∃ timestamp order store, response = (answerFrame env timestamp order payload store).1

/-- The server answers every frame with the id of its request. -/
def Echoes (env : ServerEnv) (answers : Bytes → Response → Prop) : Prop :=
  ∀ {payload request response}, env.decodeRequest payload = some request →
    answers payload response → response.id = request.id

theorem ServerEnv.echoes (env : ServerEnv) : Echoes env env.MayAnswer := by
  intro payload request _ decoded answered
  rcases answered with ⟨timestamp, order, store, rfl⟩
  rw [answerFrame, decoded]
  exact processCommand_id timestamp order request store

/-- A call that returns is a run of the connection that ends where it began, with nothing under
way. -/
theorem exchange_run {codec : PyCodec} {env : ServerEnv} (laws : WireLaws codec env)
    {delivery : Delivery} {serverTime timestamp : UInt64} {order : IterOrder (String × Kv.Value)}
    {client client' : BonkaClient} {call : ClientCall} {store store' : KeyValueStore}
    {response : Response} (inSync : client.socket.incoming = [])
    (returned : client.exchange codec delivery (serve env serverTime order) call timestamp store =
      (.ok response, client', store')) :
    ∃ events request,
      Run (LinkStep codec env env.MayAnswer) ⟨client.requestId, .idle, [], client.socket.incoming⟩
        (events ++ [.returned request response])
        ⟨client'.requestId, .idle, [], client'.socket.incoming⟩ := by
  obtain ⟨request, exchanged⟩ := exchange_ok laws inSync returned
  have short := exchanged.short
  have reply := exchanged.reply
  have unpacked := unpackLength_beBytes (reply.trans_lt (by decide))
  have answered : env.MayAnswer (codec.serialize request) response := by
    refine ⟨serverTime, order, store, ?_⟩
    simp only [answerFrame, laws.request request short, exchanged.answered]
  rw [inSync, exchanged.inSync]
  have asked := @Run.nil _ _ (LinkStep codec env env.MayAnswer) ⟨client.requestId, .idle, [], []⟩
    |>.snoc (.call rfl exchanged.prepared (short.trans_lt (by decide)))
    |>.snoc (@LinkStep.send _ _ _ _ request (frameBytes (codec.serialize request)) []
      (by simp) (List.ne_nil_of_length_pos (by simp)))
  have served : Run (LinkStep codec env env.MayAnswer) ⟨client.requestId, .idle, [], []⟩ _
      ⟨client'.requestId, .readingBody request (env.encodeResponse response).length [], [],
        env.encodeResponse response⟩ := asked
    |>.snoc (.answer (List.append_nil _).symm short answered reply)
    |>.snoc (@LinkStep.length _ _ _ _ _ _ (env.encodeResponse response) _ rfl rfl unpacked)
  obtain ⟨events, whole⟩ : ∃ events, Run (LinkStep codec env env.MayAnswer)
      ⟨client.requestId, .idle, [], []⟩ events
      ⟨client'.requestId, .readingBody request (env.encodeResponse response).length
        (env.encodeResponse response), [], []⟩ := by
    by_cases empty : env.encodeResponse response = []
    · rw [empty] at served ⊢
      exact ⟨_, served⟩
    · exact ⟨_, served.snoc (@LinkStep.body _ _ _ _ _ _ [] (env.encodeResponse response) [] rfl
        (List.append_nil _).symm empty (Nat.zero_add _).le)⟩
  exact ⟨events, request, whole.snoc (.finish rfl (laws.response response reply))⟩

/-! ## The call under way -/

def LinkEvent.IsCall : LinkEvent → Prop
  | .called _ _ => True
  | _ => False

/-- The frames the server has answered, with the responses. -/
def answersOf (events : List LinkEvent) : List (Bytes × Response) :=
  events.filterMap fun
    | .answered payload response => some (payload, response)
    | _ => none

/-- The last call sends `request` under its own id, and `answered` are the answers since. -/
def LastCall (events : List LinkEvent) (request : Request)
    (answered : List (Bytes × Response)) : Prop :=
  ∃ earlier id later, events = earlier ++ .called id request :: later ∧
    (∀ event ∈ later, ¬ event.IsCall) ∧ request.id = some (UInt64.ofNat id) ∧
    answersOf later = answered

theorem LastCall.snoc {events : List LinkEvent} {request : Request}
    {answered : List (Bytes × Response)} (last : LastCall events request answered)
    {event : LinkEvent} (same : ¬ event.IsCall) :
    LastCall (events ++ [event]) request (answered ++ answersOf [event]) := by
  obtain ⟨earlier, id, later, rfl, alone, own, rfl⟩ := last
  refine ⟨earlier, id, later ++ [event], by simp, ?_, own, ?_⟩
  · intro other member
    rcases List.mem_append.mp member with member | member
    · exact alone other member
    · rwa [List.mem_singleton.mp member]
  · rw [answersOf, List.filterMap_append]
    rfl

/-! ## Until a call is broken off -/

section

variable {codec : PyCodec} {env : ServerEnv} {answers : Bytes → Response → Prop}

/-- The server has given the call under way its response. -/
structure Answered (codec : PyCodec) (env : ServerEnv) (events : List LinkEvent)
    (request : Request) (response : Response) : Prop where
  last : LastCall events request [(codec.serialize request, response)]
  echo : response.id = request.id
  short : (env.encodeResponse response).length ≤ maxFrameLength

/-- What is under way belongs to the call under way. -/
def Link.InStep (codec : PyCodec) (env : ServerEnv) (events : List LinkEvent) (link : Link) :
    Prop :=
  match link.stage with
  | .idle => link.toServer = [] ∧ link.toClient = []
  | .sending request unsent =>
      LastCall events request [] ∧ (codec.serialize request).length < 2 ^ 32 ∧ unsent ≠ [] ∧
        link.toServer ++ unsent = frameBytes (codec.serialize request) ∧ link.toClient = []
  | .readingLength request =>
      LastCall events request [] ∧ (codec.serialize request).length < 2 ^ 32 ∧
          link.toServer = frameBytes (codec.serialize request) ∧ link.toClient = [] ∨
        ∃ response, Answered codec env events request response ∧ link.toServer = [] ∧
          link.toClient = frameBytes (env.encodeResponse response)
  | .readingBody request length responseBytes =>
      ∃ response, Answered codec env events request response ∧ link.toServer = [] ∧
        responseBytes ++ link.toClient = env.encodeResponse response ∧
        length = (env.encodeResponse response).length

theorem Answered.snoc {events : List LinkEvent} {request : Request} {response : Response}
    (done : Answered codec env events request response) {event : LinkEvent}
    (same : ¬ event.IsCall) (silent : answersOf [event] = []) :
    Answered codec env (events ++ [event]) request response where
  last := by
    have last := done.last.snoc same
    rwa [silent, List.append_nil] at last
  echo := done.echo
  short := done.short

/-- Part of a frame is no frame. -/
theorem not_framed_of_part {payload payload' rest sent unsent : Bytes}
    (short : payload.length < 2 ^ 32) (short' : payload'.length < 2 ^ 32)
    (parts : sent ++ unsent = frameBytes payload) (more : unsent ≠ []) :
    sent ≠ frameBytes payload' ++ rest := by
  intro equal
  subst equal
  rw [List.append_assoc, ← List.append_nil (frameBytes payload)] at parts
  have empty := (frameBytes_append_inj short' short parts).2
  exact more (List.append_eq_nil_iff.mp empty).2

/-- A step that breaks nothing off keeps the two sides in step. -/
theorem Link.InStep.step (laws : WireLaws codec env) (echoes : Echoes env answers)
    {events : List LinkEvent} {link link' : Link} {event : LinkEvent}
    (inStep : link.InStep codec env events) (step : LinkStep codec env answers link event link')
    (unbroken : ∀ error, event ≠ .brokenOff error) :
    link'.InStep codec env (events ++ [event]) := by
  unfold InStep at inStep ⊢
  cases step with
  | call idle prepared sendable =>
      rw [idle] at inStep
      refine ⟨⟨events, _, [], rfl, by simp, ClientCall.prepare_id prepared, rfl⟩, sendable, ?_,
        by simp [inStep.1], inStep.2⟩
      exact List.ne_nil_of_length_pos (by simp)
  | refuse idle | refuseLength idle =>
      rw [idle] at inStep
      dsimp only
      rwa [idle]
  | refuseSend stage =>
      rw [stage] at inStep
      obtain ⟨-, -, -, parts, toClient⟩ := inStep
      exact ⟨List.append_left_eq_self.mp parts, toClient⟩
  | @send request bytes unsent stage nonempty =>
      rw [stage] at inStep
      obtain ⟨last, sendable, -, parts, toClient⟩ := inStep
      have last : LastCall (events ++ [.sent bytes]) request [] := last.snoc id
      rw [← List.append_assoc] at parts
      by_cases done : unsent = []
      · simp only [if_pos done]
        rw [done, List.append_nil] at parts
        exact .inl ⟨last, sendable, parts, toClient⟩
      · simp only [if_neg done]
        exact ⟨last, sendable, done, parts, toClient⟩
  | @answer payload rest response framed accepted answered sent =>
      have short : payload.length < 2 ^ 32 := accepted.trans_lt (by decide)
      have silent : link.toServer ≠ [] := by
        rw [framed]
        exact List.ne_nil_of_length_pos (by simp)
      cases stage : link.stage with
      | idle =>
          rw [stage] at inStep
          exact absurd inStep.1 silent
      | sending request unsent =>
          rw [stage] at inStep
          obtain ⟨-, sendable, more, parts, -⟩ := inStep
          exact absurd framed (not_framed_of_part sendable short parts more)
      | readingBody request length responseBytes =>
          rw [stage] at inStep
          obtain ⟨-, -, toServer, -⟩ := inStep
          exact absurd toServer silent
      | readingLength request =>
          rw [stage] at inStep
          rcases inStep with ⟨last, sendable, toServer, toClient⟩ | ⟨-, -, toServer, -⟩
          · -- the frame is the whole request of the call under way
            rw [toServer, ← List.append_nil (frameBytes _)] at framed
            obtain ⟨rfl, rfl⟩ := frameBytes_append_inj sendable short framed
            have echo := echoes (laws.request request accepted) answered
            refine .inr ⟨response, ⟨last.snoc id, echo, sent⟩, rfl, ?_⟩
            rw [toClient, List.nil_append]
          · exact absurd toServer silent
  | @length request bytes rest length stage arrived unpacked =>
      rw [stage] at inStep
      have four : bytes.length = 4 := by
        unfold unpackLength at unpacked
        split at unpacked
        · assumption
        · cases unpacked
      rcases inStep with ⟨-, -, -, toClient⟩ | ⟨response, done, toServer, toClient⟩
      · rw [toClient] at arrived
        have empty := (List.append_eq_nil_iff.mp arrived.symm).1
        simp [empty] at four
      · rw [arrived, frameBytes] at toClient
        obtain ⟨rfl, rfl⟩ := List.append_inj toClient (by rw [four, Wire.length_beBytes])
        rw [unpackLength_beBytes (done.short.trans_lt (by decide))] at unpacked
        cases unpacked
        exact ⟨response, done.snoc id rfl, toServer, rfl, rfl⟩
  | body stage arrived nonempty within =>
      rw [stage] at inStep
      obtain ⟨response, done, toServer, parts, length⟩ := inStep
      refine ⟨response, done.snoc id rfl, toServer, ?_, length⟩
      rw [List.append_assoc, ← arrived, parts]
  | finish stage | undecodable stage =>
      rw [stage] at inStep
      obtain ⟨response, done, toServer, parts, length⟩ := inStep
      have none : link.toClient.length = 0 := by
        rw [← parts, List.length_append] at length
        omega
      exact ⟨toServer, List.eq_nil_of_length_eq_zero none⟩
  | breakSend | breakLength | cutLength | breakBody => exact absurd rfl (unbroken _)

/-- Until a call is broken off, the two sides are in step. -/
theorem inStep_of_unbroken (laws : WireLaws codec env) (echoes : Echoes env answers)
    {events : List LinkEvent} {link : Link}
    (run : Run (LinkStep codec env answers) .connected events link)
    (unbroken : ∀ error, LinkEvent.brokenOff error ∉ events) : link.InStep codec env events := by
  induction run with
  | nil => exact ⟨rfl, rfl⟩
  | snoc before last ih =>
      simp only [List.mem_append, List.mem_singleton, not_or] at unbroken
      exact (ih fun error => (unbroken error).1).step laws echoes last
        fun error same => (unbroken error).2 same.symm

/-- **Until a call is broken off, every call that returns has its own response.**  It is the
server's only answer since the call began, the answer to the call's request, and its id is the one
`_next_id` gave the call. -/
theorem returned_own_response (laws : WireLaws codec env) (echoes : Echoes env answers)
    {events : List LinkEvent} {link : Link}
    (run : Run (LinkStep codec env answers) .connected events link)
    {before after : List LinkEvent} {request : Request} {response : Response}
    (returned : events = before ++ .returned request response :: after)
    (unbroken : ∀ error, LinkEvent.brokenOff error ∉ before) :
    ∃ earlier id later, before = earlier ++ .called id request :: later ∧
      (∀ event ∈ later, ¬ event.IsCall) ∧
      answersOf later = [(codec.serialize request, response)] ∧
      response.id = some (UInt64.ofNat id) := by
  subst returned
  obtain ⟨link, _, run, step, -⟩ := run.at_event
  have inStep := inStep_of_unbroken laws echoes run unbroken
  unfold Link.InStep at inStep
  cases step with
  | finish stage parsed =>
      rw [stage] at inStep
      obtain ⟨own, done, -, parts, length⟩ := inStep
      have none : link.toClient.length = 0 := by
        rw [← parts, List.length_append] at length
        omega
      rw [List.eq_nil_of_length_eq_zero none, List.append_nil] at parts
      rw [parts, laws.response own done.short] at parsed
      cases parsed
      obtain ⟨earlier, id, later, split, alone, sentId, answered⟩ := done.last
      exact ⟨earlier, id, later, split, alone, answered, done.echo.trans sentId⟩

/-- `set("a", 7)` returns, and the `get("a")` after it returns that 7, in the response with its own
id. -/
theorem returned_own_response_get :
    ∃ before link,
      Run (LinkStep .proto3 (.proto3 .byLength) (ServerEnv.proto3 .byLength).MayAnswer) .connected
        (before ++ [.returned { id := some 2, commandType := 1, key := some "a" }
          { id := some 2, resultType := 1, value := some ⟨some (.uintValue 7)⟩ }]) link ∧
      .returned
        { id := some 1, commandType := 2, key := some "a", value := some ⟨some (.uintValue 7)⟩ }
        { id := some 1, resultType := 2 } ∈ before ∧
      ∃ earlier id later,
        before =
          earlier ++ .called id { id := some 2, commandType := 1, key := some "a" } :: later ∧
        (∀ event ∈ later, ¬ event.IsCall) ∧
        answersOf later = [([8, 2, 24, 1, 34, 1, 97],
          { id := some 2, resultType := 1, value := some ⟨some (.uintValue 7)⟩ })] ∧
        some 2 = some (UInt64.ofNat id) := by
  have run := @Run.nil _ _
      (LinkStep .proto3 (.proto3 .byLength) (ServerEnv.proto3 .byLength).MayAnswer) .connected
    |>.snoc (@LinkStep.call _ _ _ _ (.set (.ofUnicode "a") (.int 7)) 0
      { id := some 1, commandType := 2, key := some "a", value := some ⟨some (.uintValue 7)⟩ } 1
      rfl rfl (by decide))
    |>.snoc (@LinkStep.send _ _ _ _ _ (frameBytes [8, 1, 24, 2, 34, 1, 97, 42, 2, 32, 7]) [] rfl
      (by decide))
    |>.snoc (@LinkStep.answer _ _ _ _ [8, 1, 24, 2, 34, 1, 97, 42, 2, 32, 7] [] _ rfl (by decide)
      ⟨0, default, .new, rfl⟩ (by decide))
    |>.snoc (@LinkStep.length _ _ _ _ _ [0, 0, 0, 4] _ _ rfl rfl rfl)
    |>.snoc (@LinkStep.body _ _ _ _ _ _ _ [8, 1, 24, 2] [] rfl rfl (by decide) (by decide))
    |>.snoc (@LinkStep.finish _ _ _ _ _ [8, 1, 24, 2] { id := some 1, resultType := 2 } rfl rfl)
    |>.snoc (@LinkStep.call _ _ _ _ (.get (.ofUnicode "a")) 0
      { id := some 2, commandType := 1, key := some "a" } 2 rfl rfl (by decide))
    |>.snoc (@LinkStep.send _ _ _ _ _ (frameBytes [8, 2, 24, 1, 34, 1, 97]) [] rfl (by decide))
    |>.snoc (@LinkStep.answer _ _ _ _ [8, 2, 24, 1, 34, 1, 97] [] _ rfl (by decide)
      ⟨0, default, KeyValueStore.new.set "a" (.uint 7), rfl⟩ (by decide))
    |>.snoc (@LinkStep.length _ _ _ _ _ [0, 0, 0, 8] _ _ rfl rfl rfl)
    |>.snoc (@LinkStep.body _ _ _ _ _ _ _ [8, 2, 24, 1, 34, 2, 32, 7] [] rfl rfl (by decide)
      (by decide))
    |>.snoc (@LinkStep.finish _ _ _ _ _ [8, 2, 24, 1, 34, 2, 32, 7]
      { id := some 2, resultType := 1, value := some ⟨some (.uintValue 7)⟩ } rfl rfl)
  exact ⟨_, _, run, by simp, @returned_own_response _ _ _ (.proto3 _) (ServerEnv.echoes _) _ _ run
    _ [] _ _ rfl (by simp)⟩

/-- `get("a")` times out, and the `get("b")` after it returns the 7 that is stored under `a`. -/
theorem stale_response :
    ∃ events link request response,
      Run (LinkStep .proto3 (.proto3 .byLength) (ServerEnv.proto3 .byLength).MayAnswer) .connected
        (events ++ [.returned request response]) link ∧
      request.key = some "b" ∧ request.id = some 2 ∧
      response.id = some 1 ∧ response.value = some ⟨some (.uintValue 7)⟩ := by
  have run := @Run.nil _ _
      (LinkStep .proto3 (.proto3 .byLength) (ServerEnv.proto3 .byLength).MayAnswer) .connected
    |>.snoc (@LinkStep.call _ _ _ _ (.get ⟨[97]⟩) 0 _ _ rfl rfl (by decide))
    |>.snoc (@LinkStep.send _ _ _ _ _ [0, 0, 0, 7, 8, 1, 24, 1, 34, 1, 97] [] rfl (by decide))
    |>.snoc (.breakLength rfl)
    |>.snoc (@LinkStep.answer _ _ _ _ [8, 1, 24, 1, 34, 1, 97] [] _ rfl (by decide)
      ⟨0, default, KeyValueStore.new.set "a" (.uint 7), rfl⟩ (by decide))
    |>.snoc (@LinkStep.call _ _ _ _ (.get ⟨[98]⟩) 0 _ _ rfl rfl (by decide))
    |>.snoc (@LinkStep.send _ _ _ _ _ [0, 0, 0, 7, 8, 2, 24, 1, 34, 1, 98] [] rfl (by decide))
    |>.snoc (@LinkStep.length _ _ _ _ _ [0, 0, 0, 8] _ _ rfl rfl rfl)
    |>.snoc (@LinkStep.body _ _ _ _ _ _ _ [8, 1, 24, 1, 34, 2, 32, 7] [] rfl rfl (by decide)
      (by decide))
    |>.snoc (@LinkStep.finish _ _ _ _ _ [8, 1, 24, 1, 34, 2, 32, 7] _ rfl rfl)
  exact ⟨_, _, _, _, run, rfl, rfl, rfl, rfl⟩

end

end Bonka
