import Bonka.ClientServer
import Bonka.ServerLinear

/-!
# Calls of Python clients on one map

What the callers of any number of `BonkaClient`s see is one map.  The requests that the server has
run are an order of their calls in which `get` returns the value of its key, `set` writes it,
`delete` says whether the key was there, and a call that has returned comes before every call that
is started later (`client_calls_linearizable`).

A client is left out from the moment one of its calls is broken off: what was under way stays on
its connection, and a later call may be given the answer.  The others are not disturbed by it.
-/

namespace Bonka

open Proto Transition Linearization

variable {C : Type}

/-! ## What a call does to the map -/

/-- A call on the map `m` that gets `response`, and the map after it.  `list` reads no snapshot. -/
inductive PyStep (m : String → Option Proto.Value) :
    ClientCall → Response → (String → Option Proto.Value) → Prop
  | get {key : PyStr} {text : String} {response : Response} :
    key.toUnicode = some text → getResult response = .ok ((m text).bind pyValue) →
    PyStep m (.get key) response m
  | set {key : PyStr} {text : String} {value : PyValue} {proto : Proto.Value}
    {response : Response} :
    key.toUnicode = some text → protoValue value = .ok proto → setResult response = .ok () →
    PyStep m (.set key value) response (Function.update m text (some proto))
  | delete {key : PyStr} {text : String} {response : Response} :
    key.toUnicode = some text → deleteResult response = (m text).isSome →
    PyStep m (.delete key) response (Function.update m text none)
  | list {keys : List PyStr} {response : Response} :
    listResult response = .ok keys → PyStep m .list response m

theorem buildRequest_command {id : ℕ} {timestamp : UInt64} {command : CommandType}
    {key : Option PyStr} {value : Option Proto.Value} {request : Request}
    (built : buildRequest id timestamp command key value = .ok request) :
    request.getCommandType = command ∧ request.value = value := by
  unfold buildRequest at built
  split at built
  · split at built
    · cases built
      exact ⟨by simp [Request.getCommandType], rfl⟩
    · split at built <;> cases built
      exact ⟨by simp [Request.getCommandType], rfl⟩
  · cases built

theorem buildRequest_key {id : ℕ} {timestamp : UInt64} {command : CommandType} {key : PyStr}
    {value : Option Proto.Value} {request : Request}
    (built : buildRequest id timestamp command (some key) value = .ok request) :
    ∃ text, key.toUnicode = some text ∧ request.key = some text := by
  unfold buildRequest at built
  split at built
  · dsimp only at built
    split at built <;> cases built
    exact ⟨_, ‹_›, rfl⟩
  · cases built

/-- What the map says of a request is what the call that sent it returns. -/
theorem AnsweredBy.pyStep {m : String → Option Proto.Value} {served : Served C}
    (answered : AnsweredBy m served)
    (listed : served.request.getCommandType = .commandList →
      served.response.getResultType = .resultKeys)
    {call : ClientCall} {requestId next : ℕ} {timestamp : UInt64}
    (prepared : call.prepare requestId timestamp = (.ok served.request, next)) :
    PyStep m call served.response (absorb m served) := by
  cases call with
  | get key =>
      have built := (Prod.mk.inj prepared).1
      obtain ⟨command, -⟩ := buildRequest_command built
      obtain ⟨text, unicode, found⟩ := buildRequest_key built
      obtain ⟨result, value⟩ := answered.get command found
      have same : absorb m served = m := by simp [absorb, command]
      rw [same]
      refine .get unicode ?_
      unfold getResult
      rw [result, value]
      cases m text <;> rfl
  | set key value =>
      unfold ClientCall.prepare at prepared
      dsimp only at prepared
      split at prepared
      · rename_i proto converted
        have built := (Prod.mk.inj prepared).1
        obtain ⟨command, carried⟩ := buildRequest_command built
        obtain ⟨text, unicode, found⟩ := buildRequest_key built
        have result := answered.set command found carried
        have written : absorb m served = Function.update m text (some proto) := by
          simp [absorb, command, found, carried, result]
        rw [written]
        exact .set unicode converted (by rw [setResult, result])
      · cases prepared
  | delete key =>
      have built := (Prod.mk.inj prepared).1
      obtain ⟨command, -⟩ := buildRequest_command built
      obtain ⟨text, unicode, found⟩ := buildRequest_key built
      have present := answered.delete command found
      by_cases success : served.response.getResultType = .resultSuccess
      · have removed : absorb m served = Function.update m text none := by
          simp [absorb, command, found, success]
        rw [removed]
        exact .delete unicode (by rw [deleteResult, success, present.mp success])
      · -- nothing was there to remove
        have absent : m text = none := by
          simpa [success] using present
        have same : absorb m served = Function.update m text none := by
          rw [← absent, Function.update_eq_self]
          simp [absorb, command, found, success]
        rw [same]
        refine .delete unicode ?_
        unfold deleteResult
        rw [absent]
        split
        · exact absurd ‹_› success
        · rfl
        · rfl
  | list =>
      have built := (Prod.mk.inj prepared).1
      obtain ⟨command, -⟩ := buildRequest_command built
      have same : absorb m served = m := by simp [absorb, command]
      rw [same]
      exact .list (by rw [listResult, listed command])

section

variable [DecidableEq C] {env : ServerEnv} {sent : List (ServerEvent C)} {server : Server C}

/-- A `LIST` is answered with keys. -/
theorem exec_list (run : Run (ServerStep env) .init sent server) {c : C} {n : ℕ}
    {request : Request} {response : Response}
    (executed : .client c (.exec n request response) ∈ sent)
    (command : request.getCommandType = .commandList) :
    response.getResultType = .resultKeys := by
  obtain ⟨xs, ys, shape⟩ := List.append_of_mem executed
  rw [shape] at run
  obtain ⟨before, after, -, edge, -⟩ := run.at_event
  cases edge with
  | client found edge =>
      cases edge with
      | list => exact getResultType_createKeysResponse _ _ _
      | exec _ _ other => exact absurd command other

/-- The request of a call that the server has run. -/
theorem served_pyStep (run : Run (ServerStep env) .init sent server) {served : Served C}
    {before after : List (Served C)} (shape : servedOf sent = before ++ served :: after)
    {call : ClientCall} {requestId next : ℕ} {timestamp : UInt64}
    (prepared : call.prepare requestId timestamp = (.ok served.request, next)) :
    PyStep (replay before) call served.response (replay (before ++ [served])) := by
  have answered := (store_replays run).2 before served after shape
  have executed : served ∈ servedOf sent := by
    rw [shape]
    exact List.mem_append_right _ (List.mem_cons_self ..)
  have step := answered.pyStep (exec_list run (mem_servedOf.mp executed)) prepared
  have grown : replay (before ++ [served]) = absorb (replay before) served := by
    rw [replay, List.foldl_append, replay]
    rfl
  rw [grown]
  exact step

end

/-! ## The order of the calls -/

/-- No call of the client has been broken off. -/
def Unbroken (c : C) (events : List (SystemEvent C)) : Prop :=
  ∀ error, .link c (.brokenOff error) ∉ events

theorem Unbroken.of_append {c : C} {xs ys : List (SystemEvent C)}
    (unbroken : Unbroken c (xs ++ ys)) : Unbroken c xs :=
  fun error member => unbroken error (List.mem_append_left _ member)

variable [DecidableEq C]

/-- `order` is a run of the map in which the calls of `events` can be thought to have been made one
after the other. -/
structure CallSerialization (events : List (SystemEvent C)) (order : List (Served C)) : Prop where
  nodup : (order.map Served.op).Nodup
  /-- The requests that the server has run take effect, and nothing else. -/
  executed : ∀ {served}, served ∈ order ↔
    .server (.client served.conn (.exec served.number served.request served.response)) ∈ events
  /-- A call that has returned has taken effect, as the response says. -/
  returned : ∀ {xs ys c request response},
    events = xs ++ .link c (.returned request response) :: ys → Unbroken c xs →
    ∃ earlier call later before after, xs = earlier ++ .call c call request :: later ∧
      (∀ event ∈ later, ¬ event.Boundary c) ∧
      order = before ++ ⟨c, returns c xs, request, response⟩ :: after ∧
      PyStep (replay before) call response
        (replay (before ++ [⟨c, returns c xs, request, response⟩]))
  /-- What takes effect is a call that has been started, returned or not. -/
  started : ∀ {before served after}, order = before ++ served :: after →
    Unbroken served.conn events →
    ∃ earlier call later, events = earlier ++ .call served.conn call served.request :: later ∧
      returns served.conn earlier = served.number ∧
      PyStep (replay before) call served.response (replay (before ++ [served]))
  /-- A call that has returned before another is started takes effect before it. -/
  realTime : ∀ {xs ys zs c request response d call request'},
    events = xs ++ .link c (.returned request response) :: ys ++ .call d call request' :: zs →
    Unbroken c xs → Unbroken d (xs ++ .link c (.returned request response) :: ys) →
    (d, returns d (xs ++ .link c (.returned request response) :: ys)) ∈ order.map Served.op →
    [(c, returns c xs), (d, returns d (xs ++ .link c (.returned request response) :: ys))].Sublist
      (order.map Served.op)

variable {codec : PyCodec} {env : ServerEnv} {s s' : System C} {events : List (SystemEvent C)}
  {c : C} {request : Request} {response : Response}

/-- What a returning call has behind it. -/
structure Returning (codec : PyCodec) (env : ServerEnv) (events : List (SystemEvent C)) (c : C)
    (request : Request) (response : Response) : Prop where
  asked : Asked events c (returns c events) request
  received : .server (.client c (.receive (returns c events) ⟨some request, response⟩)) ∈ events
  executed : .server (.client c (.exec (returns c events) request response)) ∈ events

theorem returning (laws : WireLaws codec env) (run : Run (SystemStep codec env) .init events s)
    (unbroken : Unbroken c events)
    (edge : SystemStep codec env s (.link c (.returned request response)) s') :
    Returning codec env events c request response := by
  have inTouch := inTouch_of_unbroken laws run unbroken
  have served := system_server_run run
  cases edge with
  | link edge _ =>
      cases edge with
      | finish stage parsed =>
          unfold Link.InTouch at inTouch
          rw [stage] at inTouch
          obtain ⟨n, ⟨decoded, answer⟩, delivered, received, -, parts, length⟩ := inTouch
          obtain ⟨frame, here, decodes, fits, short⟩ := replied_frame served received.replied
          have empty : (s.links c).toClient.length = 0 := by
            rw [← parts, List.length_append] at length
            omega
          rw [List.eq_nil_of_length_eq_zero empty, List.append_nil] at parts
          rw [parts, laws.response _ short] at parsed
          cases parsed
          rw [delivered.frame] at here
          cases here
          rw [laws.request _ fits] at decodes
          cases decodes
          have count := delivered.asked.returns_eq
          subst count
          refine ⟨delivered.asked, received.event, ?_⟩
          obtain ⟨conn, found⟩ := exists_connection served (mem_serverEvents.mpr received.event)
          have traced := connection_traced served found
          have replied := traced.received (mem_actionsOf.mpr (mem_serverEvents.mpr received.event))
          exact mem_serverEvents.mp (mem_actionsOf.mp (traced.answered replied))

/-- A frame of a client in touch with the server is the request of the call of its number. -/
theorem sent_asked (laws : WireLaws codec env) (run : Run (SystemStep codec env) .init events s)
    {n : ℕ} {payload : Bytes} (unbroken : Unbroken c events)
    (edge : SystemStep codec env s (.server (.client c (.send n payload))) s') :
    ∃ request, Asked events c n request ∧ payload = codec.serialize request := by
  have inTouch := inTouch_of_unbroken laws run unbroken
  cases edge with
  | server inside => exact inside.elim
  | deliver framed short edge =>
      obtain ⟨rfl, -⟩ := edge.sent
      obtain ⟨request, -, same, -, asked, -⟩ := inTouch.framed framed short
      exact ⟨request, asked, same⟩

/-- What takes effect as a call was sent after the call was started. -/
theorem sent_after_call (laws : WireLaws codec env) {call : ClientCall}
    {later : List (SystemEvent C)}
    (run : Run (SystemStep codec env) .init (events ++ .call c call request :: later) s)
    (unbroken : Unbroken c events) {other : Request}
    (executed : .client c (.exec (returns c events) other response) ∈
      serverEvents (events ++ .call c call request :: later)) :
    ∃ frame, .client c (.send (returns c events) frame) ∈ serverEvents later := by
  obtain ⟨frame, sent, -⟩ := executed_frame (system_server_run run) executed
  obtain ⟨before, after, left, edge, -⟩ := run.at_event
  refine ⟨frame, ?_⟩
  rcases List.mem_append.mp (mem_serverEvents.mp sent) with early | late
  · have inTouch := inTouch_of_unbroken laws left unbroken
    have served := system_server_run left
    obtain ⟨conn, found⟩ := exists_connection served (mem_serverEvents.mpr early)
    have here := (connection_traced served found).sent.mp
      (mem_actionsOf.mpr (mem_serverEvents.mpr early))
    have less := (List.getElem?_eq_some_iff.mp here).1
    cases edge with
    | call idle =>
        unfold Link.InTouch at inTouch
        rw [idle] at inTouch
        have count := inTouch.1
        simp only [Server.framesOf, found, Option.elim] at count
        omega
  · rcases List.mem_cons.mp late with same | late
    · cases same
    · exact mem_serverEvents.mpr late

/-- **The callers of any number of Python clients see one map.**  In every run of the clients and
the server, the requests the server has run, and no others, are an order of the calls that explains
every response and respects real time. -/
theorem client_calls_linearizable (laws : WireLaws codec env)
    (run : Run (SystemStep codec env) .init events s) :
    ∃ order, CallSerialization events order := by
  have served := system_server_run run
  have wf := requestPhases_wellFormed served
  refine ⟨servedOf (serverEvents events), ?_, mem_servedOf.trans mem_serverEvents, ?_, ?_, ?_⟩
  · rw [← commitOrder_eq]
    exact wf.committedOnce
  · intro xs ys c request response shape unbroken
    subst shape
    obtain ⟨before, after, left, edge, -⟩ := run.at_event
    have behind := returning laws left unbroken edge
    obtain ⟨earlier, call, later, split, alone, -, _, _, _, prepared⟩ := behind.asked
    have ran : ⟨c, returns c xs, request, response⟩ ∈
        servedOf (serverEvents (xs ++ .link c (.returned request response) :: ys)) :=
      mem_servedOf.mpr (mem_serverEvents.mpr (List.mem_append_left _ behind.executed))
    obtain ⟨before, after, order⟩ := List.append_of_mem ran
    exact ⟨earlier, call, later, before, after, split, alone, order,
      served_pyStep served order prepared⟩
  · intro before entry after order unbroken
    have ran : entry ∈ servedOf (serverEvents events) := by
      rw [order]
      exact List.mem_append_right _ (List.mem_cons_self ..)
    obtain ⟨frame, sent, decoded, fits⟩ := executed_frame served (mem_servedOf.mp ran)
    obtain ⟨xs, ys, shape⟩ := List.append_of_mem (mem_serverEvents.mp sent)
    subst shape
    obtain ⟨_, _, left, edge, -⟩ := run.at_event
    obtain ⟨request, asked, rfl⟩ := sent_asked laws left unbroken.of_append edge
    rw [laws.request _ fits] at decoded
    cases decoded
    obtain ⟨earlier, call, later, rfl, -, count, _, _, _, prepared⟩ := asked
    exact ⟨earlier, call, _, by rw [List.append_assoc, List.cons_append], count,
      served_pyStep served order prepared⟩
  · intro xs ys zs c request response d call request' shape unbroken unbroken' ran
    subst shape
    obtain ⟨_, _, untilCall, calling, -⟩ := run.at_event
    obtain ⟨_, _, untilReturn, answering, -⟩ := untilCall.at_event
    have received := (returning laws untilReturn unbroken answering).received
    rw [← commitOrder_eq] at ran ⊢
    obtain ⟨_, _, executed⟩ := mem_committed.mp ran
    obtain ⟨frame, sent⟩ := sent_after_call laws run unbroken' executed
    have before : requestPhases.Precedes
        (serverEvents xs ++ serverEvents ys ++ serverEvents zs) _ _ :=
      Phases.precedes_of_mem (mem_serverEvents.mpr received) sent rfl rfl
    refine wf.commit_order_realTime ?_ ran
    simpa only [serverEvents_append, serverEvents_link, serverEvents_call] using before

/-- `set("a", 7)` from one of two clients. -/
theorem client_calls_linearizable_set :
    ∃ (events : List (SystemEvent Bool)) (s : System Bool) (order : List (Served Bool)),
      Run (SystemStep .proto3 (.proto3 .byLength)) .init events s ∧
        CallSerialization events order ∧
        ∃ served ∈ order, served.conn = false ∧ served.number = 0 := by
  have run := @Run.nil _ _ (SystemStep (C := Bool) .proto3 (.proto3 .byLength)) .init
    |>.snoc (@SystemStep.server _ _ _ _ _ (.accept false "a" _) _ trivial
      (@ServerStep.accept _ _ _ _ false "a" (List.replicate 16 0) _ _ rfl rfl rfl))
    |>.snoc (@SystemStep.call _ _ _ _ _ false (.set (.ofUnicode "a") (.int 7)) 0
      { id := some 1, commandType := 2, key := some "a", value := some ⟨some (.uintValue 7)⟩ } _
      rfl rfl (by decide))
    |>.snoc (@SystemStep.link _ _ _ _ _ false _ _
      (@LinkStep.send _ _ _ _ _ (frameBytes [8, 1, 24, 2, 34, 1, 97, 42, 2, 32, 7]) [] rfl
        (by decide)) id)
    |>.snoc (@SystemStep.deliver _ _ _ _ _ false _ [8, 1, 24, 2, 34, 1, 97, 42, 2, 32, 7] [] _ rfl
      (by decide) (.client rfl (.send _ rfl)))
    |>.snoc (@SystemStep.server _ _ _ _ _ (.client false (.read _ _)) _ trivial
      (.client Server.put_self (.read rfl rfl (by decide) rfl)))
    |>.snoc (@SystemStep.server _ _ _ _ _ (.client false (.touch _)) _ trivial
      (.client Server.put_self (.touch rfl)))
    |>.snoc (@SystemStep.server _ _ _ _ _ (.client false (.exec _ _ _)) _ trivial
      (.client Server.put_self (.exec 0 rfl (by decide))))
    |>.snoc (@SystemStep.server _ _ _ _ _ (.client false (.reply _ _)) _ trivial
      (.client Server.put_self (.reply rfl rfl)))
    |>.snoc (@SystemStep.respond _ _ _ _ _ false _ _ _ (.client Server.put_self (.receive rfl)))
    |>.snoc (@SystemStep.link _ _ _ _ _ false _ _
      (@LinkStep.length _ _ _ _ _ [0, 0, 0, 4] [8, 1, 24, 2] _ rfl rfl rfl) id)
    |>.snoc (@SystemStep.link _ _ _ _ _ false _ _
      (@LinkStep.body _ _ _ _ _ _ [] [8, 1, 24, 2] [] rfl rfl (by decide) (by decide)) id)
    |>.snoc (@SystemStep.link _ _ _ _ _ false _ _
      (@LinkStep.finish _ _ _ _ _ [8, 1, 24, 2] { id := some 1, resultType := 2 } rfl rfl) id)
  obtain ⟨order, serial⟩ := client_calls_linearizable (.proto3 .byLength) run
  obtain ⟨_, _, _, before, after, -, -, shape, -⟩ :=
    serial.returned rfl fun error => by simp
  exact ⟨_, _, order, run, serial, _, shape ▸ List.mem_append_right _ (List.mem_cons_self ..), rfl,
    rfl⟩

end Bonka
