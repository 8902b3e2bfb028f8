import Bonka.Lib.Linearization
import Bonka.ConnectionRuns

/-!
# The store as one map

Seen from the clients, the server is one map from keys to protobuf values.  Requests take effect
one at a time, when `process_command` runs them (`Served`); folding them in that order from the
empty map (`absorb`) predicts every response to `GET`, `SET` and `DELETE` (`AnsweredBy`).  The
order respects the order of the frames of each connection and the order in real time, so every run
of the server is one of the map (`exists_serialization`).
-/

namespace Bonka

open Proto Transition Linearization

/-- A request that `process_command` has run, with its response: `number` counts the frames of the
connection. -/
structure Served (C : Type) where
  conn : C
  number : ℕ
  request : Request
  response : Response

variable {C : Type}

/-! ## The map -/

/-- The map after a served request: a successful `SET` writes its value and a successful `DELETE`
removes its key. -/
def absorb (m : String → Option Proto.Value) (served : Served C) : String → Option Proto.Value :=
  match served.request.getCommandType, served.request.key, served.request.value with
  | .commandSet, some key, some value =>
      if served.response.getResultType = .resultSuccess then Function.update m key (some value)
      else m
  | .commandDelete, some key, _ =>
      if served.response.getResultType = .resultSuccess then Function.update m key none else m
  | _, _, _ => m

/-- The map after the served requests, from the empty one. -/
def replay (order : List (Served C)) : String → Option Proto.Value :=
  order.foldl absorb fun _ => none

/-- What the map says of the response: a `GET` returns the value of its key, present or not, a
`SET` succeeds, and a `DELETE` succeeds when its key is present. -/
structure AnsweredBy (m : String → Option Proto.Value) (served : Served C) : Prop where
  get : ∀ {key}, served.request.getCommandType = .commandGet → served.request.key = some key →
    served.response.getResultType = .resultValue ∧ served.response.value = m key
  set : ∀ {key value}, served.request.getCommandType = .commandSet →
    served.request.key = some key → served.request.value = some value →
    served.response.getResultType = .resultSuccess
  delete : ∀ {key}, served.request.getCommandType = .commandDelete →
    served.request.key = some key →
    (served.response.getResultType = .resultSuccess ↔ (m key).isSome)

section

variable (c : C) (n : ℕ) (timestamp : UInt64) (order : IterOrder (String × Kv.Value))
  (request : Request) (store : KeyValueStore)

/-- `process_command` answers as the map does. -/
theorem processCommand_answeredBy :
    AnsweredBy store.view ⟨c, n, request, (processCommand timestamp order request store).1⟩ := by
  constructor
  · intro key command found
    dsimp only at command found ⊢
    simp only [processCommand, command, handleGetCommand, found]
    exact ⟨rfl, rfl⟩
  · intro key value command found carried
    dsimp only at command found carried ⊢
    simp only [processCommand, command, handleSetCommand, found, carried]
    rfl
  · intro key command found
    dsimp only at command found ⊢
    simp only [processCommand, command, handleDeleteCommand, found, ← KeyValueStore.delete_fst]
    split <;> rename_i shape <;> simp [shape]

/-- `process_command` changes the store as the map changes. -/
theorem processCommand_view :
    (processCommand timestamp order request store).2.view =
      absorb store.view ⟨c, n, request, (processCommand timestamp order request store).1⟩ := by
  cases command : request.getCommandType with
  | commandSet =>
      cases found : request.key with
      | none => simp [processCommand, command, handleSetCommand, found, absorb]
      | some key =>
          cases carried : request.value with
          | none => simp [processCommand, command, handleSetCommand, found, carried, absorb]
          | some value =>
              simp [processCommand, command, handleSetCommand, found, carried, absorb,
                KeyValueStore.view_set]
  | commandDelete =>
      cases found : request.key with
      | none => simp [processCommand, command, handleDeleteCommand, found, absorb]
      | some key =>
          have gone := KeyValueStore.view_delete store key
          have present := KeyValueStore.delete_fst store key
          simp only [processCommand, command, handleDeleteCommand, found, absorb]
          split <;> rename_i after shape <;> rw [shape] at gone present
          · simpa using gone
          · have absent : store.view key = none := by simpa using present.symm
            simp only [getResultType_createErrorResponse, reduceCtorEq, if_false]
            rw [gone, ← absent, Function.update_eq_self]
  | _ => simp [processCommand, command, absorb]

end

/-! ## The requests of a run -/

def Served.op (served : Served C) : C × ℕ := (served.conn, served.number)

def Served.ofEvent : ServerEvent C → Option (Served C)
  | .client c (.exec n request response) => some ⟨c, n, request, response⟩
  | _ => none

/-- The requests of a run in the order in which `process_command` ran them. -/
def servedOf (events : List (ServerEvent C)) : List (Served C) := events.filterMap Served.ofEvent

/-- A request is sent, run and its response received; a frame that does not decode is no
request. -/
def requestPhases : Phases (ServerEvent C) (C × ℕ) where
  invoke
    | .client c (.send n _) => some (c, n)
    | _ => none
  commit event := (Served.ofEvent event).map Served.op
  respond
    | .client c (.receive n ⟨some _, _⟩) => some (c, n)
    | _ => none

theorem mem_servedOf {events : List (ServerEvent C)} {served : Served C} :
    served ∈ servedOf events ↔
      .client served.conn (.exec served.number served.request served.response) ∈ events := by
  rw [servedOf, List.mem_filterMap]
  constructor
  · intro holds
    rcases holds with ⟨event, member, shape⟩
    unfold Served.ofEvent at shape
    split at shape
    · cases shape
      exact member
    · cases shape
  · intro member
    exact ⟨_, member, rfl⟩

theorem commitOrder_eq (events : List (ServerEvent C)) :
    requestPhases.commitOrder events = (servedOf events).map Served.op := by
  rw [Phases.commitOrder, servedOf, List.map_filterMap]
  rfl

theorem mem_invoked {events : List (ServerEvent C)} {c : C} {n : ℕ} :
    (c, n) ∈ events.filterMap requestPhases.invoke ↔
      ∃ frame, .client c (.send n frame) ∈ events := by
  rw [List.mem_filterMap]
  constructor
  · intro holds
    rcases holds with ⟨event, member, shape⟩
    dsimp only [requestPhases] at shape
    split at shape
    · cases shape
      exact ⟨_, member⟩
    · cases shape
  · intro holds
    rcases holds with ⟨frame, member⟩
    exact ⟨_, member, rfl⟩

theorem mem_committed {events : List (ServerEvent C)} {c : C} {n : ℕ} :
    (c, n) ∈ events.filterMap requestPhases.commit ↔
      ∃ request response, .client c (.exec n request response) ∈ events := by
  change (c, n) ∈ requestPhases.commitOrder events ↔ _
  rw [commitOrder_eq, List.mem_map]
  constructor
  · intro holds
    rcases holds with ⟨⟨d, m, request, response⟩, member, same⟩
    cases same
    exact ⟨request, response, mem_servedOf.mp member⟩
  · intro holds
    rcases holds with ⟨request, response, member⟩
    exact ⟨⟨c, n, request, response⟩, mem_servedOf.mpr member, rfl⟩

variable [DecidableEq C] {env : ServerEnv} {events : List (ServerEvent C)} {s t : Server C}

/-- The command run in a step: its connection had answered the frames before it, none of which was
its own, and its frame was sent. -/
theorem exec_step (run : Run (ServerStep env) .init events s) {c : C} {n : ℕ} {request : Request}
    {response : Response} (edge : ServerStep env s (.client c (.exec n request response)) t) :
    (∃ frame, .client c (.send n frame) ∈ events ∧ env.decodeRequest frame = some request) ∧
      ∀ {m other answer}, .client c (.exec m other answer) ∈ events → m < n := by
  cases edge with
  | @client _ conn _ _ _ found edge =>
      have position := (connection_inv run found).position
      have traced := connection_traced run found
      have ran : ∀ {shards keys}, conn.stage = .processing request shards keys →
          n = conn.replies.length → (∃ frame, .client c (.send n frame) ∈ events ∧
            env.decodeRequest frame = some request) ∧
          ∀ {m other answer}, .client c (.exec m other answer) ∈ events → m < n := by
        intro shards keys stage same
        subst same
        rw [stage] at position
        obtain ⟨-, frame, here, decoded⟩ := position
        refine ⟨⟨frame, mem_actionsOf.mp (traced.sent.mpr here), decoded⟩, fun member => ?_⟩
        have less := traced.executed_lt (mem_actionsOf.mpr member)
        rwa [stage] at less
      cases edge with
      | list _ stage _ _ => exact ran stage rfl
      | exec _ stage _ => exact ran stage rfl

/-- Requests are sent before they are run and run before they are answered. -/
theorem requestPhases_wellFormed (run : Run (ServerStep env) .init events s) :
    requestPhases.WellFormed events := by
  apply run.invariant (P := fun events _ => requestPhases.WellFormed events) .nil
  intro events s event t run wf edge
  apply wf.snoc
  · intro op invoked earlier
    rcases op with ⟨c, n⟩
    dsimp only [requestPhases] at invoked
    split at invoked
    · cases invoked
      obtain ⟨frame, member⟩ := mem_invoked.mp earlier
      cases edge with
      | client found edge =>
          cases edge with
          | send _ _ =>
              have here := (connection_traced run found).sent.mp (mem_actionsOf.mpr member)
              have less := (List.getElem?_eq_some_iff.mp here).1
              omega
    · cases invoked
  · intro op committed
    rcases op with ⟨c, n⟩
    dsimp only [requestPhases, Served.ofEvent] at committed
    split at committed
    · cases committed
      obtain ⟨⟨frame, member, -⟩, later⟩ := exec_step run edge
      refine ⟨mem_invoked.mpr ⟨frame, member⟩, fun earlier => ?_⟩
      obtain ⟨request, response, member⟩ := mem_committed.mp earlier
      exact absurd (later member) (lt_irrefl _)
    · cases committed
  · intro op answered
    rcases op with ⟨c, n⟩
    dsimp only [requestPhases] at answered
    split at answered
    · cases answered
      cases edge with
      | client found edge =>
          cases edge with
          | receive here =>
              have member := (connection_traced run found).answered here
              exact mem_committed.mpr ⟨_, _, mem_actionsOf.mp member⟩
    · cases answered

/-- The requests of one connection are run in the order of its frames. -/
theorem servedOf_frameOrder (run : Run (ServerStep env) .init events s) :
    (servedOf events).Pairwise fun a b => a.conn = b.conn → a.number < b.number := by
  refine run.invariant (P := fun events _ => (servedOf events).Pairwise fun a b =>
    a.conn = b.conn → a.number < b.number) .nil ?_
  intro events s event t run ordered edge
  rw [servedOf, List.filterMap_append, List.pairwise_append]
  refine ⟨ordered, ?_, fun a before b last same => ?_⟩
  · cases shape : Served.ofEvent event <;> simp [shape]
  · obtain ⟨e, member, shape⟩ := List.mem_filterMap.mp last
    cases List.mem_singleton.mp member
    unfold Served.ofEvent at shape
    split at shape
    · cases shape
      exact (exec_step run edge).2 (same ▸ mem_servedOf.mp before)
    · cases shape

/-- A step leaves the store alone or runs one request, as the map does. -/
theorem ServerStep.store_cases {event : ServerEvent C} (edge : ServerStep env s event t) :
    (Served.ofEvent event = none ∧ t.state.kvStore = s.state.kvStore) ∨
      ∃ served, Served.ofEvent event = some served ∧
        AnsweredBy s.state.kvStore.view served ∧
        t.state.kvStore.view = absorb s.state.kvStore.view served := by
  cases edge with
  | client found edge =>
      cases edge with
      | list timestamp _ isList _ =>
          exact Or.inr ⟨_, rfl, ⟨by simp [isList], by simp [isList], by simp [isList]⟩,
            by simp [absorb, isList, Server.put]⟩
      | exec timestamp _ _ =>
          exact Or.inr ⟨_, rfl, processCommand_answeredBy .., processCommand_view ..⟩
      | _ => exact Or.inl ⟨rfl, rfl⟩
  | _ => exact Or.inl ⟨rfl, rfl⟩

/-- **The store is the map.**  After every run the store holds the map that its requests lead to,
and each request was answered as the map said. -/
theorem store_replays (run : Run (ServerStep env) .init events s) :
    s.state.kvStore.view = replay (servedOf events) ∧
      Legal absorb AnsweredBy (fun _ => none) (servedOf events) := by
  refine run.invariant (P := fun events (s : Server C) =>
    s.state.kvStore.view = replay (servedOf events) ∧
      Legal absorb AnsweredBy (fun _ => none) (servedOf events)) ⟨rfl, .nil⟩ ?_
  intro events s event t _ replayed edge
  rcases replayed with ⟨same, legal⟩
  rcases edge.store_cases with ⟨silent, kept⟩ | ⟨served, ran, answered, changed⟩
  · have quiet : servedOf (events ++ [event]) = servedOf events := by
      rw [servedOf, List.filterMap_append, List.filterMap_cons_none silent, List.filterMap_nil,
        List.append_nil, servedOf]
    rw [quiet, kept]
    exact ⟨same, legal⟩
  · have grown : servedOf (events ++ [event]) = servedOf events ++ [served] := by
      rw [servedOf, List.filterMap_append, List.filterMap_cons_some ran, List.filterMap_nil,
        servedOf]
    rw [same] at answered changed
    rw [grown, replay, List.foldl_append]
    exact ⟨changed, legal.snoc answered⟩

/-! ## Serialization -/

/-- `order` is a run of the map in which the requests of `events` can be thought to have been
answered one after the other. -/
structure Serialization (env : ServerEnv) (events : List (ServerEvent C))
    (order : List (Served C)) : Prop where
  /-- Its entries are the requests that were run, each once. -/
  mem_iff : ∀ c n request response, ⟨c, n, request, response⟩ ∈ order ↔
    .client c (.exec n request response) ∈ events
  nodup : (order.map Served.op).Nodup
  /-- Each is the frame of its number, decoded. -/
  sent : ∀ served ∈ order, ∃ frame, .client served.conn (.send served.number frame) ∈ events ∧
    env.decodeRequest frame = some served.request
  /-- What a client receives for a request is the response of the order. -/
  received : ∀ c n request response,
    .client c (.receive n ⟨some request, response⟩) ∈ events →
    ⟨c, n, request, response⟩ ∈ order
  /-- The frames of a connection are in their order. -/
  frameOrder : order.Pairwise fun a b => a.conn = b.conn → a.number < b.number
  /-- A request whose response was received before another was sent comes first. -/
  realTime : ∀ i ∈ order.map Served.op, ∀ j ∈ order.map Served.op,
    (∃ xs reply ys frame zs, events = xs ++ .client i.1 (.receive i.2 reply) :: ys ++
      .client j.1 (.send j.2 frame) :: zs) →
    [i, j].Sublist (order.map Served.op)
  /-- Every request is answered as the map left by the requests before it says. -/
  answered : ∀ before served after, order = before ++ served :: after →
    AnsweredBy (replay before) served

/-- **The server refines one atomic map.** -/
theorem exists_serialization (run : Run (ServerStep env) .init events s) :
    ∃ order, Serialization env events order := by
  have wf := requestPhases_wellFormed run
  refine ⟨servedOf events, fun c n request response => mem_servedOf, ?_, ?_, ?_,
    servedOf_frameOrder run, ?_, (store_replays run).2⟩
  · rw [← commitOrder_eq]
    exact wf.committedOnce
  · intro served member
    obtain ⟨xs, ys, shape⟩ := List.append_of_mem (mem_servedOf.mp member)
    rw [shape] at run
    obtain ⟨before, after, left, edge, -⟩ := run.at_event
    obtain ⟨⟨frame, earlier, decoded⟩, -⟩ := exec_step left edge
    exact ⟨frame, shape ▸ List.mem_append_left _ earlier, decoded⟩
  · intro c n request response member
    obtain ⟨conn, found⟩ := exists_connection run member
    have traced := connection_traced run found
    have answered := traced.received (mem_actionsOf.mpr member)
    exact mem_servedOf.mpr (mem_actionsOf.mp (traced.answered answered))
  · intro i ran j later before
    rcases i with ⟨c, n⟩
    rcases j with ⟨d, m⟩
    rcases before with ⟨xs, reply, ys, frame, zs, shape⟩
    rw [← commitOrder_eq] at ran later ⊢
    obtain ⟨request, response, member⟩ := mem_committed.mp ran
    obtain ⟨conn, found⟩ := exists_connection run member
    have inv := connection_inv run found
    have traced := connection_traced run found
    -- the response received for a request that was run is no reply to a malformed frame
    have answered : .client c (.receive n reply) ∈ events := by rw [shape]; simp
    obtain ⟨f, here, decoded⟩ := (inv.answered (traced.received (mem_actionsOf.mpr answered))).1
    obtain ⟨f', here', decoded'⟩ := traced.decoded (mem_actionsOf.mpr member)
    rw [here] at here'
    cases here'
    rw [decoded] at decoded'
    refine wf.commit_order_realTime ⟨xs, _, ys, _, zs, shape, ?_, rfl⟩ later
    obtain ⟨replied, answer⟩ := reply
    cases decoded'
    rfl

/-- One client stores Null and another reads it: present, with an empty oneof. -/
theorem exists_serialization_null :
    ∃ (events : List (ServerEvent Bool)) (s : Server Bool) (order : List (Served Bool)),
      Run (ServerStep (.proto3 .byLength)) .init events s ∧
        Serialization (.proto3 .byLength) events order ∧
        ∃ served ∈ order, served.conn = true ∧ served.response.value = some ⟨none⟩ := by
  have run := @Run.nil _ _ (ServerStep (C := Bool) (.proto3 .byLength)) .init
    |>.snoc (@ServerStep.accept _ _ _ _ false "a" (List.replicate 16 0) _ _ rfl rfl rfl)
    |>.snoc (@ServerStep.accept _ _ _ _ true "bc" (List.replicate 16 0) _ _ rfl rfl rfl)
    |>.snoc (.client (c := false) rfl (.send [24, 2, 34, 1, 97, 42, 0] rfl))
    |>.snoc (.client (c := false) Server.put_self
      (@ClientStep.read _ _ _ _ _ { commandType := 2, key := some "a", value := some ⟨none⟩ }
        rfl rfl (by decide) (by decide)))
    |>.snoc (.client (c := false) Server.put_self (.touch rfl))
    |>.snoc (.client (c := false) Server.put_self (.exec 0 rfl (by decide)))
    |>.snoc (.client (c := false) Server.put_self (.reply rfl rfl))
    |>.snoc (.client (c := false) Server.put_self (.receive rfl))
    |>.snoc (.client (c := true) rfl (.send [24, 1, 34, 1, 97] rfl))
    |>.snoc (.client (c := true) Server.put_self
      (@ClientStep.read _ _ _ _ _ { commandType := 1, key := some "a" }
        rfl rfl (by decide) (by decide)))
    |>.snoc (.client (c := true) Server.put_self (.touch rfl))
    |>.snoc (.client (c := true) Server.put_self (.exec 0 rfl (by decide)))
  obtain ⟨order, serial⟩ := exists_serialization run
  exact ⟨_, _, order, run, serial, _, (serial.mem_iff true 0 _ _).mpr
    (List.mem_append_right _ (List.mem_singleton.mpr rfl)), rfl, rfl⟩

end Bonka
