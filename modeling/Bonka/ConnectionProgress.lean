import Bonka.ConnectionRuns

/-!
# Progress of `handle_client`

A handler waits for nobody but its own client: for its next frame, and in `send_response` until it
has read enough of what it was sent.  Whatever the other connections and the clean-up are doing, it
has a step to take otherwise, and each frame costs it at most four steps and one for each shard of
the store (`handler_wait_free`).  So a client cannot keep another from being served, and the
handler of a client that reads its responses and hangs up ends by itself.
-/

namespace Bonka

open Proto Transition

variable {C : Type} [DecidableEq C] {env : ServerEnv} {conn conn' : Connection}
  {action : ClientAction} {now : Instant} {state state' : ServerState}

/-- A step of `handle_client`, and not of its client. -/
def ClientAction.byHandler : ClientAction → Bool
  | .send _ _ | .hangUp | .receive _ _ => false
  | _ => true

/-- The steps of a handler when its socket does not fail: reading fails at a frame that is too
long, and sending at a response that is. -/
def ClientAction.Due (env : ServerEnv) (conn : Connection) : ClientAction → Prop
  | .send _ _ | .hangUp | .receive _ _ => False
  | .codecError => ∃ frame, conn.frames[conn.taken]? = some frame ∧ maxFrameLength < frame.length
  | .sendError => ∃ response error, sendResponse env response = .error error ∧
      (conn.stage = .rejecting response ∨ ∃ request, conn.stage = .replying request response)
  | _ => True

theorem ClientAction.Due.byHandler (due : action.Due env conn) : action.byHandler = true := by
  cases action <;> first | rfl | exact due.elim

/-- Every frame is answered, and the client may send more. -/
def Connection.Waiting (conn : Connection) : Prop :=
  conn.stage = .reading ∧ conn.replies.length = conn.frames.length ∧ conn.ended = false

/-- `handle_client` has returned. -/
def Connection.Returned (conn : Connection) : Prop := ∃ result, conn.stage = .returned result

/-- At `send_response`, which may have to wait until the client reads what it was sent. -/
def HandlerStage.Sending : HandlerStage → Prop
  | .replying _ _ | .rejecting _ => True
  | _ => False

/-- At `send_response`, with earlier responses that the client has still to read. -/
def Connection.Blocked (conn : Connection) : Prop :=
  conn.stage.Sending ∧ conn.received < conn.replies.length

/-- What a handler and a client that only reads can do: the client reads a response, or the handler
takes a step that is due, and sends once the client has read the earlier responses. -/
def ClientAction.Serves (env : ServerEnv) (conn : Connection) (action : ClientAction) : Prop :=
  (∃ n reply, action = .receive n reply) ∨ (action.Due env conn ∧ ¬ conn.Blocked)

/-- A step of connection `c` while its client only reads. -/
def ServingStep (env : ServerEnv) (c : C) (s : Server C) (event : ServerEvent C) (t : Server C) :
    Prop :=
  ServerStep env s event t ∧ ∃ conn action, s.connections c = some conn ∧
    event = .client c action ∧ action.Serves env conn

/-! ## The steps that are left -/

/-- How many steps `handle_client` takes at most before it reads the next frame, or returns. -/
def HandlerStage.stepsLeft (shards : ℕ) : HandlerStage → ℕ
  | .touching _ => shards + 5
  | .processing _ visited _ => shards - visited + 4
  | .replying _ _ | .rejecting _ => 3
  | .reading => 2
  | .closing => 1
  | .returned _ => 0

/-- How many steps `handle_client` takes at most if its client sends no other frame. -/
def Connection.stepsLeft (env : ServerEnv) (conn : Connection) : ℕ :=
  (conn.frames.length - conn.taken) * (env.shards + 4) + conn.stage.stepsLeft env.shards

/-- A frame that is read pays for the steps up to its response. -/
theorem stepsLeft_read {frame : Bytes} (found : conn.frames[conn.taken]? = some frame) :
    (conn.frames.length - conn.taken) * (env.shards + 4) =
      (conn.frames.length - (conn.taken + 1)) * (env.shards + 4) + (env.shards + 4) := by
  have less := (List.getElem?_eq_some_iff.mp found).1
  rw [← Nat.succ_mul]
  congr 1
  omega

/-- A step of the handler uses up one of those that are left. -/
theorem ClientStep.stepsLeft_lt (edge : ClientStep env now state conn action state' conn')
    (own : action.byHandler = true) :
    conn'.stepsLeft env < conn.stepsLeft env ∧ conn'.frames = conn.frames := by
  unfold Connection.stepsLeft
  cases edge with
  | send | hangUp | receive => cases own
  | read stage found short decoded | readMalformed timestamp stage found short decoded =>
      rw [stage, stepsLeft_read found]
      simp only [HandlerStage.stepsLeft, and_true]
      omega
  | endOfStream stage | codecError stage | touch stage | list _ stage | exec _ stage
    | reject stage | sendErrorReply stage | sendErrorReject stage | remove stage =>
      rw [stage]
      simp only [HandlerStage.stepsLeft, and_true]
      omega
  | scan found stage isList more keys =>
      rw [stage]
      simp only [HandlerStage.stepsLeft, and_true]
      omega
  | reply stage =>
      rw [stage]
      dsimp only
      split <;> simp only [HandlerStage.stepsLeft, and_true] <;> omega

/-- A handler has taken at most the steps that its frames have paid for. -/
theorem handler_steps {events : List (ServerEvent C)} {s : Server C} {c : C}
    (run : Run (ServerStep env) .init events s) (found : s.connections c = some conn) :
    (actionsOf c events).countP ClientAction.byHandler + conn.stepsLeft env ≤
      conn.frames.length * (env.shards + 4) + 2 := by
  refine connection_invariant (P := fun actions conn =>
    actions.countP ClientAction.byHandler + conn.stepsLeft env ≤
      conn.frames.length * (env.shards + 4) + 2) ?_ ?_ run found
  · intro addr sessionId
    simp [Connection.accepted, Connection.stepsLeft, HandlerStage.stepsLeft]
  · intro actions now state conn action state' conn' bound edge
    rw [List.countP_append, List.countP_singleton]
    by_cases own : action.byHandler = true
    · obtain ⟨less, frames⟩ := edge.stepsLeft_lt own
      rw [if_pos own, frames]
      omega
    · rw [if_neg own]
      unfold Connection.stepsLeft at bound ⊢
      cases edge with
      | send frame opened =>
          rw [List.length_append, List.length_singleton, Nat.succ_mul]
          have grown :
              conn.frames.length + 1 - conn.taken ≤ conn.frames.length - conn.taken + 1 := by
            omega
          have cost := Nat.mul_le_mul_right (env.shards + 4) grown
          rw [Nat.succ_mul] at cost
          dsimp only
          omega
      | hangUp | receive => exact bound
      | _ => exact absurd rfl own

/-! ## A step to take -/

/-- A handler that neither waits for its client nor has returned has a step to take. -/
theorem exists_due {actions : List ClientAction} (inv : conn.Inv env actions)
    (state : ServerState) (now : Instant) (busy : ¬ conn.Waiting) (running : ¬ conn.Returned) :
    ∃ action state' conn', ClientStep env now state conn action state' conn' ∧
      action.Due env conn := by
  have send : ∀ response, (∃ bytes, sendResponse env response = .ok bytes) ∨
      ∃ error, sendResponse env response = .error error := by
    intro response
    cases sent : sendResponse env response with
    | ok bytes => exact .inl ⟨bytes, rfl⟩
    | error error => exact .inr ⟨error, rfl⟩
  cases stage : conn.stage with
  | reading =>
      have position := inv.position
      rw [stage] at position
      have same : conn.taken = conn.replies.length := position
      rcases inv.taken_le.lt_or_eq with more | done
      · obtain ⟨frame, found⟩ : ∃ frame, conn.frames[conn.taken]? = some frame :=
          ⟨_, List.getElem?_eq_getElem more⟩
        by_cases short : frame.length ≤ maxFrameLength
        · cases decoded : env.decodeRequest frame with
          | some request => exact ⟨_, _, _, .read stage found short decoded, trivial⟩
          | none => exact ⟨_, _, _, .readMalformed 0 stage found short decoded, trivial⟩
        · exact ⟨_, _, _, .codecError stage, frame, found, Nat.not_le.mp short⟩
      · cases ended : conn.ended with
        | false => exact absurd ⟨stage, by omega, ended⟩ busy
        | true => exact ⟨_, _, _, .endOfStream stage ended done, trivial⟩
  | touching request => exact ⟨_, _, _, .touch stage, trivial⟩
  | processing request visited keys =>
      by_cases isList : request.getCommandType = .commandList
      · by_cases more : visited < env.shards
        · exact ⟨_, _, _, .scan _ stage isList more (.refl _), trivial⟩
        · exact ⟨_, _, _, .list 0 stage isList (Nat.not_lt.mp more), trivial⟩
      · exact ⟨_, _, _, .exec 0 stage isList, trivial⟩
  | replying request response =>
      rcases send response with ⟨bytes, sent⟩ | ⟨error, refused⟩
      · exact ⟨_, _, _, .reply stage sent, trivial⟩
      · exact ⟨_, _, _, .sendErrorReply stage, response, error, refused, .inr ⟨request, stage⟩⟩
  | rejecting response =>
      rcases send response with ⟨bytes, sent⟩ | ⟨error, refused⟩
      · exact ⟨_, _, _, .reject stage sent, trivial⟩
      · exact ⟨_, _, _, .sendErrorReject stage, response, error, refused, .inl stage⟩
  | closing => exact ⟨_, _, _, .remove stage, trivial⟩
  | returned result => exact absurd ⟨result, stage⟩ running

/-- The steps that are left to a handler and a client that reads its responses; a step of the
handler sends at most one. -/
def Connection.workLeft (env : ServerEnv) (conn : Connection) : ℕ :=
  2 * conn.stepsLeft env + (conn.replies.length - conn.received)

/-- A step of the handler sends at most one response and leaves the client its place. -/
theorem ClientStep.replies_le (edge : ClientStep env now state conn action state' conn')
    (own : action.byHandler = true) : conn'.replies.length ≤ conn.replies.length + 1 ∧
      conn'.received = conn.received ∧ conn'.ended = conn.ended := by
  cases edge with
  | send | hangUp | receive => cases own
  | reply | reject => exact ⟨by rw [List.length_append, List.length_singleton], rfl, rfl⟩
  | _ => exact ⟨Nat.le_succ _, rfl, rfl⟩

/-- The next step of a handler that is left to itself and a client that reads its responses. -/
theorem exists_serving {actions : List ClientAction} (inv : conn.Inv env actions)
    (state : ServerState) (now : Instant) (busy : ¬ conn.Waiting) (running : ¬ conn.Returned) :
    ∃ action state' conn', ClientStep env now state conn action state' conn' ∧
      action.Serves env conn ∧ conn'.workLeft env < conn.workLeft env ∧
      conn'.ended = conn.ended := by
  by_cases blocked : conn.Blocked
  · obtain ⟨reply, unread⟩ : ∃ reply, conn.replies[conn.received]? = some reply :=
      ⟨_, List.getElem?_eq_getElem blocked.2⟩
    refine ⟨_, state, _, .receive unread, Or.inl ⟨_, _, rfl⟩, ?_, rfl⟩
    have less := blocked.2
    unfold Connection.workLeft Connection.stepsLeft
    dsimp only
    omega
  · obtain ⟨action, state', conn', edge, due⟩ := exists_due inv state now busy running
    have own := due.byHandler
    obtain ⟨replies, received, ended⟩ := edge.replies_le own
    have less := (edge.stepsLeft_lt own).1
    refine ⟨action, state', conn', edge, Or.inr ⟨due, blocked⟩, ?_, ended⟩
    unfold Connection.workLeft
    omega

/-- Left to itself, the handler of a client that reads its responses comes to wait for its next
frame or returns, and touches no other connection. -/
theorem exists_rest {actions : List ClientAction} {s : Server C} {c : C}
    (inv : conn.Inv env actions) (found : s.connections c = some conn) :
    ∃ more t conn', Run (ServingStep env c) s more t ∧
      t.connections c = some conn' ∧ (conn'.Waiting ∨ conn'.Returned) ∧
      conn'.ended = conn.ended ∧ ∀ d, d ≠ c → t.connections d = s.connections d := by
  generalize bound : conn.workLeft env = n
  induction n using Nat.strong_induction_on generalizing s conn actions with
  | _ n ih =>
      by_cases rest : conn.Waiting ∨ conn.Returned
      · exact ⟨[], s, conn, .nil, found, rest, rfl, fun _ _ => rfl⟩
      · obtain ⟨busy, running⟩ := not_or.mp rest
        obtain ⟨action, state', conn', edge, serves, less, kept⟩ :=
          exists_serving inv s.state s.clock busy running
        have first : ServingStep env c s (.client c action) (s.put c state' conn') :=
          ⟨.client found edge, conn, action, found, rfl, serves⟩
        obtain ⟨more, t, final, run, there, atRest, ended, others⟩ := ih _
          (bound ▸ less) (inv.step edge) Server.put_self rfl
        exact ⟨[.client c action] ++ more, t, final, (Run.single first).trans run, there, atRest,
          ended.trans kept, fun d ne => (others d ne).trans (Server.put_ne ne)⟩

/-- **A handler waits for nobody but its own client.**  In every reachable state a handler that has
not returned, has not answered all frames of a client that is still there, and is not sending a
response, has a step to take that is due: it fails only if the next frame is too long.  All its
steps so far are at most two, and four and one for each shard for every frame its client has sent;
and by steps that are due alone, while its client only reads, it can answer all frames, or
return. -/
theorem handler_wait_free {events : List (ServerEvent C)} {s : Server C} {c : C}
    (run : Run (ServerStep env) .init events s) (found : s.connections c = some conn) :
    (conn.Waiting ∨ conn.stage.Sending ∨ conn.Returned ∨
        ∃ action t, ServerStep env s (.client c action) t ∧ action.Due env conn) ∧
      (actionsOf c events).countP ClientAction.byHandler ≤
        conn.frames.length * (env.shards + 4) + 2 ∧
      ∃ more t conn', Run (ServingStep env c) s more t ∧
        t.connections c = some conn' ∧ (conn'.Waiting ∨ conn'.Returned) := by
  have inv := connection_inv run found
  refine ⟨?_, (Nat.le_add_right _ _).trans (handler_steps run found), ?_⟩
  · by_cases busy : conn.Waiting
    · exact .inl busy
    · by_cases running : conn.Returned
      · exact .inr (.inr (.inl running))
      · obtain ⟨action, state', conn', edge, due⟩ := exists_due inv s.state s.clock busy running
        exact .inr (.inr (.inr ⟨action, _, .client found edge, due⟩))
  · obtain ⟨more, t, conn', rest, there, atRest, -⟩ := exists_rest inv found
    exact ⟨more, t, conn', rest, there, atRest⟩

/-- Two clients have sent a frame each; the handler of the second answers, though the first has
not moved. -/
theorem handler_wait_free_second :
    ∃ (events more : List (ServerEvent Bool)) (s t : Server Bool) (conn : Connection),
      Run (ServerStep (.proto3 .byLength)) .init events s ∧
        .client false (.send 0 [24, 4]) ∈ events ∧
        Run (ServingStep (.proto3 .byLength) true) s more t ∧
        t.connections true = some conn ∧ (conn.Waiting ∨ conn.Returned) := by
  have run := @Run.nil _ _ (ServerStep (C := Bool) (.proto3 .byLength)) .init
    |>.snoc (@ServerStep.accept _ _ _ _ false "a" (List.replicate 16 0) _ _ rfl rfl rfl)
    |>.snoc (@ServerStep.accept _ _ _ _ true "bc" (List.replicate 16 0) _ _ rfl rfl rfl)
    |>.snoc (show ServerStep _ _ (.client false (.send 0 [24, 4])) _ from
      .client (c := false) rfl (.send [24, 4] rfl))
    |>.snoc (.client (c := true) rfl (.send [24, 1, 34, 1, 97] rfl))
  obtain ⟨-, -, more, t, conn, rest, there, atRest⟩ :=
    handler_wait_free (c := true) run Server.put_self
  exact ⟨_, more, _, t, conn, run, by simp, rest, there, atRest⟩

end Bonka
