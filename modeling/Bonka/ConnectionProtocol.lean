import Bonka.ConnectionRuns

/-!
# One response per frame

`handle_client` answers the frames of its connection one by one, in order, and stops at the first
`COMMAND_EXIT` (`one_response_per_frame`).  The frames it answers are `upToExit` of all the frames
sent; when no step of the handler is left, they are answered all.
-/

namespace Bonka

open Proto Transition

variable {C : Type} [DecidableEq C] {env : ServerEnv}

/-- The frame decodes to a `COMMAND_EXIT` request. -/
def ServerEnv.IsExit (env : ServerEnv) (frame : Bytes) : Prop :=
  (env.decodeRequest frame).map Request.getCommandType = some .commandExit

instance (env : ServerEnv) (frame : Bytes) : Decidable (env.IsExit frame) :=
  inferInstanceAs (Decidable (_ = _))

/-- The frames up to the first `COMMAND_EXIT`, that one included. -/
def upToExit (env : ServerEnv) : List Bytes → List Bytes
  | [] => []
  | frame :: frames => if env.IsExit frame then [frame] else frame :: upToExit env frames

theorem upToExit_isPrefix (frames : List Bytes) : upToExit env frames <+: frames := by
  induction frames with
  | nil => exact List.prefix_rfl
  | cons frame frames ih =>
      rw [upToExit]
      split
      · exact List.prefix_append [frame] frames
      · exact (List.prefix_cons_inj frame).mpr ih

/-- Frames before the first exit belong to the prefix, and so does the exit. -/
theorem le_length_upToExit {frames : List Bytes} {n : ℕ} (le : n ≤ frames.length)
    (before : ∀ m frame, m + 1 < n → frames[m]? = some frame → ¬ env.IsExit frame) :
    n ≤ (upToExit env frames).length := by
  induction frames generalizing n with
  | nil => exact le
  | cons frame frames ih =>
      rw [upToExit]
      cases n with
      | zero => exact Nat.zero_le _
      | succ n =>
          split
          · rename_i exit
            have last : ¬ 0 + 1 < n + 1 := fun early => before 0 frame early rfl exit
            rw [List.length_singleton]
            omega
          · have rest : n ≤ (upToExit env frames).length :=
              ih (Nat.le_of_succ_le_succ le) fun m other early found =>
                before (m + 1) other (Nat.succ_lt_succ early) found
            exact Nat.succ_le_succ rest

/-- Nothing after an exit belongs to the prefix. -/
theorem length_upToExit_le {frames : List Bytes} {n : ℕ} {frame : Bytes}
    (found : frames[n]? = some frame) (exit : env.IsExit frame) :
    (upToExit env frames).length ≤ n + 1 := by
  induction frames generalizing n with
  | nil => cases found
  | cons first frames ih =>
      rw [upToExit]
      split
      · rw [List.length_singleton]
        omega
      · rename_i goesOn
        cases n with
        | zero =>
            cases found
            exact (goesOn exit).elim
        | succ n => exact Nat.succ_le_succ (ih found)

/-- A response is `RESULT_EXIT` exactly when its frame is an exit. -/
theorem Answers.exit_iff {frames : List Bytes} {n : ℕ} {frame : Bytes}
    {request : Option Request} {response : Response} (answers : Answers request response)
    (at_n : FrameAt env frames n request) (found : frames[n]? = some frame) :
    response.getResultType = .resultExit ↔ env.IsExit frame := by
  obtain ⟨other, here, decoded⟩ := at_n
  rw [found] at here
  cases here
  cases request with
  | none =>
      obtain ⟨timestamp, rfl⟩ := answers
      simp [ServerEnv.IsExit, decoded]
  | some request => simp [ServerEnv.IsExit, decoded, answers.2]

/-- What the response to a frame tells the client: the id of the request, or the fixed error. -/
def ServerEnv.RespondsTo (env : ServerEnv) (frame : Bytes) (response : Response) : Prop :=
  match env.decodeRequest frame with
  | some request => response.id = request.id
  | none =>
      response.id = none ∧ response.getResultType = .resultError ∧
        ∃ text, response.error = some text ∧ text ≠ ""

theorem Answers.respondsTo {frames : List Bytes} {n : ℕ} {frame : Bytes}
    {request : Option Request} {response : Response} (answers : Answers request response)
    (at_n : FrameAt env frames n request) (found : frames[n]? = some frame) :
    env.RespondsTo frame response := by
  obtain ⟨other, here, decoded⟩ := at_n
  rw [found] at here
  cases here
  unfold ServerEnv.RespondsTo
  cases request with
  | none =>
      obtain ⟨timestamp, rfl⟩ := answers
      rw [decoded]
      exact ⟨rfl, rfl, _, rfl, by decide⟩
  | some request =>
      rw [decoded]
      exact answers.1

theorem HandlerStage.Position.run_le {stage : HandlerStage} {frames : List Bytes} {taken n : ℕ}
    (position : stage.Position env frames taken n) : n + stage.unanswered ≤ taken := by
  match stage, position with
  | .reading, same | .closing, same | .returned (.ok _), same => exact same.ge
  | .returned (.error _), same => exact same.ge
  | .touching _, ⟨same, _⟩ | .processing _ _ _, ⟨same, _⟩ => rw [same]; exact Nat.le_succ n
  | .rejecting _, ⟨same, _⟩ => rw [same]; exact Nat.le_succ n
  | .replying _ _, ⟨same, _⟩ => exact same.ge

theorem HandlerStage.unanswered_cases (stage : HandlerStage) :
    stage.unanswered = 0 ∨ stage.unanswered = 1 ∧ ¬ stage.PastLoop := by
  match stage with
  | .replying _ _ | .returned (.error _) => exact Or.inr ⟨rfl, id⟩
  | .reading | .touching _ | .processing _ _ _ | .rejecting _ | .closing | .returned (.ok _) =>
      exact Or.inl rfl

namespace Connection.Inv

variable {conn : Connection} {actions : List ClientAction}

/-- An answered frame that is not the last is no exit; in the loop the last is none either. -/
theorem not_exit_frame (inv : conn.Inv env actions) {n : ℕ} {frame : Bytes}
    (answered : n + 1 < conn.replies.length ∨
      n < conn.replies.length ∧ ¬ conn.stage.PastLoop)
    (found : conn.frames[n]? = some frame) : ¬ env.IsExit frame := by
  intro exit
  have less : n < conn.replies.length := by omega
  obtain ⟨at_n, answers⟩ := inv.answered (List.getElem?_eq_getElem less)
  obtain ⟨last, past⟩ := inv.exit_last (List.getElem?_eq_getElem less)
    ((answers.exit_iff at_n found).mpr exit)
  rcases answered with early | ⟨-, inLoop⟩
  · omega
  · exact inLoop past

/-- Only frames up to the exit are answered, or their commands run. -/
theorem run_le (inv : conn.Inv env actions) :
    conn.replies.length + conn.stage.unanswered ≤ (upToExit env conn.frames).length := by
  refine le_length_upToExit (inv.position.run_le.trans inv.taken_le) fun n frame early found =>
    inv.not_exit_frame ?_ found
  rcases conn.stage.unanswered_cases with none | ⟨one, inLoop⟩
  · exact Or.inl (by omega)
  · exact Or.inr ⟨by omega, inLoop⟩

/-- A connection that waits for a frame, or whose handler has returned without a failure, has
answered every frame up to the exit. -/
theorem replies_eq (inv : conn.Inv env actions) (reads : .codecError ∉ actions)
    (settled : conn.stage = .reading ∧ conn.taken = conn.frames.length ∨
      conn.stage = .returned (.ok ())) :
    conn.replies.length = (upToExit env conn.frames).length := by
  have upper := (upToExit_isPrefix conn.frames : upToExit env conn.frames <+: conn.frames).length_le
  have lower := inv.run_le
  have position := inv.position
  rcases settled with ⟨stage, all⟩ | stage
  · rw [stage] at position
    have taken : conn.taken = conn.replies.length := position
    omega
  · rw [stage] at position
    have taken : conn.taken = conn.replies.length := position
    cases inv.left (by rw [stage]; trivial) with
    | exited reply last exit =>
        obtain ⟨init, shape⟩ := List.getLast?_eq_some_iff.mp last
        have found : conn.replies[init.length]? = some reply := by rw [shape]; simp
        obtain ⟨at_n, answers⟩ := inv.answered found
        have ⟨frame, here, _⟩ := at_n
        have bound := length_upToExit_le here ((answers.exit_iff at_n here).mp exit)
        have length : conn.replies.length = init.length + 1 := by rw [shape]; simp
        omega
    | streamEnd _ all => omega
    | codecError member => exact (reads member).elim

/-- Every stage but waiting for a frame and having returned has a next step. -/
theorem settled_of_blocked (inv : conn.Inv env actions) {now : Instant} {state : ServerState}
    (deliverable : ∀ frame ∈ conn.frames, frame.length ≤ maxFrameLength)
    (blocked : ∀ action state' conn', action.OfHandler →
      ¬ ClientStep env now state conn action state' conn') :
    conn.stage = .reading ∧ conn.taken = conn.frames.length ∨
      ∃ result, conn.stage = .returned result := by
  cases stage : conn.stage with
  | reading =>
      refine Or.inl ⟨rfl, Nat.le_antisymm inv.taken_le (Nat.not_lt.mp fun less => ?_)⟩
      have found := List.getElem?_eq_getElem less
      have short := deliverable _ (List.getElem_mem less)
      cases decoded : env.decodeRequest conn.frames[conn.taken] with
      | some request => exact blocked _ _ _ (by trivial) (.read stage found short decoded)
      | none => exact blocked _ _ _ (by trivial) (.readMalformed 0 stage found short decoded)
  | touching request => exact (blocked _ _ _ (by trivial) (.touch stage)).elim
  | processing request shard keys =>
      by_cases isList : request.getCommandType = .commandList
      · by_cases more : shard < env.shards
        · exact (blocked _ _ _ (by trivial) (.scan _ stage isList more (.refl _))).elim
        · exact (blocked _ _ _ (by trivial) (.list 0 stage isList (Nat.not_lt.mp more))).elim
      · exact (blocked _ _ _ (by trivial) (.exec 0 stage isList)).elim
  | replying request response => exact (blocked _ _ _ (by trivial) (.sendErrorReply stage)).elim
  | rejecting response => exact (blocked _ _ _ (by trivial) (.sendErrorReject stage)).elim
  | closing => exact (blocked _ _ _ (by trivial) (.remove stage)).elim
  | returned result => exact Or.inr ⟨result, rfl⟩

end Connection.Inv

/-- The step belongs to a frame that does not decode: it reads the frame, or finds the reply to
it unsent. -/
def HandlesMalformed (env : ServerEnv) (conn : Connection) (action : ClientAction) : Prop :=
  (∃ n frame, action = .read n frame ∧ env.decodeRequest frame = none) ∨
    ∃ response, conn.stage = .rejecting response

/-- Such a step leaves the store and the sessions as they are and the connection in its loop. -/
theorem ClientStep.malformed_harmless {now : Instant} {state state' : ServerState}
    {conn conn' : Connection} {action : ClientAction}
    (edge : ClientStep env now state conn action state' conn')
    (malformed : HandlesMalformed env conn action) (sent : action ≠ .sendError) :
    state' = state ∧ conn'.stage.InLoop := by
  rcases malformed with ⟨n, frame, rfl, undecoded⟩ | ⟨response, rejecting⟩
  · cases edge with
    | read _ _ _ decoded =>
        rw [undecoded] at decoded
        cases decoded
    | readMalformed _ _ _ _ _ => exact ⟨rfl, trivial⟩
  · cases edge with
    | send _ _ => exact ⟨rfl, by rw [rejecting]; trivial⟩
    | hangUp => exact ⟨rfl, by rw [rejecting]; trivial⟩
    | receive _ => exact ⟨rfl, by rw [rejecting]; trivial⟩
    | reject _ _ => exact ⟨rfl, trivial⟩
    | sendErrorReject _ => exact (sent rfl).elim
    | _ => simp_all

/-- A handler that has returned takes no step. -/
theorem ServerStep.not_returned {s t : Server C} {c : C} {conn : Connection}
    {result : Except ServerError Unit} {action : ClientAction}
    (found : s.connections c = some conn) (returned : conn.stage = .returned result)
    (handler : action.OfHandler) : ¬ ServerStep env s (.client c action) t := by
  intro edge
  cases edge with
  | client here edge =>
      rw [found] at here
      cases here
      cases edge <;> first | exact handler.elim | simp_all

/-- **One response per frame, in order, up to the exit.**  When no send and no read of the
connection has failed, the responses answer the first frames up to `COMMAND_EXIT`, in order, and
all of them once the handler has no step left; only the last is `RESULT_EXIT`, no command after the
exit is run, and a frame that does not decode changes nothing and does not end the loop. -/
theorem one_response_per_frame {events : List (ServerEvent C)} {s : Server C}
    (run : Run (ServerStep env) .init events s) {c : C} {conn : Connection}
    (found : s.connections c = some conn) (sends : .client c .sendError ∉ events)
    (reads : .client c .codecError ∉ events) :
    (conn.replies.length ≤ (upToExit env conn.frames).length ∧
      ((∀ frame ∈ conn.frames, frame.length ≤ maxFrameLength) →
        (∀ action t, action.OfHandler → ¬ ServerStep env s (.client c action) t) →
        conn.replies.length = (upToExit env conn.frames).length)) ∧
    (∀ (n : ℕ) (reply : Reply) (frame : Bytes), conn.replies[n]? = some reply →
      conn.frames[n]? = some frame → env.RespondsTo frame reply.response) ∧
    (∀ (n : ℕ) (reply : Reply), conn.replies[n]? = some reply →
      reply.response.getResultType = .resultExit → n + 1 = conn.replies.length) ∧
    (∀ n request response, .client c (.exec n request response) ∈ events →
      n < (upToExit env conn.frames).length ∧ FrameAt env conn.frames n (some request)) ∧
    (∀ action t, HandlesMalformed env conn action → action ≠ .sendError →
      ServerStep env s (.client c action) t →
      t.state = s.state ∧ ∃ conn', t.connections c = some conn' ∧ conn'.stage.InLoop) := by
  have inv := connection_inv run found
  have traced := connection_traced run found
  have bound := inv.run_le
  refine ⟨⟨by omega, fun deliverable blocked => ?_⟩, ?_, ?_, ?_, ?_⟩
  · apply inv.replies_eq (fun member => reads (mem_actionsOf.mp member))
    rcases inv.settled_of_blocked deliverable (fun action state' conn' handler edge =>
      blocked action _ handler (.client found edge)) with waiting | ⟨result, returned⟩
    · exact Or.inl waiting
    · cases result with
      | ok _ => exact Or.inr returned
      | error error => exact (sends (mem_actionsOf.mp (inv.failed returned))).elim
  · intro n reply frame answered here
    exact (inv.answered answered).2.respondsTo (inv.answered answered).1 here
  · intro n reply answered exit
    exact (inv.exit_last answered exit).1
  · intro n request response ran
    have member := mem_actionsOf.mpr ran
    exact ⟨(traced.executed_lt member).trans_le bound, traced.decoded member⟩
  · intro action t malformed sent edge
    cases edge with
    | client here edge =>
        rw [found] at here
        cases here
        obtain ⟨same, inLoop⟩ := edge.malformed_harmless malformed sent
        exact ⟨same, _, Server.put_self, inLoop⟩

/-- A malformed frame, an exit and one more frame: two responses. -/
theorem one_response_per_frame_exit :
    ∃ (events : List (ServerEvent Unit)) (s : Server Unit) (conn : Connection),
      Run (ServerStep (.proto3 .byLength)) .init events s ∧ s.connections () = some conn ∧
        conn.frames = [[255], [24, 5], [24, 4]] ∧ conn.replies.length = 2 := by
  have run := @Run.nil _ _ (ServerStep (C := Unit) (.proto3 .byLength)) .init
    |>.snoc (@ServerStep.accept _ _ _ _ () "127.0.0.1:4000" (List.replicate 16 0) _ _ rfl rfl rfl)
    |>.snoc (.client (c := ()) Server.put_self (.send [255] rfl))
    |>.snoc (.client (c := ()) Server.put_self (.send [24, 5] rfl))
    |>.snoc (.client (c := ()) Server.put_self (.send [24, 4] rfl))
    |>.snoc (.client (c := ()) Server.put_self
      (.readMalformed 0 rfl rfl (by decide) (by decide)))
    |>.snoc (.client (c := ()) Server.put_self (.reject rfl rfl))
    |>.snoc (.client (c := ()) Server.put_self
      (@ClientStep.read _ _ _ _ _ { commandType := 5 } rfl rfl (by decide) (by decide)))
    |>.snoc (.client (c := ()) Server.put_self (.touch rfl))
    |>.snoc (.client (c := ()) Server.put_self (.exec 0 rfl (by decide)))
    |>.snoc (.client (c := ()) Server.put_self (.reply rfl rfl))
    |>.snoc (.client (c := ()) Server.put_self (.remove rfl))
  refine ⟨_, _, _, run, Server.put_self, rfl, ?_⟩
  refine (one_response_per_frame run Server.put_self (by simp) (by simp)).1.2 (by decide) ?_
  intro action t handler
  exact ServerStep.not_returned Server.put_self rfl handler

end Bonka
