import Bonka.ServerRun

/-!
# One connection of a run

What a run of the whole server means for one of its connections: the actions of the connection
(`actionsOf`) drive it from `Connection.accepted`, and nothing else changes it, so a property of a
connection and its own actions is proved step by step (`connection_invariant`).

`Connection.Inv` says where `handle_client` stands: every frame taken is answered in order or is
the one in hand, and a `RESULT_EXIT` response is the last.
-/

namespace Bonka

open Proto Transition

variable {C : Type} [DecidableEq C] {env : ServerEnv}

/-- The actions of connection `c`, in order. -/
def actionsOf (c : C) (events : List (ServerEvent C)) : List ClientAction :=
  events.filterMap fun
    | .client d action => if d = c then some action else none
    | _ => none

@[simp] theorem actionsOf_nil (c : C) : actionsOf c [] = [] := rfl

theorem actionsOf_snoc (c : C) (events : List (ServerEvent C)) (event : ServerEvent C) :
    actionsOf c (events ++ [event]) = actionsOf c events ++ actionsOf c [event] := by
  simp [actionsOf]

@[simp] theorem actionsOf_client (c d : C) (action : ClientAction) :
    actionsOf c [.client d action] = if d = c then [action] else [] := by
  by_cases same : d = c <;> simp [actionsOf, same]

@[simp] theorem actionsOf_accept (c d : C) (addr : String) (sessionId : Id) :
    actionsOf c [.accept d addr sessionId] = [] := rfl

@[simp] theorem actionsOf_cleanup (c : C) (action : CleanupAction) :
    actionsOf c [.cleanup action] = [] := rfl

@[simp] theorem actionsOf_advance (c : C) (elapsed : Duration) :
    actionsOf c [.advance elapsed] = [] := rfl

theorem mem_actionsOf {c : C} {events : List (ServerEvent C)} {action : ClientAction} :
    action ∈ actionsOf c events ↔ .client c action ∈ events := by
  simp only [actionsOf, List.mem_filterMap]
  constructor
  · intro given
    rcases given with ⟨event, member, chosen⟩
    cases event with
    | client d other =>
        simp only [Option.ite_none_right_eq_some, Option.some.injEq] at chosen
        obtain ⟨rfl, rfl⟩ := chosen
        exact member
    | _ => cases chosen
  · intro member
    exact ⟨_, member, by simp⟩

section

variable {P : List ClientAction → Connection → Prop}
  (init : ∀ addr sessionId, P [] (.accepted addr sessionId))
  (preserved : ∀ {actions now state conn action state' conn'}, P actions conn →
    ClientStep env now state conn action state' conn' → P (actions ++ [action]) conn')
  {events : List (ServerEvent C)} {s : Server C} (run : Run (ServerStep env) .init events s) {c : C}
include init preserved run

/-- What holds of an accepted connection and survives its own steps holds of every connection; one
that is not accepted yet has done nothing. -/
theorem connection_cases : (s.connections c = none → actionsOf c events = []) ∧
    ∀ conn, s.connections c = some conn → P (actionsOf c events) conn := by
  refine run.invariant (P := fun events (s : Server C) => ∀ c,
    (s.connections c = none → actionsOf c events = []) ∧
      ∀ conn, s.connections c = some conn → P (actionsOf c events) conn) ?_ ?_ c
  · exact fun c => ⟨fun _ => rfl, fun _ found => by cases found⟩
  · intro events s event t _ ih edge c
    rw [actionsOf_snoc]
    cases edge with
    | @accept d _ _ _ _ fresh =>
        rw [actionsOf_accept, List.append_nil]
        by_cases same : c = d
        · subst same
          simp only [Server.put_self, reduceCtorEq, false_implies, Option.some.injEq, forall_eq',
            true_and, (ih c).1 fresh]
          exact init _ _
        · simpa only [Server.put_ne same] using ih c
    | @client d _ _ _ _ found edge =>
        by_cases same : c = d
        · subst same
          simp only [Server.put_self, reduceCtorEq, false_implies, Option.some.injEq, forall_eq',
            true_and, actionsOf_client, if_true]
          exact preserved ((ih c).2 _ found) edge
        · rw [actionsOf_client, if_neg (Ne.symm same), List.append_nil]
          simpa only [Server.put_ne same] using ih c
    | cleanup _ => simpa using ih c
    | advance _ => simpa using ih c

/-- **Invariant rule for one connection.** -/
theorem connection_invariant {conn : Connection} (found : s.connections c = some conn) :
    P (actionsOf c events) conn :=
  (connection_cases init preserved run).2 conn found

end

/-- A connection that has done something is there. -/
theorem exists_connection {events : List (ServerEvent C)} {s : Server C}
    (run : Run (ServerStep env) .init events s) {c : C} {action : ClientAction}
    (member : .client c action ∈ events) : ∃ conn, s.connections c = some conn := by
  rw [← Option.isSome_iff_exists, Option.isSome_iff_ne_none]
  intro fresh
  have idle := (connection_cases (P := fun _ _ => True) (fun _ _ => trivial)
    (fun _ _ => trivial) run).1 fresh
  exact List.ne_nil_of_mem (mem_actionsOf.mpr member) idle

/-! ## Where `handle_client` stands -/

/-- What the server may answer: the id of the request and `RESULT_EXIT` for `COMMAND_EXIT` alone;
for a frame that does not decode, the fixed error. -/
def Answers : Option Request → Response → Prop
  | some request, response =>
      response.id = request.id ∧
        (response.getResultType = .resultExit ↔ request.getCommandType = .commandExit)
  | none, response => ∃ timestamp, response = invalidRequestResponse timestamp

/-- Frame `n` decodes to `request`, or does not decode. -/
def FrameAt (env : ServerEnv) (frames : List Bytes) (n : ℕ) (request : Option Request) : Prop :=
  ∃ frame, frames[n]? = some frame ∧ env.decodeRequest frame = request

/-- Of the `taken` frames all are answered, but for the one in hand. -/
def HandlerStage.Position (env : ServerEnv) (frames : List Bytes) (taken answered : ℕ) :
    HandlerStage → Prop
  | .reading | .closing | .returned (.ok _) => taken = answered
  | .touching request | .processing request _ _ =>
      taken = answered + 1 ∧ FrameAt env frames answered (some request)
  | .replying request response =>
      taken = answered + 1 ∧ FrameAt env frames answered (some request) ∧
        Answers (some request) response
  | .rejecting response =>
      taken = answered + 1 ∧ FrameAt env frames answered none ∧ Answers none response
  | .returned (.error _) => taken = answered + 1

namespace Connection

/-- Why the loop was left without an error. -/
inductive LoopExit (actions : List ClientAction) (conn : Connection) : Prop
  | exited (reply : Reply) : conn.replies.getLast? = some reply →
    reply.response.getResultType = .resultExit → LoopExit actions conn
  | streamEnd : conn.ended = true → conn.taken = conn.frames.length → LoopExit actions conn
  | codecError : .codecError ∈ actions → LoopExit actions conn

/-- The invariant of one connection and its actions. -/
structure Inv (env : ServerEnv) (actions : List ClientAction) (conn : Connection) : Prop where
  taken_le : conn.taken ≤ conn.frames.length
  position : conn.stage.Position env conn.frames conn.taken conn.replies.length
  answered : ∀ {n reply}, conn.replies[n]? = some reply →
    FrameAt env conn.frames n reply.request ∧ Answers reply.request reply.response
  exit_last : ∀ {n reply}, conn.replies[n]? = some reply →
    reply.response.getResultType = .resultExit →
    n + 1 = conn.replies.length ∧ conn.stage.PastLoop
  left : conn.stage.PastLoop → conn.LoopExit actions
  failed : ∀ {error}, conn.stage = .returned (.error error) → .sendError ∈ actions

end Connection

variable {conn : Connection} {actions : List ClientAction} {action : ClientAction}

/-- Frames sent later do not change the earlier ones. -/
theorem FrameAt.send {frames : List Bytes} {n : ℕ} {request : Option Request}
    (at_n : FrameAt env frames n request) (frame : Bytes) :
    FrameAt env (frames ++ [frame]) n request := by
  obtain ⟨f, found, decoded⟩ := at_n
  obtain ⟨less, -⟩ := List.getElem?_eq_some_iff.mp found
  exact ⟨f, by rw [List.getElem?_append_left less, found], decoded⟩

theorem HandlerStage.Position.send {stage : HandlerStage} {frames : List Bytes} {taken n : ℕ}
    (position : stage.Position env frames taken n) (frame : Bytes) :
    stage.Position env (frames ++ [frame]) taken n := by
  match stage, position with
  | .reading, same | .closing, same | .returned (.ok _), same | .returned (.error _), same =>
      exact same
  | .touching _, ⟨same, at_n⟩ | .processing _ _ _, ⟨same, at_n⟩ => exact ⟨same, at_n.send frame⟩
  | .replying _ _, ⟨same, at_n, answers⟩ | .rejecting _, ⟨same, at_n, answers⟩ =>
      exact ⟨same, at_n.send frame, answers⟩

namespace Connection

/-- A step that leaves the loop alone keeps the reason it was left. -/
theorem LoopExit.keep {conn' : Connection} (left : conn.LoopExit actions)
    (replies : conn'.replies = conn.replies)
    (ended : conn.ended = true → conn'.ended = true ∧ conn'.frames = conn.frames)
    (taken : conn'.taken = conn.taken) : conn'.LoopExit (actions ++ [action]) := by
  cases left with
  | exited reply last exit => exact .exited reply (by rw [replies, last]) exit
  | streamEnd finished all =>
      obtain ⟨finished', frames⟩ := ended finished
      exact .streamEnd finished' (by rw [taken, all, frames])
  | codecError member => exact .codecError (List.mem_append_left _ member)

namespace Inv

theorem accepted (addr : String) (sessionId : Id) : (accepted addr sessionId).Inv env [] where
  taken_le := le_rfl
  position := rfl
  answered found := by cases found
  exit_last found := by cases found
  left stage := stage.elim
  failed stage := by cases stage

theorem not_exit (inv : conn.Inv env actions) (inLoop : ¬ conn.stage.PastLoop) {n : ℕ}
    {reply : Reply} (found : conn.replies[n]? = some reply) :
    reply.response.getResultType ≠ .resultExit :=
  fun exit => inLoop (inv.exit_last found exit).2

/-- A step of the loop that sends nothing. -/
theorem move (inv : conn.Inv env actions) (inLoop : ¬ conn.stage.PastLoop) {stage : HandlerStage}
    {taken : ℕ} (taken_le : taken ≤ conn.frames.length)
    (position : stage.Position env conn.frames taken conn.replies.length)
    (left : stage.PastLoop →
      LoopExit (actions ++ [action]) { conn with stage := stage, taken := taken })
    (failed : ∀ error, stage = .returned (.error error) → .sendError ∈ actions ++ [action]) :
    Inv env (actions ++ [action]) { conn with stage := stage, taken := taken } where
  taken_le := taken_le
  position := position
  answered := inv.answered
  exit_last found exit := (inv.not_exit inLoop found exit).elim
  left := left
  failed := failed _

/-- A response to the frame in hand: the loop goes on unless it is `RESULT_EXIT`. -/
theorem answer (inv : conn.Inv env actions) (reply : Reply) (inLoop : ¬ conn.stage.PastLoop)
    (taken : conn.taken = conn.replies.length + 1)
    (at_n : FrameAt env conn.frames conn.replies.length reply.request)
    (answers : Answers reply.request reply.response) :
    Inv env (actions ++ [action])
      { conn with
        stage := if reply.response.getResultType = .resultExit then .closing else .reading,
        replies := conn.replies ++ [reply] } where
  taken_le := inv.taken_le
  position := by
    dsimp only
    split <;> simpa [HandlerStage.Position] using taken
  answered := by
    intro n other found
    rw [List.getElem?_append] at found
    split at found
    · exact inv.answered found
    · rename_i atEnd
      obtain ⟨same, rfl⟩ : n - conn.replies.length = 0 ∧ reply = other := by
        simpa [List.getElem?_singleton] using found
      have here : n = conn.replies.length := by omega
      exact ⟨here ▸ at_n, answers⟩
  exit_last := by
    intro n other found exit
    rw [List.getElem?_append] at found
    split at found
    · exact (inv.not_exit inLoop found exit).elim
    · rename_i atEnd
      obtain ⟨same, rfl⟩ : n - conn.replies.length = 0 ∧ reply = other := by
        simpa [List.getElem?_singleton] using found
      rw [if_pos exit, List.length_append, List.length_singleton]
      exact ⟨by omega, trivial⟩
  left := by
    intro stage
    dsimp only at stage
    split at stage
    · exact .exited reply (by simp) ‹_›
    · exact stage.elim
  failed := by
    intro error stage
    dsimp only at stage
    split at stage <;> cases stage

/-- Every step of a connection keeps its invariant. -/
theorem step {now : Instant} {state state' : ServerState} {conn' : Connection}
    (inv : conn.Inv env actions) (edge : ClientStep env now state conn action state' conn') :
    conn'.Inv env (actions ++ [action]) := by
  have position := inv.position
  cases edge with
  | send frame opened =>
      exact {
        taken_le := by simpa using inv.taken_le.trans (Nat.le_succ _)
        position := position.send frame
        answered := fun found => ⟨(inv.answered found).1.send frame, (inv.answered found).2⟩
        exit_last := inv.exit_last
        left := fun stage => (inv.left stage).keep rfl (by simp [opened]) rfl
        failed := fun stage => List.mem_append_left _ (inv.failed stage) }
  | hangUp =>
      exact {
        taken_le := inv.taken_le
        position := position
        answered := inv.answered
        exit_last := inv.exit_last
        left := fun stage => (inv.left stage).keep rfl (fun _ => ⟨rfl, rfl⟩) rfl
        failed := fun stage => List.mem_append_left _ (inv.failed stage) }
  | receive _ =>
      exact {
        taken_le := inv.taken_le
        position := position
        answered := inv.answered
        exit_last := inv.exit_last
        left := fun stage => (inv.left stage).keep rfl (fun ended => ⟨ended, rfl⟩) rfl
        failed := fun stage => List.mem_append_left _ (inv.failed stage) }
  | read atStart found _ decoded =>
      rw [atStart] at position
      have same : conn.taken = conn.replies.length := position
      refine inv.move (by rw [atStart]; exact id) (List.getElem?_eq_some_iff.mp found).1
        ⟨by rw [same], _, same ▸ found, decoded⟩ (fun past => past.elim) (by simp)
  | readMalformed timestamp atStart found _ decoded =>
      rw [atStart] at position
      have same : conn.taken = conn.replies.length := position
      refine inv.move (by rw [atStart]; exact id) (List.getElem?_eq_some_iff.mp found).1
        ⟨by rw [same], ⟨_, same ▸ found, decoded⟩, timestamp, rfl⟩ (fun past => past.elim) (by simp)
  | endOfStream atStart ended taken =>
      rw [atStart] at position
      exact inv.move (by rw [atStart]; exact id) inv.taken_le position
        (fun _ => .streamEnd ended taken) (by simp)
  | codecError atStart =>
      rw [atStart] at position
      exact inv.move (by rw [atStart]; exact id) inv.taken_le position
        (fun _ => .codecError (by simp)) (by simp)
  | touch atStart =>
      rw [atStart] at position
      exact inv.move (by rw [atStart]; exact id) inv.taken_le position
        (fun past => past.elim) (by simp)
  | scan found atStart _ _ _ =>
      rw [atStart] at position
      exact inv.move (by rw [atStart]; exact id) inv.taken_le position
        (fun past => past.elim) (by simp)
  | list timestamp atStart isList _ =>
      rw [atStart] at position
      exact inv.move (by rw [atStart]; exact id) inv.taken_le
        ⟨position.1, position.2, rfl, by simp [isList]⟩ (fun past => past.elim) (by simp)
  | exec timestamp atStart _ =>
      rw [atStart] at position
      exact inv.move (by rw [atStart]; exact id) inv.taken_le
        ⟨position.1, position.2, processCommand_id .., processCommand_exit_iff ..⟩
        (fun past => past.elim) (by simp)
  | reply atStart _ =>
      rw [atStart] at position
      exact inv.answer ⟨some _, _⟩ (by rw [atStart]; exact id) position.1 position.2.1 position.2.2
  | reject atStart _ =>
      rw [atStart] at position
      obtain ⟨taken, at_n, timestamp, rfl⟩ := position
      exact inv.answer ⟨none, _⟩ (by rw [atStart]; exact id) taken at_n ⟨timestamp, rfl⟩
  | sendErrorReply atStart | sendErrorReject atStart =>
      rw [atStart] at position
      exact inv.move (by rw [atStart]; exact id) inv.taken_le position.1
        (fun past => past.elim) (by simp)
  | remove atStart =>
      rw [atStart] at position
      exact {
        taken_le := inv.taken_le
        position := position
        answered := inv.answered
        exit_last := fun found exit => ⟨(inv.exit_last found exit).1, trivial⟩
        left := fun _ =>
          (inv.left (by rw [atStart]; trivial)).keep rfl (fun ended => ⟨ended, rfl⟩) rfl
        failed := fun stage => by cases stage }

end Inv

end Connection

/-- The invariant holds of every connection of every run. -/
theorem connection_inv {events : List (ServerEvent C)} {s : Server C}
    (run : Run (ServerStep env) .init events s) {c : C} {conn : Connection}
    (found : s.connections c = some conn) : conn.Inv env (actionsOf c events) :=
  connection_invariant (P := fun actions conn => conn.Inv env actions)
    Connection.Inv.accepted (fun inv edge => inv.step edge) run found

/-- A handler whose send failed has returned the error. -/
theorem returned_of_sendError {events : List (ServerEvent C)} {s : Server C}
    (run : Run (ServerStep env) .init events s) {c : C} {conn : Connection}
    (found : s.connections c = some conn) (failed : .client c .sendError ∈ events) :
    ∃ error, conn.stage = .returned (.error error) := by
  refine connection_invariant (P := fun actions conn => .sendError ∈ actions →
    ∃ error, conn.stage = .returned (.error error)) ?_ ?_ run found (mem_actionsOf.mpr failed)
  · intro _ _ member
    cases member
  · intro actions now state conn action state' conn' ih edge member
    rcases List.mem_append.mp member with old | new
    · obtain ⟨error, stage⟩ := ih old
      cases edge <;> first | exact ⟨error, stage⟩ | simp_all
    · cases List.mem_singleton.mp new
      cases edge <;> exact ⟨_, rfl⟩

/-! ## What the actions of a connection record -/

/-- The number of a command run whose response has not been sent. -/
def HandlerStage.unanswered : HandlerStage → ℕ
  | .replying _ _ | .returned (.error _) => 1
  | _ => 0

/-- An action that neither sends a frame, nor runs a command, nor receives a response. -/
def ClientAction.Plain : ClientAction → Prop
  | .send _ _ | .exec _ _ _ | .receive _ _ => False
  | _ => True

namespace ClientAction.Plain

variable (plain : action.Plain) {n : ℕ}
include plain

theorem mem_send {frame : Bytes} :
    .send n frame ∈ actions ++ [action] ↔ .send n frame ∈ actions := by
  cases action <;> first | exact plain.elim | simp

theorem mem_exec {request : Request} {response : Response} :
    .exec n request response ∈ actions ++ [action] ↔ .exec n request response ∈ actions := by
  cases action <;> first | exact plain.elim | simp

theorem mem_receive {reply : Reply} :
    .receive n reply ∈ actions ++ [action] ↔ .receive n reply ∈ actions := by
  cases action <;> first | exact plain.elim | simp

end ClientAction.Plain

namespace Connection

/-- The actions of a connection and its state tell the same story. -/
structure Traced (env : ServerEnv) (actions : List ClientAction) (conn : Connection) : Prop where
  sent : ∀ {n frame}, .send n frame ∈ actions ↔ conn.frames[n]? = some frame
  decoded : ∀ {n request response}, .exec n request response ∈ actions →
    FrameAt env conn.frames n (some request)
  executed_lt : ∀ {n request response}, .exec n request response ∈ actions →
    n < conn.replies.length + conn.stage.unanswered
  answered : ∀ {n request response}, conn.replies[n]? = some ⟨some request, response⟩ →
    .exec n request response ∈ actions
  unanswered : ∀ {request response}, conn.stage = .replying request response →
    .exec conn.replies.length request response ∈ actions
  received : ∀ {n reply}, .receive n reply ∈ actions → conn.replies[n]? = some reply

namespace Traced

theorem accepted (addr : String) (sessionId : Id) : (accepted addr sessionId).Traced env [] where
  sent := by simp [Connection.accepted]
  decoded member := by cases member
  executed_lt member := by cases member
  answered found := by cases found
  unanswered stage := by cases stage
  received member := by cases member

/-- A plain action that only moves `handle_client` on. -/
theorem move (traced : conn.Traced env actions) (plain : action.Plain) {stage : HandlerStage}
    {taken : ℕ} (kept : conn.stage.unanswered ≤ stage.unanswered)
    (quiet : ∀ request response, stage ≠ .replying request response) :
    Traced env (actions ++ [action]) { conn with stage := stage, taken := taken } where
  sent := by
    intro n frame
    rw [plain.mem_send]
    exact traced.sent
  decoded member := traced.decoded (plain.mem_exec.mp member)
  executed_lt member :=
    (traced.executed_lt (plain.mem_exec.mp member)).trans_le (Nat.add_le_add_left kept _)
  answered found := List.mem_append_left _ (traced.answered found)
  unanswered same := (quiet _ _ same).elim
  received member := traced.received (plain.mem_receive.mp member)

/-- The command of the frame in hand is run. -/
theorem exec (traced : conn.Traced env actions) {request : Request} {response : Response}
    (at_n : FrameAt env conn.frames conn.replies.length (some request))
    (idle : conn.stage.unanswered = 0) :
    Traced env (actions ++ [.exec conn.replies.length request response])
      { conn with stage := .replying request response } where
  sent := by
    intro n frame
    rw [← traced.sent]
    simp
  decoded := by
    intro n other answer member
    rcases List.mem_append.mp member with old | new
    · exact traced.decoded old
    · cases List.mem_singleton.mp new
      exact at_n
  executed_lt := by
    intro n other answer member
    dsimp only [HandlerStage.unanswered]
    rcases List.mem_append.mp member with old | new
    · have less := traced.executed_lt old
      omega
    · cases List.mem_singleton.mp new
      omega
  answered found := List.mem_append_left _ (traced.answered found)
  unanswered := by
    intro _ _ holds
    rcases holds with ⟨rfl, rfl⟩
    simp
  received := by
    intro n reply member
    exact traced.received (by simpa using member)

/-- The response to the frame in hand is sent. -/
theorem answer (traced : conn.Traced env actions) (plain : action.Plain) (reply : Reply)
    {stage : HandlerStage} (quiet : ∀ request response, stage ≠ .replying request response)
    (ran : ∀ request, reply.request = some request →
      conn.stage = .replying request reply.response)
    (kept : conn.stage.unanswered ≤ 1) :
    Traced env (actions ++ [action])
      { conn with stage := stage, replies := conn.replies ++ [reply] } where
  sent := by
    intro n frame
    rw [plain.mem_send]
    exact traced.sent
  decoded member := traced.decoded (plain.mem_exec.mp member)
  executed_lt := by
    intro n request response member
    have less := traced.executed_lt (plain.mem_exec.mp member)
    rw [List.length_append, List.length_singleton]
    omega
  answered := by
    intro n request response found
    apply List.mem_append_left _
    rw [List.getElem?_append] at found
    split at found
    · exact traced.answered found
    · obtain ⟨same, rfl⟩ : n - conn.replies.length = 0 ∧ reply = ⟨some request, response⟩ := by
        simpa [List.getElem?_singleton] using found
      have here : n = conn.replies.length := by omega
      exact here ▸ traced.unanswered (ran request rfl)
  unanswered same := (quiet _ _ same).elim
  received := by
    intro n other member
    have old := traced.received (plain.mem_receive.mp member)
    rw [List.getElem?_append_left (List.getElem?_eq_some_iff.mp old).1, old]

theorem step {now : Instant} {state state' : ServerState} {conn' : Connection}
    (inv : conn.Inv env actions) (traced : conn.Traced env actions)
    (edge : ClientStep env now state conn action state' conn') :
    conn'.Traced env (actions ++ [action]) := by
  have position := inv.position
  cases edge with
  | send frame _ =>
      refine {
        sent := ?_
        decoded := fun member => (traced.decoded (by simpa using member)).send frame
        executed_lt := fun member => traced.executed_lt (by simpa using member)
        answered := fun found => List.mem_append_left _ (traced.answered found)
        unanswered := fun same => List.mem_append_left _ (traced.unanswered same)
        received := fun member => traced.received (by simpa using member) }
      intro n other
      rw [List.mem_append, traced.sent, List.mem_singleton, List.getElem?_append]
      split
      · rename_i less
        refine or_iff_left fun same => ?_
        cases same
        omega
      · rename_i atEnd
        rw [List.getElem?_eq_none (by omega)]
        constructor
        · intro holds
          rcases holds with old | new
          · cases old
          · cases new
            simp
        · intro found
          obtain ⟨same, rfl⟩ : n - conn.frames.length = 0 ∧ frame = other := by
            simpa [List.getElem?_singleton] using found
          have here : n = conn.frames.length := by omega
          exact Or.inr (by rw [here])
  | hangUp =>
      exact {
        sent := by intro n frame; rw [← traced.sent]; simp
        decoded := fun member => traced.decoded (by simpa using member)
        executed_lt := fun member => traced.executed_lt (by simpa using member)
        answered := fun found => List.mem_append_left _ (traced.answered found)
        unanswered := fun same => List.mem_append_left _ (traced.unanswered same)
        received := fun member => traced.received (by simpa using member) }
  | receive found =>
      exact {
        sent := by intro n frame; rw [← traced.sent]; simp
        decoded := fun member => traced.decoded (by simpa using member)
        executed_lt := fun member => traced.executed_lt (by simpa using member)
        answered := fun found => List.mem_append_left _ (traced.answered found)
        unanswered := fun same => List.mem_append_left _ (traced.unanswered same)
        received := by
          intro n reply member
          rcases List.mem_append.mp member with old | new
          · exact traced.received old
          · cases List.mem_singleton.mp new
            exact found }
  | read atStart _ _ _ =>
      exact traced.move (by trivial) (by rw [atStart]; exact Nat.zero_le _) (by simp)
  | readMalformed _ atStart _ _ _ =>
      exact traced.move (by trivial) (by rw [atStart]; exact Nat.zero_le _) (by simp)
  | endOfStream atStart _ _ =>
      exact traced.move (by trivial) (by rw [atStart]; exact Nat.zero_le _) (by simp)
  | codecError atStart =>
      exact traced.move (by trivial) (by rw [atStart]; exact Nat.zero_le _) (by simp)
  | touch atStart =>
      exact traced.move (by trivial) (by rw [atStart]; exact Nat.zero_le _) (by simp)
  | scan _ atStart _ _ _ =>
      exact traced.move (by trivial) (by rw [atStart]; exact Nat.zero_le _) (by simp)
  | list _ atStart _ _ =>
      rw [atStart] at position
      exact traced.exec position.2 (by rw [atStart]; rfl)
  | exec _ atStart _ =>
      rw [atStart] at position
      exact traced.exec position.2 (by rw [atStart]; rfl)
  | reply atStart _ =>
      refine traced.answer (by trivial) ⟨some _, _⟩ ?_ ?_ (by rw [atStart]; exact le_rfl)
      · intro request response
        split <;> simp
      · intro _ holds
        rcases holds with ⟨rfl⟩
        exact atStart
  | reject atStart _ =>
      exact traced.answer (by trivial) ⟨none, _⟩ (by simp) (by simp)
        (by rw [atStart]; exact Nat.zero_le _)
  | sendErrorReply atStart =>
      exact traced.move (by trivial) (by rw [atStart]; exact le_rfl) (by simp)
  | sendErrorReject atStart =>
      exact traced.move (by trivial) (by rw [atStart]; exact Nat.zero_le _) (by simp)
  | remove atStart =>
      exact traced.move (by trivial) (by rw [atStart]; exact Nat.zero_le _) (by simp)

end Traced

end Connection

/-- The actions of every connection of every run match its state. -/
theorem connection_traced {events : List (ServerEvent C)} {s : Server C}
    (run : Run (ServerStep env) .init events s) {c : C} {conn : Connection}
    (found : s.connections c = some conn) : conn.Traced env (actionsOf c events) :=
  (connection_invariant (P := fun actions conn => conn.Inv env actions ∧ conn.Traced env actions)
    (fun addr sessionId => ⟨.accepted addr sessionId, .accepted addr sessionId⟩)
    (fun ⟨inv, traced⟩ edge => ⟨inv.step edge, traced.step inv edge⟩) run found).2

end Bonka
