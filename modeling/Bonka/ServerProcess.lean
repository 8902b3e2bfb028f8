import Bonka.AcceptLoop
import Bonka.ConnectionProgress
import Bonka.Lib.Simulation
import Bonka.StartUp

/-!
# The whole of `run` (`src/server.rs`)

The descriptor limits, the accept loop with its permits and client tasks, the handlers and the
clean-up as one process.  Each part takes its own steps, and they meet in the client tasks: a task
runs one `handle_client`, whose return ends the task.  Any run of the process is a run of the loop
and one of the server (`loop_run`, `server_run`).

The limit taken at start-up therefore bounds the handlers (`handlers_within_limit`), and every
permit comes back when the clients read what they were sent and hang up, without the loop doing
anything and without a failure (`permits_recovered`).
-/

namespace Bonka

open Transition

variable {C : Type} [DecidableEq C]

/-! ## The process -/

/-- `Duration::from_millis(50)` in `run`. -/
def baseDelay : Duration := 50 * 1000000

/-- `Duration::from_secs(5)` in `run`. -/
def maxDelay : Duration := .fromSecs 5

/-- `Semaphore::MAX_PERMITS`; `Semaphore::new` panics above it. -/
def maxPermits : ℕ := 2 ^ 61 - 1

structure ServerProcess (C : Type) where
  loop : LoopState C
  server : Server C

/-- `run` up to its loop, when no call on the system fails. -/
def ServerProcess.start (connectionLimit : Option String) (limits : Rlimit) :
    Option (ServerProcess C) :=
  let maxConnections := (startUp connectionLimit limits).2.toNat
  if maxConnections ≤ maxPermits then
    some { loop := .init maxConnections baseDelay, server := .init }
  else none

def ClientTask.client : ClientTask C → C
  | .handling client => client
  | .ending client _ => client

/-- The client that is accepted and has no task yet. -/
def LoopStage.pending : LoopStage C → Option C
  | .accepted client => some client
  | _ => none

/-- The clients of the tasks, and the one that is to get a task. -/
def LoopState.clients (loop : LoopState C) : List C :=
  loop.tasks.map ClientTask.client ++ loop.stage.pending.toList

def ClientResult.ofResult : Except ServerError Unit → ClientResult
  | .ok _ => .ok
  | .error _ => .err

inductive ProcessEvent (C : Type)
  | loop (event : LoopEvent C)
  | server (event : ServerEvent C)

def ProcessEvent.ofLoop : ProcessEvent C → Option (LoopEvent C)
  | .loop event => some event
  | .server _ => none

def ProcessEvent.ofServer : ProcessEvent C → Option (ServerEvent C)
  | .server event => some event
  | .loop _ => none

/-- One step of the process. -/
inductive ProcessStep (env : ServerEnv) :
    ServerProcess C → ProcessEvent C → ServerProcess C → Prop
  /-- The loop moves; an accepted client is a new one. -/
  | loop {p : ServerProcess C} {loop : LoopState C} {event : LoopEvent C} :
    LoopStep baseDelay maxDelay p.loop event loop → ¬ event.OfTask →
    (∀ c, event = .accept c → p.server.connections c = none ∧ c ∉ p.loop.clients) →
    ProcessStep env p (.loop event) { p with loop }
  /-- The task of a client calls `create_session`. -/
  | session {p : ServerProcess C} {server : Server C} {c : C} {addr : String} {sessionId : Id} :
    .handling c ∈ p.loop.tasks → ServerStep env p.server (.accept c addr sessionId) server →
    ProcessStep env p (.server (.accept c addr sessionId)) { p with server }
  /-- `set_nodelay` fails, and `handle_client` returns before it has a session. -/
  | configureError {p : ServerProcess C} {loop : LoopState C} {c : C} :
    p.server.connections c = none →
    LoopStep baseDelay maxDelay p.loop (.handled c .err) loop →
    ProcessStep env p (.loop (.handled c .err)) { p with loop }
  /-- A handler, a client, the clean-up or the clock moves. -/
  | server {p : ServerProcess C} {server : Server C} {event : ServerEvent C} :
    (∀ c addr sessionId, event ≠ .accept c addr sessionId) →
    ServerStep env p.server event server →
    ProcessStep env p (.server event) { p with server }
  /-- The `handle_client` of a task has returned. -/
  | handled {p : ServerProcess C} {loop : LoopState C} {c : C} {conn : Connection}
    {result : Except ServerError Unit} :
    p.server.connections c = some conn → conn.stage = .returned result →
    LoopStep baseDelay maxDelay p.loop (.handled c (.ofResult result)) loop →
    ProcessStep env p (.loop (.handled c (.ofResult result))) { p with loop }
  /-- A task ends. -/
  | finish {p : ServerProcess C} {loop : LoopState C} {c : C} :
    LoopStep baseDelay maxDelay p.loop (.finish c) loop →
    ProcessStep env p (.loop (.finish c)) { p with loop }

variable {env : ServerEnv} {p p' p₀ : ServerProcess C} {event : ProcessEvent C}
  {events : List (ProcessEvent C)} {connectionLimit : Option String} {limits : Rlimit}

/-- What the process does with its loop is a run of the loop. -/
theorem loop_run (run : Run (ProcessStep env) p events p') :
    Run (LoopStep baseDelay maxDelay) p.loop (events.filterMap ProcessEvent.ofLoop) p'.loop := by
  refine Simulation.run_projection ServerProcess.loop (.of_projection ?_ ?_) run
  · intro s event s' edge unseen
    cases edge <;> first | rfl | cases unseen
  · intro s event s' event' edge seen
    cases edge <;> cases seen <;> assumption

/-- What the process does with its connections is a run of the server. -/
theorem server_run (run : Run (ProcessStep env) p events p') :
    Run (ServerStep env) p.server (events.filterMap ProcessEvent.ofServer) p'.server := by
  refine Simulation.run_projection ServerProcess.server (.of_projection ?_ ?_) run
  · intro s event s' edge unseen
    cases edge <;> first | rfl | cases unseen
  · intro s event s' event' edge seen
    cases edge <;> cases seen <;> assumption

omit [DecidableEq C] in
theorem start_eq (started : ServerProcess.start connectionLimit limits = some p₀) :
    p₀ = ⟨.init (startUp connectionLimit limits).2.toNat baseDelay, .init⟩ := by
  unfold ServerProcess.start at started
  dsimp only at started
  split at started
  · exact (Option.some.inj started).symm
  · cases started

/-! ## Handlers and tasks -/

/-- Every handler that runs has a task of its own. -/
structure ServerProcess.Inv (p : ServerProcess C) : Prop where
  distinct : p.loop.clients.Nodup
  running : ∀ {c conn}, p.server.connections c = some conn → ¬ conn.Returned →
    .handling c ∈ p.loop.tasks
  pending : ∀ {c}, p.loop.stage = .accepted c → p.server.connections c = none

/-- A handler that has returned stays returned. -/
theorem ClientStep.returned {now : Instant} {state state' : ServerState} {conn conn' : Connection}
    {action : ClientAction} (edge : ClientStep env now state conn action state' conn')
    (returned : conn.Returned) : conn'.Returned := by
  obtain ⟨result, stage⟩ := returned
  cases edge with
  | send | hangUp | receive => exact ⟨result, stage⟩
  | read here | readMalformed _ here | endOfStream here | codecError here | touch here
  | scan _ here | list _ here | exec _ here | reply here | reject here | sendErrorReply here
  | sendErrorReject here | remove here =>
      rw [stage] at here
      cases here

omit [DecidableEq C] in
/-- A task changes hands under the name of its client. -/
theorem mem_tasks_handled {before after : List (ClientTask C)} {c d : C} {result : ClientResult}
    (member : ClientTask.handling d ∈ before ++ .handling c :: after) (other : d ≠ c) :
    ClientTask.handling d ∈ before ++ .ending c result :: after := by
  simpa [other] using member

omit [DecidableEq C] in
/-- A step of the loop itself gives a task to the client it has accepted, and no other. -/
theorem LoopStep.clients_eq {s t : LoopState C} {event : LoopEvent C}
    (step : LoopStep baseDelay maxDelay s event t) (own : ¬ event.OfTask) :
    t.clients = s.clients ∨ ∃ c, event = .accept c ∧ t.clients = s.clients ++ [c] := by
  unfold LoopState.clients
  cases step with
  | accept stage client =>
      exact .inr ⟨client, rfl, by simp [stage, LoopStage.pending]⟩
  | spawn stage => exact .inl (by simp [stage, LoopStage.pending, ClientTask.client])
  | handled | finish => exact absurd trivial own
  | acquire stage | acceptError stage | dropPermit stage | wake stage =>
      exact .inl (by simp [stage, LoopStage.pending])

/-- Every step keeps the handlers with their tasks. -/
theorem ProcessStep.inv (edge : ProcessStep env p event p') (inv : p.Inv) : p'.Inv := by
  cases edge with
  | @loop loop event step own fresh =>
      refine ⟨?_, ?_, ?_⟩
      · rcases step.clients_eq own with same | ⟨c, accepted, grown⟩
        · exact same ▸ inv.distinct
        · change loop.clients.Nodup
          rw [grown, List.nodup_append]
          refine ⟨inv.distinct, List.nodup_singleton c, ?_⟩
          intro d member e here same
          rw [List.mem_singleton.mp here] at same
          exact (fresh c accepted).2 (same ▸ member)
      · intro c conn found running
        have member := inv.running found running
        cases step with
        | spawn => exact List.mem_append_left _ member
        | handled | finish => exact absurd trivial own
        | _ => exact member
      · intro c stage
        cases step with
        | accept _ client =>
            cases stage
            exact (fresh _ rfl).1
        | handled | finish => exact absurd trivial own
        | _ => cases stage
  | @session server c addr sessionId handling step =>
      cases step with
      | accept fresh length created =>
          refine ⟨inv.distinct, ?_, ?_⟩
          · intro d conn found running
            by_cases same : d = c
            · exact same ▸ handling
            · rw [Server.put_ne same] at found
              exact inv.running found running
          · intro d stage
            have ne : d ≠ c := by
              intro same
              have distinct := inv.distinct
              rw [LoopState.clients, stage, same] at distinct
              exact (List.nodup_append.mp distinct).2.2 c (List.mem_map_of_mem handling) c
                (List.mem_singleton_self c) rfl
            rw [Server.put_ne ne]
            exact inv.pending stage
  | @configureError loop c absent step =>
      cases step with
      | @handled before after _ tasks result =>
          refine ⟨?_, ?_, inv.pending⟩
          · have distinct := inv.distinct
            rw [LoopState.clients, tasks] at distinct
            simpa [LoopState.clients, ClientTask.client] using distinct
          · intro d conn found running
            refine mem_tasks_handled (tasks ▸ inv.running found running) fun same => ?_
            rw [same, absent] at found
            cases found
  | @server server event notAccept step =>
      refine ⟨inv.distinct, ?_, ?_⟩
      · intro d conn found running
        cases step with
        | accept => exact absurd rfl (notAccept _ _ _)
        | @client c old new _ _ here edge =>
            by_cases same : d = c
            · subst same
              rw [Server.put_self] at found
              cases found
              exact inv.running here fun returned => running (edge.returned returned)
            · rw [Server.put_ne same] at found
              exact inv.running found running
        | cleanup | advance => exact inv.running found running
      · intro d stage
        have absent := inv.pending stage
        cases step with
        | accept => exact absurd rfl (notAccept _ _ _)
        | @client c old new _ _ here edge =>
            have ne : d ≠ c := by
              intro same
              rw [← same, absent] at here
              cases here
            exact (Server.put_ne ne).trans absent
        | cleanup | advance => exact absent
  | @handled loop c conn result there returned step =>
      cases step with
      | @handled before after _ tasks result =>
          refine ⟨?_, ?_, inv.pending⟩
          · have distinct := inv.distinct
            rw [LoopState.clients, tasks] at distinct
            simpa [LoopState.clients, ClientTask.client] using distinct
          · intro d conn' found running
            refine mem_tasks_handled (tasks ▸ inv.running found running) fun same => ?_
            rw [same, there] at found
            cases found
            exact running ⟨_, returned⟩
  | @finish loop c step =>
      cases step with
      | @finish before after _ result tasks =>
          refine ⟨?_, ?_, inv.pending⟩
          · have distinct := inv.distinct
            rw [LoopState.clients, tasks] at distinct
            refine distinct.sublist ?_
            simp [LoopState.clients]
          · intro d conn found running
            have member := inv.running found running
            rw [tasks] at member
            simpa using member

theorem run_inv (started : ServerProcess.start connectionLimit limits = some p₀)
    (run : Run (ProcessStep env) p₀ events p) : p.Inv := by
  induction run with
  | nil =>
      rw [start_eq started]
      exact ⟨List.nodup_nil, fun found _ => (by cases found), fun stage => (by cases stage)⟩
  | snoc _ last ih => exact last.inv ih

/-! ## The limit -/

def ClientTask.isHandling : ClientTask C → Bool
  | .handling _ => true
  | .ending _ _ => false

/-- The open sockets: the listener, one for each client in its handler, and the one that was just
accepted. -/
def ServerProcess.sockets (p : ServerProcess C) : ℕ :=
  1 + p.loop.stage.pending.toList.length + p.loop.tasks.countP ClientTask.isHandling

omit [DecidableEq C] in
theorem pending_le_permits (stage : LoopStage C) :
    stage.pending.toList.length ≤ stage.permits := by
  cases stage <;> simp [LoopStage.pending, LoopStage.permits]

/-- **The limit of start-up bounds the whole process.**  However the loop, the handlers and the
clean-up are interleaved, the handlers that run and the free permits are at most `max_connections`
together, and the process has at most one socket more.  With the default limit and a hard limit of
at least 1001 the sockets stay within the soft limit on descriptors. -/
theorem handlers_within_limit (started : ServerProcess.start connectionLimit limits = some p₀)
    (run : Run (ProcessStep env) p₀ events p) {cs : List C} (distinct : cs.Nodup)
    (running : ∀ c ∈ cs, ∃ conn, p.server.connections c = some conn ∧ ¬ conn.Returned) :
    cs.length + p.loop.available ≤ (startUp connectionLimit limits).2.toNat ∧
      cs.length < p.sockets ∧ p.sockets ≤ (startUp connectionLimit limits).2.toNat + 1 ∧
      (connectionLimit = none → 1001 ≤ limits.rlimMax →
        p.sockets ≤ (startUp connectionLimit limits).1.rlimCur.toNat) := by
  have inv := run_inv started run
  have permits := run_permits_eq (loop_run run)
  rw [start_eq started] at permits
  have total : p.loop.available + p.loop.stage.permits + p.loop.tasks.length =
      (startUp connectionLimit limits).2.toNat := by
    simpa [LoopState.permits, LoopState.init, LoopStage.permits] using permits
  have own : (cs.map ClientTask.handling) ⊆ p.loop.tasks.filter ClientTask.isHandling := by
    intro task member
    obtain ⟨c, here, rfl⟩ := List.mem_map.mp member
    obtain ⟨conn, found, runs⟩ := running c here
    exact List.mem_filter.mpr ⟨inv.running found runs, rfl⟩
  have counted : cs.length ≤ p.loop.tasks.countP ClientTask.isHandling := by
    have injective : Function.Injective (ClientTask.handling (C := C)) := by
      intro a b same
      cases same
      rfl
    have bound := (List.subperm_of_subset (distinct.map injective) own).length_le
    rwa [List.length_map, ← List.countP_eq_length_filter] at bound
  have tasks : p.loop.tasks.countP ClientTask.isHandling ≤ p.loop.tasks.length :=
    List.countP_le_length
  have pending := pending_le_permits p.loop.stage
  have sockets : p.sockets = 1 + p.loop.stage.pending.toList.length +
    p.loop.tasks.countP ClientTask.isHandling := rfl
  refine ⟨by omega, by omega, by omega, fun default hard => ?_⟩
  subst default
  have soft := startUp_rlimCur none limits
  have clients := startUp_maxConnections limits
  have hard : 1001 ≤ limits.rlimMax.toNat := UInt64.le_iff_toNat_le.mp hard
  omega

/-- With a limit of one, a client whose handler runs leaves no permit. -/
theorem handlers_within_limit_one :
    ∃ (p₀ p : ServerProcess Unit) (events : List (ProcessEvent Unit)),
      ServerProcess.start (some "1") ⟨1024, 4096⟩ = some p₀ ∧
        Run (ProcessStep (.proto3 .byLength)) p₀ events p ∧ p.sockets = 2 ∧
        [()].length + p.loop.available ≤ 1 := by
  have started : ServerProcess.start (C := Unit) (some "1") ⟨1024, 4096⟩ =
      some ⟨.init 1 baseDelay, .init⟩ :=
    rfl
  have run := @Run.nil _ _ (ProcessStep (C := Unit) (.proto3 .byLength)) ⟨.init 1 baseDelay, .init⟩
    |>.snoc (.loop (@LoopStep.acquire _ _ _ _ 0 rfl rfl) id (by simp))
    |>.snoc (.loop (.accept rfl ()) id fun c _ => ⟨rfl, List.not_mem_nil⟩)
    |>.snoc (.loop (.spawn rfl) id (by simp))
    |>.snoc (.session (c := ()) (by simp)
      (@ServerStep.accept _ _ _ _ () "a" (List.replicate 16 0) _ _ rfl rfl rfl))
  have bound := (handlers_within_limit started run (List.nodup_singleton ()) (by
    intro c _
    exact ⟨_, Server.put_self, fun returned => by cases returned.choose_spec⟩)).1
  exact ⟨_, _, _, started, run, rfl, bound⟩

/-! ## Giving the permits back -/

/-- What happens when the loop stands still and the clients only read and hang up: a task gets its
session, takes the steps of its handler that are due, and ends once the handler has returned. -/
def ProcessEvent.Winding (env : ServerEnv) (p : ServerProcess C) : ProcessEvent C → Prop
  | .loop (.handled c _) => ∃ conn, p.server.connections c = some conn ∧ conn.Returned
  | .loop (.finish _) => True
  | .server (.accept _ _ _) => True
  | .server (.client c action) => action = .hangUp ∨
      ∃ conn, p.server.connections c = some conn ∧ action.Serves env conn
  | _ => False

def WindingStep (env : ServerEnv) (p : ServerProcess C) (event : ProcessEvent C)
    (p' : ServerProcess C) : Prop :=
  ProcessStep env p event p' ∧ event.Winding env p

theorem WindingStep.run (run : Run (WindingStep env) p events p') :
    Run (ProcessStep env) p events p' :=
  run.mono fun edge => edge.1

/-- What one handler and its client do is possible with the loop standing still. -/
theorem winding_of_serving {more : List (ServerEvent C)} {server : Server C} {c : C}
    (run : Run (ServingStep env c) p.server more server) :
    Run (WindingStep env) p (more.map .server) { p with server } := by
  induction run with
  | nil => exact .nil
  | snoc _ last ih =>
      rw [List.map_append]
      obtain ⟨edge, conn, action, found, rfl, serves⟩ := last
      exact ih.snoc ⟨.server (fun _ _ _ same => by cases same) edge,
        Or.inr ⟨conn, found, serves⟩⟩

/-- A client whose task is in its handler gets a session, if it has none yet. -/
theorem exists_session {c : C} (handling : .handling c ∈ p.loop.tasks) :
    ∃ more server conn, Run (WindingStep env) p more { p with server } ∧
      server.connections c = some conn := by
  cases found : p.server.connections c with
  | some conn => exact ⟨[], p.server, conn, .nil, found⟩
  | none =>
      have created : ServerStep env p.server (.accept c "" _) _ :=
        @ServerStep.accept _ _ _ _ _ _ (List.replicate 16 0) _ _ found rfl rfl
      exact ⟨_, _, _, .single ⟨.session handling created, trivial⟩, Server.put_self⟩

/-- Once its client has hung up, the first task ends, and the loop need not move. -/
theorem exists_finished {task : ClientTask C} {rest : List (ClientTask C)}
    (started : ServerProcess.start connectionLimit limits = some p₀)
    (run : Run (ProcessStep env) p₀ events p) (tasks : p.loop.tasks = task :: rest) :
    ∃ more p', Run (WindingStep env) p more p' ∧ p'.loop.tasks = rest := by
  cases task with
  | ending c result =>
      have last : ProcessStep env p (.loop (.finish c)) _ :=
        .finish (@LoopStep.finish _ _ _ _ [] _ _ _ tasks)
      exact ⟨_, _, .single ⟨last, trivial⟩, rfl⟩
  | handling c =>
      obtain ⟨first, server, conn, begun, found⟩ :=
        @exists_session _ _ env p c (tasks ▸ List.mem_cons_self)
      have hangUp : ProcessStep env { p with server } (.server (.client c .hangUp)) _ :=
        .server (fun _ _ _ same => by cases same) (.client found .hangUp)
      have left := begun.snoc ⟨hangUp, Or.inl rfl⟩
      have reached := server_run (run.trans (WindingStep.run left))
      rw [start_eq started] at reached
      have here := @Server.put_self _ _ server c server.state { conn with ended := true }
      obtain ⟨more, t, conn', drained, there, atRest, ended, -⟩ :=
        exists_rest (connection_inv reached here) here
      have returned : conn'.Returned := by
        rcases atRest with waiting | returned
        · exact Bool.noConfusion (ended.symm.trans waiting.2.2)
        · exact returned
      obtain ⟨result, stage⟩ := returned
      have whole := left.trans (winding_of_serving drained)
      have handled := whole.snoc ⟨.handled there stage
        (@LoopStep.handled _ _ _ _ [] _ _ tasks _), conn', there, result, stage⟩
      exact ⟨_, _, handled.snoc ⟨.finish (@LoopStep.finish _ _ _ _ [] _ _ _ rfl), trivial⟩, rfl⟩

/-- **Every permit comes back.**  From every state that the process reaches, the clients only have
to read what they are sent and to hang up for all tasks to end by steps that are due: whatever the
handlers were doing and whichever of their sessions were evicted, no permit is left with a
client. -/
theorem permits_recovered (started : ServerProcess.start connectionLimit limits = some p₀)
    (run : Run (ProcessStep env) p₀ events p) :
    ∃ more p', Run (WindingStep env) p more p' ∧ p'.loop.tasks = [] ∧
      p'.loop.available + p'.loop.stage.permits = (startUp connectionLimit limits).2.toNat := by
  obtain ⟨more, p', rest, none⟩ : ∃ more p', Run (WindingStep env) p more p' ∧
      p'.loop.tasks = [] := by
    generalize tasks : p.loop.tasks = left
    induction left generalizing p events with
    | nil => exact ⟨[], p, .nil, tasks⟩
    | cons task left ih =>
        obtain ⟨first, m, begun, shorter⟩ := exists_finished started run tasks
        obtain ⟨more, p', rest, none⟩ := ih (run.trans (WindingStep.run begun)) shorter
        exact ⟨_, p', begun.trans rest, none⟩
  refine ⟨more, p', rest, none, ?_⟩
  have permits := run_permits_eq (loop_run (run.trans (WindingStep.run rest)))
  rw [start_eq started] at permits
  simpa [LoopState.permits, LoopState.init, LoopStage.permits, none] using permits

/-- A client in the middle of a request keeps the only permit until it hangs up. -/
theorem permits_recovered_one :
    ∃ (p₀ p : ServerProcess Unit) (events : List (ProcessEvent Unit)),
      Run (ProcessStep (.proto3 .byLength)) p₀ events p ∧ p.loop.available = 0 ∧
        ∃ more p', Run (WindingStep (.proto3 .byLength)) p more p' ∧
          p'.loop.tasks = [] ∧ p'.loop.available + p'.loop.stage.permits = 1 := by
  have started : ServerProcess.start (C := Unit) (some "1") ⟨1024, 4096⟩ =
      some ⟨.init 1 baseDelay, .init⟩ :=
    rfl
  have run := @Run.nil _ _ (ProcessStep (C := Unit) (.proto3 .byLength)) ⟨.init 1 baseDelay, .init⟩
    |>.snoc (.loop (@LoopStep.acquire _ _ _ _ 0 rfl rfl) id (by simp))
    |>.snoc (.loop (.accept rfl ()) id fun c _ => ⟨rfl, List.not_mem_nil⟩)
    |>.snoc (.loop (.spawn rfl) id (by simp))
    |>.snoc (.session (c := ()) (by simp)
      (@ServerStep.accept _ _ _ _ () "a" (List.replicate 16 0) _ _ rfl rfl rfl))
    |>.snoc (.server (by simp) (.client (c := ()) Server.put_self (.send [24, 4] rfl)))
  exact ⟨_, _, _, run, rfl, permits_recovered started run⟩

end Bonka
