import Bonka.ConnectionRuns
import Bonka.SessionIndex

/-!
# Sessions of connections

Every connection gets a session when it is accepted and gives it back when `handle_client` leaves
its loop; the clean-up takes away the sessions it finds inactive.  `Lifetimes` relates the three
loops over whole runs: a session is stored from the acceptance of its connection at least until
the handler or the clean-up removes it.  So a connection has its session unless it is silent for
the time-out: then it loses it while its handler is still reading (`live_session`).
-/

namespace Bonka

open Proto Transition

variable {C : Type} {env : ServerEnv}

/-- The ids that `create_session` gave to the connections of a run. -/
def acceptedIds (events : List (ServerEvent C)) : List Id :=
  events.filterMap fun
    | .accept _ _ sessionId => some sessionId
    | _ => none

/-- No two connections of the run got the same id. -/
def FreshIds (events : List (ServerEvent C)) : Prop := (acceptedIds events).Nodup

instance (events : List (ServerEvent C)) : Decidable (FreshIds events) :=
  inferInstanceAs (Decidable (List.Nodup _))

theorem acceptedIds_snoc (events : List (ServerEvent C)) (event : ServerEvent C) :
    acceptedIds (events ++ [event]) = acceptedIds events ++ acceptedIds [event] :=
  List.filterMap_append ..

@[simp] theorem acceptedIds_client (c : C) (action : ClientAction) :
    acceptedIds [ServerEvent.client c action] = [] := rfl

@[simp] theorem acceptedIds_accept (c : C) (addr : String) (sessionId : Id) :
    acceptedIds [ServerEvent.accept c addr sessionId] = [sessionId] := rfl

@[simp] theorem acceptedIds_cleanup (action : CleanupAction) :
    acceptedIds [(.cleanup action : ServerEvent C)] = [] := rfl

@[simp] theorem acceptedIds_advance (elapsed : Duration) :
    acceptedIds [(.advance elapsed : ServerEvent C)] = [] := rfl

/-- A clean-up pass found the session idle for the time-out. -/
def FoundInactive (events : List (ServerEvent C)) (id : Id) : Prop :=
  ∃ idle, .cleanup (.test id idle) ∈ events ∧ sessionTimeout ≤ idle

theorem FoundInactive.snoc {events : List (ServerEvent C)} {id : Id}
    (found : FoundInactive events id) (event : ServerEvent C) :
    FoundInactive (events ++ [event]) id := by
  obtain ⟨idle, member, long⟩ := found
  exact ⟨idle, List.mem_append_left _ member, long⟩

/-- The ids a clean-up pass is going to remove. -/
def CleanupStage.ids : CleanupStage → List Id
  | .waiting => []
  | .collecting _ _ _ ids => ids
  | .removing ids => ids

/-- What a step of a connection does to the sessions: it removes its own on the way out, or leaves
every session with its origin. -/
theorem ClientStep.session_cases {now : Instant} {state state' : ServerState}
    {conn conn' : Connection} {action : ClientAction}
    (edge : ClientStep env now state conn action state' conn') :
    (action = .remove ∧
        state' = { state with
          sessionManager := (state.sessionManager.removeSession conn.sessionId).1 } ∧
        conn' = { conn with stage := .returned (.ok ()) }) ∨
      ((state'.sessionManager = state.sessionManager ∨
          state'.sessionManager = (state.sessionManager.touchSession conn.sessionId now).1) ∧
        (conn'.sessionId = conn.sessionId ∧ conn'.addr = conn.addr) ∧
        (conn'.stage = .returned (.ok ()) ↔ conn.stage = .returned (.ok ()))) := by
  cases edge with
  | remove _ => exact Or.inl ⟨rfl, rfl, rfl⟩
  | touch stage => exact Or.inr ⟨Or.inr rfl, ⟨rfl, rfl⟩, by simp [stage]⟩
  | reply stage _ =>
      refine Or.inr ⟨Or.inl rfl, ⟨rfl, rfl⟩, ?_⟩
      dsimp only
      split <;> simp [stage]
  | send _ _ => exact Or.inr ⟨Or.inl rfl, ⟨rfl, rfl⟩, Iff.rfl⟩
  | hangUp => exact Or.inr ⟨Or.inl rfl, ⟨rfl, rfl⟩, Iff.rfl⟩
  | receive _ => exact Or.inr ⟨Or.inl rfl, ⟨rfl, rfl⟩, Iff.rfl⟩
  | _ => exact Or.inr ⟨Or.inl rfl, ⟨rfl, rfl⟩, by simp [*]⟩

/-! ## The invariant -/

/-- The session of the connection has been removed, by its handler or by the clean-up. -/
def Released (events : List (ServerEvent C)) (conn : Connection) : Prop :=
  conn.stage = .returned (.ok ()) ∨ .cleanup (.evict conn.sessionId) ∈ events

/-- The sessions, the connections and the clean-up of a run with fresh ids. -/
structure Lifetimes (events : List (ServerEvent C)) (s : Server C) : Prop where
  consistent : s.state.sessionManager.Consistent
  known : ∀ {c conn}, s.connections c = some conn → conn.sessionId ∈ acceptedIds events
  distinct : ∀ {c d conn conn'}, s.connections c = some conn → s.connections d = some conn' →
    conn.sessionId = conn'.sessionId → c = d
  owned : ∀ {id origin}, s.state.sessionManager.originOf id = some origin →
    ∃ c conn, s.connections c = some conn ∧ conn.sessionId = id
  held : ∀ {c conn}, s.connections c = some conn → ¬ Released events conn →
    s.state.sessionManager.originOf conn.sessionId = some conn.addr
  tested : ∀ {id}, FoundInactive events id → id ∈ acceptedIds events
  collected : ∀ {id}, id ∈ s.cleanup.stage.ids → FoundInactive events id
  evicted : ∀ {id}, .cleanup (.evict id) ∈ events → FoundInactive events id

namespace Lifetimes

variable {events : List (ServerEvent C)} {s : Server C}

theorem init : Lifetimes [] (.init : Server C) where
  consistent := .new
  known found := by cases found
  distinct found := by cases found
  owned found := by cases found
  held found := by cases found
  tested found := by obtain ⟨idle, member, -⟩ := found; cases member
  collected member := by cases member
  evicted member := by cases member

section

variable [DecidableEq C]

/-- A connection is accepted and gets a session with a new id. -/
theorem accept (inv : Lifetimes events s) {c : C} {addr : String} {randomBytes : Bytes}
    {source : IdSource} {now : Instant} (free : s.connections c = none)
    (fresh : source.idOf addr randomBytes ∉ acceptedIds events) :
    Lifetimes (events ++ [.accept c addr (source.idOf addr randomBytes)])
      (s.put c { s.state with
          sessionManager :=
            (s.state.sessionManager.createSession source addr randomBytes now now).1 }
        (.accepted addr (source.idOf addr randomBytes))) := by
  have others : ∀ {d : C} {conn : Connection}, s.connections d = some conn →
      d ≠ c ∧ conn.sessionId ≠ source.idOf addr randomBytes := by
    intro d conn found
    refine ⟨?_, fun same => fresh (same ▸ inv.known found)⟩
    intro equal
    subst equal
    rw [free] at found
    cases found
  have unstored : s.state.sessionManager.originOf (source.idOf addr randomBytes) = none := by
    rw [Option.eq_none_iff_forall_not_mem]
    intro origin found
    obtain ⟨d, conn, here, same⟩ := inv.owned found
    exact (others here).2 same
  -- a connection is the new one or an old one with another id
  have cases_put : ∀ {d : C} {conn : Connection} {state : ServerState},
      (s.put c state (.accepted addr (source.idOf addr randomBytes))).connections d = some conn →
        d = c ∧ conn = .accepted addr (source.idOf addr randomBytes) ∨
          d ≠ c ∧ s.connections d = some conn := by
    intro d conn state found
    by_cases same : d = c
    · subst same
      rw [Server.put_self] at found
      cases found
      exact Or.inl ⟨rfl, rfl⟩
    · rw [Server.put_ne same] at found
      exact Or.inr ⟨same, found⟩
  refine {
    consistent := inv.consistent.createSession _ _ _ _ _
      (SessionManager.originOf_eq_none.mp unstored)
    known := ?_
    distinct := ?_
    owned := ?_
    held := ?_
    tested := ?_
    collected := fun member => (inv.collected member).snoc _
    evicted := fun member => (inv.evicted (by simpa using member)).snoc _ }
  · intro d conn found
    rw [acceptedIds_snoc, acceptedIds_accept]
    rcases cases_put found with ⟨-, rfl⟩ | ⟨-, found⟩
    · exact List.mem_append_right _ (List.mem_singleton.mpr rfl)
    · exact List.mem_append_left _ (inv.known found)
  · intro d e conn conn' found found' same
    rcases cases_put found with ⟨here, rfl⟩ | ⟨-, old⟩ <;>
      rcases cases_put found' with ⟨here', rfl⟩ | ⟨-, old'⟩
    · rw [here, here']
    · exact ((others old').2 same.symm).elim
    · exact ((others old).2 same).elim
    · exact inv.distinct old old' same
  · intro id origin found
    dsimp only [Server.put] at found
    rw [SessionManager.originOf_createSession] at found
    split at found
    · rename_i same
      exact ⟨c, _, Server.put_self, same.symm⟩
    · obtain ⟨d, conn, here, same⟩ := inv.owned found
      exact ⟨d, conn, by rw [Server.put_ne (others here).1, here], same⟩
  · intro d conn found kept
    dsimp only [Server.put]
    rw [SessionManager.originOf_createSession]
    rcases cases_put found with ⟨-, rfl⟩ | ⟨-, found⟩
    · exact if_pos rfl
    · rw [if_neg (others found).2]
      exact inv.held found fun gone => kept (gone.imp_right (List.mem_append_left _))
  · intro id expired
    rcases expired with ⟨idle, member, long⟩
    rw [acceptedIds_snoc]
    exact List.mem_append_left _ (inv.tested ⟨idle, by simpa using member, long⟩)

/-- A connection moves on; no session comes or goes. -/
theorem move (inv : Lifetimes events s) {c : C} {conn conn' : Connection} {action : ClientAction}
    {state : ServerState} (found : s.connections c = some conn)
    (same : conn'.sessionId = conn.sessionId ∧ conn'.addr = conn.addr)
    (returned : conn'.stage = .returned (.ok ()) ↔ conn.stage = .returned (.ok ()))
    (consistent : state.sessionManager.Consistent)
    (origins : ∀ id, state.sessionManager.originOf id = s.state.sessionManager.originOf id) :
    Lifetimes (events ++ [.client c action]) (s.put c state conn') := by
  -- every connection is there as before
  have before : ∀ {d : C} {later : Connection}, (s.put c state conn').connections d = some later →
      ∃ earlier, s.connections d = some earlier ∧ later.sessionId = earlier.sessionId ∧
        later.addr = earlier.addr ∧
          (Released events earlier → Released (events ++ [.client c action]) later) := by
    intro d later here
    by_cases here_c : d = c
    · subst here_c
      rw [Server.put_self] at here
      cases here
      exact ⟨conn, found, same.1, same.2, by simp [Released, returned, same.1]⟩
    · rw [Server.put_ne here_c] at here
      exact ⟨later, here, rfl, rfl, by simp [Released]⟩
  refine {
    consistent := consistent
    known := ?_
    distinct := ?_
    owned := ?_
    held := ?_
    tested := ?_
    collected := fun member => (inv.collected member).snoc _
    evicted := fun member => (inv.evicted (by simpa using member)).snoc _ }
  · intro d later here
    obtain ⟨earlier, here, id, -⟩ := before here
    rw [acceptedIds_snoc, acceptedIds_client, List.append_nil, id]
    exact inv.known here
  · intro d e later later' here here' equal
    obtain ⟨earlier, here, left, -⟩ := before here
    obtain ⟨earlier', here', right, -⟩ := before here'
    exact inv.distinct here here' (by rw [← left, ← right, equal])
  · intro id origin stored
    obtain ⟨d, earlier, here, own⟩ := inv.owned ((origins id).symm.trans stored)
    by_cases here_c : d = c
    · subst here_c
      rw [found] at here
      cases here
      exact ⟨d, conn', Server.put_self, same.1.trans own⟩
    · exact ⟨d, earlier, by rw [Server.put_ne here_c, here], own⟩
  · intro d later here kept
    obtain ⟨earlier, here, id, addr, stays⟩ := before here
    rw [id, addr]
    exact (origins _).trans (inv.held here fun gone => kept (stays gone))
  · intro id expired
    rcases expired with ⟨idle, member, long⟩
    rw [acceptedIds_snoc, acceptedIds_client, List.append_nil]
    exact inv.tested ⟨idle, by simpa using member, long⟩

/-- A handler removes its session and returns. -/
theorem remove (inv : Lifetimes events s) {c : C} {conn : Connection}
    (found : s.connections c = some conn) :
    Lifetimes (events ++ [.client c .remove])
      (s.put c { s.state with
          sessionManager := (s.state.sessionManager.removeSession conn.sessionId).1 }
        { conn with stage := .returned (.ok ()) }) := by
  have before : ∀ {d : C} {later : Connection} {state : ServerState},
      (s.put c state { conn with stage := .returned (.ok ()) }).connections d = some later →
        d = c ∧ later = { conn with stage := .returned (.ok ()) } ∨
          s.connections d = some later ∧ later.sessionId ≠ conn.sessionId := by
    intro d later state here
    by_cases here_c : d = c
    · subst here_c
      rw [Server.put_self] at here
      cases here
      exact Or.inl ⟨rfl, rfl⟩
    · rw [Server.put_ne here_c] at here
      exact Or.inr ⟨here, fun equal => here_c (inv.distinct here found equal)⟩
  refine {
    consistent := inv.consistent.removeSession _
    known := ?_
    distinct := ?_
    owned := ?_
    held := ?_
    tested := ?_
    collected := fun member => (inv.collected member).snoc _
    evicted := fun member => (inv.evicted (by simpa using member)).snoc _ }
  · intro d later here
    rw [acceptedIds_snoc, acceptedIds_client, List.append_nil]
    rcases before here with ⟨-, same⟩ | ⟨here, -⟩
    · have known := inv.known found
      rwa [same]
    · exact inv.known here
  · intro d e later later' here here' equal
    rcases before here with ⟨same, rfl⟩ | ⟨old, ne⟩ <;>
      rcases before here' with ⟨same', rfl⟩ | ⟨old', ne'⟩
    · rw [same, same']
    · exact (ne' equal.symm).elim
    · exact (ne equal).elim
    · exact inv.distinct old old' equal
  · intro id origin stored
    dsimp only [Server.put] at stored
    rw [SessionManager.originOf_removeSession] at stored
    split at stored
    · cases stored
    · rename_i ne
      obtain ⟨d, earlier, here, own⟩ := inv.owned stored
      have elsewhere : d ≠ c := by
        intro equal
        subst equal
        rw [found] at here
        cases here
        exact ne own.symm
      exact ⟨d, earlier, by rw [Server.put_ne elsewhere, here], own⟩
  · intro d later here kept
    dsimp only [Server.put]
    rw [SessionManager.originOf_removeSession]
    rcases before here with ⟨-, rfl⟩ | ⟨here, ne⟩
    · exact (kept (Or.inl rfl)).elim
    · rw [if_neg ne]
      exact inv.held here fun gone => kept (gone.imp_right (List.mem_append_left _))
  · intro id expired
    rcases expired with ⟨idle, member, long⟩
    rw [acceptedIds_snoc, acceptedIds_client, List.append_nil]
    exact inv.tested ⟨idle, by simpa using member, long⟩

end

theorem stored_accepted (inv : Lifetimes events s) {id : Id} {session : Session}
    (found : s.state.sessionManager.sessions.lookup id = some session) :
    id ∈ acceptedIds events := by
  have origin : s.state.sessionManager.originOf id = some session.origin := by
    rw [SessionManager.originOf, found]
    rfl
  obtain ⟨c, conn, here, own⟩ := inv.owned origin
  exact own ▸ inv.known here

/-- The clean-up removes a session that it found inactive. -/
theorem evict (inv : Lifetimes events s) {id : Id} {ids : List Id} {nextTick : Instant}
    (first : s.cleanup = ⟨.removing (id :: ids), nextTick⟩) :
    Lifetimes (events ++ [.cleanup (.evict id)])
      { s with
        state := { s.state with sessionManager := (s.state.sessionManager.removeSession id).1 },
        cleanup := ⟨.removing ids, nextTick⟩ } := by
  have collected : ∀ {other}, other ∈ id :: ids → FoundInactive events other := fun member =>
    inv.collected (by rw [first]; exact member)
  refine {
    consistent := inv.consistent.removeSession _
    known := fun here => by
      rw [acceptedIds_snoc, acceptedIds_cleanup, List.append_nil]
      exact inv.known here
    distinct := inv.distinct
    owned := ?_
    held := ?_
    tested := ?_
    collected := fun member => (collected (List.mem_cons_of_mem _ member)).snoc _
    evicted := ?_ }
  · intro other origin stored
    dsimp only at stored
    rw [SessionManager.originOf_removeSession] at stored
    split at stored
    · cases stored
    · exact inv.owned stored
  · intro c conn found kept
    dsimp only
    rw [SessionManager.originOf_removeSession, if_neg]
    · exact inv.held found fun gone => kept (gone.imp_right (List.mem_append_left _))
    · intro same
      exact kept (Or.inr (by rw [same]; simp))
  · intro other expired
    rcases expired with ⟨idle, member, long⟩
    rw [acceptedIds_snoc, acceptedIds_cleanup, List.append_nil]
    exact inv.tested ⟨idle, by simpa using member, long⟩
  · intro other member
    rcases List.mem_append.mp member with old | new
    · exact (inv.evicted old).snoc _
    · cases List.mem_singleton.mp new
      exact (collected (List.mem_cons_self ..)).snoc _

/-- A step of the clean-up or of the clock that leaves the sessions alone. -/
theorem idle (inv : Lifetimes events s) {event : ServerEvent C} {cleanup : Cleanup}
    {clock : Instant} (quiet : acceptedIds [event] = [])
    (kept : ∀ id, event ≠ .cleanup (.evict id))
    (tested : ∀ id duration, event = .cleanup (.test id duration) → id ∈ acceptedIds events)
    (collected : ∀ id ∈ cleanup.stage.ids, FoundInactive (events ++ [event]) id) :
    Lifetimes (events ++ [event]) { s with clock := clock, cleanup := cleanup } := by
  have evictions : ∀ {id}, .cleanup (.evict id) ∈ events ++ [event] →
      .cleanup (.evict id) ∈ events := by
    intro id member
    rcases List.mem_append.mp member with old | new
    · exact old
    · exact (kept id (List.mem_singleton.mp new).symm).elim
  refine {
    consistent := inv.consistent
    known := fun here => by
      rw [acceptedIds_snoc, quiet, List.append_nil]
      exact inv.known here
    distinct := inv.distinct
    owned := inv.owned
    held := fun found kept => inv.held found fun gone =>
      kept (gone.imp_right (List.mem_append_left _))
    tested := ?_
    collected := fun member => collected _ member
    evicted := fun member => (inv.evicted (evictions member)).snoc _ }
  intro id expired
  rcases expired with ⟨duration, member, long⟩
  rw [acceptedIds_snoc, quiet, List.append_nil]
  rcases List.mem_append.mp member with old | new
  · exact inv.tested ⟨duration, old, long⟩
  · exact tested id duration (List.mem_singleton.mp new).symm

variable [DecidableEq C]

/-- Every step keeps the invariant when it gives out no id twice. -/
theorem step (inv : Lifetimes events s) {event : ServerEvent C} {t : Server C}
    (edge : ServerStep env s event t) (fresh : FreshIds (events ++ [event])) :
    Lifetimes (events ++ [event]) t := by
  cases edge with
  | @accept c addr randomBytes manager session free _ created =>
      cases created
      refine inv.accept free fun old => ?_
      rw [FreshIds, acceptedIds_snoc, List.nodup_append] at fresh
      exact fresh.2.2 _ old _ (List.mem_singleton.mpr rfl) rfl
  | client found edge =>
      rcases edge.session_cases with ⟨rfl, rfl, rfl⟩ | ⟨kept | touched, same, returned⟩
      · exact inv.remove found
      · exact inv.move found same returned (kept ▸ inv.consistent) fun id => by rw [kept]
      · exact inv.move found same returned (touched ▸ inv.consistent.touchSession _ _) fun id => by
          rw [touched, SessionManager.originOf_touchSession]
  | cleanup edge =>
      have ids : ∀ {id}, id ∈ s.cleanup.stage.ids → ∀ event, FoundInactive (events ++ [event]) id :=
        fun member event => (inv.collected member).snoc event
      generalize stage : s.cleanup = cleanup at edge ids
      cases edge with
      | tick _ => exact inv.idle rfl (by simp) (by simp) (by simp [CleanupStage.ids])
      | testActive found _ _ =>
          refine inv.idle rfl (by simp) ?_ fun id member => ids member _
          intro other duration same
          cases same
          exact inv.stored_accepted found
      | testExpired found _ expired =>
          apply inv.idle rfl (by simp)
          · intro other duration same
            cases same
            exact inv.stored_accepted found
          · intro other member
            rcases List.mem_append.mp member with old | new
            · exact ids old _
            · cases List.mem_singleton.mp new
              rw [inv.consistent.key_id found]
              exact ⟨_, by simp, expired⟩
      | collected _ => exact inv.idle rfl (by simp) (by simp) fun id member => ids member _
      | evict => exact inv.evict stage
      | done => exact inv.idle rfl (by simp) (by simp) (by simp [CleanupStage.ids])
  | advance elapsed =>
      exact inv.idle rfl (by simp) (by simp) fun id member => (inv.collected member).snoc _

end Lifetimes

theorem run_lifetimes [DecidableEq C] {events : List (ServerEvent C)} {s : Server C}
    (run : Run (ServerStep env) .init events s) (fresh : FreshIds events) :
    Lifetimes events s := by
  refine run.invariant (P := fun events s => FreshIds events → Lifetimes events s)
    (fun _ => .init) ?_ fresh
  intro events s event t _ ih edge fresh
  refine (ih ?_).step edge fresh
  rw [FreshIds, acceptedIds_snoc] at fresh
  exact fresh.of_append_left

/-! ## While the handler is in its loop -/

section

variable [DecidableEq C] {events : List (ServerEvent C)} {s t : Server C} {c : C}
  {conn : Connection}

/-- A connection keeps its session id. -/
theorem ServerStep.keeps_id {event : ServerEvent C} (edge : ServerStep env s event t)
    (found : s.connections c = some conn) :
    ∃ conn', t.connections c = some conn' ∧ conn'.sessionId = conn.sessionId := by
  cases edge with
  | @accept d _ _ _ _ free _ _ =>
      have other : c ≠ d := by
        intro equal
        subst equal
        rw [found] at free
        cases free
      exact ⟨conn, by rw [Server.put_ne other, found], rfl⟩
  | @client d _ conn' _ _ here edge =>
      by_cases same : c = d
      · subst same
        rw [found] at here
        cases here
        refine ⟨conn', Server.put_self, ?_⟩
        rcases edge.session_cases with ⟨-, -, rfl⟩ | ⟨-, same, -⟩
        · rfl
        · exact same.1
      · exact ⟨conn, by rw [Server.put_ne same, found], rfl⟩
  | cleanup _ => exact ⟨conn, found, rfl⟩
  | advance _ => exact ⟨conn, found, rfl⟩

theorem run_keeps_id (run : Run (ServerStep env) s events t) (found : s.connections c = some conn) :
    ∃ conn', t.connections c = some conn' ∧ conn'.sessionId = conn.sessionId := by
  refine run.invariant (P := fun _ (t : Server C) =>
    ∃ conn', t.connections c = some conn' ∧ conn'.sessionId = conn.sessionId) ⟨conn, found, rfl⟩ ?_
  intro _ s' event t' _ holds edge
  rcases holds with ⟨conn', found', same⟩
  obtain ⟨conn'', found'', same'⟩ := edge.keeps_id found'
  exact ⟨conn'', found'', same'.trans same⟩

omit [DecidableEq C] in
/-- In the loop a session is held unless the clean-up has removed it. -/
theorem not_released (inv : Lifetimes events s)
    (active : ∀ idle, .cleanup (.test conn.sessionId idle) ∈ events → idle < sessionTimeout)
    (running : conn.stage ≠ .returned (.ok ())) : ¬ Released events conn := by
  intro holds
  rcases holds with returned | evicted
  · exact running returned
  · obtain ⟨idle, tested, long⟩ := inv.evicted evicted
    exact absurd (active idle tested) (Nat.not_lt.mpr long)

end

/-- **A connection that no clean-up pass has found idle for the time-out has its session** as long
as its handler is in the message loop, and every `touch_session` of its handler has found it. -/
theorem live_session [DecidableEq C] {events : List (ServerEvent C)} {s : Server C}
    (run : Run (ServerStep env) .init events s) (fresh : FreshIds events) {c : C}
    {conn : Connection} (found : s.connections c = some conn)
    (active : ∀ idle, .cleanup (.test conn.sessionId idle) ∈ events → idle < sessionTimeout) :
    (conn.stage.InLoop → ∃ session,
      s.state.sessionManager.sessions.lookup conn.sessionId = some session ∧
        session.id = conn.sessionId ∧ session.origin = conn.addr) ∧
    ∀ hit, .client c (.touch hit) ∈ events → hit = true := by
  constructor
  · intro inLoop
    have inv := run_lifetimes run fresh
    have running : conn.stage ≠ .returned (.ok ()) := by
      intro returned
      rw [returned] at inLoop
      exact inLoop
    have held := inv.held found (not_released inv active running)
    obtain ⟨session, stored, own⟩ := Option.map_eq_some_iff.mp held
    exact ⟨session, stored, inv.consistent.key_id stored, own⟩
  · intro hit member
    obtain ⟨xs, ys, shape⟩ := List.append_of_mem member
    rw [shape] at run fresh
    obtain ⟨before, after, left, edge, right⟩ := run.at_event
    rw [FreshIds, acceptedIds, List.filterMap_append] at fresh
    have inv := run_lifetimes left fresh.of_append_left
    cases edge with
    | client here edge =>
        obtain ⟨later, found', same⟩ := run_keeps_id right Server.put_self
        rw [found] at found'
        cases found'
        cases edge with
        | touch stage =>
            -- the connection is the same one, so its earlier self was not found inactive either
            have held := inv.held here (not_released inv (fun idle tested =>
              active idle (by rw [shape, same]; exact List.mem_append_left _ tested))
              (by rw [stage]; simp))
            rw [SessionManager.touchSession_snd, held]
            rfl

/-- A client that is still there when a clean-up pass finds it idle for a minute. -/
theorem live_session_touched :
    ∃ (events : List (ServerEvent Unit)) (s : Server Unit) (conn : Connection) (session : Session),
      Run (ServerStep (.proto3 .byLength)) .init events s ∧ s.connections () = some conn ∧
        s.state.sessionManager.sessions.lookup conn.sessionId = some session := by
  have run := @Run.nil _ _ (ServerStep (C := Unit) (.proto3 .byLength)) .init
    |>.snoc (@ServerStep.accept _ _ _ _ () "127.0.0.1:4000" (List.replicate 16 0) _ _ rfl rfl rfl)
    |>.snoc (.advance (.fromSecs 60))
    |>.snoc (.cleanup (.tick (Nat.le_of_ble_eq_true rfl)))
    |>.snoc (.cleanup (@CleanupStep.testActive _ _ _ _ _ _ _ 30 _ rfl (by decide)
      (Nat.not_le_of_lt (Nat.le_of_ble_eq_true rfl))))
  have live := @live_session _ _ _ _ _ run (by decide) () (.accepted "127.0.0.1:4000" 30) rfl (by
      intro idle tested
      rcases List.mem_append.mp tested with earlier | last
      · simp at earlier
      · cases List.mem_singleton.mp last
        exact Nat.le_of_ble_eq_true rfl)
  obtain ⟨session, stored, -⟩ := live.1 trivial
  exact ⟨_, _, _, session, run, rfl, stored⟩

/-- A client is silent for more than the timeout: the clean-up removes its session while its
handler waits for the next frame, and the `touch_session` of the next request fails. -/
theorem live_connection_without_session :
    ∃ (events : List (ServerEvent Unit)) (s : Server Unit) (conn : Connection),
      Run (ServerStep (.proto3 .byLength)) .init events s ∧ FreshIds events ∧
        s.connections () = some conn ∧ conn.stage.InLoop ∧
        conn.sessionId ∉ s.state.sessionManager.sessions ∧
        .client () (.touch false) ∈ events := by
  have run := @Run.nil _ _ (ServerStep (C := Unit) (.proto3 .byLength)) .init
    |>.snoc (@ServerStep.accept _ _ _ _ () "127.0.0.1:4000" (List.replicate 16 0) _ _ rfl rfl rfl)
    |>.snoc (.advance (.fromSecs 1801))
    |>.snoc (.cleanup (.tick (Nat.le_of_ble_eq_true rfl)))
    |>.snoc (.cleanup (@CleanupStep.testExpired _ _ _ _ _ _ _ 30 _ rfl (by decide)
      (Nat.le_of_ble_eq_true rfl)))
    |>.snoc (.cleanup (.collected fun _ => .inl))
    |>.snoc (.cleanup .evict)
    |>.snoc (.cleanup .done)
    |>.snoc (@ServerStep.client _ _ _ _ () (.accepted "127.0.0.1:4000" 30) _ _ _ rfl
      (.send [24, 1, 34, 1, 97] rfl))
    |>.snoc (.client (c := ()) Server.put_self
      (@ClientStep.read _ _ _ _ _ { commandType := 1, key := some "a" } rfl rfl
        (by decide) (by decide)))
    |>.snoc (.client (c := ()) Server.put_self (.touch rfl))
  refine ⟨_, _, _, run, by decide, Server.put_self, trivial, by decide, ?_⟩
  exact List.mem_append_right _ (List.mem_singleton.mpr rfl)

end Bonka
