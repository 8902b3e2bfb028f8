import Bonka.Lib.Locking
import Bonka.Session

/-!
# The locks of `SessionManager` (`src/session.rs`)

Each of the manager's two maps is an array of reader-writer locks, one for each shard, and a call
is a program that takes and drops them: `insert`, `remove`, `entry` and `get_mut` lock the shard
of their key to write, `get` to read, a guard is kept until the code drops it, and an iteration
keeps the lock of one shard until it has that of the next.  A call that no other thread interrupts
does what the call of `SessionManager` does.

Only `get_sessions_by_origin` locks one map while it holds a guard of the other, the sessions
under a guard of the index.  So the shards of the index rank below those of the sessions, every
call takes locks upwards, and no run deadlocks (`sessionManager_not_deadlocked`).
-/

namespace Bonka

open Locking

/-- How the two maps spread their keys over shards. -/
structure MapShards where
  sessionShards : ℕ
  sessionShardOf : Id → ℕ
  sessionShardOf_lt : ∀ id, sessionShardOf id < sessionShards
  originShards : ℕ
  originShardOf : String → ℕ
  originShardOf_lt : ∀ origin, originShardOf origin < originShards

/-- The lock of one shard of `sessions` or of `origin_to_sessions`. -/
inductive SessionLock
  | sessions (shard : ℕ)
  | origins (shard : ℕ)
deriving DecidableEq, Repr

/-- The index first, then the sessions from their first shard to their last. -/
def SessionLock.rank : SessionLock → ℕ
  | .origins _ => 0
  | .sessions shard => shard + 1

abbrev SessionProgram (α : Type) : Type := Program SessionLock SessionManager α

namespace MapShards

variable (shards : MapShards)

def sessionLock (id : Id) : SessionLock := .sessions (shards.sessionShardOf id)

def originLock (origin : String) : SessionLock := .origins (shards.originShardOf origin)

/-! ## The calls -/

def createSession (source : IdSource) (origin : String) (randomBytes : Wire.Bytes)
    (started active : Instant) : SessionProgram Session :=
  let session := Session.new source origin (some randomBytes) started active
  (Program.withLock .write (shards.sessionLock session.id)
    (.modify fun manager => manager.insertSession session)).bind fun _ =>
  (Program.withLock .write (shards.originLock origin)
    (.modify fun manager => manager.pushOrigin origin session.id)).bind fun _ =>
  .done session

def createSessionWithSeed (source : IdSource) (origin : String) (seed : Wire.Bytes)
    (started active : Instant) : SessionProgram Session :=
  let session := Session.new source origin (some seed) started active
  (Program.withLock .write (shards.sessionLock session.id)
    (.modify fun manager => manager.insertSession session)).bind fun _ =>
  .done session

/-- The guard of the list is kept while its sessions are looked up. -/
def getSessionsByOrigin (origin : String) : SessionProgram (List Session) :=
  Program.withLock .read (shards.originLock origin) <|
    (Program.read fun manager => manager.originToSessions.lookup origin).bind fun
      | some ids =>
          (Program.forEach (fun id =>
            Program.withLock .read (shards.sessionLock id)
              (.read fun manager => manager.sessions.lookup id)) ids).bind fun found =>
          .done (found.filterMap id)
      | none => .done []

/-- `sessions.remove(&id)`: the session that was stored. -/
def takeSession (id : Id) : SessionProgram (Option Session) :=
  Program.withLock .write (shards.sessionLock id) <|
    .access (fun manager => manager.takeSession id) fun manager =>
      .done (manager.sessions.lookup id)

/-- `remove_session` once it has the session: the guard of an emptied list is dropped before its
entry is removed. -/
def unlistSession (id : Id) (origin : String) : SessionProgram Unit :=
  .lock .write (shards.originLock origin) <|
    .access (fun manager => manager.retainOrigin origin id) fun manager =>
      match (manager.retainOrigin origin id).originToSessions.lookup origin with
      | some [] =>
          .unlock (shards.originLock origin) <|
            Program.withLock .write (shards.originLock origin)
              (.modify fun manager => manager.removeOrigin origin)
      | _ => .unlock (shards.originLock origin) (.done ())

def removeSession (id : Id) : SessionProgram Bool :=
  (shards.takeSession id).bind fun
    | some session => (shards.unlistSession id session.origin).bind fun _ => .done true
    | none => .done false

def getSession (id : Id) : SessionProgram (Option Session) :=
  Program.withLock .read (shards.sessionLock id) (.read fun manager => manager.getSession id)

def touchSession (id : Id) (now : Instant) : SessionProgram Bool :=
  Program.withLock .write (shards.sessionLock id) <|
    .access (fun manager => (manager.touchSession id now).1) fun manager =>
      .done (manager.touchSession id now).2

/-- `sessions.iter()`; `within` arranges the entries of each shard. -/
def iter (within : IterOrder (Id × Session)) : SessionProgram (List (Id × Session)) :=
  Program.pass SessionLock.sessions
    (fun shard manager =>
      within.arrange (manager.sessions.shardEntries shards.sessionShardOf shard))
    shards.sessionShards

def getAllSessions (within : IterOrder (Id × Session)) : SessionProgram (List Session) :=
  (shards.iter within).bind fun entries => .done (entries.map Prod.snd)

def findSessionsByOrigin (within : IterOrder (Id × Session)) (origin : String) :
    SessionProgram (List Session) :=
  (shards.iter within).bind fun entries =>
    .done ((entries.map Prod.snd).filter fun session => session.origin == origin)

/-- `sessions.len()` counts one shard after the other. -/
def sessionCount : SessionProgram ℕ :=
  (Program.forEach (fun shard =>
    Program.withLock .read (.sessions shard) <| .read fun manager =>
      (manager.sessions.shardEntries shards.sessionShardOf shard).length)
    (List.range shards.sessionShards)).bind fun counts =>
  .done counts.sum

def clearSessionShard (shard : ℕ) (manager : SessionManager) : SessionManager :=
  { manager with sessions := manager.sessions.clearShard shards.sessionShardOf shard }

def clearOriginShard (shard : ℕ) (manager : SessionManager) : SessionManager :=
  { manager with
    originToSessions := manager.originToSessions.clearShard shards.originShardOf shard }

/-- `clear` empties one shard after the other. -/
def clearSessions : SessionProgram Unit :=
  (Program.forEach (fun shard =>
    Program.withLock .write (.sessions shard) (.modify (shards.clearSessionShard shard)))
    (List.range shards.sessionShards)).bind fun _ =>
  (Program.forEach (fun shard =>
    Program.withLock .write (.origins shard) (.modify (shards.clearOriginShard shard)))
    (List.range shards.originShards)).bind fun _ =>
  .done ()

/-- The iteration is over before the first session is removed. -/
def cleanupInactiveSessions (within : IterOrder (Id × Session)) (now : Instant)
    (timeout : Duration) : SessionProgram Unit :=
  (shards.iter within).bind fun entries =>
  (Program.forEach shards.removeSession
    (((entries.map Prod.snd).filter
      (SessionManager.Expired now timeout)).map Session.id)).bind fun _ =>
  .done ()

/-! ## A call on its own -/

variable (manager : SessionManager)

theorem createSession_runAlone (source : IdSource) (origin : String) (randomBytes : Wire.Bytes)
    (started active : Instant) :
    (shards.createSession source origin randomBytes started active).runAlone manager =
      (manager.createSession source origin randomBytes started active).swap := by
  simp [createSession, SessionManager.createSession]

theorem createSessionWithSeed_runAlone (source : IdSource) (origin : String) (seed : Wire.Bytes)
    (started active : Instant) :
    (shards.createSessionWithSeed source origin seed started active).runAlone manager =
      (manager.createSessionWithSeed source origin seed started active).swap := by
  simp [createSessionWithSeed, SessionManager.createSessionWithSeed]

theorem getSessionsByOrigin_runAlone (origin : String) :
    (shards.getSessionsByOrigin origin).runAlone manager =
      (manager.getSessionsByOrigin origin, manager) := by
  rw [getSessionsByOrigin, Program.runAlone_withLock, Program.runAlone_bind, Program.runAlone_read,
    SessionManager.getSessionsByOrigin]
  cases manager.originToSessions.lookup origin with
  | none => rfl
  | some ids =>
      have found := Program.runAlone_forEach_read (s := manager) (f := manager.sessions.lookup)
        (fun id => Program.withLock .read (shards.sessionLock id)
          (.read fun manager => manager.sessions.lookup id)) (fun id => by simp) ids
      simp only [Program.runAlone_bind, found, Program.runAlone_done, List.filterMap_map,
        Function.id_comp]

theorem removeSession_runAlone (id : Id) :
    (shards.removeSession id).runAlone manager = (manager.removeSession id).swap := by
  rw [removeSession, takeSession, Program.runAlone_bind, Program.runAlone_withLock,
    Program.runAlone, Program.runAlone_done, SessionManager.removeSession]
  cases found : manager.sessions.lookup id with
  | none =>
      have unchanged : manager.takeSession id = manager := by
        rw [SessionManager.takeSession, DashMap.erase_of_lookup found]
      rw [unchanged]
      rfl
  | some session =>
      simp only [Program.runAlone_bind, unlistSession, Program.runAlone]
      -- the test under the guard decides the same way in both
      split <;> simp_all [Program.runAlone]

theorem getSession_runAlone (id : Id) :
    (shards.getSession id).runAlone manager = (manager.getSession id, manager) := by
  simp [getSession]

theorem touchSession_runAlone (id : Id) (now : Instant) :
    (shards.touchSession id now).runAlone manager = (manager.touchSession id now).swap := by
  rw [touchSession, Program.runAlone_withLock]
  rfl

/-- An iteration of the sessions goes over their shards. -/
def iterOrder (within : IterOrder (Id × Session)) : IterOrder (Id × Session) :=
  DashMap.shardOrder (fun entry => shards.sessionShardOf entry.1) shards.sessionShards
    (fun _ => shards.sessionShardOf_lt _) within

theorem iter_runAlone (within : IterOrder (Id × Session)) :
    (shards.iter within).runAlone manager =
      (manager.sessions.iter (shards.iterOrder within), manager) :=
  Program.runAlone_pass _ _ _ _

theorem getAllSessions_runAlone (within : IterOrder (Id × Session)) :
    (shards.getAllSessions within).runAlone manager =
      (manager.getAllSessions (shards.iterOrder within), manager) := by
  rw [getAllSessions, Program.runAlone_bind, iter_runAlone]
  rfl

theorem findSessionsByOrigin_runAlone (within : IterOrder (Id × Session)) (origin : String) :
    (shards.findSessionsByOrigin within origin).runAlone manager =
      (manager.findSessionsByOrigin (shards.iterOrder within) origin, manager) := by
  rw [findSessionsByOrigin, Program.runAlone_bind, iter_runAlone]
  rfl

theorem sessionCount_runAlone :
    shards.sessionCount.runAlone manager = (manager.sessionCount, manager) := by
  have counts := Program.runAlone_forEach_read (s := manager)
    (f := fun shard => (manager.sessions.shardEntries shards.sessionShardOf shard).length)
    (fun shard => Program.withLock .read (SessionLock.sessions shard) (.read fun manager =>
      (manager.sessions.shardEntries shards.sessionShardOf shard).length))
    (fun shard => by simp) (List.range shards.sessionShards)
  rw [sessionCount, Program.runAlone_bind, counts, Program.runAlone_done,
    DashMap.sum_shardEntries shards.sessionShardOf_lt]
  rfl

theorem foldl_clearSessionShard (is : List ℕ) :
    is.foldl (fun manager shard => shards.clearSessionShard shard manager) manager =
      { manager with
        sessions := is.foldl (fun m shard => m.clearShard shards.sessionShardOf shard)
          manager.sessions } := by
  induction is generalizing manager with
  | nil => rfl
  | cons shard is ih => rw [List.foldl_cons, ih, List.foldl_cons, clearSessionShard]

theorem foldl_clearOriginShard (is : List ℕ) :
    is.foldl (fun manager shard => shards.clearOriginShard shard manager) manager =
      { manager with
        originToSessions := is.foldl (fun m shard => m.clearShard shards.originShardOf shard)
          manager.originToSessions } := by
  induction is generalizing manager with
  | nil => rfl
  | cons shard is ih => rw [List.foldl_cons, ih, List.foldl_cons, clearOriginShard]

theorem clearSessions_runAlone :
    shards.clearSessions.runAlone manager = ((), manager.clearSessions) := by
  rw [clearSessions, Program.runAlone_bind, Program.runAlone_bind, Program.runAlone_done,
    Program.runAlone_forEach_snd (f := fun manager shard => shards.clearOriginShard shard manager)
      (fun shard manager => by simp),
    Program.runAlone_forEach_snd (f := fun manager shard => shards.clearSessionShard shard manager)
      (fun shard manager => by simp),
    foldl_clearSessionShard, foldl_clearOriginShard,
    DashMap.foldl_clearShard shards.sessionShardOf_lt,
    DashMap.foldl_clearShard shards.originShardOf_lt]
  rfl

theorem cleanupInactiveSessions_runAlone (within : IterOrder (Id × Session)) (now : Instant)
    (timeout : Duration) :
    (shards.cleanupInactiveSessions within now timeout).runAlone manager =
      ((), manager.cleanupInactiveSessions (shards.iterOrder within) now timeout) := by
  rw [cleanupInactiveSessions, Program.runAlone_bind, iter_runAlone, Program.runAlone_bind,
    Program.runAlone_done]
  refine Prod.ext rfl ?_
  exact Program.runAlone_forEach_snd
    (fun id manager => by rw [removeSession_runAlone, Prod.snd_swap]) _ manager

/-! ## The order of the locks -/

variable {manager}

/-- A program that starts and ends without a lock and takes locks upwards in between. -/
def TakesLocksUpwards {α : Type} (p : SessionProgram α) : Prop :=
  p.Ordered SessionLock.rank (shards.sessionShards + 1) [] []

variable {shards}

theorem rank_sessionLock_lt (id : Id) :
    (shards.sessionLock id).rank < shards.sessionShards + 1 :=
  Nat.succ_lt_succ (shards.sessionShardOf_lt id)

theorem TakesLocksUpwards.bind {α β : Type} {p : SessionProgram α} {f : α → SessionProgram β}
    (first : shards.TakesLocksUpwards p) (second : ∀ result, shards.TakesLocksUpwards (f result)) :
    shards.TakesLocksUpwards (p.bind f) :=
  Program.Ordered.bind first second

/-- A program under one lock, without another. -/
theorem TakesLocksUpwards.withLock {α : Type} {mode : LockMode} {l : SessionLock}
    {body : SessionProgram α} (bounded : l.rank < shards.sessionShards + 1)
    (inside : body.Ordered SessionLock.rank (shards.sessionShards + 1) [(l, mode)] [(l, mode)]) :
    shards.TakesLocksUpwards (Program.withLock mode l body) :=
  Program.Ordered.withLock (fun _ member => by cases member) bounded inside

theorem TakesLocksUpwards.done {α : Type} (result : α) :
    shards.TakesLocksUpwards (.done result) :=
  rfl

theorem createSession_takesLocksUpwards (source : IdSource) (origin : String)
    (randomBytes : Wire.Bytes) (started active : Instant) :
    shards.TakesLocksUpwards
      (shards.createSession source origin randomBytes started active) := by
  refine .bind (.withLock (rank_sessionLock_lt _) (.modify _)) fun _ => ?_
  exact .bind (.withLock (Nat.succ_pos _) (.modify _)) fun _ => .done _

theorem createSessionWithSeed_takesLocksUpwards (source : IdSource) (origin : String)
    (seed : Wire.Bytes) (started active : Instant) :
    shards.TakesLocksUpwards
      (shards.createSessionWithSeed source origin seed started active) :=
  .bind (.withLock (rank_sessionLock_lt _) (.modify _)) fun _ => .done _

/-- The locks of the sessions are taken above the guard of the index. -/
theorem getSessionsByOrigin_takesLocksUpwards (origin : String) :
    shards.TakesLocksUpwards (shards.getSessionsByOrigin origin) := by
  refine .withLock (Nat.succ_pos _) (.bind (.read _) fun ids => ?_)
  cases ids with
  | none => rfl
  | some ids =>
      refine .bind (.forEach fun id _ => .withLock ?_ (rank_sessionLock_lt id) (.read _))
        fun found => rfl
      intro h member
      rw [List.mem_singleton.mp member]
      exact Nat.succ_pos _

/-- The guard of the list is gone before the entry is removed under the same lock. -/
theorem removeSession_takesLocksUpwards (id : Id) :
    shards.TakesLocksUpwards (shards.removeSession id) := by
  refine .bind (.withLock (rank_sessionLock_lt id) fun _ => rfl) fun found => ?_
  cases found with
  | none => exact .done false
  | some session =>
      refine .bind ?_ fun _ => .done true
      refine ⟨fun _ member => (by cases member), Nat.succ_pos _, fun manager => ?_⟩
      have dropped : Program.dropLock (shards.originLock session.origin)
          [(shards.originLock session.origin, LockMode.write)] = [] := by simp [Program.dropLock]
      have held : ∃ mode, (shards.originLock session.origin, mode) ∈
          [(shards.originLock session.origin, LockMode.write)] := ⟨_, List.mem_singleton_self _⟩
      dsimp only
      split
      · refine ⟨held, ?_⟩
        rw [dropped]
        exact TakesLocksUpwards.withLock (Nat.succ_pos _) (.modify _)
      · exact ⟨held, dropped⟩

theorem getSession_takesLocksUpwards (id : Id) :
    shards.TakesLocksUpwards (shards.getSession id) :=
  .withLock (rank_sessionLock_lt id) (.read _)

theorem touchSession_takesLocksUpwards (id : Id) (now : Instant) :
    shards.TakesLocksUpwards (shards.touchSession id now) :=
  .withLock (rank_sessionLock_lt id) fun _ => rfl

/-- An iteration keeps a shard while it takes the next, which ranks above it. -/
theorem iter_takesLocksUpwards (within : IterOrder (Id × Session)) :
    shards.TakesLocksUpwards (shards.iter within) :=
  Program.Ordered.pass SessionLock.sessions _ (fun shard => Nat.lt_succ_self (shard + 1)) _
    (fun _ member => by cases member) fun _ below => Nat.succ_lt_succ below

theorem getAllSessions_takesLocksUpwards (within : IterOrder (Id × Session)) :
    shards.TakesLocksUpwards (shards.getAllSessions within) :=
  .bind (iter_takesLocksUpwards within) fun _ => .done _

theorem findSessionsByOrigin_takesLocksUpwards (within : IterOrder (Id × Session))
    (origin : String) : shards.TakesLocksUpwards (shards.findSessionsByOrigin within origin) :=
  .bind (iter_takesLocksUpwards within) fun _ => .done _

theorem sessionCount_takesLocksUpwards : shards.TakesLocksUpwards shards.sessionCount := by
  refine .bind (Program.Ordered.forEach fun shard member => ?_) fun _ => .done _
  exact TakesLocksUpwards.withLock (Nat.succ_lt_succ (List.mem_range.mp member)) (.read _)

theorem clearSessions_takesLocksUpwards : shards.TakesLocksUpwards shards.clearSessions := by
  refine .bind (Program.Ordered.forEach fun shard member => ?_) fun _ =>
    .bind (Program.Ordered.forEach fun shard _ => ?_) fun _ => .done _
  · exact TakesLocksUpwards.withLock (Nat.succ_lt_succ (List.mem_range.mp member)) (.modify _)
  · exact TakesLocksUpwards.withLock (Nat.succ_pos _) (.modify _)

/-- The clean-up holds no shard of its iteration when it removes sessions. -/
theorem cleanupInactiveSessions_takesLocksUpwards (within : IterOrder (Id × Session))
    (now : Instant) (timeout : Duration) :
    shards.TakesLocksUpwards (shards.cleanupInactiveSessions within now timeout) :=
  .bind (iter_takesLocksUpwards within) fun _ =>
    .bind (Program.Ordered.forEach fun id _ => removeSession_takesLocksUpwards id) fun _ =>
      .done _

end MapShards

/-! ## Any number of threads -/

/-- A call of `SessionManager`, with what it draws from its surroundings: the random bytes, its
readings of the clock and the order of its iteration. -/
inductive SessionOperation
  | createSession (source : IdSource) (origin : String) (randomBytes : Wire.Bytes)
      (started active : Instant)
  | createSessionWithSeed (source : IdSource) (origin : String) (seed : Wire.Bytes)
      (started active : Instant)
  | removeSession (id : Id)
  | touchSession (id : Id) (now : Instant)
  | getSession (id : Id)
  | getSessionsByOrigin (origin : String)
  | findSessionsByOrigin (within : IterOrder (Id × Session)) (origin : String)
  | getAllSessions (within : IterOrder (Id × Session))
  | sessionCount
  | cleanupInactiveSessions (within : IterOrder (Id × Session)) (now : Instant)
      (timeout : Duration)
  | clearSessions

namespace SessionOperation

def program (shards : MapShards) : SessionOperation → SessionProgram Unit
  | .createSession source origin randomBytes started active =>
      (shards.createSession source origin randomBytes started active).discard
  | .createSessionWithSeed source origin seed started active =>
      (shards.createSessionWithSeed source origin seed started active).discard
  | .removeSession id => (shards.removeSession id).discard
  | .touchSession id now => (shards.touchSession id now).discard
  | .getSession id => (shards.getSession id).discard
  | .getSessionsByOrigin origin => (shards.getSessionsByOrigin origin).discard
  | .findSessionsByOrigin within origin => (shards.findSessionsByOrigin within origin).discard
  | .getAllSessions within => (shards.getAllSessions within).discard
  | .sessionCount => shards.sessionCount.discard
  | .cleanupInactiveSessions within now timeout =>
      shards.cleanupInactiveSessions within now timeout
  | .clearSessions => shards.clearSessions

theorem program_takesLocksUpwards (shards : MapShards) (operation : SessionOperation) :
    shards.TakesLocksUpwards (operation.program shards) := by
  have discard : ∀ {α : Type} {p : SessionProgram α}, shards.TakesLocksUpwards p →
      shards.TakesLocksUpwards p.discard := fun ordered => ordered.bind fun _ => .done ()
  cases operation with
  | createSession source origin randomBytes started active =>
      exact discard (MapShards.createSession_takesLocksUpwards _ _ _ _ _)
  | createSessionWithSeed source origin seed started active =>
      exact discard (MapShards.createSessionWithSeed_takesLocksUpwards _ _ _ _ _)
  | removeSession id => exact discard (MapShards.removeSession_takesLocksUpwards id)
  | touchSession id now => exact discard (MapShards.touchSession_takesLocksUpwards id now)
  | getSession id => exact discard (MapShards.getSession_takesLocksUpwards id)
  | getSessionsByOrigin origin =>
      exact discard (MapShards.getSessionsByOrigin_takesLocksUpwards origin)
  | findSessionsByOrigin within origin =>
      exact discard (MapShards.findSessionsByOrigin_takesLocksUpwards within origin)
  | getAllSessions within => exact discard (MapShards.getAllSessions_takesLocksUpwards within)
  | sessionCount => exact discard MapShards.sessionCount_takesLocksUpwards
  | cleanupInactiveSessions within now timeout =>
      exact MapShards.cleanupInactiveSessions_takesLocksUpwards within now timeout
  | clearSessions => exact MapShards.clearSessions_takesLocksUpwards

end SessionOperation

variable {T : Type} [DecidableEq T]

/-- One step of one of the threads that run calls on the manager. -/
abbrev SessionManager.LockStep (shards : MapShards) :
    State SessionLock SessionManager T → T → State SessionLock SessionManager T → Prop :=
  Step fun p => ∃ operation : SessionOperation, p = operation.program shards

variable {shards : MapShards} {manager : SessionManager} {events : List T}
  {s : State SessionLock SessionManager T}

theorem SessionOperation.ordered (p : SessionProgram Unit)
    (operation : ∃ operation : SessionOperation, p = operation.program shards) :
    p.Ordered SessionLock.rank (shards.sessionShards + 1) [] [] := by
  obtain ⟨operation, rfl⟩ := operation
  exact operation.program_takesLocksUpwards shards

/-- While a call is under way, one of the calls can go on. -/
theorem sessionManager_progress {t : T}
    (run : Transition.Run (SessionManager.LockStep shards) (.init manager) events s)
    (unfinished : s.Unfinished t) :
    ∃ t', s.Unfinished t' ∧ ∃ s', SessionManager.LockStep shards s t' s' :=
  run_progress SessionOperation.ordered run unfinished

/-- **`SessionManager` cannot deadlock.**  However its keys are spread over shards, in no state
that threads running its calls reach are there calls under way that are all blocked: waiting for a
lock that is taken, or to read one that another thread waits to write.  Nor do some of the threads
block each other while the rest go on. -/
theorem sessionManager_not_deadlocked
    (run : Transition.Run (SessionManager.LockStep shards) (.init manager) events s) :
    ¬ s.Deadlocked ∧ ∀ threads : Set T, threads.Nonempty →
      ∃ t ∈ threads, ∀ t' ∈ threads, ¬ s.BlockedBy t t' := by
  have inOrder := run_inOrder SessionOperation.ordered run
  exact ⟨inOrder.not_deadlocked, fun threads nonempty => inOrder.exists_unblocked nonempty⟩

/-- One shard for each map. -/
instance : Inhabited MapShards := ⟨1, fun _ => 0, fun _ => Nat.one_pos, 1, fun _ => 0,
  fun _ => Nat.one_pos⟩

/-- The second thread waits for the lock that the first one holds. -/
theorem sessionManager_not_deadlocked_waiting :
    ∃ s : State SessionLock SessionManager Bool,
      Transition.Run (SessionManager.LockStep default) (.init .new) [false, true, false] s ∧
        s.BlockedBy true false ∧ ¬ s.Deadlocked := by
  have first : Transition.Run (SessionManager.LockStep default) (.init .new) [false] _ :=
    .single (.start rfl ⟨.removeSession 7, rfl⟩)
  have second := first.snoc (.start (t := true) rfl ⟨.touchSession 7 0, rfl⟩)
  have free : ∀ s : State SessionLock SessionManager Bool, (∀ t, (s.threads t).held = []) →
      s.Free (.sessions 0) .write := by
    intro s empty t hinders
    obtain ⟨mode, holds⟩ := hinders
    rw [State.Holds, empty] at holds
    cases holds
  have third := second.snoc (.acquire (t := false) rfl (free _ (by
    intro t
    cases t with
    | false => rfl
    | true => rfl)))
  refine ⟨_, third, ⟨.write, .sessions 0, ⟨_, rfl⟩, .inl ⟨.write, ?_⟩⟩,
    (sessionManager_not_deadlocked third).1⟩
  exact List.mem_cons_self

end Bonka
