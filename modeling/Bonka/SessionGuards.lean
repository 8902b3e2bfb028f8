import Bonka.Lib.Guarding
import Bonka.SessionLocks

/-!
# What the locks of `SessionManager` protect

Behind the lock of a shard are its entries.  Every call changes only entries of shards that it has
locked to write and depends only on entries of shards that it has locked, so the calls of any
number of threads do not race (`sessionManager_race_free`), and what a call reads under a guard
stays as it is until the guard is dropped (`sessionManager_guarded`).
-/

namespace Bonka

open Locking Transition

/-! ## Shards and their entries -/

/-- The entries of one shard. -/
def SessionLock.Entries : SessionLock → Type
  | .sessions _ => List (Id × Session)
  | .origins _ => List (String × List Id)

namespace MapShards

variable (shards : MapShards)

/-- What lies behind a lock. -/
def entries : ∀ l : SessionLock, SessionManager → l.Entries
  | .sessions shard, manager => manager.sessions.shardEntries shards.sessionShardOf shard
  | .origins shard, manager => manager.originToSessions.shardEntries shards.originShardOf shard

variable {shards}

theorem ofPart_session (id : Id) :
    Program.OfPart shards.entries (shards.sessionLock id)
      fun manager => manager.sessions.lookup id :=
  fun _ _ same => DashMap.lookup_congr same

theorem ofPart_origin (origin : String) :
    Program.OfPart shards.entries (shards.originLock origin)
      fun manager => manager.originToSessions.lookup origin :=
  fun _ _ same => DashMap.lookup_congr same

/-! ## The updates -/

theorem updatesPart_sessions {shard : ℕ} {update : DashMap Id Session → DashMap Id Session}
    (updates : Program.UpdatesPart (Program.shardPart shards.sessionShardOf) shard update) :
    Program.UpdatesPart shards.entries (.sessions shard) fun manager =>
      { manager with sessions := update manager.sessions } where
  others manager l other := by
    cases l with
    | sessions shard' => exact updates.others _ shard' fun same => other (by rw [same])
    | origins => rfl
  own manager manager' same := updates.own _ _ same

theorem updatesPart_origins {shard : ℕ}
    {update : DashMap String (List Id) → DashMap String (List Id)}
    (updates : Program.UpdatesPart (Program.shardPart shards.originShardOf) shard update) :
    Program.UpdatesPart shards.entries (.origins shard) fun manager =>
      { manager with originToSessions := update manager.originToSessions } where
  others manager l other := by
    cases l with
    | sessions => rfl
    | origins shard' => exact updates.others _ shard' fun same => other (by rw [same])
  own manager manager' same := updates.own _ _ same

theorem insertSession_updatesPart (session : Session) :
    Program.UpdatesPart shards.entries (shards.sessionLock session.id)
      fun manager => manager.insertSession session :=
  updatesPart_sessions (.insert session.id session)

theorem takeSession_updatesPart (id : Id) :
    Program.UpdatesPart shards.entries (shards.sessionLock id)
      fun manager => manager.takeSession id :=
  updatesPart_sessions (.erase id)

theorem touchSession_updatesPart (id : Id) (now : Instant) :
    Program.UpdatesPart shards.entries (shards.sessionLock id)
      fun manager => (manager.touchSession id now).1 := by
  have same : (fun manager : SessionManager => (manager.touchSession id now).1) = fun manager =>
      { manager with
        sessions := (manager.sessions.lookup id).elim manager.sessions fun session =>
          manager.sessions.insert id (session.touch now) } := by
    funext manager
    unfold SessionManager.touchSession
    cases manager.sessions.lookup id <;> rfl
  rw [same]
  exact updatesPart_sessions (.getMut id fun session => session.touch now)

theorem pushOrigin_updatesPart (origin : String) (id : Id) :
    Program.UpdatesPart shards.entries (shards.originLock origin)
      fun manager => manager.pushOrigin origin id :=
  updatesPart_origins (.entry origin fun ids => ids.getD [] ++ [id])

theorem retainOrigin_updatesPart (origin : String) (id : Id) :
    Program.UpdatesPart shards.entries (shards.originLock origin)
      fun manager => manager.retainOrigin origin id := by
  have same : (fun manager : SessionManager => manager.retainOrigin origin id) = fun manager =>
      { manager with
        originToSessions := (manager.originToSessions.lookup origin).elim manager.originToSessions
          fun ids => manager.originToSessions.insert origin (ids.filter (· != id)) } := by
    funext manager
    unfold SessionManager.retainOrigin
    cases manager.originToSessions.lookup origin <;> rfl
  rw [same]
  exact updatesPart_origins (.getMut origin fun ids => ids.filter (· != id))

theorem removeOrigin_updatesPart (origin : String) :
    Program.UpdatesPart shards.entries (shards.originLock origin)
      fun manager => manager.removeOrigin origin :=
  updatesPart_origins (.erase origin)

/-! ## The calls -/

/-- A program that starts and ends without a lock and accesses only entries that it has locked. -/
def Guarded {α : Type} (shards : MapShards) (p : SessionProgram α) : Prop :=
  p.Guarded shards.entries [] []

variable {α β : Type}

theorem Guarded.bind {p : SessionProgram α} {f : α → SessionProgram β}
    (first : shards.Guarded p) (second : ∀ result, shards.Guarded (f result)) :
    shards.Guarded (p.bind f) :=
  Program.Guarded.bind first second

theorem Guarded.withLock {mode : LockMode} {l : SessionLock} {body : SessionProgram α}
    (inside : body.Guarded shards.entries [(l, mode)] [(l, mode)]) :
    shards.Guarded (Program.withLock mode l body) :=
  Program.Guarded.withLock (fun _ member => by cases member) inside

theorem Guarded.done (result : α) : shards.Guarded (.done result) := rfl

theorem createSession_guarded (source : IdSource) (origin : String) (randomBytes : Wire.Bytes)
    (started active : Instant) :
    shards.Guarded (shards.createSession source origin randomBytes started active) := by
  refine .bind (.withLock (.modify (insertSession_updatesPart _) ?_)) fun _ => ?_
  · exact List.mem_singleton_self _
  · refine .bind (.withLock (.modify (pushOrigin_updatesPart _ _) ?_)) fun _ => .done _
    exact List.mem_singleton_self _

theorem createSessionWithSeed_guarded (source : IdSource) (origin : String) (seed : Wire.Bytes)
    (started active : Instant) :
    shards.Guarded (shards.createSessionWithSeed source origin seed started active) := by
  refine .bind (.withLock (.modify (insertSession_updatesPart _) ?_)) fun _ => .done _
  exact List.mem_singleton_self _

/-- The list is read under its guard and each session under its own. -/
theorem getSessionsByOrigin_guarded (origin : String) :
    shards.Guarded (shards.getSessionsByOrigin origin) := by
  refine .withLock (.bind (.read (List.mem_singleton_self _) (ofPart_origin origin)) fun ids => ?_)
  cases ids with
  | none => rfl
  | some ids =>
      refine .bind (.forEach fun id _ => .withLock ?_ ?_) fun found => rfl
      · intro h member same
        rw [List.mem_singleton.mp member] at same
        cases same
      · exact .read List.mem_cons_self (ofPart_session id)

theorem takeSession_guarded (id : Id) : shards.Guarded (shards.takeSession id) := by
  refine .withLock ⟨(takeSession_updatesPart id).within (List.mem_singleton_self _) ?_,
    fun _ => rfl⟩
  intro manager manager' same
  have found : manager.sessions.lookup id = manager'.sessions.lookup id :=
    ofPart_session id manager manager' same
  dsimp only
  rw [found]

theorem unlistSession_guarded (id : Id) (origin : String) :
    shards.Guarded (shards.unlistSession id origin) := by
  have dropped : Program.dropLock (shards.originLock origin)
      [(shards.originLock origin, LockMode.write)] = [] := by simp [Program.dropLock]
  refine ⟨(retainOrigin_updatesPart origin id).within (List.mem_singleton_self _) ?_, ?_⟩
  · intro manager manager' same
    have found : (manager.retainOrigin origin id).originToSessions.lookup origin =
        (manager'.retainOrigin origin id).originToSessions.lookup origin :=
      ofPart_origin origin _ _ ((retainOrigin_updatesPart origin id).own manager manager' same)
    dsimp only
    rw [found]
  · intro manager
    dsimp only
    split
    · change Program.Guarded _ _ (Program.dropLock _ _) _
      rw [dropped]
      refine Guarded.withLock (.modify (removeOrigin_updatesPart origin) ?_)
      exact List.mem_singleton_self _
    · exact dropped

theorem removeSession_guarded (id : Id) : shards.Guarded (shards.removeSession id) := by
  refine .bind (takeSession_guarded id) fun found => ?_
  cases found with
  | none => exact .done false
  | some session => exact .bind (unlistSession_guarded id session.origin) fun _ => .done true

theorem getSession_guarded (id : Id) : shards.Guarded (shards.getSession id) :=
  .withLock (.read (List.mem_singleton_self _) (ofPart_session id))

theorem touchSession_guarded (id : Id) (now : Instant) :
    shards.Guarded (shards.touchSession id now) := by
  refine .withLock ⟨(touchSession_updatesPart id now).within (List.mem_singleton_self _) ?_,
    fun _ => rfl⟩
  intro manager manager' same
  have found : manager.sessions.lookup id = manager'.sessions.lookup id :=
    ofPart_session id manager manager' same
  dsimp only [SessionManager.touchSession]
  rw [found]
  cases manager'.sessions.lookup id <;> rfl

theorem iter_guarded (within : IterOrder (Id × Session)) :
    shards.Guarded (shards.iter within) := by
  refine .pass (fun _ _ same => by cases same; rfl) (fun shard manager manager' same => ?_) _
    fun _ member => by cases member
  exact congrArg within.arrange same

theorem getAllSessions_guarded (within : IterOrder (Id × Session)) :
    shards.Guarded (shards.getAllSessions within) :=
  .bind (iter_guarded within) fun _ => .done _

theorem findSessionsByOrigin_guarded (within : IterOrder (Id × Session)) (origin : String) :
    shards.Guarded (shards.findSessionsByOrigin within origin) :=
  .bind (iter_guarded within) fun _ => .done _

theorem sessionCount_guarded : shards.Guarded shards.sessionCount := by
  refine .bind (Program.Guarded.forEach fun shard _ => ?_) fun _ => .done _
  refine Guarded.withLock (.read (List.mem_singleton_self _) fun manager manager' same => ?_)
  exact congrArg List.length same

theorem clearSessions_guarded : shards.Guarded shards.clearSessions := by
  refine .bind (Program.Guarded.forEach fun shard _ => ?_) fun _ =>
    .bind (Program.Guarded.forEach fun shard _ => ?_) fun _ => .done _
  · refine Guarded.withLock (.modify (updatesPart_sessions (.clearShard shard)) ?_)
    exact List.mem_singleton_self _
  · refine Guarded.withLock (.modify (updatesPart_origins (.clearShard shard)) ?_)
    exact List.mem_singleton_self _

theorem cleanupInactiveSessions_guarded (within : IterOrder (Id × Session)) (now : Instant)
    (timeout : Duration) : shards.Guarded (shards.cleanupInactiveSessions within now timeout) :=
  .bind (iter_guarded within) fun _ =>
    .bind (Program.Guarded.forEach fun id _ => removeSession_guarded id) fun _ => .done _

end MapShards

theorem SessionOperation.program_guarded (shards : MapShards) (operation : SessionOperation) :
    shards.Guarded (operation.program shards) := by
  have discard : ∀ {α : Type} {p : SessionProgram α}, shards.Guarded p →
      shards.Guarded p.discard := fun guarded => guarded.bind fun _ => .done ()
  cases operation with
  | createSession => exact discard (MapShards.createSession_guarded _ _ _ _ _)
  | createSessionWithSeed => exact discard (MapShards.createSessionWithSeed_guarded _ _ _ _ _)
  | removeSession id => exact discard (MapShards.removeSession_guarded id)
  | touchSession id now => exact discard (MapShards.touchSession_guarded id now)
  | getSession id => exact discard (MapShards.getSession_guarded id)
  | getSessionsByOrigin origin => exact discard (MapShards.getSessionsByOrigin_guarded origin)
  | findSessionsByOrigin within origin =>
      exact discard (MapShards.findSessionsByOrigin_guarded within origin)
  | getAllSessions within => exact discard (MapShards.getAllSessions_guarded within)
  | sessionCount => exact discard MapShards.sessionCount_guarded
  | cleanupInactiveSessions within now timeout =>
      exact MapShards.cleanupInactiveSessions_guarded within now timeout
  | clearSessions => exact MapShards.clearSessions_guarded

/-! ## Any number of threads -/

variable {T : Type} [DecidableEq T] {shards : MapShards} {manager : SessionManager}
  {events : List T} {s s' : State SessionLock SessionManager T} {t t' : T}

theorem sessionManager_starts (p : SessionProgram Unit)
    (operation : ∃ operation : SessionOperation, p = operation.program shards) :
    p.Guarded shards.entries [] [] := by
  obtain ⟨operation, rfl⟩ := operation
  exact operation.program_guarded shards

/-- **The calls of `SessionManager` do not race.**  However many threads run its calls and however
the keys are spread over shards: when two threads are about to access the maps, it makes no
difference which of them is first.  Whatever can happen after one order can happen after the
other, with every thread at the same step of the same call and the same sessions and lists. -/
theorem sessionManager_race_free
    (run : Run (SessionManager.LockStep shards) (.init manager) events s) (distinct : t ≠ t')
    (here : s.Accesses t) (there : s.Accesses t') {rest : List T}
    (going : Run (SessionManager.LockStep shards) s (t :: t' :: rest) s') :
    ∃ r, Run (SessionManager.LockStep shards) s (t' :: t :: rest) r ∧ r.threads = s'.threads ∧
      (∀ id, r.data.sessions.lookup id = s'.data.sessions.lookup id) ∧
      ∀ origin, r.data.originToSessions.lookup origin =
        s'.data.originToSessions.lookup origin := by
  obtain ⟨exclusive, guarded⟩ := run_guarded sessionManager_starts run
  obtain ⟨r, swapped, same⟩ :=
    run_swap sessionManager_starts exclusive guarded distinct here there going
  refine ⟨r, swapped, same.threads, fun id => ?_, fun origin => ?_⟩
  · exact MapShards.ofPart_session id _ _ (same.parts (shards.sessionLock id))
  · exact MapShards.ofPart_origin origin _ _ (same.parts (shards.originLock origin))

/-- One thread is about to list its new session, the other one to touch it. -/
theorem sessionManager_race_free_touch :
    ∃ (events : List Bool) (s s' r : State SessionLock SessionManager Bool),
      Run (SessionManager.LockStep default) (.init .new) events s ∧
        Run (SessionManager.LockStep default) s [false, true] s' ∧
        Run (SessionManager.LockStep default) s [true, false] r ∧ r.threads = s'.threads := by
  have either : ∀ {events s},
      Run (SessionManager.LockStep default) (State.init .new) events s →
      s.Accesses false → s.Accesses true → ∃ s' r,
        Run (SessionManager.LockStep default) s [false, true] s' ∧
          Run (SessionManager.LockStep default) s [true, false] r ∧ r.threads = s'.threads := by
    intro events s run here there
    obtain ⟨s', going⟩ := here.exists_run Bool.false_ne_true there
    obtain ⟨r, swapped, same, -⟩ :=
      sessionManager_race_free run Bool.false_ne_true here there going
    exact ⟨s', r, going, swapped, same⟩
  have run := @Run.nil _ _ (SessionManager.LockStep default) (State.init .new)
    |>.snoc (.start (t := false) rfl
      ⟨.createSession ⟨fun bytes => UInt64.ofNat bytes.length, []⟩ "a" [] 0 0, rfl⟩)
    |>.snoc (.acquire (t := false) rfl (.of_unheld (by decide)))
    |>.snoc (.access (t := false) rfl)
    |>.snoc (.release (t := false) rfl)
    |>.snoc (.acquire (t := false) rfl (.of_unheld (by decide)))
    |>.snoc (.start (t := true) rfl ⟨.touchSession 1 0, rfl⟩)
    |>.snoc (.acquire (t := true) rfl (.of_unheld (by decide)))
  obtain ⟨s', r, going, swapped, same⟩ := either run ⟨_, _, rfl⟩ ⟨_, _, rfl⟩
  exact ⟨_, _, s', r, run, going, swapped, same⟩

/-- **A guard keeps what it guards.**  As long as a thread holds a shard to read, and whatever the
other threads do, the entries of the shard stay as they are; so does a shard that it holds to write
and does not access itself. -/
theorem sessionManager_guarded {l : SessionLock} {mode : LockMode} {more : List T}
    (run : Run (SessionManager.LockStep shards) (.init manager) events s)
    (holding : Run (fun s u s' => SessionManager.LockStep shards s u s' ∧ s.Holds t l mode ∧
      (u = t → mode = .read)) s more s') :
    shards.entries l s'.data = shards.entries l s.data := by
  obtain ⟨exclusive, guarded⟩ := run_guarded sessionManager_starts run
  exact run_part_eq sessionManager_starts exclusive guarded holding

/-- While one thread has a guard of the list of `"a"`, another one stores a session of `"a"`. -/
theorem sessionManager_guarded_list :
    ∃ (events : List Bool) (s s' : State SessionLock SessionManager Bool),
      Run (SessionManager.LockStep default) (.init .new) events s ∧
        s'.data.sessions.lookup 1 ≠ none ∧
        MapShards.entries default (.origins 0) s'.data =
          MapShards.entries default (.origins 0) s.data := by
  have run := @Run.nil _ _ (SessionManager.LockStep default) (State.init .new)
    |>.snoc (.start (t := true) rfl ⟨.getSessionsByOrigin "a", rfl⟩)
    |>.snoc (.acquire (t := true) rfl (.of_unheld (by decide)))
  refine ⟨_, _, _, run, ?_, sessionManager_guarded run (t := true) (.snoc (.snoc (.snoc .nil
    ⟨.start (t := false) rfl ⟨.createSession ⟨fun bytes => UInt64.ofNat bytes.length, []⟩
      "a" [] 0 0, rfl⟩, List.mem_cons_self, by simp⟩)
    ⟨.acquire (t := false) rfl (.of_unheld (by decide)), List.mem_cons_self, by simp⟩)
    ⟨.access (t := false) rfl, List.mem_cons_self, by simp⟩)⟩
  decide

end Bonka
