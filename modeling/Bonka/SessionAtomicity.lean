import Bonka.Lib.Erasure
import Bonka.Lib.Guarding
import Bonka.Lib.Simulation
import Bonka.SessionLocks
import Bonka.SessionThreads

/-!
# Calls under locks as atomic steps

Two models of calls on one `SessionManager`: with its locks, a call is a program that takes and
drops them (`SessionLocks`), and without them it goes from one of its atomic steps to the next
(`SessionThreads`).  Every run of the first is one of the second (`locked_run_atomic`), so what
holds of every run of the atomic steps holds under the locks.

The runs are those of the calls that the server makes, and of the calls that only read.  A touch
reads the clock while it has its session, so its reading is that of the clock at its access, which
is its one atomic step; the calls that only read have none.
-/

namespace Bonka

open Locking Transition

variable {T : Type}

/-! ## Threads under locks -/

/-- The calls under way with their locks, and the call each thread started last. -/
structure LockedManager (T : Type) where
  state : State SessionLock SessionManager T
  clock : Instant
  issued : List Id
  running : T → Option SessionOperation

def LockedManager.init : LockedManager T where
  state := .init .new
  clock := 0
  issued := []
  running _ := none

/-- What a call has read of the clock when it starts, and the id it gives. -/
def SessionOperation.StartsAt (clock : Instant) (issued : List Id) : SessionOperation → Prop
  | .createSession source origin randomBytes started active =>
      (Session.new source origin (some randomBytes) started active).id ∉ issued ∧
        started ≤ clock ∧ active = clock
  | .cleanupInactiveSessions _ now _ => now = clock
  | .createSessionWithSeed _ _ _ _ _ | .clearSessions => False
  | _ => True

/-- The ids given after a call has started. -/
def SessionOperation.issue (issued : List Id) : SessionOperation → List Id
  | .createSession source origin randomBytes started active =>
      (Session.new source origin (some randomBytes) started active).id :: issued
  | _ => issued

/-- Thread `t` is in a `touch_session`. -/
def LockedManager.Touching (s : LockedManager T) (t : T) : Prop :=
  ∃ id now, s.running t = some (.touchSession id now)

inductive LockedEvent (T : Type)
  | start (t : T) (operation : SessionOperation)
  | go (t : T)
  /-- The access of a `touch_session`, which reads the clock. -/
  | touch (t : T) (id : Id)
  | advance (elapsed : Duration)

variable [DecidableEq T]

inductive LockedStep (shards : MapShards) :
    LockedManager T → LockedEvent T → LockedManager T → Prop
  | start {s : LockedManager T} {t : T} (operation : SessionOperation) :
    (s.state.threads t).program = .done () → operation.StartsAt s.clock s.issued →
    LockedStep shards s (.start t operation)
      { s with
        state := s.state.put t ⟨operation.program shards, (s.state.threads t).held⟩
        issued := operation.issue s.issued
        running := Function.update s.running t (some operation) }
  | go {s : LockedManager T} {t : T} {state : State SessionLock SessionManager T} :
    Step (fun _ => False) s.state t state → (s.state.Accesses t → ¬ s.Touching t) →
    LockedStep shards s (.go t) { s with state }
  | touch {s : LockedManager T} {t : T} {id : Id} {state : State SessionLock SessionManager T} :
    Step (fun _ => False) s.state t state → s.state.Accesses t →
    s.running t = some (.touchSession id s.clock) →
    LockedStep shards s (.touch t id) { s with state }
  | advance {s : LockedManager T} (elapsed : Duration) :
    LockedStep shards s (.advance elapsed) { s with clock := s.clock + elapsed }

/-- What both models say of a run: the creations, the removals and the clean-ups as they begin,
the touches as they reach their session, and the clock. -/
def ThreadEvent.begins : ThreadEvent T → Option (ThreadEvent T)
  | .create t session => some (.create t session)
  | .remove t id => some (.remove t id)
  | .cleanup t timeout => some (.cleanup t timeout)
  | .touch t id => some (.touch t id)
  | .advance elapsed => some (.advance elapsed)
  | _ => none

def LockedEvent.begins : LockedEvent T → Option (ThreadEvent T)
  | .start t (.createSession source origin randomBytes started active) =>
      some (.create t (Session.new source origin (some randomBytes) started active))
  | .start t (.removeSession id) => some (.remove t id)
  | .start t (.cleanupInactiveSessions _ _ timeout) => some (.cleanup t timeout)
  | .start _ _ | .go _ => none
  | .touch t id => some (.touch t id)
  | .advance elapsed => some (.advance elapsed)

/-! ## What is left of a call -/

abbrev CallRest : Type := Program SessionLock SessionManager Unit

variable (shards : MapShards)

/-- `remove_session` of each id, without locks. -/
def removeRest (ids : List Id) : CallRest :=
  (Program.forEach (fun id => (shards.removeSession id).unlocked) ids).bind fun _ => .done ()

/-- What is left of `remove_session` before `retain`, and of the removals after it. -/
def retainRest (id : Id) (origin : String) (ids : List Id) : CallRest :=
  .access (fun manager => manager.retainOrigin origin id) fun manager =>
    match (manager.retainOrigin origin id).originToSessions.lookup origin with
    | some [] => .access (fun manager => manager.removeOrigin origin) fun _ => removeRest shards ids
    | _ => removeRest shards ids

theorem removeRest_cons (id : Id) (ids : List Id) :
    removeRest shards (id :: ids) =
      .access (fun manager => manager.takeSession id) fun manager =>
        match manager.sessions.lookup id with
        | some session => retainRest shards id session.origin ids
        | none => removeRest shards ids := by
  have rest : removeRest shards (id :: ids) =
      (shards.removeSession id).unlocked.bind fun _ => removeRest shards ids := by
    simp only [removeRest, Program.forEach, Program.bind_assoc, Program.bind]
  rw [rest]
  simp only [MapShards.removeSession, MapShards.takeSession, Program.unlocked_bind,
    Program.unlocked_withLock, Program.unlocked, Program.bind]
  congr 1
  funext manager
  cases manager.sessions.lookup id with
  | none => rfl
  | some session =>
      simp only [MapShards.unlistSession, Program.unlocked, Program.unlocked_bind, Program.bind,
        retainRest]
      congr 1
      funext manager
      cases (manager.retainOrigin session.origin id).originToSessions.lookup session.origin with
      | none => rfl
      | some left => cases left <;> rfl

/-- What is left of a clean-up in its iteration: `remaining` shards from shard `i` on. -/
def collectRest (within : IterOrder (Id × Session)) (now : Instant) (timeout : Duration)
    (remaining i : ℕ) (found : List (Id × Session)) : CallRest :=
  (Program.collect (fun shard manager =>
    within.arrange (manager.sessions.shardEntries shards.sessionShardOf shard))
    remaining i found).bind fun entries =>
  removeRest shards
    (((entries.map Prod.snd).filter (SessionManager.Expired now timeout)).map Session.id)

/-- What is left of `create_session` before the id is listed. -/
def pushRest (session : Session) : CallRest :=
  .access (fun manager => manager.pushOrigin session.origin session.id) fun _ => .done ()

def insertRest (session : Session) : CallRest :=
  .access (fun manager => manager.insertSession session) fun _ => pushRest session

def touchRest (id : Id) (now : Instant) : CallRest :=
  .access (fun manager => (manager.touchSession id now).1) fun _ => .done ()

variable {shards}

theorem createSession_unlocked (source : IdSource) (origin : String) (randomBytes : Wire.Bytes)
    (started active : Instant) :
    ((SessionOperation.createSession source origin randomBytes started active).program
        shards).unlocked =
      insertRest (Session.new source origin (some randomBytes) started active) := by
  simp only [SessionOperation.program, Program.discard, MapShards.createSession,
    Program.unlocked_bind, Program.unlocked_withLock, Program.unlocked_modify]
  rfl

theorem touchSession_unlocked (id : Id) (now : Instant) :
    ((SessionOperation.touchSession id now).program shards).unlocked = touchRest id now := by
  simp [SessionOperation.program, Program.discard, MapShards.touchSession, touchRest,
    Program.bind, Program.unlocked]

theorem removeSession_unlocked (id : Id) :
    ((SessionOperation.removeSession id).program shards).unlocked = removeRest shards [id] := by
  simp [SessionOperation.program, Program.discard, removeRest, Program.forEach,
    Program.bind_assoc, Program.bind]

theorem cleanup_unlocked (within : IterOrder (Id × Session)) (now : Instant)
    (timeout : Duration) :
    ((SessionOperation.cleanupInactiveSessions within now timeout).program shards).unlocked =
      collectRest shards within now timeout shards.sessionShards 0 [] := by
  simp [SessionOperation.program, MapShards.cleanupInactiveSessions, MapShards.iter, collectRest,
    removeRest]

/-- The calls that change nothing. -/
def SessionOperation.Reads : SessionOperation → Prop
  | .getSession _ | .getSessionsByOrigin _ | .findSessionsByOrigin _ _ | .getAllSessions _
  | .sessionCount => True
  | _ => False

theorem SessionOperation.Reads.onlyReads {operation : SessionOperation}
    (reads : operation.Reads) : (operation.program shards).OnlyReads := by
  cases operation with
  | getSession id => exact .bind (.withLock (.read _)) fun _ => trivial
  | getSessionsByOrigin origin =>
      refine .bind (.withLock (.bind (.read _) fun ids => ?_)) fun _ => trivial
      cases ids with
      | none => trivial
      | some ids => exact .bind (.forEach (fun _ => .withLock (.read _)) ids) fun _ => trivial
  | findSessionsByOrigin within origin =>
      exact .bind (.bind (.pass _ _ _) fun _ => trivial) fun _ => trivial
  | getAllSessions within => exact .bind (.bind (.pass _ _ _) fun _ => trivial) fun _ => trivial
  | sessionCount =>
      exact .bind (.bind (.forEach (fun _ => .withLock (.read _)) _) fun _ => trivial)
        fun _ => trivial
  | _ => exact reads.elim

/-! ## The ids a clean-up has begun with -/

/-- The ids that were stored when the iteration began. -/
def SessionCall.keys : SessionCall → List Id
  | .collect _ _ keys _ _ => keys
  | _ => []

def ThreadState.keysOf (a : ThreadState T) (t : T) : List Id := (a.calls t).elim [] SessionCall.keys

/-- An id that is about to be stored was not stored when an iteration began. -/
structure ThreadState.KeysApart (a : ThreadState T) : Prop where
  issued : ∀ {t id}, id ∈ a.keysOf t → id ∈ a.issued
  apart : ∀ {t u session}, a.calls u = some (.insert session) → session.id ∉ a.keysOf t

variable {a a' : ThreadState T} {event : ThreadEvent T} {t : T}

theorem ThreadState.mem_keysOf_act {manager : SessionManager} {call : Option SessionCall} {u : T}
    {id : Id} (member : id ∈ (a.act t manager call).keysOf u) :
    u = t ∧ id ∈ call.elim [] SessionCall.keys ∨ id ∈ a.keysOf u := by
  by_cases own : u = t
  · subst own
    simp only [keysOf, ThreadState.act, Function.update_self] at member
    exact .inl ⟨rfl, member⟩
  · simp only [keysOf, ThreadState.act, Function.update_of_ne own] at member
    exact .inr member

theorem ThreadState.inserts_act {manager : SessionManager} {call : Option SessionCall} {u : T}
    {session : Session} (inserts : (a.act t manager call).calls u = some (.insert session)) :
    call = some (.insert session) ∨ a.calls u = some (.insert session) := by
  by_cases own : u = t
  · subst own
    simp only [ThreadState.act, Function.update_self] at inserts
    exact .inl inserts
  · simp only [ThreadState.act, Function.update_of_ne own] at inserts
    exact .inr inserts

/-- A thread goes on to a call with no more ids and without a session to store. -/
theorem ThreadState.KeysApart.act (apart : a.KeysApart) {manager : SessionManager}
    {call : Option SessionCall} (keys : call.elim [] SessionCall.keys ⊆ a.keysOf t)
    (stores : ∀ session, call ≠ some (.insert session)) : (a.act t manager call).KeysApart := by
  have fewer : ∀ {u id}, id ∈ (a.act t manager call).keysOf u → id ∈ a.keysOf u := by
    intro u id member
    rcases mem_keysOf_act member with ⟨rfl, new⟩ | old
    · exact keys new
    · exact old
  refine ⟨fun member => apart.issued (fewer member), fun inserts member => ?_⟩
  rcases inserts_act inserts with new | old
  · exact stores _ new
  · exact apart.apart old (fewer member)

theorem run_keysApart {events : List (ThreadEvent T)} (run : Run ThreadStep .init events a) :
    a.KeysApart := by
  refine run.invariant (P := fun _ a => a.KeysApart) ?_ ?_
  · exact ⟨fun member => (by cases member), fun inserts => by cases inserts⟩
  · intro events a event a' run apart edge
    have index := run_indexInv run
    have kept : ∀ {t manager call}, call.elim [] SessionCall.keys = [] →
        (∀ session, call ≠ some (.insert session)) → (a.act t manager call).KeysApart := by
      intro t manager call none stores
      refine apart.act ?_ stores
      rw [none]
      exact List.nil_subset _
    cases edge with
    | @create t session idle fresh =>
        have old : ∀ {u id}, id ∈ (a.act t a.manager (some (.insert session))).keysOf u →
            id ∈ a.keysOf u := by
          intro u id member
          rcases ThreadState.mem_keysOf_act member with ⟨-, none⟩ | old
          · cases none
          · exact old
        refine ⟨fun member => List.mem_cons_of_mem _ (apart.issued (old member)),
          fun inserts member => ?_⟩
        rcases @ThreadState.inserts_act _ _ a t a.manager _ _ _ inserts with new | inserts
        · cases new
          exact fresh (apart.issued (old member))
        · exact apart.apart inserts (old member)
    | @cleanup t timeout idle =>
        have stored : ∀ {id}, id ∈ a.manager.sessions.keys →
            ∃ session, a.manager.sessions.lookup id = some session :=
          fun member => DashMap.exists_lookup member
        refine ⟨fun member => ?_, fun {v u session} inserts member => ?_⟩
        · rcases ThreadState.mem_keysOf_act member with ⟨-, new⟩ | old
          · obtain ⟨session, found⟩ := stored new
            exact (index.stored_issued found).2
          · exact apart.issued old
        · rcases ThreadState.inserts_act inserts with new | inserts
          · cases new
          · rcases ThreadState.mem_keysOf_act member with ⟨-, new⟩ | old
            · obtain ⟨other, found⟩ := stored new
              have inserting : a.role u = .inserting session := by
                rw [ThreadState.role, inserts, roleOf]
              cases (index.inserting_unstored inserting).symm.trans found
            · exact apart.apart inserts old
    | @visit t now timeout keys visited ids id session here found unvisited =>
        refine apart.act ?_ fun _ same => by cases same
        rw [ThreadState.keysOf, here]
        exact fun _ member => member
    | @dropOrigin t origin ids here =>
        have dropped : (a.act t (a.manager.removeOrigin origin)
            (some (.remove ids))).KeysApart := kept rfl fun _ same => by cases same
        exact ⟨dropped.issued, dropped.apart⟩
    | touch => exact ⟨apart.issued, apart.apart⟩
    | advance => exact ⟨apart.issued, apart.apart⟩
    | _ => exact kept rfl fun _ same => by cases same

/-! ## Where a thread is in both models -/

/-- What is left of a call under locks, in front of its atomic step. -/
def Doing (shards : MapShards) (manager : SessionManager) (running : Option SessionOperation)
    (rest : CallRest) : Option SessionCall → Prop
  | none => rest = .done () ∨
      (rest.OnlyReads ∧ ∀ id now, running ≠ some (.touchSession id now)) ∨
      ∃ id now, running = some (.touchSession id now) ∧ rest = touchRest id now
  | some (.insert session) => rest = insertRest session
  | some (.push session) => rest = pushRest session
  | some (.remove ids) => ids ≠ [] ∧ rest = removeRest shards ids
  | some (.retain id origin ids) => rest = retainRest shards id origin ids
  | some (.drop origin ids) =>
      rest = .access (fun manager => manager.removeOrigin origin) fun _ => removeRest shards ids
  | some (.collect now timeout keys visited ids) =>
      ∃ within remaining i found,
        rest = collectRest shards within now timeout (remaining + 1) i found ∧
        i + (remaining + 1) = shards.sessionShards ∧
        ids = ((found.map Prod.snd).filter (SessionManager.Expired now timeout)).map Session.id ∧
        (∀ id ∈ visited, shards.sessionShardOf id < i) ∧
        ∀ id ∈ keys, id ∈ manager.sessions → shards.sessionShardOf id < i → id ∈ visited

/-- A thread with nothing left is in no call. -/
theorem Doing.idle {manager : SessionManager} {running : Option SessionOperation}
    {call : Option SessionCall} (doing : Doing shards manager running (.done ()) call) :
    call = none := by
  cases call with
  | none => rfl
  | some call =>
      cases call with
      | remove ids =>
          obtain ⟨nonempty, rest⟩ := doing
          cases ids with
          | nil => exact absurd rfl nonempty
          | cons id ids =>
              rw [removeRest_cons] at rest
              cases rest
      | collect now timeout keys visited ids =>
          obtain ⟨within, remaining, i, found, rest, -⟩ := doing
          cases rest
      | _ => cases doing

/-- A step of another thread. -/
theorem Doing.keep {manager manager' : SessionManager} {running : Option SessionOperation}
    {rest : CallRest} {call : Option SessionCall}
    (doing : Doing shards manager running rest call)
    (stored : ∀ id ∈ call.elim [] SessionCall.keys, id ∈ manager'.sessions →
      id ∈ manager.sessions) : Doing shards manager' running rest call := by
  cases call with
  | none => exact doing
  | some call =>
      cases call with
      | collect now timeout keys visited ids =>
          obtain ⟨within, remaining, i, found, rest, count, expired, below, covered⟩ := doing
          refine ⟨within, remaining, i, found, rest, count, expired, below, ?_⟩
          exact fun id member there => covered id member (stored id member there)
      | _ => exact doing

/-- Atomic steps of thread `t` that lead to `call` and leave the clock and the ids alone. -/
structure Moves (a : ThreadState T) (t : T) (manager : SessionManager)
    (call : Option SessionCall) (a' : ThreadState T) : Prop where
  run : ∃ events, Run ThreadStep a events a' ∧ events.filterMap ThreadEvent.begins = []
  manager : a'.manager = manager
  calls : a'.calls = Function.update a.calls t call
  clock : a'.clock = a.clock
  issued : a'.issued = a.issued

variable {manager manager' : SessionManager} {call call' : Option SessionCall}
  {a₁ : ThreadState T} {running : Option SessionOperation}

theorem Moves.trans (left : Moves a t manager call a₁) (right : Moves a₁ t manager' call' a') :
    Moves a t manager' call' a' where
  run := by
    obtain ⟨events, first, within⟩ := left.run
    obtain ⟨events', second, within'⟩ := right.run
    refine ⟨_, first.trans second, ?_⟩
    rw [List.filterMap_append, within, within', List.append_nil]
  manager := right.manager
  calls := by rw [right.calls, left.calls, Function.update_idem]
  clock := right.clock.trans left.clock
  issued := right.issued.trans left.issued

theorem Moves.at_call (moves : Moves a t manager call a') : a'.calls t = call := by
  rw [moves.calls, Function.update_self]

theorem Moves.step (edge : ThreadStep a event (a.act t manager call))
    (within : event.begins = none) : Moves a t manager call (a.act t manager call) :=
  ⟨⟨_, .single edge, by rw [List.filterMap_cons_none within, List.filterMap_nil]⟩, rfl, rfl, rfl,
    rfl⟩

theorem Moves.nil (here : a.calls t = call) : Moves a t a.manager call a :=
  ⟨⟨_, .nil, rfl⟩, rfl, by rw [← here, Function.update_eq_self], rfl, rfl⟩

/-- A removal with nothing left to remove is over. -/
theorem Moves.removed {ids : List Id} (moves : Moves a t manager (some (.remove ids)) a₁) :
    ∃ call a', Moves a t manager call a' ∧
      Doing shards manager running (removeRest shards ids) call := by
  cases ids with
  | nil =>
      have finish : Moves a₁ t a₁.manager none _ := .step (.finish moves.at_call) rfl
      rw [moves.manager] at finish
      exact ⟨none, _, moves.trans finish, .inl rfl⟩
  | cons id ids => exact ⟨_, a₁, moves, List.cons_ne_nil _ _, rfl⟩

/-- The iteration goes over the entries of a shard in their order. -/
theorem Moves.visits {now : Instant} {timeout : Duration} {keys : List Id}
    {entries : List (Id × Session)} {visited ids : List Id}
    (collecting : a.calls t = some (.collect now timeout keys visited ids))
    (stored : ∀ entry ∈ entries, a.manager.sessions.lookup entry.1 = some entry.2)
    (once : (entries.map Prod.fst).Nodup) (unvisited : ∀ entry ∈ entries, entry.1 ∉ visited) :
    ∃ a', Moves a t a.manager
      (some (.collect now timeout keys ((entries.map Prod.fst).reverse ++ visited) (ids ++
        ((entries.map Prod.snd).filter (SessionManager.Expired now timeout)).map Session.id)))
      a' := by
  induction entries generalizing a visited ids with
  | nil =>
      refine ⟨a, .nil ?_⟩
      rw [collecting]
      simp
  | cons entry entries ih =>
      obtain ⟨id, session⟩ := entry
      have visit : Moves a t a.manager _ _ := .step
        (.visit collecting (stored (id, session) List.mem_cons_self)
          (unvisited _ List.mem_cons_self)) rfl
      rw [List.map_cons, List.nodup_cons] at once
      obtain ⟨a', rest⟩ := ih visit.at_call
        (fun entry member => stored entry (List.mem_cons_of_mem _ member)) once.2 (by
          intro entry member seen
          rcases List.mem_cons.mp seen with same | seen
          · exact once.1 (same ▸ List.mem_map_of_mem member)
          · exact unvisited entry (List.mem_cons_of_mem _ member) seen)
      have further : (((id, session) :: entries).map Prod.fst).reverse ++ visited =
          (entries.map Prod.fst).reverse ++ id :: visited := by simp
      have collected : ids ++ ((((id, session) :: entries).map Prod.snd).filter
            (SessionManager.Expired now timeout)).map Session.id =
          (if SessionManager.Expired now timeout session then ids ++ [session.id] else ids) ++
            ((entries.map Prod.snd).filter
              (SessionManager.Expired now timeout)).map Session.id := by
        by_cases expired : SessionManager.Expired now timeout session <;> simp [expired]
      rw [further, collected]
      exact ⟨a', visit.trans rest⟩

/-- The iteration reads the next shard. -/
theorem Doing.visitShard {within : IterOrder (Id × Session)} {remaining i : ℕ}
    {found : List (Id × Session)} {now : Instant} {timeout : Duration} {keys visited ids : List Id}
    (here : a.calls t = some (.collect now timeout keys visited ids))
    (count : i + (remaining + 1) = shards.sessionShards)
    (expired : ids =
      ((found.map Prod.snd).filter (SessionManager.Expired now timeout)).map Session.id)
    (below : ∀ id ∈ visited, shards.sessionShardOf id < i)
    (covered : ∀ id ∈ keys, id ∈ a.manager.sessions → shards.sessionShardOf id < i →
      id ∈ visited) :
    ∃ call a', Moves a t a.manager call a' ∧
      Doing shards a.manager running
        (collectRest shards within now timeout remaining (i + 1) (found ++
          within.arrange (a.manager.sessions.shardEntries shards.sessionShardOf i))) call := by
  have inShard : ∀ {entry}, entry ∈
      within.arrange (a.manager.sessions.shardEntries shards.sessionShardOf i) ↔
        a.manager.sessions.lookup entry.1 = some entry.2 ∧
          shards.sessionShardOf entry.1 = i := by
    intro entry
    rw [(within.perm _).mem_iff, DashMap.shardEntries, List.mem_filter, decide_eq_true_eq,
      DashMap.mem_toList]
  have once : ((within.arrange
      (a.manager.sessions.shardEntries shards.sessionShardOf i)).map Prod.fst).Nodup := by
    rw [((within.perm _).map Prod.fst).nodup_iff]
    refine List.Nodup.sublist (List.filter_sublist.map _) ?_
    rw [DashMap.keys_toList]
    exact a.manager.sessions.keys_nodup
  obtain ⟨a₁, visits⟩ := Moves.visits here (fun entry member => (inShard.mp member).1) once
    (fun entry member seen => by
      have before := below _ seen
      rw [(inShard.mp member).2] at before
      exact lt_irrefl i before)
  generalize within.arrange (a.manager.sessions.shardEntries shards.sessionShardOf i) = entries
    at inShard visits
  have covered' : ∀ id ∈ keys, id ∈ a.manager.sessions → shards.sessionShardOf id < i + 1 →
      id ∈ (entries.map Prod.fst).reverse ++ visited := by
    intro id member there before
    rw [List.mem_append, List.mem_reverse]
    rcases Nat.lt_succ_iff_lt_or_eq.mp before with earlier | this
    · exact .inr (covered id member there earlier)
    · obtain ⟨session, stored⟩ := DashMap.exists_lookup there
      exact .inl (List.mem_map.mpr ⟨(id, session), inShard.mpr ⟨stored, this⟩, rfl⟩)
  have expired' : ids ++
      ((entries.map Prod.snd).filter (SessionManager.Expired now timeout)).map Session.id =
      (((found ++ entries).map Prod.snd).filter
        (SessionManager.Expired now timeout)).map Session.id := by
    rw [expired, List.map_append, List.filter_append, List.map_append]
  rw [expired'] at visits
  cases remaining with
  | zero =>
      -- the last shard: every key that is still stored has been visited
      have collected : Moves a₁ t a₁.manager _ _ := .step
        (.collected visits.at_call fun id member there => by
          rw [visits.manager] at there
          exact covered' id member there (count ▸ shards.sessionShardOf_lt id)) rfl
      rw [visits.manager] at collected
      exact (visits.trans collected).removed
  | succ remaining =>
      refine ⟨_, a₁, visits, within, remaining, i + 1, _, rfl, by omega, rfl, ?_, covered'⟩
      intro id seen
      rw [List.mem_append, List.mem_reverse] at seen
      rcases seen with new | old
      · obtain ⟨entry, member, rfl⟩ := List.mem_map.mp new
        rw [(inShard.mp member).2]
        exact Nat.lt_succ_self i
      · exact Nat.lt_succ_of_lt (below id old)

/-- **One access under locks is atomic steps of the same thread**, if it is not a touch. -/
theorem Doing.access {update : SessionManager → SessionManager}
    {next : SessionManager → CallRest}
    (doing : Doing shards a.manager running (.access update next) (a.calls t))
    (notTouch : ∀ id now, running ≠ some (.touchSession id now)) :
    ∃ call a', Moves a t (update a.manager) call a' ∧
      Doing shards (update a.manager) running (next a.manager) call := by
  cases here : a.calls t with
  | none =>
      rw [here] at doing
      rcases doing with finished | ⟨⟨rfl, reads⟩, -⟩ | ⟨id, now, same, -⟩
      · cases finished
      · exact ⟨none, a, .nil here, .inr (.inl ⟨reads _, notTouch⟩)⟩
      · exact absurd same (notTouch id now)
  | some call =>
      rw [here] at doing
      cases call with
      | insert session =>
          cases doing
          exact ⟨some (.push session), _, .step (.insert here) rfl, rfl⟩
      | push session =>
          cases doing
          exact ⟨none, _, .step (.push here) rfl, .inl rfl⟩
      | remove ids =>
          obtain ⟨nonempty, rest⟩ := doing
          cases ids with
          | nil => exact absurd rfl nonempty
          | cons id ids =>
              rw [removeRest_cons] at rest
              cases rest
              cases found : a.manager.sessions.lookup id with
              | none =>
                  have missed : Moves a t a.manager (some (.remove ids)) _ :=
                    .step (.miss here found) rfl
                  have unchanged : a.manager.takeSession id = a.manager := by
                    rw [SessionManager.takeSession, DashMap.erase_of_lookup found]
                  dsimp only
                  rw [unchanged, found]
                  exact missed.removed
              | some session =>
                  refine ⟨some (.retain id session.origin ids), _, .step (.take here found) rfl, ?_⟩
                  simp only [Doing, found]
      | retain id origin ids =>
          cases doing
          by_cases emptied : (a.manager.retainOrigin origin id).originToSessions.lookup origin =
              some []
          · refine ⟨some (.drop origin ids), _, .step (.retainEmpty here emptied) rfl, ?_⟩
            simp only [emptied]
            rfl
          · have retained : Moves a t _ (some (.remove ids)) _ := .step (.retain here emptied) rfl
            dsimp only
            split
            · exact absurd ‹_› emptied
            · exact retained.removed
      | drop origin ids =>
          cases doing
          have dropped : Moves a t (a.manager.removeOrigin origin) (some (.remove ids)) _ :=
            ⟨⟨_, .single (.dropOrigin here), rfl⟩, rfl, rfl, rfl, rfl⟩
          exact dropped.removed
      | collect now timeout keys visited ids =>
          obtain ⟨within, remaining, i, found, rest, count, expired, below, covered⟩ := doing
          cases rest
          exact Doing.visitShard here count expired below covered

/-- An access stores no session but one its thread creates. -/
theorem Doing.stored {update : SessionManager → SessionManager} {next : SessionManager → CallRest}
    (doing : Doing shards manager running (.access update next) call) {id : Id}
    (there : id ∈ (update manager).sessions) :
    id ∈ manager.sessions ∨ ∃ session, call = some (.insert session) ∧ session.id = id := by
  cases call with
  | none =>
      left
      rcases doing with finished | ⟨⟨rfl, -⟩, -⟩ | ⟨touched, now, -, rest⟩
      · cases finished
      · exact there
      · cases rest
        obtain ⟨session, found⟩ := DashMap.exists_lookup there
        obtain ⟨before, found, -⟩ := SessionManager.stored_touchSession found
        exact DashMap.mem_of_lookup found
  | some call =>
      cases call with
      | insert session =>
          cases doing
          rcases (AList.mem_insert _).mp there with same | old
          · exact .inr ⟨session, rfl, same.symm⟩
          · exact .inl old
      | push session =>
          cases doing
          exact .inl there
      | remove ids =>
          obtain ⟨nonempty, rest⟩ := doing
          cases ids with
          | nil => exact absurd rfl nonempty
          | cons first ids =>
              rw [removeRest_cons] at rest
              cases rest
              exact .inl (AList.mem_erase.mp there).2
      | retain listed origin ids =>
          cases doing
          rw [SessionManager.sessions_retainOrigin] at there
          exact .inl there
      | drop origin ids =>
          cases doing
          exact .inl there
      | collect now timeout keys visited ids =>
          obtain ⟨within, remaining, i, found, rest, -⟩ := doing
          cases rest
          exact .inl there

/-! ## The two models side by side -/

/-- The same manager, clock and ids, and every thread as far in its call. -/
structure Matches (shards : MapShards) (s : LockedManager T) (a : ThreadState T) : Prop where
  reached : ∃ events, Run ThreadStep .init events a
  manager : a.manager = s.state.data
  clock : a.clock = s.clock
  issued : a.issued = s.issued
  touching : ∀ t, s.Touching t → a.calls t = none
  doing : ∀ t, Doing shards a.manager (s.running t) (s.state.threads t).program.unlocked
    (a.calls t)

variable {s s' : LockedManager T}

/-- One thread has gone on, the others are where they were. -/
theorem Matches.of_thread (same : Matches shards s a)
    (reached : ∃ events, Run ThreadStep .init events a') (manager : a'.manager = s'.state.data)
    (clock : a'.clock = s'.clock) (issued : a'.issued = s'.issued)
    (calls : a'.calls = Function.update a.calls t call)
    (touching : s'.Touching t → call = none)
    (own : Doing shards a'.manager (s'.running t) (s'.state.threads t).program.unlocked call)
    (others : ∀ u, u ≠ t → s'.running u = s.running u ∧ s'.state.threads u = s.state.threads u)
    (stored : ∀ u id, id ∈ a.keysOf u → id ∈ a'.manager.sessions → id ∈ a.manager.sessions) :
    Matches shards s' a' := by
  refine ⟨reached, manager, clock, issued, fun u touches => ?_, fun u => ?_⟩
  · by_cases other : u = t
    · subst other
      rw [calls, Function.update_self]
      exact touching touches
    · rw [LockedManager.Touching, (others u other).1] at touches
      rw [calls, Function.update_of_ne other]
      exact same.touching u touches
  · by_cases other : u = t
    · subst other
      rw [calls, Function.update_self]
      exact own
    · obtain ⟨running, thread⟩ := others u other
      rw [calls, Function.update_of_ne other, running, thread]
      exact (same.doing u).keep (stored u)

/-- A thread begins a call, and the other model gets to where the call is. -/
theorem Matches.begin (same : Matches shards s a) {operation : SessionOperation}
    {events : List (ThreadEvent T)} (run : Run ThreadStep a events a')
    (manager : a'.manager = a.manager) (clock : a'.clock = a.clock)
    (issued : a'.issued = operation.issue a.issued)
    (calls : a'.calls = Function.update a.calls t call)
    (touching : ∀ id now, operation = .touchSession id now → call = none)
    (own : Doing shards a.manager (some operation) (operation.program shards).unlocked call) :
    Matches shards
      { s with
        state := s.state.put t ⟨operation.program shards, (s.state.threads t).held⟩
        issued := operation.issue s.issued
        running := Function.update s.running t (some operation) } a' := by
  obtain ⟨before, reached⟩ := same.reached
  refine same.of_thread ⟨_, reached.trans run⟩ (manager.trans same.manager)
    (clock.trans same.clock)
    (issued.trans (congrArg (fun issued => operation.issue issued) same.issued)) calls ?_ ?_ ?_ ?_
  · intro touches
    obtain ⟨id, now, here⟩ := touches
    change Function.update s.running t (some operation) t = _ at here
    rw [Function.update_self] at here
    exact touching id now (Option.some.inj here)
  · simp only [State.put, Function.update_self, manager]
    exact own
  · exact fun u other => ⟨Function.update_of_ne other _ _, Function.update_of_ne other _ _⟩
  · exact fun _ _ _ there => manager ▸ there

theorem Matches.start (same : Matches shards s a) {operation : SessionOperation}
    (idle : (s.state.threads t).program = .done ())
    (starts : operation.StartsAt s.clock s.issued) :
    ∃ events a', Run ThreadStep a events a' ∧
      events.filterMap ThreadEvent.begins = (LockedEvent.start t operation).begins.toList ∧
      Matches shards
        { s with
          state := s.state.put t ⟨operation.program shards, (s.state.threads t).held⟩
          issued := operation.issue s.issued
          running := Function.update s.running t (some operation) } a' := by
  have doing := same.doing t
  rw [idle] at doing
  have here := doing.idle
  have still : a.calls = Function.update a.calls t none := by
    rw [← here, Function.update_eq_self]
  have reads : operation.Reads → (operation.program shards).unlocked.OnlyReads :=
    fun reads => reads.onlyReads.unlocked
  cases operation with
  | createSession source origin randomBytes started active =>
      obtain ⟨fresh, past, now⟩ := starts
      rw [← same.issued] at fresh
      rw [← same.clock] at past now
      have edge := ThreadStep.create here fresh past now
      exact ⟨_, _, .single edge, rfl, same.begin (.single edge) rfl rfl rfl rfl nofun
        (createSession_unlocked source origin randomBytes started active)⟩
  | createSessionWithSeed => exact starts.elim
  | removeSession id =>
      have edge := ThreadStep.remove id here
      exact ⟨_, _, .single edge, rfl, same.begin (.single edge) rfl rfl rfl rfl nofun
        ⟨List.cons_ne_nil _ _, removeSession_unlocked id⟩⟩
  | touchSession id now =>
      exact ⟨[], a, .nil, rfl, same.begin .nil rfl rfl rfl still (fun _ _ _ => rfl)
        (.inr (.inr ⟨id, now, rfl, touchSession_unlocked id now⟩))⟩
  | cleanupInactiveSessions within now timeout =>
      have edge := ThreadStep.cleanup timeout here
      refine ⟨_, _, .single edge, rfl, same.begin (.single edge) rfl rfl rfl rfl nofun ?_⟩
      obtain ⟨remaining, count⟩ : ∃ remaining, shards.sessionShards = remaining + 1 :=
        Nat.exists_eq_add_one.mpr (Nat.zero_lt_of_lt (shards.sessionShardOf_lt default))
      rw [cleanup_unlocked, count, starts, ← same.clock]
      exact ⟨within, remaining, 0, [], rfl, by rw [count, Nat.zero_add], rfl,
        fun _ member => (by cases member), fun _ _ _ below => absurd below (Nat.not_lt_zero _)⟩
  | clearSessions => exact starts.elim
  | _ =>
      exact ⟨[], a, .nil, rfl, same.begin .nil rfl rfl rfl still nofun
        (.inr (.inl ⟨reads trivial, nofun⟩))⟩

theorem Matches.go (same : Matches shards s a) {state : State SessionLock SessionManager T}
    (step : Step (fun _ => False) s.state t state)
    (notTouch : s.state.Accesses t → ¬ s.Touching t) :
    ∃ events a', Run ThreadStep a events a' ∧ events.filterMap ThreadEvent.begins = [] ∧
      Matches shards { s with state } a' := by
  obtain ⟨before, reached⟩ := same.reached
  have others : ∀ u, u ≠ t → s.running u = s.running u ∧ state.threads u = s.state.threads u :=
    fun u other => ⟨rfl, step.threads_ne other⟩
  have doing := same.doing t
  rcases step.unlocked_cases with ⟨data, rest⟩ | ⟨update, next, here, data, rest⟩
  · refine ⟨[], a, .nil, rfl, same.of_thread ⟨_, reached⟩ (same.manager.trans data.symm)
      same.clock same.issued (Function.update_eq_self t a.calls).symm (same.touching t) ?_ others
      fun _ _ _ there => there⟩
    rw [rest]
    exact doing
  · have quiet := notTouch ⟨update, next, here⟩
    rw [here, Program.unlocked] at doing
    obtain ⟨call, a', moves, doing'⟩ := doing.access fun id now touches => quiet ⟨id, now, touches⟩
    obtain ⟨events, run, within⟩ := moves.run
    refine ⟨events, a', run, within, same.of_thread ⟨_, reached.trans run⟩ ?_
      (moves.clock.trans same.clock) (moves.issued.trans same.issued) moves.calls
      (fun touches => absurd touches quiet) ?_ others ?_⟩
    · rw [moves.manager, data, same.manager]
    · rw [moves.manager, rest, ← same.manager]
      exact doing'
    · -- what the access stores is new, and no iteration began with it
      intro u id member there
      rw [moves.manager] at there
      rcases doing.stored there with old | ⟨session, inserts, rfl⟩
      · exact old
      · exact absurd member ((run_keysApart reached).apart inserts)

/-- The access of a touch is one atomic step, at the same clock. -/
theorem Matches.touch (same : Matches shards s a) {state : State SessionLock SessionManager T}
    {id : Id} (step : Step (fun _ => False) s.state t state) (accesses : s.state.Accesses t)
    (touches : s.running t = some (.touchSession id s.clock)) :
    ∃ a', ThreadStep a (.touch t id) a' ∧ Matches shards { s with state } a' := by
  obtain ⟨before, reached⟩ := same.reached
  obtain ⟨update, next, here⟩ := accesses
  obtain ⟨data, rest⟩ := step.unlocked_access here
  have idle := same.touching t ⟨id, s.clock, touches⟩
  have doing := same.doing t
  rw [here, Program.unlocked, idle, touches] at doing
  have edge : ThreadStep a (.touch t id) _ := .touch id idle
  rcases doing with finished | ⟨-, notTouch⟩ | ⟨id', now, own, left⟩
  · cases finished
  · exact absurd rfl (notTouch id s.clock)
  · cases own
    have updates : update = fun manager => (manager.touchSession id s.clock).1 :=
      (Program.access.inj left).1
    have ended : (next s.state.data).unlocked = .done () :=
      congrFun (Program.access.inj left).2 s.state.data
    refine ⟨_, edge, same.of_thread ⟨_, reached.snoc edge⟩ ?_ same.clock same.issued
      (Function.update_eq_self t a.calls).symm (same.touching t) ?_
      (fun u other => ⟨rfl, step.threads_ne other⟩) ?_⟩
    · change (a.manager.touchSession id a.clock).1 = state.data
      rw [data, updates, same.manager, same.clock]
    · rw [rest, ended, idle]
      exact .inl rfl
    · intro u other _ there
      obtain ⟨session, found⟩ := DashMap.exists_lookup there
      obtain ⟨old, found, -⟩ := SessionManager.stored_touchSession found
      exact DashMap.mem_of_lookup found

/-- The atomic steps follow every step under locks. -/
theorem locked_simulation (shards : MapShards) :
    Simulation (LockedStep shards) LockedEvent.begins (ThreadStep (T := T)) ThreadEvent.begins
      (Matches shards) := by
  constructor
  intro s event s' a edge same
  cases edge with
  | start operation idle starts => exact same.start idle starts
  | go step notTouch => exact same.go step notTouch
  | touch step accesses touches =>
      obtain ⟨a', edge, same'⟩ := same.touch step accesses touches
      exact ⟨_, a', .single edge, rfl, same'⟩
  | advance elapsed =>
      obtain ⟨before, reached⟩ := same.reached
      have edge : ThreadStep a (.advance elapsed) _ := .advance elapsed
      exact ⟨_, _, .single edge, rfl, ⟨_, reached.snoc edge⟩, same.manager,
        congrArg (· + elapsed) same.clock, same.issued, same.touching, same.doing⟩

theorem matches_init : Matches shards (.init : LockedManager T) .init :=
  ⟨⟨[], .nil⟩, rfl, rfl, rfl, fun _ _ => rfl, fun _ => .inl rfl⟩

/-- **Locked runs are runs of atomic steps.**  Whatever threads do to one manager with its locks,
the same creations, removals and clean-ups begin and the same touches take place, in the same order
and at the same times, in a run of the atomic steps that leads to the same sessions and the same
index, and a thread whose call is over under locks is in no call there. -/
theorem locked_run_atomic {events : List (LockedEvent T)} {s : LockedManager T}
    (run : Run (LockedStep shards) .init events s) :
    ∃ events' a, Run ThreadStep .init events' a ∧
      events'.filterMap ThreadEvent.begins = events.filterMap LockedEvent.begins ∧
      a.manager = s.state.data ∧ a.clock = s.clock ∧ a.issued = s.issued ∧
      ∀ t, ¬ s.state.Unfinished t → a.calls t = none := by
  obtain ⟨events', a, run', begins, same⟩ := (locked_simulation shards).run run matches_init
  refine ⟨events', a, run', begins, same.manager, same.clock, same.issued, fun t rests => ?_⟩
  have doing := same.doing t
  rw [not_not.mp rests] at doing
  exact doing.idle

/-- One thread has touched a session that is not there and begun a clean-up, the other one is in
the middle of its creation. -/
theorem locked_run_atomic_create :
    ∃ (events : List (LockedEvent Bool)) (s : LockedManager Bool) (events' : _) (a : _),
      Run (LockedStep default) .init events s ∧ s.state.data.sessionCount = 1 ∧
        Run ThreadStep .init events' a ∧ a.manager = s.state.data ∧
        events'.filterMap ThreadEvent.begins = [
          .create false ⟨1, 0, 0, "a"⟩, .touch true 7, .cleanup true 1800] := by
  have quiet : ∀ {s : LockedManager Bool} {t operation}, s.running t = some operation →
      (∀ id now, operation ≠ .touchSession id now) → ¬ s.Touching t := by
    intro s t operation running other touches
    obtain ⟨id, now, same⟩ := touches
    exact other id now (Option.some.inj (running.symm.trans same))
  have run := @Run.nil _ _ (LockedStep default) (@LockedManager.init Bool)
    |>.snoc (.start (t := false)
      (.createSession ⟨fun bytes => UInt64.ofNat bytes.length, []⟩ "a" [] 0 0) rfl
      ⟨List.not_mem_nil, le_rfl, rfl⟩)
    |>.snoc (.start (t := true) (.touchSession 7 0) rfl trivial)
    |>.snoc (.go (t := true) (.acquire rfl (.of_unheld (by decide))) fun accesses => by
      obtain ⟨_, _, same⟩ := accesses
      cases same)
    |>.snoc (.touch (t := true) (.access rfl) ⟨_, _, rfl⟩ rfl)
    |>.snoc (.go (t := true) (.release rfl) fun accesses => by
      obtain ⟨_, _, same⟩ := accesses
      cases same)
    |>.snoc (.start (t := true) (.cleanupInactiveSessions default 0 1800) rfl rfl)
    |>.snoc (.go (t := false) (.acquire rfl (.of_unheld (by decide))) fun _ =>
      quiet rfl nofun)
    |>.snoc (.go (t := false) (.access rfl) fun _ => quiet rfl nofun)
  obtain ⟨events', a, run', begins, same, -⟩ := locked_run_atomic run
  exact ⟨_, _, events', a, run, rfl, run', same, begins⟩

end Bonka
