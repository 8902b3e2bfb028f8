import Bonka.SessionIndex
import Mathlib.Data.List.Induction

/-!
# Sequential runs of `SessionManager` operations

A run is a list of whole calls from the empty manager.  Its history invariant `FromCalls` ties
every id in the two maps to the call that made it, which is what makes a fresh random seed a
fresh id.  `lookups_agree_iff` says which runs keep the index lookup and the full scan equal.
-/

namespace Bonka

/-- A mutating call on the manager, with the clock readings, random bytes and iteration order it
meets. -/
inductive SessionOp
  | createSession (origin : String) (randomBytes : Wire.Bytes) (started active : Instant)
  | createSessionWithSeed (origin : String) (seed : Wire.Bytes) (started active : Instant)
  | removeSession (id : Id)
  | touchSession (id : Id) (now : Instant)
  | cleanupInactiveSessions (order : IterOrder (Id × Session)) (now : Instant)
      (timeout : Duration)
  | clearSessions

namespace SessionOp

def apply (source : IdSource) (manager : SessionManager) : SessionOp → SessionManager
  | .createSession origin randomBytes started active =>
      (manager.createSession source origin randomBytes started active).1
  | .createSessionWithSeed origin seed started active =>
      (manager.createSessionWithSeed source origin seed started active).1
  | .removeSession id => (manager.removeSession id).1
  | .touchSession id now => (manager.touchSession id now).1
  | .cleanupInactiveSessions order now timeout =>
      manager.cleanupInactiveSessions order now timeout
  | .clearSessions => manager.clearSessions

/-- The origin and seed a call computes an id from. -/
def idPair : SessionOp → Option (String × Wire.Bytes)
  | .createSession origin randomBytes _ _ => some (origin, randomBytes)
  | .createSessionWithSeed origin seed _ _ => some (origin, seed)
  | _ => none

/-- The random seed a call draws. -/
def randomSeed : SessionOp → Option Wire.Bytes
  | .createSession _ randomBytes _ _ => some randomBytes
  | _ => none

/-- A `create_session_with_seed` call only replaces a session that is stored already. -/
def KeepsIndex (source : IdSource) (manager : SessionManager) : SessionOp → Prop
  | .createSessionWithSeed origin seed _ _ => source.idOf origin seed ∈ manager.sessions
  | _ => True

end SessionOp

def runOps (source : IdSource) (ops : List SessionOp) : SessionManager :=
  ops.foldl (SessionOp.apply source) .new

theorem runOps_snoc (source : IdSource) (ops : List SessionOp) (op : SessionOp) :
    runOps source (ops ++ [op]) = op.apply source (runOps source ops) := by
  simp [runOps]

/-- No two different pairs of an origin and a seed used in the run have the same id. -/
def NoCollision (source : IdSource) (ops : List SessionOp) : Prop :=
  ∀ o seed o' seed', (o, seed) ∈ ops.filterMap SessionOp.idPair →
    (o', seed') ∈ ops.filterMap SessionOp.idPair →
    source.idOf o seed = source.idOf o' seed' → o = o' ∧ seed = seed'

/-- No random seed is drawn twice. -/
def SeedsUnrepeated (ops : List SessionOp) : Prop := (ops.filterMap SessionOp.randomSeed).Nodup

instance (ops : List SessionOp) : Decidable (SeedsUnrepeated ops) :=
  inferInstanceAs (Decidable (List.Nodup _))

instance (source : IdSource) (ops : List SessionOp) : Decidable (NoCollision source ops) :=
  decidable_of_iff
    (∀ left ∈ ops.filterMap SessionOp.idPair, ∀ right ∈ ops.filterMap SessionOp.idPair,
      source.idOf left.1 left.2 = source.idOf right.1 right.2 → left = right)
    ⟨fun distinct o seed o' seed' left right same =>
      Prod.mk.inj (distinct (o, seed) left (o', seed') right same),
    fun distinct left used right used' same =>
      Prod.ext_iff.mpr (distinct left.1 left.2 right.1 right.2 used used' same)⟩

theorem NoCollision.of_prefix {source : IdSource} {ops earlier : List SessionOp}
    (distinct : NoCollision source ops) (before : earlier <+: ops) :
    NoCollision source earlier := by
  have included : ∀ {p}, p ∈ earlier.filterMap SessionOp.idPair →
      p ∈ ops.filterMap SessionOp.idPair := fun member =>
    (before.sublist.filterMap SessionOp.idPair).subset member
  exact fun o seed o' seed' left right same =>
    distinct o seed o' seed' (included left) (included right) same

theorem SeedsUnrepeated.of_prefix {ops earlier : List SessionOp} (unrepeated : SeedsUnrepeated ops)
    (before : earlier <+: ops) : SeedsUnrepeated earlier :=
  List.Nodup.sublist (before.sublist.filterMap SessionOp.randomSeed) unrepeated

/-! ## Where the ids of a run come from -/

/-- Every stored id is the id of a call's origin and seed, and every listed id the id of a
`create_session` call's origin and random seed. -/
structure FromCalls (source : IdSource) (ops : List SessionOp) (manager : SessionManager) :
    Prop where
  stored_pair : ∀ {id session}, manager.sessions.lookup id = some session →
    ∃ seed, (session.origin, seed) ∈ ops.filterMap SessionOp.idPair ∧
      source.idOf session.origin seed = id
  listed_pair : ∀ {origin id}, id ∈ manager.idsOf origin →
    ∃ seed, (origin, seed) ∈ ops.filterMap SessionOp.idPair ∧
      seed ∈ ops.filterMap SessionOp.randomSeed ∧ source.idOf origin seed = id

variable {source : IdSource} {ops : List SessionOp} {manager next : SessionManager} {op : SessionOp}

theorem FromCalls.new : FromCalls source [] .new where
  stored_pair found := by cases found
  listed_pair listed := by cases listed

/-- One more call only adds to the history. -/
theorem FromCalls.later (history : FromCalls source ops manager) (op : SessionOp) :
    FromCalls source (ops ++ [op]) manager where
  stored_pair found := by
    obtain ⟨seed, used, same⟩ := history.stored_pair found
    exact ⟨seed, by rw [List.filterMap_append]; exact List.mem_append_left _ used, same⟩
  listed_pair member := by
    obtain ⟨seed, used, drawn, same⟩ := history.listed_pair member
    refine ⟨seed, ?_, ?_, same⟩
    · rw [List.filterMap_append]
      exact List.mem_append_left _ used
    · rw [List.filterMap_append]
      exact List.mem_append_left _ drawn

/-- Maps with nothing new keep their history. -/
theorem FromCalls.shrink (history : FromCalls source ops manager)
    (stored : ∀ {id session}, next.sessions.lookup id = some session →
      ∃ session', manager.sessions.lookup id = some session' ∧ session'.origin = session.origin)
    (listed : ∀ {origin id}, id ∈ next.idsOf origin → id ∈ manager.idsOf origin) :
    FromCalls source ops next where
  stored_pair found := by
    obtain ⟨session', before, own⟩ := stored found
    obtain ⟨seed, used, same⟩ := history.stored_pair before
    exact ⟨seed, own ▸ used, own ▸ same⟩
  listed_pair member := history.listed_pair (listed member)

theorem FromCalls.removeSession (history : FromCalls source ops manager) (id : Id) :
    FromCalls source ops (manager.removeSession id).1 := by
  refine history.shrink (fun {other s} found => ?_) (fun {o other} member => ?_)
  · rw [SessionManager.lookup_removeSession] at found
    split at found
    · cases found
    · exact ⟨s, found, rfl⟩
  · cases found : manager.sessions.lookup id with
    | none => rwa [SessionManager.removeSession_of_missing found] at member
    | some session =>
        rw [(SessionManager.removeSession_of_found found).2.2] at member
        split at member
        · exact (List.mem_filter.mp member).1
        · exact member

theorem FromCalls.touchSession (history : FromCalls source ops manager) (id : Id)
    (now : Instant) : FromCalls source ops (manager.touchSession id now).1 := by
  refine history.shrink (fun stored => ?_) fun listed => ?_
  · obtain ⟨before, found, -, own⟩ := SessionManager.stored_touchSession stored
    exact ⟨before, found, own⟩
  · rwa [SessionManager.idsOf_touchSession] at listed

/-- Storing the session of a pair the history has. -/
theorem FromCalls.insertSession (history : FromCalls source ops manager) {origin : String}
    {seed : Wire.Bytes} (used : (origin, seed) ∈ ops.filterMap SessionOp.idPair)
    (started active : Instant) :
    FromCalls source ops
      (manager.insertSession (Session.new source origin (some seed) started active)) where
  stored_pair := by
    intro id session found
    rw [SessionManager.insertSession, DashMap.lookup_insert_if] at found
    split at found
    · rename_i same
      cases found
      exact ⟨seed, used, same.symm⟩
    · exact history.stored_pair found
  listed_pair := history.listed_pair

theorem FromCalls.pushOrigin (history : FromCalls source ops manager) {origin : String}
    {seed : Wire.Bytes} (used : (origin, seed) ∈ ops.filterMap SessionOp.idPair)
    (drawn : seed ∈ ops.filterMap SessionOp.randomSeed) :
    FromCalls source ops (manager.pushOrigin origin (source.idOf origin seed)) where
  stored_pair := history.stored_pair
  listed_pair := by
    intro o id member
    rw [SessionManager.idsOf_pushOrigin] at member
    split at member
    · rename_i same
      rcases List.mem_append.mp member with old | new
      · exact same ▸ history.listed_pair old
      · cases List.mem_singleton.mp new
        exact ⟨seed, same ▸ used, drawn, same ▸ rfl⟩
    · exact history.listed_pair member

/-- One call keeps the history, which now has its origin and seed. -/
theorem FromCalls.apply (history : FromCalls source ops manager) (op : SessionOp) :
    FromCalls source (ops ++ [op]) (op.apply source manager) := by
  have later := history.later op
  cases op with
  | createSession origin randomBytes started active =>
      have used : (origin, randomBytes) ∈ (ops ++ [SessionOp.createSession origin randomBytes
          started active]).filterMap SessionOp.idPair := by simp [SessionOp.idPair]
      have drawn : randomBytes ∈ (ops ++ [SessionOp.createSession origin randomBytes
          started active]).filterMap SessionOp.randomSeed := by simp [SessionOp.randomSeed]
      exact (later.insertSession used started active).pushOrigin used drawn
  | createSessionWithSeed origin seed started active =>
      exact later.insertSession (by simp [SessionOp.idPair]) started active
  | removeSession id => exact later.removeSession id
  | touchSession id now => exact later.touchSession id now
  | cleanupInactiveSessions order now timeout =>
      exact SessionManager.cleanup_preserves (P := FromCalls source _) order now timeout
        (fun manager id history => history.removeSession id) later
  | clearSessions =>
      exact later.shrink (fun found => by cases found) (fun listed => by cases listed)

theorem runOps_fromCalls (source : IdSource) (ops : List SessionOp) :
    FromCalls source ops (runOps source ops) := by
  induction ops using List.reverseRecOn with
  | nil => exact .new
  | append_singleton ops op ih =>
      rw [runOps_snoc]
      exact ih.apply op

/-! ## The invariant of a run -/

/-- What holds after every run without collisions: consistent maps with a history. -/
structure RunInv (source : IdSource) (ops : List SessionOp) (manager : SessionManager) : Prop where
  consistent : manager.Consistent
  history : FromCalls source ops manager

/-- The session a call stores has its id listed, if at all, under its own origin. -/
theorem RunInv.listed_own (inv : RunInv source ops manager)
    (distinct : NoCollision source ops) {origin o : String} {seed : Wire.Bytes}
    (used : (origin, seed) ∈ ops.filterMap SessionOp.idPair)
    (listed : source.idOf origin seed ∈ manager.idsOf o) : o = origin := by
  obtain ⟨seed', used', -, same⟩ := inv.history.listed_pair listed
  exact (distinct o seed' origin seed used' used same).1

/-- One call keeps the invariant. -/
theorem RunInv.apply (inv : RunInv source ops manager) (distinct : NoCollision source (ops ++ [op]))
    (unrepeated : SeedsUnrepeated (ops ++ [op])) :
    RunInv source (ops ++ [op]) (op.apply source manager) := by
  have inv' : RunInv source (ops ++ [op]) manager := ⟨inv.consistent, inv.history.later op⟩
  refine ⟨?_, inv.history.apply op⟩
  cases op with
  | createSession origin randomBytes started active =>
      have used : (origin, randomBytes) ∈ (ops ++ [SessionOp.createSession origin randomBytes
          started active]).filterMap SessionOp.idPair := by simp [SessionOp.idPair]
      -- a listed id was made from an earlier random seed, and this one is new
      have unlisted : source.idOf origin randomBytes ∉ manager.idsOf origin := by
        intro listed
        obtain ⟨seed, usedBefore, drawnBefore, same⟩ := inv.history.listed_pair listed
        obtain ⟨-, rfl⟩ := distinct origin seed origin randomBytes
          (by rw [List.filterMap_append]; exact List.mem_append_left _ usedBefore) used same
        rw [SeedsUnrepeated, List.filterMap_append] at unrepeated
        exact (List.nodup_append.mp unrepeated).2.2 seed drawnBefore seed
          (by simp [SessionOp.randomSeed]) rfl
      have stored : (manager.insertSession
          (Session.new source origin (some randomBytes) started active)).Consistent :=
        inv.consistent.insertSession (fun listed => inv'.listed_own distinct used listed)
      exact stored.pushOrigin (AList.lookup_insert _) unlisted rfl
  | createSessionWithSeed origin seed started active =>
      have used : (origin, seed) ∈ (ops ++ [SessionOp.createSessionWithSeed origin seed
          started active]).filterMap SessionOp.idPair := by simp [SessionOp.idPair]
      exact inv.consistent.insertSession (fun listed => inv'.listed_own distinct used listed)
  | removeSession id => exact inv.consistent.removeSession id
  | touchSession id now => exact inv.consistent.touchSession id now
  | cleanupInactiveSessions order now timeout =>
      exact SessionManager.cleanup_preserves order now timeout
        (fun manager id ok => ok.removeSession id) inv.consistent
  | clearSessions => exact .new

theorem runOps_inv (ops : List SessionOp) (distinct : NoCollision source ops)
    (unrepeated : SeedsUnrepeated ops) : RunInv source ops (runOps source ops) := by
  induction ops using List.reverseRecOn with
  | nil => exact ⟨.new, .new⟩
  | append_singleton ops op ih =>
      rw [runOps_snoc]
      have before : ops <+: ops ++ [op] := List.prefix_append ops [op]
      exact (ih (distinct.of_prefix before) (unrepeated.of_prefix before)).apply distinct unrepeated

/-! ## When every stored session is listed -/

/-- A call on a state with every session listed lists every session, unless it stores a new
session with an explicit seed. -/
theorem RunInv.apply_complete (inv : RunInv source ops manager)
    (distinct : NoCollision source (ops ++ [op])) (complete : manager.Complete)
    (keeps : op.KeepsIndex source manager) : (op.apply source manager).Complete := by
  cases op with
  | createSession origin randomBytes started active =>
      exact complete.createSession source origin randomBytes started active
  | createSessionWithSeed origin seed started active =>
      intro id session found
      rw [SessionOp.apply, SessionManager.createSessionWithSeed, SessionManager.insertSession,
        DashMap.lookup_insert_if] at found
      split at found
      · rename_i same
        cases found
        -- the replaced session was listed under the same origin
        obtain ⟨old, stored⟩ := DashMap.exists_lookup keeps
        obtain ⟨seed', used, sameId⟩ := inv.history.stored_pair stored
        obtain ⟨own, -⟩ := distinct old.origin seed' origin seed
          (by rw [List.filterMap_append]; exact List.mem_append_left _ used)
          (by simp [SessionOp.idPair]) sameId
        have listed := complete stored
        rw [own] at listed
        exact same ▸ listed
      · exact complete found
  | removeSession id => exact complete.removeSession id
  | touchSession id now => exact complete.touchSession id now
  | cleanupInactiveSessions order now timeout =>
      exact SessionManager.cleanup_preserves (P := SessionManager.Complete) order now timeout
        (fun manager id complete => complete.removeSession id) complete
  | clearSessions => intro id session found; cases found

/-- **The two lookups by origin agree, in every state of a run and for every origin, exactly when
the run never stores a new session through `create_session_with_seed`.** -/
theorem lookups_agree_iff (source : IdSource) (ops : List SessionOp)
    (distinct : NoCollision source ops) (unrepeated : SeedsUnrepeated ops) :
    (∀ earlier, earlier <+: ops → ∀ order origin,
        (runOps source earlier).LookupsAgree order origin) ↔
      ∀ earlier op, earlier ++ [op] <+: ops → op.KeepsIndex source (runOps source earlier) := by
  have inv : ∀ {earlier}, earlier <+: ops → RunInv source earlier (runOps source earlier) :=
    fun before => runOps_inv _ (distinct.of_prefix before) (unrepeated.of_prefix before)
  constructor
  · intro agree earlier op before
    cases op with
    | createSessionWithSeed origin seed started active =>
        -- the index did not change, so the new session was listed before the call
        have complete := (inv before).consistent.lookupsAgree_iff_complete.mp (agree _ before)
        have start := inv ((List.prefix_append earlier _).trans before)
        rw [runOps_snoc] at complete
        have listed : source.idOf origin seed ∈ (runOps source earlier).idsOf origin :=
          @complete _ (Session.new source origin (some seed) started active)
            (AList.lookup_insert _)
        obtain ⟨session, stored, -⟩ := start.consistent.listed_stored listed
        exact DashMap.mem_of_lookup stored
    | _ => trivial
  · intro keeps earlier before
    apply (inv before).consistent.lookupsAgree_iff_complete.mpr
    induction earlier using List.reverseRecOn with
    | nil => intro id session found; cases found
    | append_singleton earlier op ih =>
        have start : earlier <+: ops := (List.prefix_append earlier [op]).trans before
        rw [runOps_snoc]
        exact (inv start).apply_complete (distinct.of_prefix before) (ih start)
          (keeps earlier op before)

/-- Two clients of one origin come and one leaves: the lookups agree on the origin. -/
theorem lookups_agree_iff_creations :
    (runOps ⟨fun bytes => UInt64.ofNat bytes.length, []⟩
      [.createSession "192.168.1.1:8080" [1] 0 0, .createSession "192.168.1.1:8080" [2, 2] 5 5,
        .removeSession 17]).LookupsAgree default "192.168.1.1:8080" := by
  refine (lookups_agree_iff ⟨fun bytes => UInt64.ofNat bytes.length, []⟩ _ ?_ ?_).mpr ?_ _
    List.prefix_rfl _ _
  · decide
  · decide
  · intro earlier op before
    have member : op ∈ [SessionOp.createSession "192.168.1.1:8080" [1] 0 0,
        .createSession "192.168.1.1:8080" [2, 2] 5 5, .removeSession 17] :=
      before.subset (by simp)
    simp only [List.mem_cons, List.not_mem_nil, or_false] at member
    rcases member with rfl | rfl | rfl <;> trivial

/-- One call of `create_session_with_seed` on the empty manager: the scan finds its session and
the index lookup does not. -/
theorem lookups_disagree_after_seeded :
    NoCollision ⟨fun bytes => UInt64.ofNat bytes.length, []⟩
        [.createSessionWithSeed "192.168.5.5:1234" [115, 101, 101, 100, 49] 0 0] ∧
      SeedsUnrepeated
        [.createSessionWithSeed "192.168.5.5:1234" [115, 101, 101, 100, 49] 0 0] ∧
      ¬ (runOps ⟨fun bytes => UInt64.ofNat bytes.length, []⟩
          [.createSessionWithSeed "192.168.5.5:1234" [115, 101, 101, 100, 49] 0 0]).LookupsAgree
        default "192.168.5.5:1234" := by
  refine ⟨by decide, by decide, fun agree => ?_⟩
  have lengths := agree.1.length_eq
  revert lengths
  decide

end Bonka
