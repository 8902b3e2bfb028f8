import Bonka.SessionRuns

/-!
# What a clean-up removes, and what stays behind

`Tidy` is what every sequence of calls keeps without any assumption on ids: a session is stored
under its own id, and no list of the index is empty.  So an entry of the index goes with its last
id (`index_never_leaks`), and the clean-up, which collects ids first and then removes them one by
one, removes exactly the inactive sessions and thins every list by exactly their ids
(`cleanup_exact`).
-/

namespace Bonka

namespace SessionManager

variable {manager : SessionManager} {session : Session} {id : Id} {origin o : String}

/-! ## Keys and empty lists -/

/-- Every session is stored under its own id, and every list of the index has an id. -/
structure Tidy (manager : SessionManager) : Prop where
  key_id : ∀ {id session}, manager.sessions.lookup id = some session → session.id = id
  no_empty_list : ∀ origin, manager.originToSessions.lookup origin ≠ some []

/-- Without empty lists, the ids listed under an origin determine its entry. -/
theorem Tidy.lookup_eq (tidy : manager.Tidy) (origin : String) :
    manager.originToSessions.lookup origin =
      if manager.idsOf origin = [] then none else some (manager.idsOf origin) := by
  unfold idsOf
  cases found : manager.originToSessions.lookup origin with
  | none => rfl
  | some ids =>
      cases ids with
      | nil => exact absurd found (tidy.no_empty_list origin)
      | cons id ids => rfl

theorem Tidy.new : SessionManager.new.Tidy where
  key_id found := by cases found
  no_empty_list _ same := by cases same

theorem Tidy.insertSession (tidy : manager.Tidy) (session : Session) :
    (manager.insertSession session).Tidy where
  key_id stored := Keyed.insertSession (fun _ _ => tidy.key_id) session stored
  no_empty_list := tidy.no_empty_list

theorem Tidy.pushOrigin (tidy : manager.Tidy) (origin : String) (id : Id) :
    (manager.pushOrigin origin id).Tidy where
  key_id := tidy.key_id
  no_empty_list := by
    intro o same
    rw [SessionManager.pushOrigin, DashMap.lookup_insert_if] at same
    split at same
    · simp at same
    · exact tidy.no_empty_list o same

/-- `remove_session` drops the entry of a list it has emptied. -/
theorem Tidy.removeSession (tidy : manager.Tidy) (id : Id) : (manager.removeSession id).1.Tidy where
  key_id stored := Keyed.removeSession (fun _ _ => tidy.key_id) id stored
  no_empty_list := by
    cases found : manager.sessions.lookup id with
    | none =>
        rw [removeSession_of_missing found]
        exact tidy.no_empty_list
    | some session =>
        simp only [SessionManager.removeSession, found]
        intro o
        -- away from the origin of the session no entry has changed
        have elsewhere : o ≠ session.origin →
            ((manager.takeSession id).retainOrigin session.origin id).originToSessions.lookup o =
              manager.originToSessions.lookup o := by
          intro ne
          unfold retainOrigin
          split
          · rw [DashMap.lookup_insert_if, if_neg ne]
            rfl
          · rfl
        split
        · rw [removeOrigin, DashMap.lookup_erase_if]
          split
          · intro same
            cases same
          · rename_i ne
            rw [elsewhere ne]
            exact tidy.no_empty_list o
        · rename_i kept
          by_cases same : o = session.origin
          · subst same
            intro emptied
            exact kept emptied
          · rw [elsewhere same]
            exact tidy.no_empty_list o

theorem Tidy.touchSession (tidy : manager.Tidy) (id : Id) (now : Instant) :
    (manager.touchSession id now).1.Tidy where
  key_id stored := Keyed.touchSession (fun _ _ => tidy.key_id) id now stored
  no_empty_list := by
    rw [originToSessions_touchSession]
    exact tidy.no_empty_list

/-! ## The loop of the clean-up -/

/-- What removing a list of ids leaves in `sessions`. -/
theorem lookup_removeAll (manager : SessionManager) (ids : List Id) (other : Id) :
    (ids.foldl (fun manager id => (manager.removeSession id).1) manager).sessions.lookup other =
      if other ∈ ids then none else manager.sessions.lookup other := by
  induction ids generalizing manager with
  | nil => rfl
  | cons id ids ih =>
      rw [List.foldl_cons, ih, lookup_removeSession]
      by_cases same : other = id
      · simp [same]
      · simp [same]

/-- An id is listed, if at all, only under the origin of the session stored at it. -/
def Owned (manager : SessionManager) (id : Id) : Prop :=
  ∀ ⦃origin⦄, id ∈ manager.idsOf origin →
    ∃ session, manager.sessions.lookup id = some session ∧ session.origin = origin

/-- Removing an id that is owned drops it from every list. -/
theorem idsOf_removeSession (owned : manager.Owned id) (o : String) :
    (manager.removeSession id).1.idsOf o = (manager.idsOf o).filter (· != id) := by
  have unlisted : id ∉ manager.idsOf o → (manager.idsOf o).filter (· != id) = manager.idsOf o := by
    intro absent
    apply List.filter_eq_self.mpr
    intro other listed
    simpa using fun same : other = id => absent (same ▸ listed)
  cases found : manager.sessions.lookup id with
  | none =>
      rw [removeSession_of_missing found, unlisted]
      intro listed
      obtain ⟨session, stored, -⟩ := owned listed
      rw [found] at stored
      cases stored
  | some session =>
      rw [(removeSession_of_found found).2.2]
      split
      · rfl
      · rename_i elsewhere
        rw [unlisted]
        intro listed
        obtain ⟨s, stored, own⟩ := owned listed
        rw [found] at stored
        cases stored
        exact elsewhere own.symm

theorem Owned.removeSession (owned : manager.Owned id) {other : Id}
    (ownedOther : manager.Owned other) : (manager.removeSession id).1.Owned other := by
  intro o listed
  rw [idsOf_removeSession owned] at listed
  obtain ⟨before, ne⟩ := List.mem_filter.mp listed
  obtain ⟨session, stored, own⟩ := ownedOther before
  refine ⟨session, ?_, own⟩
  rw [lookup_removeSession, if_neg (by simpa using ne)]
  exact stored

/-- What removing a list of owned ids leaves in the index. -/
theorem idsOf_removeAll {ids : List Id} (owned : ∀ id ∈ ids, manager.Owned id) (o : String) :
    (ids.foldl (fun manager id => (manager.removeSession id).1) manager).idsOf o =
      (manager.idsOf o).filter (· ∉ ids) := by
  induction ids generalizing manager with
  | nil => simp
  | cons id ids ih =>
      have first := owned id List.mem_cons_self
      rw [List.foldl_cons, ih, idsOf_removeSession first, List.filter_filter]
      · apply List.filter_congr
        intro other _
        by_cases same : other = id
        · simp [same]
        · simp [same]
      · intro other member
        exact first.removeSession (owned other (List.mem_cons_of_mem _ member))

/-! ## Which sessions a clean-up collects -/

/-- The session stored at the id is inactive. -/
def InactiveAt (manager : SessionManager) (now : Instant) (timeout : Duration) (id : Id) : Prop :=
  ∃ session, manager.sessions.lookup id = some session ∧ Expired now timeout session

instance (manager : SessionManager) (now : Instant) (timeout : Duration) (id : Id) :
    Decidable (manager.InactiveAt now timeout id) :=
  match found : manager.sessions.lookup id with
  | none => isFalse fun ⟨_, stored, _⟩ => by rw [found] at stored; cases stored
  | some session =>
      decidable_of_iff (Expired now timeout session)
        ⟨fun expired => ⟨session, found, expired⟩, fun ⟨_, stored, expired⟩ => by
          rw [found] at stored; cases stored; exact expired⟩

/-- The first phase collects the ids of the inactive sessions: it reads them off the sessions, and
every session is stored under its own id. -/
theorem Tidy.mem_idsToRemove (tidy : manager.Tidy) (order : IterOrder (Id × Session))
    (now : Instant) (timeout : Duration) :
    id ∈ manager.idsToRemove order now timeout ↔ manager.InactiveAt now timeout id := by
  simp only [idsToRemove, List.mem_map, List.mem_filter, Prod.exists, decide_eq_true_eq]
  constructor
  · intro holds
    rcases holds with ⟨session, ⟨⟨key, s, member, rfl⟩, expired⟩, rfl⟩
    have stored := DashMap.mem_iter.mp member
    rw [tidy.key_id stored]
    exact ⟨s, stored, expired⟩
  · intro inactive
    rcases inactive with ⟨session, stored, expired⟩
    exact ⟨session, ⟨⟨id, session, DashMap.mem_iter.mpr stored, rfl⟩, expired⟩, tidy.key_id stored⟩

/-! ## A whole clean-up -/

theorem Tidy.cleanup (tidy : manager.Tidy) (order : IterOrder (Id × Session)) (now : Instant)
    (timeout : Duration) : (manager.cleanupInactiveSessions order now timeout).Tidy :=
  cleanup_preserves order now timeout (fun _ id tidy => tidy.removeSession id) tidy

/-- The sessions a clean-up leaves. -/
theorem Tidy.lookup_cleanup (tidy : manager.Tidy) (order : IterOrder (Id × Session))
    (now : Instant) (timeout : Duration) :
    (manager.cleanupInactiveSessions order now timeout).sessions.lookup id = some session ↔
      manager.sessions.lookup id = some session ∧
        durationSince now session.lastActivity < timeout := by
  rw [cleanupInactiveSessions, lookup_removeAll]
  split
  · rename_i member
    obtain ⟨inactive, stored, expired⟩ := (tidy.mem_idsToRemove order now timeout).mp member
    constructor
    · intro same
      cases same
    · intro holds
      rcases holds with ⟨stored', active⟩
      rw [stored] at stored'
      cases stored'
      exact absurd expired (Nat.not_le.mpr active)
  · rename_i kept
    constructor
    · intro stored
      refine ⟨stored, Nat.not_le.mp fun expired => kept ?_⟩
      exact (tidy.mem_idsToRemove order now timeout).mpr ⟨session, stored, expired⟩
    · intro holds
      exact holds.1

/-- The ids a clean-up leaves in a list. -/
theorem Tidy.idsOf_cleanup (tidy : manager.Tidy)
    (owned : ∀ {id session}, manager.sessions.lookup id = some session → manager.Owned id)
    (order : IterOrder (Id × Session)) (now : Instant) (timeout : Duration) (o : String) :
    (manager.cleanupInactiveSessions order now timeout).idsOf o =
      (manager.idsOf o).filter fun id => ¬ manager.InactiveAt now timeout id := by
  have collected := fun id => @Tidy.mem_idsToRemove _ id tidy order now timeout
  rw [cleanupInactiveSessions, idsOf_removeAll]
  · apply List.filter_congr
    intro id _
    simp only [collected]
  · intro id member
    obtain ⟨session, stored, -⟩ := (collected id).mp member
    exact owned stored

/-- A second clean-up at the same time finds nothing to remove. -/
theorem Tidy.cleanup_again (tidy : manager.Tidy) (order again : IterOrder (Id × Session))
    (now : Instant) (timeout : Duration) :
    (manager.cleanupInactiveSessions order now timeout).cleanupInactiveSessions again now timeout =
      manager.cleanupInactiveSessions order now timeout := by
  have nothing : (manager.cleanupInactiveSessions order now timeout).idsToRemove again now
      timeout = [] := by
    apply List.eq_nil_iff_forall_not_mem.mpr
    intro id member
    obtain ⟨session, stored, expired⟩ :=
      ((tidy.cleanup order now timeout).mem_idsToRemove again now timeout).mp member
    exact absurd expired (Nat.not_le.mpr ((tidy.lookup_cleanup order now timeout).mp stored).2)
  rw [cleanupInactiveSessions, nothing]
  rfl

end SessionManager

/-! ## Over whole runs -/

variable {source : IdSource} {ops : List SessionOp}

theorem runOps_tidy (source : IdSource) (ops : List SessionOp) : (runOps source ops).Tidy := by
  induction ops using List.reverseRecOn with
  | nil => exact .new
  | append_singleton ops op ih =>
      rw [runOps_snoc]
      cases op with
      | createSession origin randomBytes started active =>
          exact (ih.insertSession _).pushOrigin origin _
      | createSessionWithSeed origin seed started active => exact ih.insertSession _
      | removeSession id => exact ih.removeSession id
      | touchSession id now => exact ih.touchSession id now
      | cleanupInactiveSessions order now timeout =>
          exact SessionManager.cleanup_preserves order now timeout
            (fun manager id tidy => tidy.removeSession id) ih
      | clearSessions => exact .new

/-- Without collisions, a stored id is listed under the origin of its session only. -/
theorem runOps_owned (distinct : NoCollision source ops) {id : Id} {session : Session}
    (stored : (runOps source ops).sessions.lookup id = some session) :
    (runOps source ops).Owned id := by
  have history := runOps_fromCalls source ops
  intro origin listed
  obtain ⟨seed, used, sameId⟩ := history.stored_pair stored
  obtain ⟨seed', used', -, sameId'⟩ := history.listed_pair listed
  exact ⟨session, stored, (distinct _ _ _ _ used used' (sameId.trans sameId'.symm)).1⟩

/-- The index holds nothing that its sessions do not account for. -/
structure SessionManager.NeverLeaks (manager : SessionManager) : Prop where
  no_empty_list : ∀ origin, manager.originToSessions.lookup origin ≠ some []
  listed_once : ∀ {origin ids}, manager.originToSessions.lookup origin = some ids → ids.Nodup
  one_list : ∀ {origin origin' ids ids' id}, manager.originToSessions.lookup origin = some ids →
    manager.originToSessions.lookup origin' = some ids' → id ∈ ids → id ∈ ids' → origin = origin'
  listed_stored : ∀ {origin ids id}, manager.originToSessions.lookup origin = some ids → id ∈ ids →
    ∃ session, manager.sessions.lookup id = some session ∧ session.id = id ∧
      session.origin = origin
  index_empty : manager.sessions = ∅ → manager.originToSessions = ∅

/-- **The origin index never leaks.**  After every run without colliding ids, no list is empty, no
id is listed twice, every listed id is that of a stored session of the origin, and an empty
`sessions` leaves an empty index. -/
theorem index_never_leaks (source : IdSource) (ops : List SessionOp)
    (distinct : NoCollision source ops) (unrepeated : SeedsUnrepeated ops) :
    (runOps source ops).NeverLeaks := by
  have tidy := runOps_tidy source ops
  have ok := (runOps_inv ops distinct unrepeated).consistent
  have idsOf_eq : ∀ {origin ids}, (runOps source ops).originToSessions.lookup origin = some ids →
      (runOps source ops).idsOf origin = ids := by
    intro origin ids found
    rw [SessionManager.idsOf, found]
    rfl
  have stored : ∀ {origin ids id},
      (runOps source ops).originToSessions.lookup origin = some ids → id ∈ ids →
      ∃ session, (runOps source ops).sessions.lookup id = some session ∧ session.id = id ∧
        session.origin = origin := by
    intro origin ids id found member
    obtain ⟨session, stored, own⟩ := ok.listed_stored (idsOf_eq found ▸ member)
    exact ⟨session, stored, ok.key_id stored, own⟩
  refine ⟨tidy.no_empty_list, ?_, ?_, stored, ?_⟩
  · intro origin ids found
    exact idsOf_eq found ▸ ok.listed_once origin
  · intro origin origin' ids ids' id found found' member member'
    obtain ⟨session, here, -, own⟩ := stored found member
    obtain ⟨session', there, -, own'⟩ := stored found' member'
    rw [here] at there
    cases there
    exact own.symm.trans own'
  · intro empty
    apply DashMap.eq_empty
    intro origin
    cases found : (runOps source ops).originToSessions.lookup origin with
    | none => rfl
    | some ids =>
        cases ids with
        | nil => exact absurd found (tidy.no_empty_list origin)
        | cons id ids =>
            -- the first id of the list would be stored
            obtain ⟨session, here, -⟩ := stored found List.mem_cons_self
            rw [empty] at here
            cases here

/-- Two sessions of one origin, one of them removed: the list of the origin keeps the other. -/
theorem index_never_leaks_removed :
    (runOps ⟨fun bytes => UInt64.ofNat bytes.length, []⟩
      [.createSession "a" [1] 0 0, .createSession "a" [1, 2] 5 5,
        .removeSession 2]).NeverLeaks := by
  apply index_never_leaks
  · decide
  · decide

/-- What a clean-up may change: the inactive sessions go, their ids leave the lists, whose other
ids keep their order, and a list goes when its last id does. -/
structure SessionManager.CleanedUp (now : Instant) (timeout : Duration)
    (before after : SessionManager) : Prop where
  sessions : ∀ {id session}, after.sessions.lookup id = some session ↔
    before.sessions.lookup id = some session ∧ durationSince now session.lastActivity < timeout
  unlisted : ∀ {origin}, before.originToSessions.lookup origin = none →
    after.originToSessions.lookup origin = none
  listed : ∀ {origin ids}, before.originToSessions.lookup origin = some ids →
    after.originToSessions.lookup origin =
      let rest := ids.filter fun id => ¬ before.InactiveAt now timeout id
      if rest = [] then none else some rest

/-- **A clean-up removes exactly the inactive sessions**, in every state of a run without
colliding ids, and a second one at the same time changes nothing. -/
theorem cleanup_exact (source : IdSource) (ops : List SessionOp) (distinct : NoCollision source ops)
    (order : IterOrder (Id × Session)) (now : Instant) (timeout : Duration) :
    SessionManager.CleanedUp now timeout (runOps source ops)
        ((runOps source ops).cleanupInactiveSessions order now timeout) ∧
      ∀ again, ((runOps source ops).cleanupInactiveSessions order now
          timeout).cleanupInactiveSessions again now timeout =
        (runOps source ops).cleanupInactiveSessions order now timeout := by
  have tidy := runOps_tidy source ops
  have lists := tidy.idsOf_cleanup (runOps_owned distinct) order now timeout
  refine ⟨⟨tidy.lookup_cleanup order now timeout, ?_, ?_⟩,
    fun again => tidy.cleanup_again order again now timeout⟩
  · intro origin missing
    rw [(tidy.cleanup order now timeout).lookup_eq, lists, SessionManager.idsOf, missing]
    rfl
  · intro origin ids found
    rw [(tidy.cleanup order now timeout).lookup_eq, lists, SessionManager.idsOf, found]
    rfl

/-- Two sessions of one origin, one active a moment ago: the clean-up keeps it in its list. -/
theorem cleanup_exact_shared :
    SessionManager.CleanedUp 100 50
      (runOps ⟨fun bytes => UInt64.ofNat bytes.length, []⟩
        [.createSession "a" [1] 0 0, .createSession "a" [1, 2] 90 90])
      ((runOps ⟨fun bytes => UInt64.ofNat bytes.length, []⟩
        [.createSession "a" [1] 0 0, .createSession "a" [1, 2] 90 90]).cleanupInactiveSessions
          default 100 50) := by
  exact (cleanup_exact ⟨fun bytes => UInt64.ofNat bytes.length, []⟩
    [.createSession "a" [1] 0 0, .createSession "a" [1, 2] 90 90] (by decide) default 100 50).1

end Bonka
