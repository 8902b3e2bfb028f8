import Bonka.Session
import Mathlib.Data.List.Nodup

/-!
# The origin index under sequential operations

`SessionManager` keeps every session in `sessions` and lists the ids of an origin in
`origin_to_sessions`.  `Consistent` is what every sequence of whole calls keeps: the index lists
each id once, under the origin of the stored session it belongs to.  `Complete` is the other
half, that every stored session is listed; `create_session_with_seed` does not keep it, and the
two lookups by origin agree exactly in the complete states (`lookupsAgree_iff_complete`).
-/

namespace Bonka

namespace IdSource

/-- The id of a session with an explicit seed, as a function of its origin and seed. -/
def idOf (source : IdSource) (origin : String) (seed : Wire.Bytes) : Id :=
  source.digest (Session.hashInput source origin (some seed))

end IdSource

namespace SessionManager

/-! ## The index after each call on the two maps -/

variable {manager : SessionManager} {session : Session} {id other : Id} {origin o : String}

@[simp] theorem idsOf_insertSession (manager : SessionManager) (session : Session) (o : String) :
    (manager.insertSession session).idsOf o = manager.idsOf o := rfl

@[simp] theorem idsOf_takeSession (manager : SessionManager) (id : Id) (o : String) :
    (manager.takeSession id).idsOf o = manager.idsOf o := rfl

theorem idsOf_pushOrigin (manager : SessionManager) (origin : String) (id : Id) (o : String) :
    (manager.pushOrigin origin id).idsOf o =
      if o = origin then manager.idsOf origin ++ [id] else manager.idsOf o := by
  rw [idsOf, pushOrigin, DashMap.lookup_insert_if]
  split
  · rfl
  · rfl

theorem idsOf_retainOrigin (manager : SessionManager) (origin : String) (id : Id) (o : String) :
    (manager.retainOrigin origin id).idsOf o =
      if o = origin then (manager.idsOf origin).filter (· != id) else manager.idsOf o := by
  unfold retainOrigin
  split
  · rename_i ids found
    rw [idsOf, DashMap.lookup_insert_if]
    split
    · simp [idsOf, found]
    · rfl
  · rename_i missing
    split
    · rename_i same
      rw [same, idsOf, missing]
      rfl
    · rfl

theorem idsOf_removeOrigin (manager : SessionManager) (origin o : String) :
    (manager.removeOrigin origin).idsOf o = if o = origin then [] else manager.idsOf o := by
  rw [idsOf, removeOrigin, DashMap.lookup_erase_if]
  split
  · rfl
  · rfl

@[simp] theorem sessions_pushOrigin (manager : SessionManager) (origin : String) (id : Id) :
    (manager.pushOrigin origin id).sessions = manager.sessions := rfl

@[simp] theorem sessions_retainOrigin (manager : SessionManager) (origin : String) (id : Id) :
    (manager.retainOrigin origin id).sessions = manager.sessions := by
  unfold retainOrigin
  split <;> rfl

@[simp] theorem sessions_removeOrigin (manager : SessionManager) (origin : String) :
    (manager.removeOrigin origin).sessions = manager.sessions := rfl

/-! ## `remove_session` -/

theorem removeSession_of_missing (missing : manager.sessions.lookup id = none) :
    manager.removeSession id = (manager, false) := by
  simp [removeSession, missing]

/-- What `remove_session` leaves of a stored session: nothing in `sessions`, and its id dropped
from the list of its own origin only. -/
theorem removeSession_of_found (found : manager.sessions.lookup id = some session) :
    (manager.removeSession id).2 = true ∧
      (manager.removeSession id).1.sessions = manager.sessions.erase id ∧
      ∀ o, (manager.removeSession id).1.idsOf o =
        if o = session.origin then (manager.idsOf o).filter (· != id) else manager.idsOf o := by
  have listed : ∀ o, ((manager.takeSession id).retainOrigin session.origin id).idsOf o =
      if o = session.origin then (manager.idsOf o).filter (· != id) else manager.idsOf o := by
    intro o
    rw [idsOf_retainOrigin]
    split
    · rename_i same
      rw [same, idsOf_takeSession]
    · rfl
  simp only [removeSession, found]
  split
  · rename_i emptied
    refine ⟨rfl, by simp [takeSession], fun o => ?_⟩
    rw [idsOf_removeOrigin, ← listed]
    split
    · rename_i same
      rw [same, idsOf, emptied]
      rfl
    · rfl
  · exact ⟨rfl, by simp [takeSession], listed⟩

theorem lookup_removeSession (manager : SessionManager) (id other : Id) :
    (manager.removeSession id).1.sessions.lookup other =
      if other = id then none else manager.sessions.lookup other := by
  cases found : manager.sessions.lookup id with
  | none =>
      rw [removeSession_of_missing found]
      split
      · rename_i same
        rw [same, found]
      · rfl
  | some session =>
      rw [(removeSession_of_found found).2.1, DashMap.lookup_erase_if]

/-! ## `touch_session` -/

@[simp] theorem originToSessions_touchSession (manager : SessionManager) (id : Id)
    (now : Instant) :
    (manager.touchSession id now).1.originToSessions = manager.originToSessions := by
  unfold touchSession
  split <;> rfl

@[simp] theorem idsOf_touchSession (manager : SessionManager) (id : Id) (now : Instant)
    (o : String) : (manager.touchSession id now).1.idsOf o = manager.idsOf o := by
  rw [idsOf, originToSessions_touchSession, idsOf]

theorem lookup_touchSession (manager : SessionManager) (id : Id) (now : Instant) (other : Id) :
    (manager.touchSession id now).1.sessions.lookup other =
      if other = id then (manager.sessions.lookup id).map (·.touch now)
      else manager.sessions.lookup other := by
  unfold touchSession
  split
  · rename_i session found
    rw [DashMap.lookup_insert_if, found]
    rfl
  · rename_i missing
    split
    · rename_i same
      rw [same, missing]
      rfl
    · rfl

/-- A session stored after a touch was stored before it, with its id and origin. -/
theorem stored_touchSession {now : Instant}
    (stored : (manager.touchSession id now).1.sessions.lookup other = some session) :
    ∃ before, manager.sessions.lookup other = some before ∧ before.id = session.id ∧
      before.origin = session.origin := by
  rw [lookup_touchSession] at stored
  split at stored
  · rename_i same
    obtain ⟨before, found, rfl⟩ := Option.map_eq_some_iff.mp stored
    exact ⟨before, same ▸ found, rfl, rfl⟩
  · exact ⟨session, stored, rfl, rfl⟩

theorem missing_touchSession {now : Instant} :
    (manager.touchSession id now).1.sessions.lookup other = none ↔
      manager.sessions.lookup other = none := by
  rw [lookup_touchSession]
  split
  · rename_i same
    rw [same, Option.map_eq_none_iff]
  · rfl

/-! ## The loop of `cleanup_inactive_sessions` -/

/-- A property that `remove_session` keeps is kept by the clean-up, which is a loop of it. -/
theorem cleanup_preserves {P : SessionManager → Prop} (order : IterOrder (Id × Session))
    (now : Instant) (timeout : Duration)
    (remove : ∀ manager id, P manager → P (manager.removeSession id).1) (holds : P manager) :
    P (manager.cleanupInactiveSessions order now timeout) := by
  unfold cleanupInactiveSessions
  generalize manager.idsToRemove order now timeout = ids
  induction ids generalizing manager with
  | nil => exact holds
  | cons id ids ih => exact ih (remove manager id holds)

/-! ## The representation invariant -/

/-- Every session is stored under its own id. -/
def Keyed (manager : SessionManager) : Prop :=
  ∀ ⦃id session⦄, manager.sessions.lookup id = some session → session.id = id

theorem Keyed.insertSession (keyed : manager.Keyed) (session : Session) :
    (manager.insertSession session).Keyed := by
  intro id s stored
  rw [SessionManager.insertSession, DashMap.lookup_insert_if] at stored
  split at stored
  · rename_i same
    cases stored
    exact same.symm
  · exact keyed stored

theorem Keyed.removeSession (keyed : manager.Keyed) (id : Id) :
    (manager.removeSession id).1.Keyed := by
  intro other s stored
  rw [lookup_removeSession] at stored
  split at stored
  · cases stored
  · exact keyed stored

theorem Keyed.touchSession (keyed : manager.Keyed) (id : Id) (now : Instant) :
    (manager.touchSession id now).1.Keyed := by
  intro other s stored
  obtain ⟨before, found, same, -⟩ := stored_touchSession stored
  exact same.symm.trans (keyed found)

/-- The index lists every id once, under the origin of the session stored at that id. -/
structure Consistent (manager : SessionManager) : Prop where
  key_id : ∀ {id session}, manager.sessions.lookup id = some session → session.id = id
  listed_stored : ∀ {origin id}, id ∈ manager.idsOf origin →
    ∃ session, manager.sessions.lookup id = some session ∧ session.origin = origin
  listed_once : ∀ origin, (manager.idsOf origin).Nodup

/-- Every stored session is listed under its origin. -/
def Complete (manager : SessionManager) : Prop :=
  ∀ ⦃id session⦄, manager.sessions.lookup id = some session → id ∈ manager.idsOf session.origin

theorem Consistent.new : SessionManager.new.Consistent where
  key_id found := by cases found
  listed_stored listed := by cases listed
  listed_once _ := List.nodup_nil

/-- Storing a session whose id is listed, if at all, under its own origin. -/
theorem Consistent.insertSession (ok : manager.Consistent)
    (own : ∀ {o}, session.id ∈ manager.idsOf o → o = session.origin) :
    (manager.insertSession session).Consistent where
  key_id stored := Keyed.insertSession (fun _ _ => ok.key_id) session stored
  listed_stored := by
    intro o id listed
    rw [idsOf_insertSession] at listed
    rw [SessionManager.insertSession, DashMap.lookup_insert_if]
    split
    · rename_i same
      exact ⟨session, rfl, (own (same ▸ listed)).symm⟩
    · exact ok.listed_stored listed
  listed_once := ok.listed_once

/-- Listing a stored session that is not listed yet. -/
theorem Consistent.pushOrigin (ok : manager.Consistent)
    (found : manager.sessions.lookup id = some session) (unlisted : id ∉ manager.idsOf origin)
    (own : session.origin = origin) : (manager.pushOrigin origin id).Consistent where
  key_id := ok.key_id
  listed_stored := by
    intro o other listed
    rw [idsOf_pushOrigin] at listed
    rw [sessions_pushOrigin]
    split at listed
    · rename_i same
      rcases List.mem_append.mp listed with old | new
      · exact same ▸ ok.listed_stored old
      · cases List.mem_singleton.mp new
        exact ⟨session, found, own.trans same.symm⟩
    · exact ok.listed_stored listed
  listed_once := by
    intro o
    rw [idsOf_pushOrigin]
    split
    · exact List.nodup_append.mpr ⟨ok.listed_once origin, List.nodup_singleton id, by
        intro a listed b new same
        cases List.mem_singleton.mp new
        exact unlisted (same ▸ listed)⟩
    · exact ok.listed_once o

theorem Consistent.removeSession (ok : manager.Consistent) (id : Id) :
    (manager.removeSession id).1.Consistent := by
  cases found : manager.sessions.lookup id with
  | none =>
      rw [removeSession_of_missing found]
      exact ok
  | some session =>
      obtain ⟨-, sessions, listed⟩ := removeSession_of_found found
      refine ⟨fun stored => Keyed.removeSession (fun _ _ => ok.key_id) id stored,
        fun {o other} member => ?_, fun o => ?_⟩
      · rw [listed] at member
        rw [sessions, DashMap.lookup_erase_if]
        split at member
        · obtain ⟨old, ne⟩ := List.mem_filter.mp member
          rw [if_neg (by simpa using ne)]
          exact ok.listed_stored old
        · rename_i elsewhere
          obtain ⟨s, stored, own⟩ := ok.listed_stored member
          -- the removed id is listed under its own origin only
          have ne : other ≠ id := by
            intro same
            subst same
            rw [found] at stored
            cases stored
            exact elsewhere own.symm
          rw [if_neg ne]
          exact ⟨s, stored, own⟩
      · rw [listed]
        split
        · exact (ok.listed_once o).filter _
        · exact ok.listed_once o

theorem Consistent.touchSession (ok : manager.Consistent) (id : Id) (now : Instant) :
    (manager.touchSession id now).1.Consistent where
  key_id stored := Keyed.touchSession (fun _ _ => ok.key_id) id now stored
  listed_stored := by
    intro o other listed
    rw [idsOf_touchSession] at listed
    obtain ⟨s, stored, own⟩ := ok.listed_stored listed
    rw [lookup_touchSession]
    split
    · rename_i same
      rw [← same, stored]
      exact ⟨_, rfl, own⟩
    · exact ⟨s, stored, own⟩
  listed_once o := by
    rw [idsOf_touchSession]
    exact ok.listed_once o

theorem Complete.removeSession (complete : manager.Complete) (id : Id) :
    (manager.removeSession id).1.Complete := by
  intro other s stored
  rw [lookup_removeSession] at stored
  split at stored
  · cases stored
  · rename_i ne
    cases found : manager.sessions.lookup id with
    | none =>
        rw [removeSession_of_missing found]
        exact complete stored
    | some session =>
        rw [(removeSession_of_found found).2.2]
        split
        · exact List.mem_filter.mpr ⟨complete stored, by simpa using ne⟩
        · exact complete stored

theorem Complete.touchSession (complete : manager.Complete) (id : Id) (now : Instant) :
    (manager.touchSession id now).1.Complete := by
  intro other s stored
  obtain ⟨before, found, -, own⟩ := stored_touchSession stored
  rw [idsOf_touchSession, ← own]
  exact complete found

/-- A created session is stored and listed, and the others stay listed. -/
theorem Complete.createSession (complete : manager.Complete) (source : IdSource) (origin : String)
    (randomBytes : Wire.Bytes) (started active : Instant) :
    (manager.createSession source origin randomBytes started active).1.Complete := by
  intro id session found
  rw [SessionManager.createSession, idsOf_pushOrigin]
  rw [SessionManager.createSession, sessions_pushOrigin, SessionManager.insertSession,
    DashMap.lookup_insert_if] at found
  split at found
  · rename_i same
    cases found
    simp [Session.new, same]
  · have listed := complete found
    split
    · rename_i same
      exact List.mem_append_left _ (same ▸ listed)
    · exact listed

/-- Creating a session with an id that is not stored. -/
theorem Consistent.createSession (ok : manager.Consistent) (source : IdSource) (origin : String)
    (randomBytes : Wire.Bytes) (started active : Instant)
    (fresh : manager.sessions.lookup (source.idOf origin randomBytes) = none) :
    (manager.createSession source origin randomBytes started active).1.Consistent := by
  have unlisted : ∀ o, source.idOf origin randomBytes ∉ manager.idsOf o := by
    intro o listed
    obtain ⟨session, stored, -⟩ := ok.listed_stored listed
    rw [fresh] at stored
    cases stored
  have stored : (manager.insertSession
      (Session.new source origin (some randomBytes) started active)).Consistent :=
    ok.insertSession fun listed => (unlisted _ listed).elim
  exact stored.pushOrigin (AList.lookup_insert _) (unlisted origin) rfl

/-! ## Whose session is stored -/

/-- The origin of the session stored at an id. -/
def originOf (manager : SessionManager) (id : Id) : Option String :=
  (manager.sessions.lookup id).map Session.origin

theorem originOf_eq_none : manager.originOf id = none ↔ manager.sessions.lookup id = none := by
  rw [originOf, Option.map_eq_none_iff]

theorem originOf_createSession (manager : SessionManager) (source : IdSource) (origin : String)
    (randomBytes : Wire.Bytes) (started active : Instant) (other : Id) :
    (manager.createSession source origin randomBytes started active).1.originOf other =
      if other = source.idOf origin randomBytes then some origin else manager.originOf other := by
  have stored : (manager.createSession source origin randomBytes started active).1.sessions.lookup
      other = if other = source.idOf origin randomBytes
        then some (Session.new source origin (some randomBytes) started active)
        else manager.sessions.lookup other :=
    DashMap.lookup_insert_if ..
  rw [originOf, stored]
  split
  · rfl
  · rfl

theorem originOf_removeSession (manager : SessionManager) (id other : Id) :
    (manager.removeSession id).1.originOf other =
      if other = id then none else manager.originOf other := by
  rw [originOf, lookup_removeSession]
  split
  · rfl
  · rfl

@[simp] theorem originOf_touchSession (manager : SessionManager) (id : Id) (now : Instant)
    (other : Id) : (manager.touchSession id now).1.originOf other = manager.originOf other := by
  rw [originOf, lookup_touchSession, originOf]
  split
  · rename_i same
    rw [same, Option.map_map]
    rfl
  · rfl

theorem touchSession_snd (manager : SessionManager) (id : Id) (now : Instant) :
    (manager.touchSession id now).2 = (manager.originOf id).isSome := by
  unfold SessionManager.touchSession originOf
  split <;> rename_i found <;> rw [found] <;> rfl

/-! ## The two lookups by origin -/

theorem getSessionsByOrigin_eq (manager : SessionManager) (origin : String) :
    manager.getSessionsByOrigin origin =
      (manager.idsOf origin).filterMap fun id => manager.sessions.lookup id := by
  unfold getSessionsByOrigin idsOf
  split
  · rename_i ids found
    rw [found]
    rfl
  · rename_i missing
    rw [missing]
    rfl

/-- The scan and the index lookup return the same sessions: exactly the stored ones of the
origin, each once. -/
def LookupsAgree (manager : SessionManager) (order : IterOrder (Id × Session)) (origin : String) :
    Prop :=
  (manager.getSessionsByOrigin origin).Perm (manager.findSessionsByOrigin order origin) ∧
    (manager.findSessionsByOrigin order origin).Nodup ∧
    ∀ session, session ∈ manager.findSessionsByOrigin order origin ↔
      manager.sessions.lookup session.id = some session ∧ session.origin = origin

theorem Consistent.mem_findSessionsByOrigin (ok : manager.Consistent)
    (order : IterOrder (Id × Session)) :
    session ∈ manager.findSessionsByOrigin order origin ↔
      manager.sessions.lookup session.id = some session ∧ session.origin = origin := by
  simp only [findSessionsByOrigin, List.mem_filter, List.mem_map, Prod.exists, beq_iff_eq]
  constructor
  · intro holds
    rcases holds with ⟨⟨id, s, member, rfl⟩, own⟩
    have stored := DashMap.mem_iter.mp member
    rw [ok.key_id stored]
    exact ⟨stored, own⟩
  · intro holds
    rcases holds with ⟨stored, own⟩
    exact ⟨⟨session.id, session, DashMap.mem_iter.mpr stored, rfl⟩, own⟩

theorem Consistent.mem_getSessionsByOrigin (ok : manager.Consistent) :
    session ∈ manager.getSessionsByOrigin origin ↔
      session.id ∈ manager.idsOf origin ∧ manager.sessions.lookup session.id = some session := by
  rw [getSessionsByOrigin_eq, List.mem_filterMap]
  constructor
  · intro holds
    rcases holds with ⟨id, listed, stored⟩
    have same := ok.key_id stored
    exact ⟨same ▸ listed, same ▸ stored⟩
  · intro holds
    rcases holds with ⟨listed, stored⟩
    exact ⟨session.id, listed, stored⟩

theorem Consistent.nodup_findSessionsByOrigin (ok : manager.Consistent)
    (order : IterOrder (Id × Session)) (origin : String) :
    (manager.findSessionsByOrigin order origin).Nodup := by
  apply List.Nodup.filter _
  -- the keys of an iteration are distinct, and a stored session determines its key
  refine List.Nodup.map_on ?_ (List.Nodup.of_map Prod.fst (DashMap.nodup_keys_iter _ order))
  intro a left b right equal
  rcases a with ⟨id, s⟩
  rcases b with ⟨other, t⟩
  subst equal
  have leftKey := ok.key_id (DashMap.mem_iter.mp left)
  have rightKey := ok.key_id (DashMap.mem_iter.mp right)
  rw [← leftKey, ← rightKey]

theorem Consistent.nodup_getSessionsByOrigin (ok : manager.Consistent) (origin : String) :
    (manager.getSessionsByOrigin origin).Nodup := by
  rw [getSessionsByOrigin_eq]
  refine List.Nodup.filterMap ?_ (ok.listed_once origin)
  intro id other session stored stored'
  exact (ok.key_id stored).symm.trans (ok.key_id stored')

/-- In a consistent state the two lookups agree for every origin exactly when every stored
session is listed. -/
theorem Consistent.lookupsAgree_iff_complete (ok : manager.Consistent) :
    (∀ order origin, manager.LookupsAgree order origin) ↔ manager.Complete := by
  constructor
  · intro agree id session stored
    have key := ok.key_id stored
    have scanned : session ∈ manager.findSessionsByOrigin default session.origin :=
      (ok.mem_findSessionsByOrigin default).mpr ⟨by rw [key]; exact stored, rfl⟩
    have listed := (agree default session.origin).1.mem_iff.mpr scanned
    exact key ▸ (ok.mem_getSessionsByOrigin.mp listed).1
  · intro complete order origin
    refine ⟨?_, ok.nodup_findSessionsByOrigin order origin,
      fun session => ok.mem_findSessionsByOrigin order⟩
    refine (List.perm_ext_iff_of_nodup (ok.nodup_getSessionsByOrigin origin)
      (ok.nodup_findSessionsByOrigin order origin)).mpr fun session => ?_
    rw [ok.mem_getSessionsByOrigin, ok.mem_findSessionsByOrigin]
    constructor
    · intro holds
      rcases holds with ⟨listed, stored⟩
      obtain ⟨s, stored', own⟩ := ok.listed_stored listed
      rw [stored] at stored'
      cases stored'
      exact ⟨stored, own⟩
    · intro holds
      rcases holds with ⟨stored, own⟩
      exact ⟨own ▸ complete stored, stored⟩

end SessionManager

end Bonka
