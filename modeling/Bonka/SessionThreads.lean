import Bonka.Lib.Run
import Bonka.SessionIndex
import Mathlib.Logic.Function.Basic

/-!
# `SessionManager` shared by threads

Any number of threads run `create_session`, `remove_session`, `touch_session` and
`cleanup_inactive_sessions` on one manager, and every `DashMap` call is one atomic step.  A thread
in the middle of a call is a `SessionCall`, named after the step it takes next; `remove_session`
is the clean-up's loop with one id left.

`remove_session` tests the emptied list under its guard and removes the entry of the origin after
dropping the guard.  `quiescent_indexed_iff` says what that costs: the index is whole again at
rest exactly when no removed entry held the id of a session that is still stored.  A call that no
other thread interrupts does what the call of `SessionManager` does (`createSession_alone`,
`remove_alone`, `cleanup_alone`).
-/

namespace Bonka

/-- A partly executed call, at its next step on the maps. -/
inductive SessionCall
  /-- `create_session`, before `sessions.insert`. -/
  | insert (session : Session)
  /-- `create_session`, before `entry(origin).or_default().push(id)`. -/
  | push (session : Session)
  /-- `remove_session` of the first id, before `sessions.remove`; then of the rest. -/
  | remove (ids : List Id)
  /-- `remove_session`, before `get_mut(origin)` and `retain`. -/
  | retain (id : Id) (origin : String) (ids : List Id)
  /-- `remove_session`, after the guard of the emptied list and before
  `origin_to_sessions.remove`. -/
  | drop (origin : String) (ids : List Id)
  /-- `cleanup_inactive_sessions` while it iterates: `keys` were stored when it began, `visited`
  have been tested and `ids` are to be removed. -/
  | collect (now : Instant) (timeout : Duration) (keys visited ids : List Id)

/-- The shared manager, the clock and the call each thread is in.  `issued` and `dropped` only
record what happened: the ids given to sessions so far, and the ids that were in the entries
removed from the index. -/
structure ThreadState (T : Type) where
  manager : SessionManager
  clock : Instant
  calls : T → Option SessionCall
  issued : List Id
  dropped : List Id

inductive ThreadEvent (T : Type)
  | create (t : T) (session : Session)
  | insert (t : T)
  | push (t : T)
  | remove (t : T) (id : Id)
  | take (t : T)
  | retain (t : T)
  | dropOrigin (t : T) (origin : String)
  | cleanup (t : T) (timeout : Duration)
  | visit (t : T) (id : Id)
  | collected (t : T)
  | finish (t : T)
  | touch (t : T) (id : Id)
  | advance (elapsed : Duration)

variable {T : Type} [DecidableEq T]

namespace ThreadState

/-- The empty manager with every thread idle. -/
def init : ThreadState T where
  manager := .new
  clock := 0
  calls _ := none
  issued := []
  dropped := []

/-- Thread `t` leaves the manager as given and goes on with `call`. -/
def act (s : ThreadState T) (t : T) (manager : SessionManager) (call : Option SessionCall) :
    ThreadState T :=
  { s with manager, calls := Function.update s.calls t call }

/-- No call is under way. -/
def Quiescent (s : ThreadState T) : Prop := ∀ t, s.calls t = none

end ThreadState

/-- One atomic step.  The iteration of the clean-up visits a stored session at most once, in any
order, and ends when every entry it began with is visited or gone. -/
inductive ThreadStep : ThreadState T → ThreadEvent T → ThreadState T → Prop
  | create {s : ThreadState T} {t : T} {session : Session} :
    s.calls t = none → session.id ∉ s.issued → session.startTime ≤ s.clock →
    session.lastActivity = s.clock →
    ThreadStep s (.create t session)
      { s.act t s.manager (some (.insert session)) with issued := session.id :: s.issued }
  | insert {s : ThreadState T} {t : T} {session : Session} :
    s.calls t = some (.insert session) →
    ThreadStep s (.insert t) (s.act t (s.manager.insertSession session) (some (.push session)))
  | push {s : ThreadState T} {t : T} {session : Session} :
    s.calls t = some (.push session) →
    ThreadStep s (.push t) (s.act t (s.manager.pushOrigin session.origin session.id) none)
  | remove {s : ThreadState T} {t : T} (id : Id) :
    s.calls t = none →
    ThreadStep s (.remove t id) (s.act t s.manager (some (.remove [id])))
  | take {s : ThreadState T} {t : T} {id : Id} {ids : List Id} {session : Session} :
    s.calls t = some (.remove (id :: ids)) → s.manager.sessions.lookup id = some session →
    ThreadStep s (.take t)
      (s.act t (s.manager.takeSession id) (some (.retain id session.origin ids)))
  | miss {s : ThreadState T} {t : T} {id : Id} {ids : List Id} :
    s.calls t = some (.remove (id :: ids)) → s.manager.sessions.lookup id = none →
    ThreadStep s (.take t) (s.act t s.manager (some (.remove ids)))
  | retain {s : ThreadState T} {t : T} {id : Id} {origin : String} {ids : List Id} :
    s.calls t = some (.retain id origin ids) →
    (s.manager.retainOrigin origin id).originToSessions.lookup origin ≠ some [] →
    ThreadStep s (.retain t)
      (s.act t (s.manager.retainOrigin origin id) (some (.remove ids)))
  | retainEmpty {s : ThreadState T} {t : T} {id : Id} {origin : String} {ids : List Id} :
    s.calls t = some (.retain id origin ids) →
    (s.manager.retainOrigin origin id).originToSessions.lookup origin = some [] →
    ThreadStep s (.retain t)
      (s.act t (s.manager.retainOrigin origin id) (some (.drop origin ids)))
  | dropOrigin {s : ThreadState T} {t : T} {origin : String} {ids : List Id} :
    s.calls t = some (.drop origin ids) →
    ThreadStep s (.dropOrigin t origin)
      { s.act t (s.manager.removeOrigin origin) (some (.remove ids)) with
        dropped := s.manager.idsOf origin ++ s.dropped }
  | cleanup {s : ThreadState T} {t : T} (timeout : Duration) :
    s.calls t = none →
    ThreadStep s (.cleanup t timeout)
      (s.act t s.manager (some (.collect s.clock timeout s.manager.sessions.keys [] [])))
  | visit {s : ThreadState T} {t : T} {now : Instant} {timeout : Duration}
    {keys visited ids : List Id} {id : Id} {session : Session} :
    s.calls t = some (.collect now timeout keys visited ids) →
    s.manager.sessions.lookup id = some session → id ∉ visited →
    ThreadStep s (.visit t id)
      (s.act t s.manager (some (.collect now timeout keys (id :: visited)
        (if SessionManager.Expired now timeout session then ids ++ [session.id] else ids))))
  | collected {s : ThreadState T} {t : T} {now : Instant} {timeout : Duration}
    {keys visited ids : List Id} :
    s.calls t = some (.collect now timeout keys visited ids) →
    (∀ id ∈ keys, id ∈ s.manager.sessions → id ∈ visited) →
    ThreadStep s (.collected t) (s.act t s.manager (some (.remove ids)))
  | finish {s : ThreadState T} {t : T} :
    s.calls t = some (.remove []) →
    ThreadStep s (.finish t) (s.act t s.manager none)
  | touch {s : ThreadState T} {t : T} (id : Id) :
    s.calls t = none →
    ThreadStep s (.touch t id) { s with manager := (s.manager.touchSession id s.clock).1 }
  | advance {s : ThreadState T} (elapsed : Duration) :
    ThreadStep s (.advance elapsed) { s with clock := s.clock + elapsed }

/-! ## A call on its own -/

namespace ThreadState

section

variable {s : ThreadState T} {t : T}

/-- The manager is as given and thread `t` is at `call`; the other threads are where they were. -/
structure Reaches (s : ThreadState T) (t : T) (manager : SessionManager)
    (call : Option SessionCall) (events : List (ThreadEvent T)) (s' : ThreadState T) : Prop where
  run : Transition.Run ThreadStep s events s'
  manager : s'.manager = manager
  calls : s'.calls = Function.update s.calls t call

theorem Reaches.trans {m manager : SessionManager} {call call' : Option SessionCall}
    {events events' : List (ThreadEvent T)} {s₁ s₂ : ThreadState T}
    (left : s.Reaches t m call events s₁) (right : s₁.Reaches t manager call' events' s₂) :
    s.Reaches t manager call' (events ++ events') s₂ :=
  ⟨left.run.trans right.run, right.manager, by rw [right.calls, left.calls, Function.update_idem]⟩

theorem Reaches.at_call {m : SessionManager} {call : Option SessionCall}
    {events : List (ThreadEvent T)} {s₁ : ThreadState T} (reached : s.Reaches t m call events s₁) :
    s₁.calls t = call := by
  rw [reached.calls, Function.update_self]

/-- `create_session` with no other thread in between. -/
theorem createSession_alone (source : IdSource) (origin : String) (randomBytes : Wire.Bytes)
    {started : Instant} (idle : s.calls t = none) (past : started ≤ s.clock)
    (fresh : source.digest (Session.hashInput source origin (some randomBytes)) ∉ s.issued) :
    ∃ events s', s.Reaches t
      (SessionManager.createSession source s.manager origin randomBytes started s.clock).1 none
      events s' := by
  have created : s.Reaches t s.manager _ _ _ :=
    ⟨.single (@ThreadStep.create _ _ s t
      (Session.new source origin (some randomBytes) started s.clock) idle fresh past rfl), rfl, rfl⟩
  have inserted := created.trans ⟨.single (.insert created.at_call), rfl, rfl⟩
  exact ⟨_, _, inserted.trans ⟨.single (.push inserted.at_call), rfl, rfl⟩⟩

/-- The loop of `remove_session` on its first id, with no other thread in between. -/
theorem removeSession_alone {id : Id} {ids : List Id}
    (removing : s.calls t = some (.remove (id :: ids))) :
    ∃ events s', s.Reaches t (s.manager.removeSession id).1 (some (.remove ids)) events s' := by
  cases found : s.manager.sessions.lookup id with
  | none =>
      refine ⟨_, _, .single (.miss removing found), ?_, rfl⟩
      simp only [SessionManager.removeSession, found]
      rfl
  | some session =>
      have taken : s.Reaches t (s.manager.takeSession id) (some (.retain id session.origin ids))
          _ _ := ⟨.single (.take removing found), rfl, rfl⟩
      by_cases emptied : ((s.manager.takeSession id).retainOrigin session.origin
          id).originToSessions.lookup session.origin = some []
      · have retained := taken.trans
          ⟨.single (.retainEmpty taken.at_call emptied), rfl, rfl⟩
        have dropped := retained.trans ⟨.single (.dropOrigin retained.at_call), rfl, rfl⟩
        refine ⟨_, _, dropped.run, ?_, dropped.calls⟩
        simp only [SessionManager.removeSession, found, emptied]
        rfl
      · have retained := taken.trans ⟨.single (.retain taken.at_call emptied), rfl, rfl⟩
        refine ⟨_, _, retained.run, ?_, retained.calls⟩
        simp only [SessionManager.removeSession, found]
        rfl

/-- A thread that removes the ids of a list, with no other thread in between, removes the sessions
one after the other. -/
theorem removeSessions_alone {ids : List Id} (removing : s.calls t = some (.remove ids)) :
    ∃ events s', s.Reaches t
      (ids.foldl (fun manager id => (manager.removeSession id).1) s.manager) none events s' := by
  induction ids generalizing s with
  | nil => exact ⟨_, _, .single (.finish removing), rfl, rfl⟩
  | cons id ids ih =>
      obtain ⟨events, s₁, first⟩ := removeSession_alone removing
      obtain ⟨events', s₂, rest⟩ := ih first.at_call
      rw [first.manager] at rest
      exact ⟨_, _, first.trans rest⟩

/-- `remove_session` with no other thread in between. -/
theorem remove_alone (id : Id) (idle : s.calls t = none) :
    ∃ events s', s.Reaches t (s.manager.removeSession id).1 none events s' := by
  have begun : s.Reaches t s.manager _ _ _ := ⟨.single (.remove id idle), rfl, rfl⟩
  obtain ⟨events, s', removed⟩ := removeSessions_alone begun.at_call
  exact ⟨_, _, begun.trans removed⟩

/-- The iteration of the clean-up over entries it has not visited. -/
theorem visits_alone {now : Instant} {timeout : Duration} {keys : List Id}
    {entries : List (Id × Session)} {visited ids : List Id}
    (collecting : s.calls t = some (.collect now timeout keys visited ids))
    (stored : ∀ entry ∈ entries, s.manager.sessions.lookup entry.1 = some entry.2)
    (once : (entries.map Prod.fst).Nodup)
    (unvisited : ∀ entry ∈ entries, entry.1 ∉ visited) :
    ∃ visited' events s', s.Reaches t s.manager
        (some (.collect now timeout keys visited' (ids ++
          ((entries.map Prod.snd).filter (SessionManager.Expired now timeout)).map Session.id)))
        events s' ∧
      ∀ id, id ∈ visited ∨ id ∈ entries.map Prod.fst → id ∈ visited' := by
  induction entries generalizing s visited ids with
  | nil =>
      refine ⟨visited, [], s, ⟨.nil, rfl, ?_⟩,
        fun id known => known.resolve_right List.not_mem_nil⟩
      rw [List.map_nil, List.filter_nil, List.map_nil, List.append_nil, ← collecting,
        Function.update_eq_self]
  | cons entry entries ih =>
      obtain ⟨id, session⟩ := entry
      have fresh : id ∉ visited := unvisited _ (List.mem_cons_self ..)
      have visit : s.Reaches t s.manager _ _ _ :=
        ⟨.single (.visit collecting (stored (id, session) (List.mem_cons_self ..)) fresh), rfl, rfl⟩
      rw [List.map_cons, List.nodup_cons] at once
      obtain ⟨visited', events, s', rest, covered⟩ := ih visit.at_call
        (fun entry member => stored entry (List.mem_cons_of_mem _ member)) once.2 (by
          intro entry member seen
          rcases List.mem_cons.mp seen with same | seen
          · exact once.1 (same ▸ List.mem_map_of_mem member)
          · exact unvisited entry (List.mem_cons_of_mem _ member) seen)
      refine ⟨visited', _, s', ⟨(visit.trans rest).run, rest.manager, ?_⟩, ?_⟩
      · rw [(visit.trans rest).calls, List.map_cons, List.filter_cons]
        by_cases expired : SessionManager.Expired now timeout session
        · simp [expired]
        · simp [expired]
      · intro other known
        apply covered other
        simp only [List.map_cons, List.mem_cons] at known ⊢
        tauto

/-- `cleanup_inactive_sessions` with no other thread in between. -/
theorem cleanup_alone (order : IterOrder (Id × Session)) (timeout : Duration)
    (idle : s.calls t = none) :
    ∃ events s', s.Reaches t (s.manager.cleanupInactiveSessions order s.clock timeout) none
      events s' := by
  have begun : s.Reaches t s.manager _ _ _ :=
    ⟨.single (ThreadStep.cleanup timeout idle), rfl, rfl⟩
  obtain ⟨visited, events, s₁, visits, covered⟩ := @visits_alone _ _ _ t _ _ _
    (s.manager.sessions.iter order) _ _ begun.at_call (fun _ => DashMap.mem_iter.mp)
    (DashMap.nodup_keys_iter ..) (fun _ _ => List.not_mem_nil)
  have iterated := begun.trans visits
  have everyKey : ∀ id ∈ s.manager.sessions.keys, id ∈ s₁.manager.sessions → id ∈ visited :=
    fun id member _ => covered id (.inr ((DashMap.keys_iter_perm ..).mem_iff.mpr member))
  have collected := iterated.trans ⟨.single (.collected iterated.at_call everyKey), rfl, rfl⟩
  obtain ⟨events', s₂, removed⟩ := removeSessions_alone collected.at_call
  refine ⟨_, _, (collected.trans removed).run, ?_, (collected.trans removed).calls⟩
  rw [removed.manager]
  change List.foldl _ s₁.manager _ = _
  rw [visits.manager, List.nil_append]
  rfl

end

end ThreadState

/-! ## What a call in progress means for the index -/

/-- The part of a thread's progress the index depends on. -/
inductive Role
  | inserting (session : Session)
  | pushing (session : Session)
  | taking (id : Id)
  | other

/-- The id a role is about to store or to list. -/
def Role.creates : Role → Option Id
  | .inserting session => some session.id
  | .pushing session => some session.id
  | _ => none

def roleOf : Option SessionCall → Role
  | some (.insert session) => .inserting session
  | some (.push session) => .pushing session
  | some (.retain id _ _) => .taking id
  | _ => .other

def ThreadState.role (s : ThreadState T) (t : T) : Role := roleOf (s.calls t)

theorem ThreadState.role_act (s : ThreadState T) (t : T) (manager : SessionManager)
    (call : Option SessionCall) :
    (s.act t manager call).role = Function.update s.role t (roleOf call) := by
  funext t'
  simp only [role, act, Function.update_apply]
  split <;> rfl

/-- Where the id of a session can be while calls are in progress. -/
structure IndexInv (role : T → Role) (manager : SessionManager) (issued dropped : List Id) :
    Prop where
  creates_issued : ∀ {t id}, (role t).creates = some id → id ∈ issued
  creates_once : ∀ {t t' id}, (role t).creates = some id → (role t').creates = some id → t = t'
  creates_unlisted : ∀ {t id}, (role t).creates = some id → ∀ o, id ∉ manager.idsOf o
  inserting_unstored : ∀ {t session}, role t = .inserting session →
    manager.sessions.lookup session.id = none
  stored_issued : ∀ {id session}, manager.sessions.lookup id = some session →
    session.id = id ∧ id ∈ issued
  listed_issued : ∀ {o id}, id ∈ manager.idsOf o → id ∈ issued
  listed_origin : ∀ {o o' id}, id ∈ manager.idsOf o → id ∈ manager.idsOf o' → o = o'
  taking_gone : ∀ {t id}, role t = .taking id → id ∈ issued ∧
    manager.sessions.lookup id = none ∧ ∀ t' session, role t' = .inserting session → session.id ≠ id
  dropped_gone : ∀ {id}, id ∈ dropped → id ∈ issued ∧ (∀ o, id ∉ manager.idsOf o) ∧
    ∀ t, (role t).creates ≠ some id
  stored_covered : ∀ {id session}, manager.sessions.lookup id = some session →
    id ∈ manager.idsOf session.origin ∨
      (∃ t pushed, role t = .pushing pushed ∧ pushed.id = id ∧ pushed.origin = session.origin) ∨
      id ∈ dropped

variable {role : T → Role} {manager : SessionManager} {issued dropped : List Id} {t : T}

/-- What holds of the role at some thread after an update holds of the new role or of an old one. -/
theorem update_role {P : T → Role → Prop} {r : Role} {t' : T}
    (h : P t' (Function.update role t r t')) :
    (t' = t ∧ P t r) ∨ (t' ≠ t ∧ P t' (role t')) := by
  rw [Function.update_apply] at h
  split at h
  · rename_i same
    subst same
    exact Or.inl ⟨rfl, h⟩
  · exact Or.inr ⟨‹_›, h⟩

/-- A thread in another role than `t` is not `t`. -/
theorem update_role_of_ne {r : Role} {t' : T} (ne : role t' ≠ role t) :
    Function.update role t r t' = role t' :=
  Function.update_of_ne (fun same => ne (congrArg role same)) r role

omit [DecidableEq T] in
theorem IndexInv.init : IndexInv (fun _ : T => .other) .new [] [] where
  creates_issued h := by cases h
  creates_once h := by cases h
  creates_unlisted h := by cases h
  inserting_unstored h := by cases h
  stored_issued h := by cases h
  listed_issued h := by cases h
  listed_origin h := by cases h
  taking_gone h := by cases h
  dropped_gone h := by cases h
  stored_covered h := by cases h

/-- `Session::new` in a call of `create_session`: its id is new. -/
theorem IndexInv.create (inv : IndexInv role manager issued dropped) {session : Session}
    (idle : role t = .other) (fresh : session.id ∉ issued) :
    IndexInv (Function.update role t (.inserting session)) manager (session.id :: issued)
      dropped where
  creates_issued := by
    intro t' id h
    rcases update_role (P := fun _ r => r.creates = some id) h with ⟨-, new⟩ | ⟨-, old⟩
    · cases new
      exact List.mem_cons_self ..
    · exact List.mem_cons_of_mem _ (inv.creates_issued old)
  creates_once := by
    intro t₁ t₂ id h₁ h₂
    rcases update_role (P := fun _ r => r.creates = some id) h₁ with ⟨rfl, new₁⟩ | ⟨-, old₁⟩ <;>
      rcases update_role (P := fun _ r => r.creates = some id) h₂ with ⟨rfl, new₂⟩ | ⟨-, old₂⟩
    · rfl
    · cases new₁
      exact (fresh (inv.creates_issued old₂)).elim
    · cases new₂
      exact (fresh (inv.creates_issued old₁)).elim
    · exact inv.creates_once old₁ old₂
  creates_unlisted := by
    intro t' id h o listed
    rcases update_role (P := fun _ r => r.creates = some id) h with ⟨-, new⟩ | ⟨-, old⟩
    · cases new
      exact fresh (inv.listed_issued listed)
    · exact inv.creates_unlisted old o listed
  inserting_unstored := by
    intro t' session' h
    rcases update_role (P := fun _ r => r = .inserting session') h with ⟨-, new⟩ | ⟨-, old⟩
    · cases new
      cases found : manager.sessions.lookup session.id with
      | none => rfl
      | some stored => exact (fresh (inv.stored_issued found).2).elim
    · exact inv.inserting_unstored old
  stored_issued found :=
    ⟨(inv.stored_issued found).1, List.mem_cons_of_mem _ (inv.stored_issued found).2⟩
  listed_issued listed := List.mem_cons_of_mem _ (inv.listed_issued listed)
  listed_origin := inv.listed_origin
  taking_gone := by
    intro t' id h
    rcases update_role (P := fun _ r => r = .taking id) h with ⟨-, new⟩ | ⟨-, old⟩
    · cases new
    · obtain ⟨known, gone, notInserting⟩ := inv.taking_gone old
      refine ⟨List.mem_cons_of_mem _ known, gone, fun t'' session' h' same => ?_⟩
      rcases update_role (P := fun _ r => r = .inserting session') h' with ⟨-, new⟩ | ⟨-, old'⟩
      · cases new
        exact fresh (same ▸ known)
      · exact notInserting t'' session' old' same
  dropped_gone := by
    intro id member
    obtain ⟨known, unlisted, notCreating⟩ := inv.dropped_gone member
    refine ⟨List.mem_cons_of_mem _ known, unlisted, fun t' h => ?_⟩
    rcases update_role (P := fun _ r => r.creates = some id) h with ⟨-, new⟩ | ⟨-, old⟩
    · cases new
      exact fresh known
    · exact notCreating t' old
  stored_covered := by
    intro id stored found
    rcases inv.stored_covered found with listed | ⟨t', pushed, pushing, same⟩ | gone
    · exact Or.inl listed
    · exact Or.inr (Or.inl ⟨t', pushed,
        (update_role_of_ne (by simp [pushing, idle])).trans pushing, same⟩)
    · exact Or.inr (Or.inr gone)

/-- `sessions.insert`. -/
theorem IndexInv.insert (inv : IndexInv role manager issued dropped) {session : Session}
    (inserting : role t = .inserting session) :
    IndexInv (Function.update role t (.pushing session)) (manager.insertSession session) issued
      dropped := by
  have creates : ∀ {t' id}, (Function.update role t (.pushing session) t').creates = some id →
      (role t').creates = some id := by
    intro t' id h
    rcases update_role (P := fun _ r => r.creates = some id) h with ⟨rfl, new⟩ | ⟨-, old⟩
    · rw [inserting]
      exact new
    · exact old
  have creating : (role t).creates = some session.id := by rw [inserting]; rfl
  have known := inv.creates_issued creating
  have others : ∀ {t' other}, Function.update role t (.pushing session) t' = .inserting other →
      role t' = .inserting other ∧ other.id ≠ session.id := by
    intro t' other h
    rcases update_role (P := fun _ r => r = .inserting other) h with ⟨-, new⟩ | ⟨ne, old⟩
    · cases new
    · refine ⟨old, fun same => ne ?_⟩
      exact inv.creates_once (by rw [old, ← same]; rfl) creating
  refine ⟨fun h => inv.creates_issued (creates h),
    fun h h' => inv.creates_once (creates h) (creates h'),
    fun h o => inv.creates_unlisted (creates h) o, ?_, ?_, inv.listed_issued, inv.listed_origin,
    ?_, ?_, ?_⟩
  · intro t' other h
    obtain ⟨old, ne⟩ := others h
    rw [SessionManager.insertSession, DashMap.lookup_insert_if, if_neg ne]
    exact inv.inserting_unstored old
  · intro id stored found
    rw [SessionManager.insertSession, DashMap.lookup_insert_if] at found
    split at found
    · rename_i same
      cases found
      exact ⟨same.symm, same ▸ known⟩
    · exact inv.stored_issued found
  · intro t' id h
    rcases update_role (P := fun _ r => r = .taking id) h with ⟨-, new⟩ | ⟨-, old⟩
    · cases new
    · obtain ⟨issued, gone, notInserting⟩ := inv.taking_gone old
      refine ⟨issued, ?_, fun t'' other h' => notInserting t'' other (others h').1⟩
      rw [SessionManager.insertSession, DashMap.lookup_insert_if,
        if_neg (Ne.symm (notInserting t session inserting))]
      exact gone
  · intro id member
    obtain ⟨issued, unlisted, notCreating⟩ := inv.dropped_gone member
    exact ⟨issued, unlisted, fun t' h => notCreating t' (creates h)⟩
  · intro id stored found
    rw [SessionManager.insertSession, DashMap.lookup_insert_if] at found
    split at found
    · rename_i same
      cases found
      exact Or.inr (Or.inl ⟨t, session, Function.update_self .., same.symm, rfl⟩)
    · rcases inv.stored_covered found with listed | ⟨t', pushed, pushing, same⟩ | gone
      · exact Or.inl listed
      · exact Or.inr (Or.inl ⟨t', pushed,
          (update_role_of_ne (by simp [pushing, inserting])).trans pushing, same⟩)
      · exact Or.inr (Or.inr gone)

/-- A thread that leaves its role for one without an id. -/
theorem IndexInv.creates_of_update {t' : T} {id : Id} {r : Role} (none : r.creates = none)
    (h : (Function.update role t r t').creates = some id) :
    t' ≠ t ∧ (role t').creates = some id := by
  rcases update_role (P := fun _ r => r.creates = some id) h with ⟨-, new⟩ | old
  · rw [none] at new
    cases new
  · exact old

/-- A thread that takes a role in which it inserts nothing. -/
theorem IndexInv.inserting_of_update {t' : T} {session : Session} {r : Role}
    (none : ∀ session, r ≠ .inserting session)
    (h : Function.update role t r t' = .inserting session) : role t' = .inserting session := by
  rcases update_role (P := fun _ r => r = .inserting session) h with ⟨-, new⟩ | ⟨-, old⟩
  · exact (none session new).elim
  · exact old

/-- `entry(origin).or_default().push(id)`. -/
theorem IndexInv.push (inv : IndexInv role manager issued dropped) {session : Session}
    (pushing : role t = .pushing session) :
    IndexInv (Function.update role t .other) (manager.pushOrigin session.origin session.id) issued
      dropped := by
  have creating : (role t).creates = some session.id := by rw [pushing]; rfl
  have creates : ∀ {t' id}, (Function.update role t .other t').creates = some id →
      t' ≠ t ∧ (role t').creates = some id := IndexInv.creates_of_update rfl
  have inserting : ∀ {t' other}, Function.update role t .other t' = .inserting other →
      role t' = .inserting other := IndexInv.inserting_of_update fun _ => Role.noConfusion
  have listed : ∀ {o id}, id ∈ (manager.pushOrigin session.origin session.id).idsOf o →
      id ∈ manager.idsOf o ∨ (o = session.origin ∧ id = session.id) := by
    intro o id member
    rw [SessionManager.idsOf_pushOrigin] at member
    split at member
    · rename_i same
      rcases List.mem_append.mp member with old | new
      · exact Or.inl (same ▸ old)
      · exact Or.inr ⟨same, List.mem_singleton.mp new⟩
    · exact Or.inl member
  refine ⟨fun h => inv.creates_issued (creates h).2,
    fun h h' => inv.creates_once (creates h).2 (creates h').2, ?_, ?_, inv.stored_issued, ?_, ?_,
    ?_, ?_, ?_⟩
  · intro t' id h o member
    rcases listed member with old | ⟨-, rfl⟩
    · exact inv.creates_unlisted (creates h).2 o old
    · exact (creates h).1 (inv.creates_once (creates h).2 creating)
  · intro t' other h
    exact inv.inserting_unstored (inserting h)
  · intro o id member
    rcases listed member with old | ⟨-, rfl⟩
    · exact inv.listed_issued old
    · exact inv.creates_issued creating
  · intro o o' id member member'
    rcases listed member with old | ⟨rfl, rfl⟩ <;> rcases listed member' with old' | ⟨rfl, same⟩
    · exact inv.listed_origin old old'
    · exact (inv.creates_unlisted creating o (same ▸ old)).elim
    · exact (inv.creates_unlisted creating o' old').elim
    · rfl
  · intro t' id h
    rcases update_role (P := fun _ r => r = .taking id) h with ⟨-, new⟩ | ⟨-, old⟩
    · cases new
    · obtain ⟨known, gone, notInserting⟩ := inv.taking_gone old
      exact ⟨known, gone, fun t'' other h' => notInserting t'' other (inserting h')⟩
  · intro id member
    obtain ⟨known, unlisted, notCreating⟩ := inv.dropped_gone member
    refine ⟨known, fun o member' => ?_, fun t' h => notCreating t' (creates h).2⟩
    rcases listed member' with old | ⟨-, rfl⟩
    · exact unlisted o old
    · exact notCreating t creating
  · intro id stored found
    rw [SessionManager.idsOf_pushOrigin]
    rcases inv.stored_covered found with old | ⟨t', pushed, pushing', same⟩ | gone
    · left
      split
      · rename_i same
        exact List.mem_append_left _ (same ▸ old)
      · exact old
    · by_cases here : t' = t
      · -- the session this step lists
        subst here
        rw [pushing] at pushing'
        cases pushing'
        obtain ⟨rfl, own⟩ := same
        rw [if_pos own.symm]
        exact Or.inl (by simp)
      · exact Or.inr (Or.inl ⟨t', pushed, (Function.update_of_ne here _ _).trans pushing', same⟩)
    · exact Or.inr (Or.inr gone)

/-- `sessions.remove(&id)` of a stored session. -/
theorem IndexInv.take (inv : IndexInv role manager issued dropped) {id : Id} {session : Session}
    (idle : role t = .other) (found : manager.sessions.lookup id = some session) :
    IndexInv (Function.update role t (.taking id)) (manager.takeSession id) issued dropped := by
  have creates : ∀ {t' i}, (Function.update role t (.taking id) t').creates = some i →
      t' ≠ t ∧ (role t').creates = some i := IndexInv.creates_of_update rfl
  have inserting : ∀ {t' other}, Function.update role t (.taking id) t' = .inserting other →
      role t' = .inserting other := IndexInv.inserting_of_update fun _ => Role.noConfusion
  refine ⟨fun h => inv.creates_issued (creates h).2,
    fun h h' => inv.creates_once (creates h).2 (creates h').2,
    fun h o => inv.creates_unlisted (creates h).2 o, ?_, ?_, inv.listed_issued, inv.listed_origin,
    ?_, ?_, ?_⟩
  · intro t' other h
    have missing := inv.inserting_unstored (inserting h)
    rw [SessionManager.takeSession, DashMap.lookup_erase_if, missing]
    split <;> rfl
  · intro other stored found'
    exact inv.stored_issued (DashMap.lookup_of_erase found').2
  · intro t' other h
    rw [SessionManager.takeSession, DashMap.lookup_erase_if]
    rcases update_role (P := fun _ r => r = .taking other) h with ⟨-, new⟩ | ⟨-, old⟩
    · cases new
      refine ⟨(inv.stored_issued found).2, if_pos rfl, fun t'' session' h' same => ?_⟩
      have missing := inv.inserting_unstored (inserting h')
      rw [same, found] at missing
      cases missing
    · obtain ⟨known, gone, notInserting⟩ := inv.taking_gone old
      refine ⟨known, ?_, fun t'' session' h' => notInserting t'' session' (inserting h')⟩
      rw [gone]
      split <;> rfl
  · intro other member
    obtain ⟨known, unlisted, notCreating⟩ := inv.dropped_gone member
    exact ⟨known, unlisted, fun t' h => notCreating t' (creates h).2⟩
  · intro other stored found'
    rcases inv.stored_covered (DashMap.lookup_of_erase found').2 with
      listed | ⟨t', pushed, pushing, same⟩ | gone
    · exact Or.inl listed
    · exact Or.inr (Or.inl ⟨t', pushed,
        (update_role_of_ne (by simp [pushing, idle])).trans pushing, same⟩)
    · exact Or.inr (Or.inr gone)

/-- `retain` drops the id of a session that is no longer stored. -/
theorem IndexInv.retain (inv : IndexInv role manager issued dropped) {id : Id} (origin : String)
    (taking : role t = .taking id) :
    IndexInv (Function.update role t .other) (manager.retainOrigin origin id) issued dropped := by
  have creates : ∀ {t' i}, (Function.update role t .other t').creates = some i →
      t' ≠ t ∧ (role t').creates = some i := IndexInv.creates_of_update rfl
  have listed : ∀ {o other}, other ∈ (manager.retainOrigin origin id).idsOf o →
      other ∈ manager.idsOf o := by
    intro o other member
    rw [SessionManager.idsOf_retainOrigin] at member
    split at member
    · rename_i same
      exact same ▸ (List.mem_filter.mp member).1
    · exact member
  have inserting : ∀ {t' other}, Function.update role t .other t' = .inserting other →
      role t' = .inserting other := IndexInv.inserting_of_update fun _ => Role.noConfusion
  refine ⟨fun h => inv.creates_issued (creates h).2,
    fun h h' => inv.creates_once (creates h).2 (creates h').2,
    fun h o member => inv.creates_unlisted (creates h).2 o (listed member), ?_, ?_,
    fun member => inv.listed_issued (listed member),
    fun member member' => inv.listed_origin (listed member) (listed member'), ?_, ?_, ?_⟩
  · intro t' other h
    rw [SessionManager.sessions_retainOrigin]
    exact inv.inserting_unstored (inserting h)
  · intro other stored found
    rw [SessionManager.sessions_retainOrigin] at found
    exact inv.stored_issued found
  · intro t' other h
    rw [SessionManager.sessions_retainOrigin]
    rcases update_role (P := fun _ r => r = .taking other) h with ⟨-, new⟩ | ⟨-, old⟩
    · cases new
    · obtain ⟨known, gone, notInserting⟩ := inv.taking_gone old
      exact ⟨known, gone, fun t'' session h' => notInserting t'' session (inserting h')⟩
  · intro other member
    obtain ⟨known, unlisted, notCreating⟩ := inv.dropped_gone member
    exact ⟨known, fun o member' => unlisted o (listed member'),
      fun t' h => notCreating t' (creates h).2⟩
  · intro other stored found
    rw [SessionManager.sessions_retainOrigin] at found
    rcases inv.stored_covered found with old | ⟨t', pushed, pushing, same⟩ | gone
    · left
      have ne : other ≠ id := by
        intro equal
        subst equal
        rw [(inv.taking_gone taking).2.1] at found
        cases found
      rw [SessionManager.idsOf_retainOrigin]
      split
      · rename_i same
        exact List.mem_filter.mpr ⟨same ▸ old, by simpa using ne⟩
      · exact old
    · exact Or.inr (Or.inl ⟨t', pushed,
        (update_role_of_ne (by simp [pushing, taking])).trans pushing, same⟩)
    · exact Or.inr (Or.inr gone)

omit [DecidableEq T] in
/-- `origin_to_sessions.remove(origin)`: the ids still listed there are dropped. -/
theorem IndexInv.dropOrigin (inv : IndexInv role manager issued dropped) (origin : String) :
    IndexInv role (manager.removeOrigin origin) issued (manager.idsOf origin ++ dropped) := by
  have listed : ∀ {o id}, id ∈ (manager.removeOrigin origin).idsOf o →
      id ∈ manager.idsOf o := by
    intro o id member
    rw [SessionManager.idsOf_removeOrigin] at member
    split at member
    · cases member
    · exact member
  refine ⟨inv.creates_issued, inv.creates_once,
    fun h o member => inv.creates_unlisted h o (listed member), inv.inserting_unstored,
    inv.stored_issued, fun member => inv.listed_issued (listed member),
    fun member member' => inv.listed_origin (listed member) (listed member'), inv.taking_gone,
    ?_, ?_⟩
  · intro id member
    rcases List.mem_append.mp member with here | before
    · refine ⟨inv.listed_issued here, fun o member' => ?_, fun t h =>
        inv.creates_unlisted h origin here⟩
      -- an id is listed under one origin only, and that entry is gone
      have same := inv.listed_origin (listed member') here
      rw [SessionManager.idsOf_removeOrigin, if_pos same] at member'
      cases member'
    · obtain ⟨known, unlisted, notCreating⟩ := inv.dropped_gone before
      exact ⟨known, fun o member' => unlisted o (listed member'), notCreating⟩
  · intro id session found
    rcases inv.stored_covered found with old | pushing | gone
    · rw [SessionManager.idsOf_removeOrigin]
      split
      · rename_i same
        exact Or.inr (Or.inr (List.mem_append_left _ (same ▸ old)))
      · exact Or.inl old
    · exact Or.inr (Or.inl pushing)
    · exact Or.inr (Or.inr (List.mem_append_right _ gone))

omit [DecidableEq T] in
/-- A touched session keeps its id, its origin and its place. -/
theorem IndexInv.touch (inv : IndexInv role manager issued dropped) (id : Id) (now : Instant) :
    IndexInv role (manager.touchSession id now).1 issued dropped where
  creates_issued := inv.creates_issued
  creates_once := inv.creates_once
  creates_unlisted h o := by
    rw [SessionManager.idsOf_touchSession]
    exact inv.creates_unlisted h o
  inserting_unstored h := SessionManager.missing_touchSession.mpr (inv.inserting_unstored h)
  stored_issued stored := by
    obtain ⟨before, found, sameId, -⟩ := SessionManager.stored_touchSession stored
    exact ⟨sameId ▸ (inv.stored_issued found).1, (inv.stored_issued found).2⟩
  listed_issued listed := by
    rw [SessionManager.idsOf_touchSession] at listed
    exact inv.listed_issued listed
  listed_origin left right := by
    rw [SessionManager.idsOf_touchSession] at left right
    exact inv.listed_origin left right
  taking_gone h := by
    obtain ⟨known, gone, notInserting⟩ := inv.taking_gone h
    exact ⟨known, SessionManager.missing_touchSession.mpr gone, notInserting⟩
  dropped_gone gone := by
    simp only [SessionManager.idsOf_touchSession]
    exact inv.dropped_gone gone
  stored_covered stored := by
    obtain ⟨before, found, -, own⟩ := SessionManager.stored_touchSession stored
    rw [SessionManager.idsOf_touchSession, ← own]
    exact inv.stored_covered found

/-! ## Every run -/

/-- One step of any thread keeps the invariant. -/
theorem ThreadStep.indexInv {s s' : ThreadState T} {event : ThreadEvent T}
    (edge : ThreadStep s event s') (inv : IndexInv s.role s.manager s.issued s.dropped) :
    IndexInv s'.role s'.manager s'.issued s'.dropped := by
  have role : ∀ {t call}, s.calls t = call → s.role t = roleOf call := fun h => congrArg roleOf h
  have moved : ∀ {t manager issued dropped} next,
      IndexInv (Function.update s.role t (roleOf next)) manager issued dropped →
        IndexInv (s.act t manager next).role manager issued dropped := by
    intro t manager issued dropped next h
    rw [s.role_act]
    exact h
  -- a thread that changes neither its role nor the maps
  have idle : ∀ {t call next}, s.calls t = call → roleOf call = .other → roleOf next = .other →
      IndexInv (s.act t s.manager next).role s.manager s.issued s.dropped := by
    intro t call next h before after
    apply moved next
    rw [after, ← before, ← role h, Function.update_eq_self]
    exact inv
  cases edge with
  | create h fresh _ _ => exact moved (some (.insert _)) (inv.create (role h) fresh)
  | insert h => exact moved (some (.push _)) (inv.insert (role h))
  | push h => exact moved none (inv.push (role h))
  | remove id h => exact idle h rfl rfl
  | take h found => exact moved (some (.retain ..)) (inv.take (role h) found)
  | miss h missing => exact idle h rfl rfl
  | @retain t id origin ids h kept =>
      exact moved (some (.remove ids)) (inv.retain origin (role h))
  | @retainEmpty t id origin ids h emptied =>
      exact moved (some (.drop origin ids)) (inv.retain origin (role h))
  | @dropOrigin t origin ids h =>
      have here : s.role t = .other := role h
      have same : Function.update s.role t .other = s.role := by
        rw [← here, Function.update_eq_self]
      apply moved (some (.remove ids))
      change IndexInv (Function.update s.role t .other) _ _ _
      rw [same]
      exact inv.dropOrigin origin
  | cleanup timeout h => exact idle h rfl rfl
  | visit h found fresh => exact idle h rfl rfl
  | collected h all => exact idle h rfl rfl
  | finish h => exact idle h rfl rfl
  | touch id h => exact inv.touch id s.clock
  | advance elapsed => exact inv

theorem run_indexInv {s : ThreadState T} {events : List (ThreadEvent T)}
    (run : Transition.Run ThreadStep .init events s) :
    IndexInv s.role s.manager s.issued s.dropped :=
  run.invariant (P := fun _ s => IndexInv s.role s.manager s.issued s.dropped) .init
    fun _ inv edge => edge.indexInv inv

/-- Every stored session is listed under its own origin, so the index lookup returns it. -/
def SessionManager.Indexed (manager : SessionManager) : Prop :=
  ∀ id session, manager.sessions.lookup id = some session →
    id ∈ manager.idsOf session.origin ∧ session ∈ manager.getSessionsByOrigin session.origin

theorem SessionManager.indexed_iff_complete {manager : SessionManager} :
    manager.Indexed ↔ manager.Complete := by
  refine ⟨fun indexed id session found => (indexed id session found).1, ?_⟩
  intro complete id session found
  refine ⟨complete found, ?_⟩
  rw [SessionManager.getSessionsByOrigin_eq]
  exact List.mem_filterMap.mpr ⟨id, complete found, found⟩

omit [DecidableEq T] in
/-- At rest every stored session is listed unless an entry was removed with its id in it. -/
theorem IndexInv.complete_iff {s : ThreadState T}
    (inv : IndexInv s.role s.manager s.issued s.dropped) (rest : s.Quiescent) :
    s.manager.Complete ↔ ∀ id ∈ s.dropped, id ∉ s.manager.sessions := by
  constructor
  · intro complete id gone stored
    obtain ⟨session, found⟩ := DashMap.exists_lookup stored
    exact (inv.dropped_gone gone).2.1 session.origin (complete found)
  · intro harmless id session found
    rcases inv.stored_covered found with listed | ⟨t, pushed, pushing, -⟩ | gone
    · exact listed
    · rw [ThreadState.role, rest t] at pushing
      cases pushing
    · exact (harmless id gone (DashMap.mem_of_lookup found)).elim

/-- **At rest the index holds every stored session exactly when no entry removed from it held the
id of a session that is still stored.** -/
theorem quiescent_indexed_iff {s : ThreadState T} {events : List (ThreadEvent T)}
    (run : Transition.Run ThreadStep .init events s) (rest : s.Quiescent) :
    s.manager.Indexed ↔ ∀ id ∈ s.dropped, id ∉ s.manager.sessions :=
  SessionManager.indexed_iff_complete.trans ((run_indexInv run).complete_iff rest)

/-- One session comes and goes: at rest the index is whole. -/
theorem quiescent_indexed_iff_remove :
    ∃ s : ThreadState Bool, s.manager.sessions.keys = [2] ∧ s.manager.Indexed := by
  refine ⟨_, ?_, (quiescent_indexed_iff
    (.snoc (.snoc (.snoc (.snoc (.snoc (.snoc (.snoc (.snoc (.snoc (.snoc .nil
      (@ThreadStep.create _ _ _ false ⟨1, 0, 0, "127.0.0.1:4000"⟩ rfl (by decide) le_rfl rfl))
      (.insert (t := false) rfl))
      (@ThreadStep.create _ _ _ true ⟨2, 0, 0, "127.0.0.1:4000"⟩ rfl (by decide) le_rfl rfl))
      (.insert (t := true) rfl))
      (.push (t := false) rfl))
      (.push (t := true) rfl))
      (.remove (t := false) 1 rfl))
      (.take (t := false) rfl rfl))
      (.retain (t := false) rfl (by decide)))
      (.finish (t := false) rfl)) (fun t => by cases t <;> rfl)).mpr ?_⟩
  · rfl
  · intro id gone
    cases gone

/-- A second client of the origin registers after the list of the origin was found empty and
before its entry is removed: at rest its session is stored and not in the index. -/
theorem refilled_entry_dropped :
    ∃ (events : List (ThreadEvent Bool)) (s : ThreadState Bool),
      Transition.Run ThreadStep .init events s ∧ s.Quiescent ∧ ¬ s.manager.Indexed := by
  refine ⟨_, _,
    .snoc (.snoc (.snoc (.snoc (.snoc (.snoc (.snoc (.snoc (.snoc (.snoc (.snoc .nil
      (@ThreadStep.create _ _ _ false ⟨1, 0, 0, "127.0.0.1:4000"⟩ rfl (by decide) le_rfl rfl))
      (.insert (t := false) rfl))
      (.push (t := false) rfl))
      (.remove (t := false) 1 rfl))
      (.take (t := false) rfl rfl))
      (.retainEmpty (t := false) rfl (by decide)))
      (@ThreadStep.create _ _ _ true ⟨2, 0, 0, "127.0.0.1:4000"⟩ rfl (by decide) le_rfl rfl))
      (.insert (t := true) rfl))
      (.push (t := true) rfl))
      (.dropOrigin (t := false) rfl))
      (.finish (t := false) rfl),
    fun t => by cases t <;> rfl, fun indexed => ?_⟩
  have listed := (indexed 2 ⟨2, 0, 0, "127.0.0.1:4000"⟩ rfl).1
  exact absurd listed (by decide)

end Bonka
