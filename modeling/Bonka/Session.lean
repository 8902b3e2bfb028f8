import Bonka.Lib.DashMap
import Bonka.Lib.Wire

/-!
# Sessions (`src/session.rs`)

`Session::new` and the calls of `SessionManager`, each as one whole call on the manager's two
maps.  Clock readings (`Instant::now()`) and random bytes are arguments.  SHA3-256, cut to its
first eight bytes, and the application secret are the parameters of an `IdSource`.
-/

namespace Bonka

/-- Session ids. -/
abbrev Id := UInt64

/-- A reading of the monotonic clock, in nanoseconds. -/
abbrev Instant := ℕ

/-- A `Duration`, in nanoseconds. -/
abbrev Duration := ℕ

/-- `Duration::from_secs`. -/
def Duration.fromSecs (seconds : ℕ) : Duration := seconds * 1000000000

/-- `now.duration_since(earlier)`, which saturates at zero. -/
def durationSince (now earlier : Instant) : Duration := now - earlier

/-- Where session ids come from: the first eight bytes of SHA3-256, and `BONKA_APP_SECRET`. -/
structure IdSource where
  digest : Wire.Bytes → Id
  appSecret : Wire.Bytes

structure Session where
  id : Id
  startTime : Instant
  lastActivity : Instant
  origin : String
deriving DecidableEq, Repr

/-- The bytes `Session::new` feeds to the hash. -/
def Session.hashInput (source : IdSource) (origin : String) (customSeed : Option Wire.Bytes) :
    Wire.Bytes :=
  origin.toUTF8.data.toList ++ source.appSecret ++ customSeed.getD []

/-- `Session::new`; `started` and `active` are its two readings of the clock. -/
def Session.new (source : IdSource) (origin : String) (customSeed : Option Wire.Bytes)
    (started active : Instant) : Session where
  id := source.digest (Session.hashInput source origin customSeed)
  startTime := started
  lastActivity := active
  origin := origin

def Session.touch (session : Session) (now : Instant) : Session :=
  { session with lastActivity := now }

structure SessionManager where
  sessions : DashMap Id Session := ∅
  originToSessions : DashMap String (List Id) := ∅

namespace SessionManager

/-- `SessionManager::new()`. -/
def new : SessionManager := {}

/-- `sessions.insert(id, session)`. -/
def insertSession (manager : SessionManager) (session : Session) : SessionManager :=
  { manager with sessions := manager.sessions.insert session.id session }

/-- The ids listed under an origin; none when it has no entry. -/
def idsOf (manager : SessionManager) (origin : String) : List Id :=
  (manager.originToSessions.lookup origin).getD []

/-- `origin_to_sessions.entry(origin).or_default().push(id)`. -/
def pushOrigin (manager : SessionManager) (origin : String) (id : Id) : SessionManager :=
  { manager with
    originToSessions := manager.originToSessions.insert origin (manager.idsOf origin ++ [id]) }

/-- `sessions.remove(&id)`. -/
def takeSession (manager : SessionManager) (id : Id) : SessionManager :=
  { manager with sessions := manager.sessions.erase id }

/-- `get_mut(origin)` and `retain`: drop `id` from the list of `origin`, if it has one. -/
def retainOrigin (manager : SessionManager) (origin : String) (id : Id) : SessionManager :=
  match manager.originToSessions.lookup origin with
  | some ids =>
      { manager with
        originToSessions := manager.originToSessions.insert origin (ids.filter (· != id)) }
  | none => manager

/-- `origin_to_sessions.remove(origin)`. -/
def removeOrigin (manager : SessionManager) (origin : String) : SessionManager :=
  { manager with originToSessions := manager.originToSessions.erase origin }

/-- `create_session`, with the sixteen random bytes it draws as the seed. -/
def createSession (source : IdSource) (manager : SessionManager) (origin : String)
    (randomBytes : Wire.Bytes) (started active : Instant) : SessionManager × Session :=
  let session := Session.new source origin (some randomBytes) started active
  ((manager.insertSession session).pushOrigin origin session.id, session)

def getSessionsByOrigin (manager : SessionManager) (origin : String) : List Session :=
  match manager.originToSessions.lookup origin with
  | some ids => ids.filterMap fun id => manager.sessions.lookup id
  | none => []

def removeSession (manager : SessionManager) (id : Id) : SessionManager × Bool :=
  match manager.sessions.lookup id with
  | some session =>
      let manager := (manager.takeSession id).retainOrigin session.origin id
      -- the list is tested under the guard, and its entry removed after the guard is dropped
      match manager.originToSessions.lookup session.origin with
      | some [] => (manager.removeOrigin session.origin, true)
      | _ => (manager, true)
  | none => (manager, false)

def createSessionWithSeed (source : IdSource) (manager : SessionManager) (origin : String)
    (seed : Wire.Bytes) (started active : Instant) : SessionManager × Session :=
  let session := Session.new source origin (some seed) started active
  (manager.insertSession session, session)

def getSession (manager : SessionManager) (id : Id) : Option Session := manager.sessions.lookup id

def touchSession (manager : SessionManager) (id : Id) (now : Instant) : SessionManager × Bool :=
  match manager.sessions.lookup id with
  | some session =>
      ({ manager with sessions := manager.sessions.insert id (session.touch now) }, true)
  | none => (manager, false)

def getAllSessions (manager : SessionManager) (order : IterOrder (Id × Session)) : List Session :=
  (manager.sessions.iter order).map Prod.snd

/-- `clear_sessions`. -/
def clearSessions (_ : SessionManager) : SessionManager where
  sessions := ∅
  originToSessions := ∅

def sessionCount (manager : SessionManager) : ℕ := manager.sessions.len

def findSessionsByOrigin (manager : SessionManager) (order : IterOrder (Id × Session))
    (origin : String) : List Session :=
  ((manager.sessions.iter order).map Prod.snd).filter fun session => session.origin == origin

/-- Whether the clean-up that started at `now` takes a session for inactive. -/
def Expired (now : Instant) (timeout : Duration) (session : Session) : Prop :=
  timeout ≤ durationSince now session.lastActivity

instance (now : Instant) (timeout : Duration) (session : Session) :
    Decidable (Expired now timeout session) :=
  inferInstanceAs (Decidable (_ ≤ _))

/-- The first phase of the clean-up: the ids of the inactive sessions. -/
def idsToRemove (manager : SessionManager) (order : IterOrder (Id × Session)) (now : Instant)
    (timeout : Duration) : List Id :=
  (((manager.sessions.iter order).map Prod.snd).filter (Expired now timeout)).map Session.id

def cleanupInactiveSessions (manager : SessionManager) (order : IterOrder (Id × Session))
    (now : Instant) (timeout : Duration) : SessionManager :=
  (manager.idsToRemove order now timeout).foldl (fun manager id => (manager.removeSession id).1)
    manager

end SessionManager

end Bonka
