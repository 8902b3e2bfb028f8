import Bonka.Client
import Mathlib.Data.List.Induction

/-!
# The connection state of the Python client

`connect` and `disconnect` beside the calls that exchange a request, on the sockets the client has
created so far.  Whatever may raise is told by an argument.  The caller reads `connected` between
its calls: `Truthful` says the flag can be relied on, `Disconnected` what a `disconnect` promises,
and `client_truthful_iff` which runs keep both.
-/

namespace Bonka

/-- A socket the client has created: whether its `connect` succeeded, and whether it is closed. -/
structure SocketObject where
  connected : Bool := false
  closed : Bool := false
deriving DecidableEq, Repr

/-- A `BonkaClient` with every socket it has created; `socket` is the number of `self.socket`. -/
structure ClientObject where
  sockets : List SocketObject := []
  socket : Option ℕ := none
  connected : Bool := false
  requestId : ℕ := 0
deriving DecidableEq, Repr

/-- One of the two attempts of `connect`: the socket is not created, or is created and then an
option, the timeout or its `connect` raises, or it connects. -/
inductive Attempt
  | createRaises (error : PyError)
  | connectRaises (error : PyError)
  | connects
deriving DecidableEq, Repr

/-- `Exception(f"Failed to connect: IPv4 error: {e}, IPv6 error: {e6}")`. -/
structure ConnectError where
  ipv4 : PyError
  ipv6 : PyError
deriving DecidableEq, Repr

namespace ClientObject

/-- `BonkaClient()`. -/
def new : ClientObject := {}

/-- `self.socket = socket.socket(..)`, and whether it has connected. -/
def createSocket (client : ClientObject) (connected : Bool) : ClientObject :=
  { client with
    sockets := client.sockets ++ [{ connected }]
    socket := some client.sockets.length }

/-- The body of a `try` block of `connect`. -/
def attempt (client : ClientObject) : Attempt → Except PyError Unit × ClientObject
  | .createRaises error => (.error error, client)
  | .connectRaises error => (.error error, client.createSocket false)
  | .connects => (.ok (), { client.createSocket true with connected := true })

def connect (client : ClientObject) (ipv4 ipv6 : Attempt) :
    Except ConnectError Unit × ClientObject :=
  match client.attempt ipv4 with
  | (.ok (), client) => (.ok (), client)
  | (.error e, client) =>
      match client.attempt ipv6 with
      | (.ok (), client) => (.ok (), client)
      | (.error e6, client) => (.error ⟨e, e6⟩, client)

/-- `_send_request`, which leaves the client as it is; `outcome` is what happens from `sendall`
to the parsed response. -/
def sendRequest (client : ClientObject) (outcome : Except PyError Proto.Response) :
    Except PyError Proto.Response :=
  if client.connected then outcome else .error .notConnected

/-- The request of a `get`, `set`, `delete` or `list`, and its response. -/
def exchange (client : ClientObject) (call : ClientCall) (timestamp : UInt64)
    (outcome : Except PyError Proto.Response) : Except PyError Proto.Response × ClientObject :=
  match call.prepare client.requestId timestamp with
  | (.ok _, requestId) => (client.sendRequest outcome, { client with requestId })
  | (.error error, requestId) => (.error error, { client with requestId })

def sendExitCommand (client : ClientObject) (timestamp : UInt64)
    (outcome : Except PyError Proto.Response) : Except PyError Unit × ClientObject :=
  let requestId := client.requestId + 1
  match buildRequest requestId timestamp .commandExit none none with
  | .ok _ => ((client.sendRequest outcome).map fun _ => (), { client with requestId })
  | .error error => (.error error, { client with requestId })

/-- `self.socket.close()`. -/
def closeSocket (client : ClientObject) : ClientObject :=
  match client.socket with
  | some i => { client with sockets := client.sockets.modify i ({ · with closed := true }) }
  | none => client

def disconnect (client : ClientObject) (timestamp : UInt64)
    (outcome : Except PyError Proto.Response) : Except PyError Unit × ClientObject :=
  if client.connected then
    match client.sendExitCommand timestamp outcome with
    | (.ok (), client) => (.ok (), { client.closeSocket with connected := false })
    | (.error error, client) => (.error error, client)
  else (.ok (), client)

/-- The flag is right: a client that is `connected` has a socket whose `connect` succeeded and that
is not closed. -/
def Truthful (client : ClientObject) : Prop :=
  client.connected = true →
    ∃ i, client.socket = some i ∧ client.sockets[i]? = some { connected := true, closed := false }

/-- What a `disconnect` promises: the client is not `connected`, and the socket it used, if it
was, is closed. -/
def Disconnected (before after : ClientObject) : Prop :=
  after.connected = false ∧
    (before.connected = true → ∃ i socket, before.socket = some i ∧
      after.sockets[i]? = some socket ∧ socket.closed = true)

/-! ## The exchange in detail -/

section

variable {σ : Type} (codec : PyCodec) (delivery : Delivery)
  (peer : σ → Wire.Bytes → Wire.Bytes × σ)

/-- `_send_request` changes the socket only. -/
theorem sendRequest_keeps (stream : BonkaClient) (request : Proto.Request) (other : σ) :
    (BonkaClient.sendRequest codec delivery peer stream request other).2.1.connected =
        stream.connected ∧
      (BonkaClient.sendRequest codec delivery peer stream request other).2.1.requestId =
        stream.requestId := by
  unfold BonkaClient.sendRequest
  split
  · dsimp only
    split
    · split
      · split <;> exact ⟨rfl, rfl⟩
      · exact ⟨rfl, rfl⟩
    · exact ⟨rfl, rfl⟩
  · exact ⟨rfl, rfl⟩

/-- The client on a stream of bytes, whatever the other side and the network do, has the exchange
that is given its own result as the outcome. -/
theorem exchange_of_stream (client : ClientObject) (stream : BonkaClient)
    (sameFlag : stream.connected = client.connected)
    (sameId : stream.requestId = client.requestId) (call : ClientCall) (timestamp : UInt64)
    (other : σ) {result : Except PyError Proto.Response} {stream' : BonkaClient} {other' : σ}
    (exchanged : BonkaClient.exchange codec delivery peer stream call timestamp other =
      (result, stream', other')) :
    (client.exchange call timestamp result).1 = result ∧
      (client.exchange call timestamp result).2.connected = stream'.connected ∧
      (client.exchange call timestamp result).2.requestId = stream'.requestId := by
  simp only [BonkaClient.exchange, sameId] at exchanged
  simp only [exchange]
  generalize call.prepare client.requestId timestamp = prepared at exchanged ⊢
  obtain ⟨error | request, requestId⟩ := prepared
  · cases exchanged
    exact ⟨rfl, sameFlag.symm, rfl⟩
  · have keeps := sendRequest_keeps codec delivery peer { stream with requestId } request other
    dsimp only at exchanged
    rw [exchanged] at keeps
    refine ⟨?_, sameFlag.symm.trans keeps.1.symm, keeps.2.symm⟩
    simp only [sendRequest]
    split
    · rfl
    · rename_i off
      simp only [BonkaClient.sendRequest, sameFlag, off] at exchanged
      exact (Prod.mk.inj exchanged).1

end

/-! ## One call -/

variable {client : ClientObject}

theorem Truthful.new : ClientObject.new.Truthful := by
  intro on
  cases on

/-- A client whose flag and sockets are as before. -/
theorem Truthful.keep (truthful : client.Truthful) (requestId : ℕ) :
    ({ client with requestId } : ClientObject).Truthful := truthful

theorem truthful_connects (client : ClientObject) :
    ({ client.createSocket true with connected := true } : ClientObject).Truthful := by
  intro _
  refine ⟨client.sockets.length, rfl, ?_⟩
  simp [createSocket]

/-- A socket that has not connected cannot stand behind the flag. -/
theorem not_truthful_createSocket (on : client.connected = true) :
    ¬ (client.createSocket false).Truthful := by
  intro truthful
  obtain ⟨i, here, found⟩ := truthful on
  cases here
  simp [createSocket] at found

theorem truthful_off (off : ¬ client.connected = true) : client.Truthful :=
  fun on => absurd on off

end ClientObject

/-- A call of the caller, with what it meets. -/
inductive PyCall
  | connect (ipv4 ipv6 : Attempt)
  | disconnect (timestamp : UInt64) (outcome : Except PyError Proto.Response)
  | exchange (call : ClientCall) (timestamp : UInt64) (outcome : Except PyError Proto.Response)

namespace PyCall

/-- The client after the call; the caller goes on if it raises. -/
def apply (client : ClientObject) : PyCall → ClientObject
  | .connect ipv4 ipv6 => (client.connect ipv4 ipv6).2
  | .disconnect timestamp outcome => (client.disconnect timestamp outcome).2
  | .exchange call timestamp outcome => (client.exchange call timestamp outcome).2

/-- A `connect` of a client that is `connected` succeeds, or fails without having created a socket,
and a `disconnect` of one gets its answer to the `EXIT`. -/
def Safe (client : ClientObject) : PyCall → Prop
  | .connect ipv4 ipv6 => client.connected = true →
      ipv4 = .connects ∨ ipv6 = .connects ∨
        ∃ e e6, ipv4 = .createRaises e ∧ ipv6 = .createRaises e6
  | .disconnect _ outcome => client.connected = true →
      client.requestId + 1 < 2 ^ 64 ∧ ∃ response, outcome = .ok response
  | .exchange _ _ _ => True

/-- What the call promises, from the state before it to the state after it. -/
def Keeps (before after : ClientObject) : PyCall → Prop
  | .disconnect _ _ => after.Truthful ∧ before.Disconnected after
  | _ => after.Truthful

end PyCall

namespace ClientObject

variable {client : ClientObject}

/-- A `connect` leaves a truthful flag exactly when it is safe. -/
theorem truthful_connect_iff (truthful : client.Truthful) (ipv4 ipv6 : Attempt) :
    (client.connect ipv4 ipv6).2.Truthful ↔ (PyCall.connect ipv4 ipv6).Safe client := by
  by_cases on : client.connected = true
  · simp only [PyCall.Safe, on, true_implies]
    cases ipv4 with
    | connects => exact iff_of_true (truthful_connects client) (.inl rfl)
    | createRaises e =>
        cases ipv6 with
        | connects => exact iff_of_true (truthful_connects client) (.inr (.inl rfl))
        | createRaises e6 => exact iff_of_true truthful (.inr (.inr ⟨e, e6, rfl, rfl⟩))
        | connectRaises e6 => exact iff_of_false (not_truthful_createSocket on) (by simp)
    | connectRaises e =>
        cases ipv6 with
        | connects =>
            exact iff_of_true (truthful_connects (client.createSocket false)) (.inr (.inl rfl))
        | createRaises e6 => exact iff_of_false (not_truthful_createSocket on) (by simp)
        | connectRaises e6 =>
            exact iff_of_false (@not_truthful_createSocket (client.createSocket false) on) (by simp)
  · refine iff_of_true ?_ fun contra => absurd contra on
    cases ipv4 with
    | connects => exact truthful_connects client
    | createRaises e =>
        cases ipv6 with
        | connects => exact truthful_connects client
        | createRaises e6 => exact truthful
        | connectRaises e6 => exact @truthful_off (client.createSocket false) on
    | connectRaises e =>
        cases ipv6 with
        | connects => exact truthful_connects (client.createSocket false)
        | createRaises e6 => exact @truthful_off (client.createSocket false) on
        | connectRaises e6 =>
            exact @truthful_off ((client.createSocket false).createSocket false) on

theorem sendExitCommand_of_fits (on : client.connected = true) {timestamp : UInt64}
    (outcome : Except PyError Proto.Response) (fits : client.requestId + 1 < 2 ^ 64) :
    client.sendExitCommand timestamp outcome =
      (outcome.map fun _ => (), { client with requestId := client.requestId + 1 }) := by
  simp only [sendExitCommand, buildRequest, if_pos fits, sendRequest, if_pos on]

theorem sendExitCommand_of_overflow {timestamp : UInt64}
    (outcome : Except PyError Proto.Response) (overflow : ¬ client.requestId + 1 < 2 ^ 64) :
    client.sendExitCommand timestamp outcome =
      (.error .valueError, { client with requestId := client.requestId + 1 }) := by
  simp only [sendExitCommand, buildRequest, if_neg overflow]

/-- A `disconnect` that gets its answer closes the socket and clears the flag. -/
theorem disconnect_of_answer (on : client.connected = true) {timestamp : UInt64}
    {response : Proto.Response} (fits : client.requestId + 1 < 2 ^ 64) :
    (client.disconnect timestamp (.ok response)).2 =
      { ({ client with requestId := client.requestId + 1 } : ClientObject).closeSocket with
        connected := false } := by
  rw [disconnect, if_pos on, sendExitCommand_of_fits on _ fits]
  rfl

/-- A `disconnect` whose `EXIT` raises leaves the flag set. -/
theorem disconnect_of_raise (timestamp : UInt64) {outcome : Except PyError Proto.Response}
    (on : client.connected = true)
    (raises : ¬ (client.requestId + 1 < 2 ^ 64 ∧ ∃ response, outcome = .ok response)) :
    (client.disconnect timestamp outcome).2.connected = true := by
  rw [disconnect, if_pos on]
  by_cases fits : client.requestId + 1 < 2 ^ 64
  · cases outcome with
    | ok response => exact absurd ⟨fits, response, rfl⟩ raises
    | error error =>
        rw [sendExitCommand_of_fits on _ fits]
        exact on
  · rw [sendExitCommand_of_overflow _ fits]
    exact on

/-- **One call keeps its promise exactly when it is safe.** -/
theorem keeps_iff_safe (truthful : client.Truthful) (call : PyCall) :
    call.Keeps client (call.apply client) ↔ call.Safe client := by
  cases call with
  | connect ipv4 ipv6 => exact truthful_connect_iff truthful ipv4 ipv6
  | exchange call timestamp outcome =>
      refine iff_of_true ?_ trivial
      simp only [PyCall.Keeps, PyCall.apply, exchange]
      split
      · exact truthful
      · exact truthful
  | disconnect timestamp outcome =>
      simp only [PyCall.Keeps, PyCall.apply, PyCall.Safe]
      by_cases on : client.connected = true
      · constructor
        · intro kept _
          by_contra raises
          have still := disconnect_of_raise timestamp on raises
          rw [kept.2.1] at still
          cases still
        · intro safe
          obtain ⟨fits, response, rfl⟩ := safe on
          rw [disconnect_of_answer on fits]
          refine ⟨truthful_off (by simp), rfl, fun _ => ?_⟩
          obtain ⟨i, here, found⟩ := truthful on
          refine ⟨i, { connected := true, closed := true }, here, ?_, rfl⟩
          simp [closeSocket, here, found]
      · refine iff_of_true ?_ fun contra => absurd contra on
        rw [disconnect, if_neg on]
        exact ⟨truthful, by simpa using on, fun contra => absurd contra on⟩

end ClientObject

/-! ## Runs -/

def runCalls (calls : List PyCall) : ClientObject := calls.foldl PyCall.apply .new

theorem runCalls_snoc (calls : List PyCall) (call : PyCall) :
    runCalls (calls ++ [call]) = call.apply (runCalls calls) := by
  simp [runCalls]

/-- A run of safe calls ends with a truthful flag. -/
theorem truthful_of_safe {calls : List PyCall}
    (safe : ∀ earlier call, earlier ++ [call] <+: calls → call.Safe (runCalls earlier)) :
    (runCalls calls).Truthful := by
  induction calls using List.reverseRecOn with
  | nil => exact .new
  | append_singleton calls call ih =>
      have truthful := ih fun earlier call before =>
        safe earlier call (before.trans (List.prefix_append _ _))
      have kept := (ClientObject.keeps_iff_safe truthful call).mpr
        (safe calls call List.prefix_rfl)
      rw [runCalls_snoc]
      cases call with
      | disconnect => exact kept.1
      | connect | exchange => exact kept

/-- **The client's state is truthful exactly in the runs whose calls are all safe.**  Then the flag
is right after every call, and every `disconnect` ends with the flag cleared and its socket
closed. -/
theorem client_truthful_iff (calls : List PyCall) :
    ((∀ earlier, earlier <+: calls → (runCalls earlier).Truthful) ∧
        ∀ earlier timestamp outcome, earlier ++ [.disconnect timestamp outcome] <+: calls →
          (runCalls earlier).Disconnected
            (runCalls (earlier ++ [.disconnect timestamp outcome]))) ↔
      ∀ earlier call, earlier ++ [call] <+: calls → call.Safe (runCalls earlier) := by
  constructor
  · intro holds earlier call before
    rcases holds with ⟨truthful, disconnected⟩
    have start := truthful earlier ((List.prefix_append _ _).trans before)
    apply (ClientObject.keeps_iff_safe start call).mp
    have after := truthful _ before
    cases call with
    | connect | exchange => rwa [runCalls_snoc] at after
    | disconnect timestamp outcome =>
        have ended := disconnected earlier timestamp outcome before
        rw [runCalls_snoc] at after ended
        exact ⟨after, ended⟩
  · intro safe
    have truthful : ∀ earlier, earlier <+: calls → (runCalls earlier).Truthful :=
      fun earlier before => truthful_of_safe fun first call here =>
        safe first call (here.trans before)
    refine ⟨truthful, fun earlier timestamp outcome before => ?_⟩
    have start := truthful earlier ((List.prefix_append _ _).trans before)
    rw [runCalls_snoc]
    exact ((ClientObject.keeps_iff_safe start _).mpr (safe earlier _ before)).2

/-- After a `disconnect` whose `EXIT` finds the connection closed, the client is still `connected`
and its socket open; after a second `connect` that fails, it is `connected` on a socket that is
not. -/
theorem client_untruthful :
    ¬ (runCalls [.connect .connects .connects]).Disconnected
        (runCalls [.connect .connects .connects, .disconnect 0 (.error .connectionClosed)]) ∧
      ¬ (runCalls [.connect .connects .connects,
        .connect (.connectRaises .socketError) (.connectRaises .socketError)]).Truthful := by
  refine ⟨fun ended => ?_, fun truthful => ?_⟩
  · exact absurd ended.1 (by decide)
  · obtain ⟨i, here, found⟩ := truthful rfl
    cases here
    revert found
    decide

end Bonka
