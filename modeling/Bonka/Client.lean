import Bonka.Server

/-!
# The Python client (`clients/python/bonka/client.py`)

The values a caller passes and gets back, the requests of the four calls, and `_send_request` on a
blocking socket.  The socket is the stream of the bytes that arrive, cut up by a `Delivery`; what
the other side does with a request is a function on its own state (`peer`), so that the client
runs against any server.  The protobuf package is a `PyCodec`.
-/

namespace Bonka

open Proto

/-! ## Python values -/

/-- A `str`, lone surrogates included. -/
structure PyStr where
  codePoints : List ℕ
deriving DecidableEq, Repr

/-- The text of a `str`, if it has no lone surrogate. -/
def PyStr.toUnicode (s : PyStr) : Option String :=
  (s.codePoints.mapM fun n : ℕ =>
    if n.isValidChar then some (Char.ofNat n) else none).map String.ofList

def PyStr.ofUnicode (s : String) : PyStr := ⟨s.toList.map Char.toNat⟩

inductive PyValue
  | str (s : PyStr)
  | bytes (b : Bytes)
  | int (n : ℤ)
  | float (f : F64)
  | bool (b : Bool)
  /-- A value of any other type. -/
  | object
deriving DecidableEq, Repr

inductive PyType
  | str
  | bytes
  | int
  | float
  | bool
deriving DecidableEq, Repr

/-- `isinstance(value, type)`: a `bool` is also an `int`. -/
def PyValue.isInstance : PyValue → PyType → Bool
  | .str _, .str | .bytes _, .bytes | .int _, .int | .float _, .float => true
  | .bool _, .int | .bool _, .bool => true
  | _, _ => false

/-- The number a value counts as. -/
def PyValue.toInt : PyValue → Option ℤ
  | .int n => some n
  | .bool b => some (if b then 1 else 0)
  | _ => none

inductive PyError
  | notConnected
  | connectionClosed
  /-- A timeout or another error of the socket. -/
  | socketError
  | structError
  | decodeError
  | unicodeError
  | valueError
  | typeError
  | errorFromServer (message : String)
deriving DecidableEq, Repr

/-! ## The fields of the protobuf `Value` -/

def setStringValue : PyValue → Except PyError Proto.Value
  | .str s =>
      match s.toUnicode with
      | some s => .ok ⟨some (.stringValue s)⟩
      | none => .error .unicodeError
  | _ => .error .typeError

def setBytesValue : PyValue → Except PyError Proto.Value
  | .bytes b => .ok ⟨some (.bytesValue b)⟩
  | _ => .error .typeError

def setIntValue (value : PyValue) : Except PyError Proto.Value :=
  match value.toInt with
  | some n =>
      if -2 ^ 63 ≤ n ∧ n < 2 ^ 63 then .ok ⟨some (.intValue (Int64.ofInt n))⟩
      else .error .valueError
  | none => .error .typeError

def setUintValue (value : PyValue) : Except PyError Proto.Value :=
  match value.toInt with
  | some n =>
      if 0 ≤ n ∧ n < 2 ^ 64 then .ok ⟨some (.uintValue (UInt64.ofNat n.toNat))⟩
      else .error .valueError
  | none => .error .typeError

def setFloatValue : PyValue → Except PyError Proto.Value
  | .float f => .ok ⟨some (.floatValue f)⟩
  | _ => .error .typeError

def setBoolValue : PyValue → Except PyError Proto.Value
  | .bool b => .ok ⟨some (.boolValue b)⟩
  | _ => .error .typeError

/-- The dispatch of `BonkaClient.set` on the type of the value. -/
def protoValue (value : PyValue) : Except PyError Proto.Value :=
  if value.isInstance .str then setStringValue value
  else if value.isInstance .bytes then setBytesValue value
  else if value.isInstance .int then
    if value.toInt.any (· < 0) then setIntValue value else setUintValue value
  else if value.isInstance .float then setFloatValue value
  else if value.isInstance .bool then setBoolValue value
  else .error .typeError

/-- The dispatch of `BonkaClient.get` on the field that is set. -/
def pyValue (value : Proto.Value) : Option PyValue :=
  match value.value with
  | some (.stringValue s) => some (.str (.ofUnicode s))
  | some (.bytesValue b) => some (.bytes b)
  | some (.intValue i) => some (.int i.toInt)
  | some (.uintValue u) => some (.int u.toNat)
  | some (.floatValue f) => some (.float f)
  | some (.boolValue b) => some (.bool b)
  | none => none

/-! ## Requests -/

inductive ClientCall
  | get (key : PyStr)
  | set (key : PyStr) (value : PyValue)
  | delete (key : PyStr)
  | list
deriving DecidableEq, Repr

/-- `Request(id=.., timestamp=.., command_type=.., key=.., value=..)`. -/
def buildRequest (id : ℕ) (timestamp : UInt64) (command : CommandType) (key : Option PyStr)
    (value : Option Proto.Value) : Except PyError Request :=
  if id < 2 ^ 64 then
    match key with
    | none =>
        .ok { id := some (UInt64.ofNat id), timestamp, commandType := command.toInt32, value }
    | some key =>
        match key.toUnicode with
        | some key =>
            .ok { id := some (UInt64.ofNat id), timestamp, commandType := command.toInt32,
                  key := some key, value }
        | none => .error .unicodeError
  else .error .valueError

/-- The request of a call, with the next request id, and `request_id` after it. -/
def ClientCall.prepare (call : ClientCall) (requestId : ℕ) (timestamp : UInt64) :
    Except PyError Request × ℕ :=
  match call with
  | .get key =>
      (buildRequest (requestId + 1) timestamp .commandGet (some key) none, requestId + 1)
  | .set key value =>
      match protoValue value with
      | .ok value =>
          (buildRequest (requestId + 1) timestamp .commandSet (some key) (some value),
            requestId + 1)
      | .error error => (.error error, requestId)
  | .delete key =>
      (buildRequest (requestId + 1) timestamp .commandDelete (some key) none, requestId + 1)
  | .list => (buildRequest (requestId + 1) timestamp .commandList none none, requestId + 1)

theorem buildRequest_id {id : ℕ} {timestamp : UInt64} {command : CommandType}
    {key : Option PyStr} {value : Option Proto.Value} {request : Request}
    (built : buildRequest id timestamp command key value = .ok request) :
    request.id = some (UInt64.ofNat id) := by
  unfold buildRequest at built
  split at built
  · split at built
    · cases built
      rfl
    · split at built <;> cases built
      rfl
  · cases built

/-- A request carries the id that `_next_id` gave it. -/
theorem ClientCall.prepare_id {call : ClientCall} {requestId next : ℕ} {timestamp : UInt64}
    {request : Request} (prepared : call.prepare requestId timestamp = (.ok request, next)) :
    request.id = some (UInt64.ofNat next) := by
  cases call with
  | set key value =>
      simp only [prepare] at prepared
      split at prepared
      · obtain ⟨built, rfl⟩ := Prod.mk.inj prepared
        exact buildRequest_id built
      · cases prepared
  | get key | delete key | list =>
      obtain ⟨built, rfl⟩ := Prod.mk.inj prepared
      exact buildRequest_id built

/-! ## The socket -/

/-- The stream of the bytes that arrive and have not been read, and the number of `recv` calls so
far. -/
structure PySocket where
  incoming : Bytes
  recvs : ℕ
deriving DecidableEq, Repr

/-- Call `i` of `recv` finds at most `delivery i + 1` bytes. -/
abbrev Delivery := ℕ → ℕ

/-- `socket.recv(n)`. -/
def PySocket.recv (delivery : Delivery) (socket : PySocket) (n : ℕ) : Bytes × PySocket :=
  let count := min n (delivery socket.recvs + 1)
  (socket.incoming.take count, ⟨socket.incoming.drop count, socket.recvs + 1⟩)

/-- `struct.unpack(">I", bytes)` takes exactly four bytes. -/
def unpackLength (bytes : Bytes) : Option ℕ :=
  if bytes.length = 4 then some (Wire.ofBeBytes bytes) else none

/-- `while len(response_bytes) < length`. -/
def recvBody (delivery : Delivery) (length : ℕ) (responseBytes : Bytes) (socket : PySocket) :
    Except PyError Bytes × PySocket :=
  if responseBytes.length < length then
    match socket.recv delivery (length - responseBytes.length) with
    | ([], socket) => (.error .connectionClosed, socket)
    | (byte :: chunk, socket) => recvBody delivery length (responseBytes ++ byte :: chunk) socket
  else (.ok responseBytes, socket)
termination_by length - responseBytes.length
decreasing_by
  simp only [List.length_append, List.length_cons]
  omega

/-- The second half of `_send_request`: the bytes handed to `ParseFromString`. -/
def recvResponse (delivery : Delivery) (socket : PySocket) : Except PyError Bytes × PySocket :=
  match socket.recv delivery 4 with
  | ([], socket) => (.error .connectionClosed, socket)
  | (byte :: rest, socket) =>
      match unpackLength (byte :: rest) with
      | some length => recvBody delivery length [] socket
      | none => (.error .structError, socket)

/-! ## The client -/

/-- `SerializeToString` of a request and `ParseFromString` of a response. -/
structure PyCodec where
  serialize : Request → Bytes
  parse : Bytes → Option Response

structure BonkaClient where
  socket : PySocket
  connected : Bool
  requestId : ℕ
deriving DecidableEq, Repr

section

variable {σ : Type} (codec : PyCodec) (delivery : Delivery) (peer : σ → Bytes → Bytes × σ)

/-- `_send_request`; the other side answers the payload of the frame it gets. -/
def BonkaClient.sendRequest (client : BonkaClient) (request : Request) (other : σ) :
    Except PyError Response × BonkaClient × σ :=
  if client.connected then
    let data := codec.serialize request
    -- `struct.pack(">I", len(data))`
    if data.length < 2 ^ 32 then
      let (answer, other) := peer other data
      let socket := { client.socket with incoming := client.socket.incoming ++ answer }
      match recvResponse delivery socket with
      | (.ok responseBytes, socket) =>
          match codec.parse responseBytes with
          | some response => (.ok response, { client with socket }, other)
          | none => (.error .decodeError, { client with socket }, other)
      | (.error error, socket) => (.error error, { client with socket }, other)
    else (.error .structError, client, other)
  else (.error .notConnected, client, other)

/-- What the four calls have in common: the request and its response. -/
def BonkaClient.exchange (client : BonkaClient) (call : ClientCall) (timestamp : UInt64)
    (other : σ) : Except PyError Response × BonkaClient × σ :=
  match call.prepare client.requestId timestamp with
  | (.ok request, requestId) =>
      BonkaClient.sendRequest codec delivery peer { client with requestId } request other
  | (.error error, requestId) => (.error error, { client with requestId }, other)

/-- What `get` makes of its response. -/
def getResult (response : Response) : Except PyError (Option PyValue) :=
  match response.getResultType with
  | .resultValue => .ok (pyValue (response.value.getD ⟨none⟩))
  | .resultError => .error (.errorFromServer (response.error.getD ""))
  | _ => .ok none

/-- What `set` makes of its response. -/
def setResult (response : Response) : Except PyError Unit :=
  match response.getResultType with
  | .resultError => .error (.errorFromServer (response.error.getD ""))
  | _ => .ok ()

/-- What `delete` makes of its response. -/
def deleteResult (response : Response) : Bool :=
  match response.getResultType with
  | .resultSuccess => true
  | .resultError => false
  | _ => false

/-- What `list` makes of its response. -/
def listResult (response : Response) : Except PyError (List PyStr) :=
  match response.getResultType with
  | .resultKeys => .ok (response.keys.map PyStr.ofUnicode)
  | .resultError => .error (.errorFromServer (response.error.getD ""))
  | _ => .ok []

def BonkaClient.get (client : BonkaClient) (key : PyStr) (timestamp : UInt64) (other : σ) :
    Except PyError (Option PyValue) × BonkaClient × σ :=
  let (response, after) :=
    BonkaClient.exchange codec delivery peer client (.get key) timestamp other
  (response.bind getResult, after)

def BonkaClient.set (client : BonkaClient) (key : PyStr) (value : PyValue) (timestamp : UInt64)
    (other : σ) : Except PyError Unit × BonkaClient × σ :=
  let (response, after) :=
    BonkaClient.exchange codec delivery peer client (.set key value) timestamp other
  (response.bind setResult, after)

def BonkaClient.delete (client : BonkaClient) (key : PyStr) (timestamp : UInt64) (other : σ) :
    Except PyError Bool × BonkaClient × σ :=
  let (response, after) :=
    BonkaClient.exchange codec delivery peer client (.delete key) timestamp other
  (response.map deleteResult, after)

def BonkaClient.list (client : BonkaClient) (timestamp : UInt64) (other : σ) :
    Except PyError (List PyStr) × BonkaClient × σ :=
  let (response, after) :=
    BonkaClient.exchange codec delivery peer client .list timestamp other
  (response.bind listResult, after)

end

end Bonka
