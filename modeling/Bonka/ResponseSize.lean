import Bonka.ServerRun

/-!
# Responses that fit a frame

The same limit holds for the frames the server accepts and for those it sends, but a response can
be longer than the requests it comes from: a `LIST` carries every key, a `GET` the stored value
under a longer header and a failed `DELETE` its key inside an error text.  `ReplyFits` says for
every request and store whether the response fits, and `send_response` succeeds exactly then
(`sendResponse_ok_iff`).  Of the protobuf crate this takes only the length of an encoded response;
which frames decode, and to what, is left open.
-/

namespace Bonka

open Wire

namespace Proto

/-! ## Lengths of the messages -/

def implicitSize (n : UInt64) : ℕ := if n = 0 then 0 else 1 + varintLength n.toNat

def optionalSize {α : Type} (size : α → ℕ) (value : Option α) : ℕ :=
  value.elim 0 fun a => 1 + size a

def Value.size (value : Value) : ℕ :=
  match value.value with
  | some (.stringValue s) => 1 + delimitedLength s.utf8ByteSize
  | some (.bytesValue b) => 1 + delimitedLength b.length
  | some (.intValue i) => 1 + varintLength i.toUInt64.toNat
  | some (.uintValue u) => 1 + varintLength u.toNat
  | some (.floatValue _) => 9
  | some (.boolValue _) => 2
  | none => 0

/-- The fields every response starts with. -/
def headerSize (response : Response) : ℕ :=
  optionalSize (fun id : UInt64 => varintLength id.toNat) response.id +
    implicitSize response.timestamp + implicitSize (enumBits response.resultType)

def Response.size (response : Response) : ℕ :=
  headerSize response + optionalSize (fun value => delimitedLength value.size) response.value +
    (response.keys.map fun key => 1 + delimitedLength key.utf8ByteSize).sum +
    optionalSize (fun error : String => delimitedLength error.utf8ByteSize) response.error

theorem Value.encode_le_iff (value : Value) {limit : ℕ} (limited : limit < 2 ^ 64) :
    value.encode.length ≤ limit ↔ value.size ≤ limit := by
  have same : (value.toFields.map Field.length).sum = value.size := by
    rcases value with ⟨_ | s | b | i | u | f | b⟩
    · rfl
    · simp [Value.toFields, Value.size, Field.length, Payload.length]
    · rfl
    · rfl
    · rfl
    · rfl
    · cases b <;> decide
  rw [← same]
  refine length_encodeFields_le_iff ?_ limited
  rcases value with ⟨_ | s | b | i | u | f | b⟩ <;> simp [Value.toFields]

/-- Two lengths on the same side of every limit have prefixed lengths on the same side. -/
theorem delimited_le_iff {a b k limit : ℕ} (limited : limit < 2 ^ 64)
    (same : ∀ l < 2 ^ 64, a ≤ l ↔ b ≤ l) :
    k + delimitedLength a ≤ limit ↔ k + delimitedLength b ≤ limit := by
  by_cases small : a < 2 ^ 64
  · have le := (same a small).mp le_rfl
    have equal := le_antisymm ((same b (by omega)).mpr le_rfl) le
    rw [equal]
  · have large := mt (same (2 ^ 64 - 1) (by omega)).mpr (by omega)
    unfold delimitedLength
    omega

theorem sum_optional {α : Type} (number : ℕ) (payload : α → Payload) (value : Option α) :
    ((optional number payload value).map Field.length).sum =
      optionalSize (fun a => (payload a).length) value := by
  cases value <;> simp [optional, optionalSize, Field.length]

theorem sum_implicit (number : ℕ) (value : UInt64) :
    ((implicit number value).map Field.length).sum = implicitSize value := by
  unfold implicit implicitSize
  split <;> simp [Field.length, Payload.length]

theorem Response.encode_le_iff {response : Response} {limit : ℕ} (limited : limit < 2 ^ 64) :
    response.encode.length ≤ limit ↔ response.size ≤ limit := by
  rw [Response.encode, length_encodeFields_le_iff
    (fun _ member => (Response.number_toFields member).2) limited]
  have sum : (response.toFields.map Field.length).sum = headerSize response +
      optionalSize (fun value : Value => delimitedLength value.encode.length) response.value +
      (response.keys.map fun key => 1 + delimitedLength key.utf8ByteSize).sum +
      optionalSize (fun error : String => delimitedLength error.utf8ByteSize) response.error := by
    have keys : ((response.keys.map fun key => (⟨5, .bytes (utf8 key)⟩ : Field)).map
        Field.length).sum =
          (response.keys.map fun key => 1 + delimitedLength key.utf8ByteSize).sum := by
      rw [List.map_map]
      congr 2
    simp only [Response.toFields, List.map_append, List.sum_append, sum_optional, sum_implicit,
      keys, Payload.length, length_utf8, headerSize]
  rw [sum, Response.size]
  cases response.value with
  | none => rfl
  | some value =>
      have side := delimited_le_iff
        (k := headerSize response + 1 +
          (response.keys.map fun key => 1 + delimitedLength key.utf8ByteSize).sum +
          optionalSize (fun error : String => delimitedLength error.utf8ByteSize) response.error)
        limited fun l small => Value.encode_le_iff value small
      simp only [optionalSize, Option.elim] at side ⊢
      omega

theorem varintLength_le (n : UInt64) : varintLength n.toNat ≤ 10 := by
  have bound : n.toNat < 2 ^ 64 := n.toNat_lt
  have digits := Nat.log_lt_of_lt_pow' (b := 128) (x := 10) (y := n.toNat) (by omega) (by omega)
  rw [varintLength]
  omega

end Proto

open Proto

/-! ## Which responses fit -/

/-- The length of what precedes the result of a response. -/
def replyHeaderSize (timestamp : UInt64) (id : Option UInt64) : ℕ :=
  optionalSize (fun id : UInt64 => varintLength id.toNat) id + implicitSize timestamp + 2

/-- The response to the request fits a frame: the value read by a `GET`, the key in the error text
of a `DELETE` of an absent key or all the keys of a `LIST`, with the header, are within the limit.
Every other response is short. -/
def ReplyFits (timestamp : UInt64) (request : Request) (store : KeyValueStore) : Prop :=
  match request.getCommandType, request.key with
  | .commandGet, some key => ∀ value, store.view key = some value →
      replyHeaderSize timestamp request.id + (1 + delimitedLength value.size) ≤ maxFrameLength
  | .commandDelete, some key => store.view key = none →
      replyHeaderSize timestamp request.id + (1 + delimitedLength (key.utf8ByteSize + 16)) ≤
        maxFrameLength
  | .commandList, _ =>
      replyHeaderSize timestamp request.id +
        (store.data.keys.map fun key => 1 + delimitedLength key.utf8ByteSize).sum ≤ maxFrameLength
  | _, _ => True

/-- The response of `handle_client` to a frame, with the store after it. -/
def answerFrame (env : ServerEnv) (timestamp : UInt64) (order : IterOrder (String × Kv.Value))
    (frame : Bytes) (store : KeyValueStore) : Response × KeyValueStore :=
  match env.decodeRequest frame with
  | some request => processCommand timestamp order request store
  | none => (invalidRequestResponse timestamp, store)

theorem replyHeaderSize_le (timestamp : UInt64) (id : Option UInt64) :
    replyHeaderSize timestamp id ≤ 24 := by
  have time : implicitSize timestamp ≤ 11 := by
    have := varintLength_le timestamp
    unfold implicitSize
    split <;> omega
  unfold replyHeaderSize optionalSize
  cases id with
  | none => simp only [Option.elim]; omega
  | some id =>
      have := varintLength_le id
      simp only [Option.elim]
      omega

section

variable (timestamp : UInt64) (id : Option UInt64)

theorem size_createSuccessResponse :
    (createSuccessResponse timestamp id).size = replyHeaderSize timestamp id := rfl

theorem size_createExitResponse :
    (createExitResponse timestamp id).size = replyHeaderSize timestamp id := rfl

theorem size_createErrorResponse (message : String) :
    (createErrorResponse timestamp id message).size =
      replyHeaderSize timestamp id + (1 + delimitedLength message.utf8ByteSize) := rfl

theorem size_createValueResponse (value : Option Kv.Value) :
    (createValueResponse timestamp id value).size = replyHeaderSize timestamp id +
      optionalSize (fun value : Proto.Value => delimitedLength value.size)
        (value.map Kv.Value.toProto) := rfl

theorem size_createKeysResponse (keys : List String) :
    (createKeysResponse timestamp id keys).size = replyHeaderSize timestamp id +
      (keys.map fun key => 1 + delimitedLength key.utf8ByteSize).sum := rfl

end

/-- `encode_to_vec` of a response has the length of its proto3 encoding. -/
def ServerEnv.WireLength (env : ServerEnv) : Prop :=
  ∀ response, (env.encodeResponse response).length = response.encode.length

theorem ServerEnv.WireLength.proto3 (ids : IdSource) : (ServerEnv.proto3 ids).WireLength :=
  fun _ => rfl

/-- A response within the limit is one whose fields add up to no more. -/
theorem sendResponse_ok_iff_size {env : ServerEnv} (wire : env.WireLength) (response : Response) :
    (∃ bytes, sendResponse env response = .ok bytes) ↔ response.size ≤ maxFrameLength := by
  rw [← Response.encode_le_iff (by decide), ← wire response]
  unfold sendResponse
  constructor
  · intro holds
    rcases holds with ⟨bytes, sent⟩
    split at sent
    · assumption
    · cases sent
  · intro fits
    exact ⟨_, if_pos fits⟩

theorem sendResponse_of_long {env : ServerEnv} (wire : env.WireLength) {response : Response}
    (long : ¬ response.size ≤ maxFrameLength) :
    sendResponse env response = .error .sendResponse := by
  rw [← Response.encode_le_iff (by decide), ← wire response] at long
  exact if_neg long

/-- An error with a fixed text is short. -/
theorem size_createErrorResponse_le (timestamp : UInt64) (id : Option UInt64) (message : String)
    (short : message.utf8ByteSize < 128) :
    (createErrorResponse timestamp id message).size ≤ maxFrameLength := by
  have header := replyHeaderSize_le timestamp id
  rw [size_createErrorResponse, delimitedLength, varintLength, Nat.log_of_lt short]
  unfold maxFrameLength
  omega

theorem size_processCommand_le_iff (timestamp : UInt64) (order : IterOrder (String × Kv.Value))
    (request : Request) (store : KeyValueStore) :
    (processCommand timestamp order request store).1.size ≤ maxFrameLength ↔
      ReplyFits timestamp request store := by
  have header : replyHeaderSize timestamp request.id ≤ maxFrameLength := by
    have := replyHeaderSize_le timestamp request.id
    unfold maxFrameLength
    omega
  have keyless := size_createErrorResponse_le timestamp request.id
    "Key not provided" (by decide)
  unfold ReplyFits
  cases command : request.getCommandType with
  | commandGet =>
      cases found : request.key with
      | none => simpa [processCommand, command, handleGetCommand, found] using keyless
      | some key =>
          simp only [processCommand, command, handleGetCommand, found, size_createValueResponse,
            KeyValueStore.view]
          cases store.get key with
          | none => simpa [optionalSize] using header
          | some value => simp [optionalSize]
  | commandSet =>
      have valueless := size_createErrorResponse_le timestamp request.id "Value not provided"
        (by decide)
      cases found : request.key with
      | none => simpa [processCommand, command, handleSetCommand, found] using keyless
      | some key =>
          cases carried : request.value with
          | none =>
              simpa [processCommand, command, handleSetCommand, found, carried] using valueless
          | some value =>
              simpa [processCommand, command, handleSetCommand, found, carried,
                size_createSuccessResponse] using header
  | commandDelete =>
      cases found : request.key with
      | none => simpa [processCommand, command, handleDeleteCommand, found] using keyless
      | some key =>
          have text : ("Key '" ++ key ++ "' not found").utf8ByteSize = key.utf8ByteSize + 16 := by
            rw [String.utf8ByteSize_append, String.utf8ByteSize_append]
            have before : "Key '".utf8ByteSize = 5 := by decide
            have after : "' not found".utf8ByteSize = 11 := by decide
            omega
          have present := KeyValueStore.delete_fst store key
          simp only [processCommand, command, handleDeleteCommand, found]
          split <;> rename_i rest shape <;> rw [shape] at present
          · have stored : store.view key ≠ none := by
              intro absent
              simp [absent] at present
            simpa [size_createSuccessResponse, stored] using header
          · have absent : store.view key = none := by simpa using present.symm
            simp [size_createErrorResponse, absent, text]
  | commandList =>
      have same : ((store.list order).map fun key => 1 + delimitedLength key.utf8ByteSize).sum =
          (store.data.keys.map fun key => 1 + delimitedLength key.utf8ByteSize).sum :=
        ((store.list_perm order).map _).sum_nat
      simp only [processCommand, command, handleListCommand, size_createKeysResponse, same]
  | commandExit =>
      simpa [processCommand, command, size_createExitResponse] using header
  | commandUnspecified =>
      have unknown := size_createErrorResponse_le timestamp request.id
        "Unknown command" (by decide)
      simpa [processCommand, command] using unknown

/-- **`send_response` succeeds exactly when the reply fits.**  The reply to a frame that does not
decode always does. -/
theorem sendResponse_ok_iff {env : ServerEnv} (wire : env.WireLength) (timestamp : UInt64)
    (order : IterOrder (String × Kv.Value)) (frame : Bytes) (store : KeyValueStore) :
    (∃ bytes, sendResponse env (answerFrame env timestamp order frame store).1 = .ok bytes) ↔
      ∀ request, env.decodeRequest frame = some request →
        ReplyFits timestamp request store := by
  rw [sendResponse_ok_iff_size wire, answerFrame]
  cases env.decodeRequest frame with
  | none =>
      have short := size_createErrorResponse_le timestamp none "Invalid request format" (by decide)
      exact ⟨fun _ _ found => (nomatch found), fun _ => short⟩
  | some request =>
      simp only [Option.some.injEq, forall_eq']
      exact size_processCommand_le_iff timestamp order request store

/-- The reply to a `GET` of an absent key. -/
theorem sendResponse_ok_iff_get :
    ∃ bytes, sendResponse (.proto3 .byLength)
      (answerFrame (.proto3 .byLength) 0 default [24, 1, 34, 1, 97] .new).1 = .ok bytes := by
  rw [sendResponse_ok_iff (ServerEnv.WireLength.proto3 .byLength)]
  intro request decoded
  cases decoded
  intro value stored
  cases stored

/-- A key of `n` bytes. -/
def longKey : ℕ → String
  | 0 => ""
  | n + 1 => (longKey n).push 'a'

theorem utf8ByteSize_longKey (n : ℕ) : (longKey n).utf8ByteSize = n := by
  induction n with
  | zero => rfl
  | succ n ih =>
      have one : 'a'.utf8Size = 1 := by decide
      rw [longKey, String.utf8ByteSize_push, ih, one]

/-- The `DELETE` of an absent key of 8388601 bytes fills its frame, and the error text with the key
in it does not fit the reply. -/
theorem delete_of_longKey {key : String} (size : key.utf8ByteSize = 8388601) {request : Request}
    (shape : request = { commandType := 3, key := some key }) :
    request.encode.length ≤ maxFrameLength ∧ ∀ timestamp, ¬ ReplyFits timestamp request .new := by
  have log : Nat.log 128 8388601 = 3 := Nat.log_eq_of_pow_le_of_lt_pow (by omega) (by omega)
  have enum : implicitSize (enumBits 3) = 2 := by decide
  have absent : implicitSize 0 = 0 := rfl
  subst shape
  constructor
  · rw [Request.encode, length_encodeFields_le_iff
      (fun _ member => (Request.number_toFields member).2) (by decide)]
    simp only [Request.toFields, List.map_append, List.sum_append, sum_optional, sum_implicit,
      enum, absent, optionalSize, Option.elim, Payload.length, length_utf8, size, delimitedLength,
      varintLength, log]
    unfold maxFrameLength
    omega
  · intro timestamp fits
    have bound := fits rfl
    simp only [size, replyHeaderSize, delimitedLength, varintLength] at bound
    unfold maxFrameLength at bound
    omega

theorem delete_reply_too_long :
    ∃ frame : Bytes, frame.length ≤ maxFrameLength ∧ ∀ timestamp order,
      sendResponse (.proto3 .byLength)
        (answerFrame (.proto3 .byLength) timestamp order frame .new).1 = .error .sendResponse := by
  obtain ⟨key, size⟩ : ∃ key : String, key.utf8ByteSize = 8388601 := ⟨_, utf8ByteSize_longKey _⟩
  obtain ⟨length, refused⟩ := delete_of_longKey size rfl
  refine ⟨_, length, fun timestamp order => ?_⟩
  have decoded := Request.decode_encode (length.trans_lt (by decide))
  have long := mt (size_processCommand_le_iff timestamp order _ .new).mp (refused timestamp)
  rw [answerFrame, show (ServerEnv.proto3 .byLength).decodeRequest = Request.decode from rfl,
    decoded]
  exact sendResponse_of_long (.proto3 .byLength) long

end Bonka
