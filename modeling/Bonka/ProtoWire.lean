import Bonka.Proto
import Mathlib.Data.Nat.Log

/-!
# The messages on the wire

The proto3 encoding of the messages, as the Rust and the Python side both write it: fields in the
order of their numbers, a default left out unless the field is `optional`, an enumeration as its
sign-extended number.

The decoders that the protobuf packages generate are parameters of the server and of the client.
The ones here read back what the encoders write, for runs on fixed inputs: they start from the
default message, merge one field after the other and pass over other fields.  Every message comes
back from its encoding when it is short enough for the length prefixes (`Request.decode_encode`,
`Response.decode_encode`).
-/

namespace Bonka

open Wire

/-- The UTF-8 bytes of a string. -/
def utf8 (s : String) : Bytes := s.toUTF8.data.toList

def ofUtf8 (bytes : Bytes) : Option String := String.fromUTF8? ⟨bytes.toArray⟩

@[simp] theorem ofUtf8_utf8 (s : String) : ofUtf8 (utf8 s) = some s := by
  have same : (⟨(utf8 s).toArray⟩ : ByteArray) = s.toUTF8 := rfl
  have valid : s.toUTF8.IsValidUTF8 := s.isValidUTF8
  rw [ofUtf8, same, String.fromUTF8?, dif_pos valid]
  rfl

@[simp] theorem length_utf8 (s : String) : (utf8 s).length = s.utf8ByteSize := by
  rw [utf8, Array.length_toList]
  rfl

namespace Proto

/-- Run a decoder that merges one field into the message, over all fields of the input. -/
def mergeAll {M : Type} (merge : M → Field → Option M) (message : M) (bytes : Bytes) : Option M :=
  (decodeFields bytes).bind fun fields => fields.foldlM merge message

/-! ## Encoding -/

def Value.toFields (value : Value) : List Field :=
  match value.value with
  | some (.stringValue s) => [⟨1, .bytes (utf8 s)⟩]
  | some (.bytesValue b) => [⟨2, .bytes b⟩]
  | some (.intValue i) => [⟨3, .varint i.toUInt64⟩]
  | some (.uintValue u) => [⟨4, .varint u⟩]
  | some (.floatValue f) => [⟨5, .fixed64 f.bits⟩]
  | some (.boolValue b) => [⟨6, .varint b.toUInt64⟩]
  | none => []

def Value.encode (value : Value) : Bytes := encodeFields value.toFields

/-- A field that is written when it is set. -/
def optional {α : Type} (number : ℕ) (payload : α → Payload) (value : Option α) : List Field :=
  value.toList.map fun a => ⟨number, payload a⟩

/-- A number that is written unless it is zero. -/
def implicit (number : ℕ) (value : UInt64) : List Field :=
  if value = 0 then [] else [⟨number, .varint value⟩]

/-- An enumeration field, sign-extended. -/
def enumBits (n : Int32) : UInt64 := n.toInt64.toUInt64

def Request.toFields (request : Request) : List Field :=
  optional 1 .varint request.id ++ implicit 2 request.timestamp ++
    implicit 3 (enumBits request.commandType) ++
    optional 4 (fun key => .bytes (utf8 key)) request.key ++
    optional 5 (fun value : Value => .bytes value.encode) request.value

def Request.encode (request : Request) : Bytes := encodeFields request.toFields

def Response.toFields (response : Response) : List Field :=
  optional 1 .varint response.id ++ implicit 2 response.timestamp ++
    implicit 3 (enumBits response.resultType) ++
    optional 4 (fun value : Value => .bytes value.encode) response.value ++
    response.keys.map (fun key => ⟨5, .bytes (utf8 key)⟩) ++
    optional 6 (fun error => .bytes (utf8 error)) response.error

/-- `encode_to_vec`. -/
def Response.encode (response : Response) : Bytes := encodeFields response.toFields

/-! ## Decoding -/

def Value.merge (value : Value) (field : Field) : Option Value :=
  match field with
  | ⟨1, .bytes b⟩ => (ofUtf8 b).map fun s => ⟨some (.stringValue s)⟩
  | ⟨2, .bytes b⟩ => some ⟨some (.bytesValue b)⟩
  | ⟨3, .varint n⟩ => some ⟨some (.intValue n.toInt64)⟩
  | ⟨4, .varint n⟩ => some ⟨some (.uintValue n)⟩
  | ⟨5, .fixed64 n⟩ => some ⟨some (.floatValue ⟨n⟩)⟩
  | ⟨6, .varint n⟩ => some ⟨some (.boolValue (n != 0))⟩
  | ⟨number, _⟩ => if 1 ≤ number ∧ number ≤ 6 then none else some value

def ofEnumBits (n : UInt64) : Int32 := n.toInt64.toInt32

def Request.merge (request : Request) (field : Field) : Option Request :=
  match field with
  | ⟨1, .varint n⟩ => some { request with id := some n }
  | ⟨2, .varint n⟩ => some { request with timestamp := n }
  | ⟨3, .varint n⟩ => some { request with commandType := ofEnumBits n }
  | ⟨4, .bytes b⟩ => (ofUtf8 b).map fun key => { request with key := some key }
  | ⟨5, .bytes b⟩ =>
      (mergeAll Value.merge (request.value.getD ⟨none⟩) b).map fun value =>
        { request with value := some value }
  | ⟨number, _⟩ => if 1 ≤ number ∧ number ≤ 5 then none else some request

/-- Reads what `Request.encode` writes. -/
def Request.decode (bytes : Bytes) : Option Request := mergeAll Request.merge {} bytes

def Response.merge (response : Response) (field : Field) : Option Response :=
  match field with
  | ⟨1, .varint n⟩ => some { response with id := some n }
  | ⟨2, .varint n⟩ => some { response with timestamp := n }
  | ⟨3, .varint n⟩ => some { response with resultType := ofEnumBits n }
  | ⟨4, .bytes b⟩ =>
      (mergeAll Value.merge (response.value.getD ⟨none⟩) b).map fun value =>
        { response with value := some value }
  | ⟨5, .bytes b⟩ => (ofUtf8 b).map fun key => { response with keys := response.keys ++ [key] }
  | ⟨6, .bytes b⟩ => (ofUtf8 b).map fun error => { response with error := some error }
  | ⟨number, _⟩ => if 1 ≤ number ∧ number ≤ 6 then none else some response

/-- Reads what `Response.encode` writes. -/
def Response.decode (bytes : Bytes) : Option Response := mergeAll Response.merge {} bytes

/-! ## Round trips -/

@[simp] theorem ofEnumBits_enumBits (n : Int32) : ofEnumBits (enumBits n) = n := by
  simp [ofEnumBits, enumBits]

/-- A field of an encoding is no longer than the encoding. -/
theorem length_le_of_mem {fields : List Field} {number : ℕ} {bytes : Bytes}
    (member : ⟨number, .bytes bytes⟩ ∈ fields) :
    bytes.length ≤ (encodeFields fields).length := by
  obtain ⟨before, after, rfl⟩ := List.append_of_mem member
  simp only [encodeFields, List.flatMap_append, List.flatMap_cons, Field.encode, Payload.encode,
    encodeDelimited, List.length_append]
  omega

theorem mergeAll_encodeFields {M : Type} {merge : M → Field → Option M} {message : M}
    {fields : List Field} (numbers : ∀ f ∈ fields, 0 < f.number ∧ f.number < 16)
    (short : (encodeFields fields).length < 2 ^ 64) :
    mergeAll merge message (encodeFields fields) = fields.foldlM merge message := by
  have valid : ∀ f ∈ fields, f.Valid := by
    intro f member
    obtain ⟨pos, lt⟩ := numbers f member
    refine ⟨pos, lt.trans (by decide), fun {value} shape => ?_⟩
    obtain ⟨number, payload⟩ := f
    cases shape
    exact (length_le_of_mem member).trans_lt short
  rw [mergeAll, decodeFields_encodeFields valid, Option.bind_some]

section

variable {M : Type} {merge : M → Field → Option M} {message : M} {number : ℕ}

theorem foldlM_optional {α : Type} {payload : α → Payload} {value : Option α} :
    (optional number payload value).foldlM merge message =
      value.elim (some message) fun a => merge message ⟨number, payload a⟩ := by
  cases value <;> simp [optional]

theorem foldlM_implicit {value : UInt64} :
    (implicit number value).foldlM merge message =
      if value = 0 then some message else merge message ⟨number, .varint value⟩ := by
  unfold implicit
  split <;> simp

theorem number_optional {α : Type} {payload : α → Payload} {value : Option α} {field : Field}
    (member : field ∈ optional number payload value) : field.number = number := by
  obtain ⟨a, -, rfl⟩ := List.mem_map.mp member
  rfl

theorem number_implicit {value : UInt64} {field : Field} (member : field ∈ implicit number value) :
    field.number = number := by
  unfold implicit at member
  split at member
  · cases member
  · cases List.mem_singleton.mp member
    rfl

end

theorem Value.foldlM_merge (value : Value) :
    value.toFields.foldlM Value.merge ⟨none⟩ = some value := by
  rcases value with ⟨_ | s | b | i | u | f | b⟩
  · rfl
  · simp [Value.toFields, Value.merge]
  · rfl
  · simp [Value.toFields, Value.merge]
  · rfl
  · rfl
  · cases b <;> rfl

theorem Value.mergeAll_encode {value : Value} (short : value.encode.length < 2 ^ 64) :
    mergeAll Value.merge ⟨none⟩ value.encode = some value := by
  rw [Value.encode, mergeAll_encodeFields ?_ short, Value.foldlM_merge]
  rcases value with ⟨_ | s | b | i | u | f | b⟩ <;> simp [Value.toFields]

theorem Request.foldlM_merge {request : Request}
    (value : ∀ v, request.value = some v → mergeAll Value.merge ⟨none⟩ v.encode = some v) :
    request.toFields.foldlM Request.merge {} = some request := by
  obtain ⟨id, timestamp, commandType, key, v⟩ := request
  have first : (optional 1 .varint id).foldlM Request.merge {} = some { id } := by
    cases id <;> rfl
  have second : (implicit 2 timestamp).foldlM Request.merge { id } =
      some { id, timestamp } := by
    rw [foldlM_implicit]
    split
    · rename_i zero
      rw [zero]
    · rfl
  have third : (implicit 3 (enumBits commandType)).foldlM Request.merge { id, timestamp } =
      some { id, timestamp, commandType } := by
    rw [foldlM_implicit]
    split
    · rename_i zero
      rw [← ofEnumBits_enumBits commandType, zero]
      rfl
    · simp [Request.merge]
  have fourth : (optional 4 (fun key => .bytes (utf8 key)) key).foldlM Request.merge
      { id, timestamp, commandType } = some { id, timestamp, commandType, key } := by
    cases key with
    | none => rfl
    | some key => simp [foldlM_optional, Request.merge]
  have fifth : (optional 5 (fun value : Value => .bytes value.encode) v).foldlM Request.merge
      { id, timestamp, commandType, key } =
        some { id, timestamp, commandType, key, value := v } := by
    cases v with
    | none => rfl
    | some v => simp [foldlM_optional, Request.merge, value v rfl]
  simp only [Request.toFields, List.foldlM_append, first, second, third, fourth, fifth,
    Option.bind_eq_bind, Option.bind_some]

theorem Request.number_toFields {request : Request} {field : Field}
    (member : field ∈ request.toFields) : 0 < field.number ∧ field.number < 16 := by
  simp only [Request.toFields, List.mem_append] at member
  rcases member with (((member | member) | member) | member) | member
  · rw [number_optional member]; decide
  · rw [number_implicit member]; decide
  · rw [number_implicit member]; decide
  · rw [number_optional member]; decide
  · rw [number_optional member]; decide

/-- **Request round trip.** -/
theorem Request.decode_encode {request : Request} (short : request.encode.length < 2 ^ 64) :
    Request.decode request.encode = some request := by
  rw [Request.decode, Request.encode,
    mergeAll_encodeFields (fun _ member => number_toFields member) short, Request.foldlM_merge]
  intro v set
  have member : (⟨5, .bytes v.encode⟩ : Field) ∈ request.toFields :=
    List.mem_append_right _ (by simp [optional, set])
  exact Value.mergeAll_encode ((length_le_of_mem member).trans_lt short)

theorem Response.foldlM_keys (response : Response) (keys : List String) :
    (keys.map fun key => ⟨5, .bytes (utf8 key)⟩).foldlM Response.merge response =
      some { response with keys := response.keys ++ keys } := by
  induction keys generalizing response with
  | nil => simp
  | cons key keys ih => simp [Response.merge, ih]

theorem Response.foldlM_merge {response : Response}
    (value : ∀ v, response.value = some v → mergeAll Value.merge ⟨none⟩ v.encode = some v) :
    response.toFields.foldlM Response.merge {} = some response := by
  obtain ⟨id, timestamp, resultType, v, keys, error⟩ := response
  have first : (optional 1 .varint id).foldlM Response.merge {} = some { id } := by
    cases id <;> rfl
  have second : (implicit 2 timestamp).foldlM Response.merge { id } =
      some { id, timestamp } := by
    rw [foldlM_implicit]
    split
    · rename_i zero
      rw [zero]
    · rfl
  have third : (implicit 3 (enumBits resultType)).foldlM Response.merge { id, timestamp } =
      some { id, timestamp, resultType } := by
    rw [foldlM_implicit]
    split
    · rename_i zero
      rw [← ofEnumBits_enumBits resultType, zero]
      rfl
    · simp [Response.merge]
  have fourth : (optional 4 (fun value : Value => .bytes value.encode) v).foldlM Response.merge
      { id, timestamp, resultType } = some { id, timestamp, resultType, value := v } := by
    cases v with
    | none => rfl
    | some v => simp [foldlM_optional, Response.merge, value v rfl]
  have fifth : (keys.map fun key => (⟨5, .bytes (utf8 key)⟩ : Field)).foldlM Response.merge
      { id, timestamp, resultType, value := v } =
        some { id, timestamp, resultType, value := v, keys } :=
    Response.foldlM_keys _ keys
  have sixth : (optional 6 (fun error => .bytes (utf8 error)) error).foldlM Response.merge
      { id, timestamp, resultType, value := v, keys } =
        some { id, timestamp, resultType, value := v, keys, error } := by
    cases error with
    | none => rfl
    | some error => simp [foldlM_optional, Response.merge]
  simp only [Response.toFields, List.foldlM_append, first, second, third, fourth, fifth, sixth,
    Option.bind_eq_bind, Option.bind_some]

theorem Response.number_toFields {response : Response} {field : Field}
    (member : field ∈ response.toFields) : 0 < field.number ∧ field.number < 16 := by
  simp only [Response.toFields, List.mem_append] at member
  rcases member with ((((member | member) | member) | member) | member) | member
  · rw [number_optional member]; decide
  · rw [number_implicit member]; decide
  · rw [number_implicit member]; decide
  · rw [number_optional member]; decide
  · obtain ⟨key, -, rfl⟩ := List.mem_map.mp member
    simp
  · rw [number_optional member]; decide

/-- **Response round trip.** -/
theorem Response.decode_encode {response : Response} (short : response.encode.length < 2 ^ 64) :
    Response.decode response.encode = some response := by
  rw [Response.decode, Response.encode,
    mergeAll_encodeFields (fun _ member => number_toFields member) short, Response.foldlM_merge]
  intro v set
  have member : (⟨4, .bytes v.encode⟩ : Field) ∈ response.toFields := by
    simp [Response.toFields, optional, set]
  exact Value.mergeAll_encode ((length_le_of_mem member).trans_lt short)

end Proto

end Bonka
