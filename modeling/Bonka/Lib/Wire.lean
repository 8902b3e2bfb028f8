import Mathlib.Data.List.Basic
import Mathlib.Data.Nat.Log
import Mathlib.Tactic.Ring

/-!
# Bytes on a wire

Fixed-width integers, base-128 varints and the tagged fields of the protobuf wire format, each
with its decoder.  Every decoder takes the bytes it needs off the front of its input and returns
the rest, and every round trip is stated with arbitrary bytes behind the encoding
(`decodeVarint_encodeVarint`, `decodeField_encode`, `decodeFields_encodeFields`).
-/

namespace Wire

abbrev Bytes := List UInt8

/-! ## Fixed-width integers -/

/-- The `width` low bytes of `n`, least significant first. -/
def leBytes : ℕ → ℕ → Bytes
  | 0, _ => []
  | width + 1, n => UInt8.ofNat (n % 256) :: leBytes width (n / 256)

/-- The number whose bytes are given, least significant first. -/
def ofLeBytes : Bytes → ℕ
  | [] => 0
  | byte :: rest => byte.toNat + 256 * ofLeBytes rest

/-- The `width` low bytes of `n`, most significant first. -/
def beBytes (width n : ℕ) : Bytes := (leBytes width n).reverse

/-- The number whose bytes are given, most significant first. -/
def ofBeBytes (bytes : Bytes) : ℕ := ofLeBytes bytes.reverse

@[simp] theorem length_leBytes (width n : ℕ) : (leBytes width n).length = width := by
  induction width generalizing n with
  | zero => rfl
  | succ width ih => simp [leBytes, ih]

@[simp] theorem length_beBytes (width n : ℕ) : (beBytes width n).length = width := by
  simp [beBytes]

theorem ofLeBytes_leBytes {width n : ℕ} (fits : n < 256 ^ width) :
    ofLeBytes (leBytes width n) = n := by
  induction width generalizing n with
  | zero => simp only [pow_zero, Nat.lt_one_iff] at fits; simp [leBytes, ofLeBytes, fits]
  | succ width ih =>
      have high : n / 256 < 256 ^ width := by
        rw [Nat.div_lt_iff_lt_mul (by omega), ← pow_succ]
        exact fits
      have low : (UInt8.ofNat (n % 256)).toNat = n % 256 := by
        rw [UInt8.toNat_ofNat']
        omega
      rw [leBytes, ofLeBytes, ih high, low]
      omega

theorem ofBeBytes_beBytes {width n : ℕ} (fits : n < 256 ^ width) :
    ofBeBytes (beBytes width n) = n := by
  rw [ofBeBytes, beBytes, List.reverse_reverse, ofLeBytes_leBytes fits]

/-! ## Varints -/

/-- At most `fuel` base-128 digits of `n`, least significant first, every byte but the last with
its high bit set. -/
def varintDigits : ℕ → ℕ → Bytes
  | 0, _ => []
  | fuel + 1, n =>
      if n < 128 then [UInt8.ofNat n]
      else UInt8.ofNat (n % 128 + 128) :: varintDigits fuel (n / 128)

/-- A varint of ten bytes holds every 64-bit value. -/
def encodeVarint (n : UInt64) : Bytes := varintDigits 10 n.toNat

def decodeDigits : ℕ → Bytes → Option (ℕ × Bytes)
  | 0, _ => none
  | _ + 1, [] => none
  | fuel + 1, byte :: rest =>
      if byte.toNat < 128 then some (byte.toNat, rest)
      else (decodeDigits fuel rest).map fun (high, rest) => (byte.toNat - 128 + 128 * high, rest)

/-- A varint that ends within ten bytes and fits 64 bits. -/
def decodeVarint (bytes : Bytes) : Option (UInt64 × Bytes) :=
  match decodeDigits 10 bytes with
  | some (n, rest) => if n < 2 ^ 64 then some (UInt64.ofNat n, rest) else none
  | none => none

theorem decodeDigits_varintDigits {fuel n : ℕ} (fits : n < 128 ^ (fuel + 1)) (rest : Bytes) :
    decodeDigits (fuel + 1) (varintDigits (fuel + 1) n ++ rest) = some (n, rest) := by
  induction fuel generalizing n with
  | zero =>
      have small : n < 128 := by simpa using fits
      have byte : (UInt8.ofNat n).toNat = n := by rw [UInt8.toNat_ofNat']; omega
      simp [varintDigits, decodeDigits, byte, small]
  | succ fuel ih =>
      rw [varintDigits]
      split
      · rename_i small
        have byte : (UInt8.ofNat n).toNat = n := by rw [UInt8.toNat_ofNat']; omega
        simp [decodeDigits, byte, small]
      · rename_i large
        have byte : (UInt8.ofNat (n % 128 + 128)).toNat = n % 128 + 128 := by
          rw [UInt8.toNat_ofNat']
          omega
        have high : n / 128 < 128 ^ (fuel + 1) := by
          rw [Nat.div_lt_iff_lt_mul (by omega), ← pow_succ]
          exact fits
        rw [List.cons_append, decodeDigits, if_neg (by omega), ih high, byte]
        simp only [Option.map_some, Option.some.injEq, Prod.mk.injEq, and_true]
        omega

/-- Every 64-bit value comes back from its varint. -/
theorem decodeVarint_encodeVarint (n : UInt64) (rest : Bytes) :
    decodeVarint (encodeVarint n ++ rest) = some (n, rest) := by
  have bound : n.toNat < 2 ^ 64 := n.toNat_lt
  have digits := decodeDigits_varintDigits (show n.toNat < 128 ^ (9 + 1) by omega) rest
  rw [decodeVarint, encodeVarint, digits]
  simp only [if_pos bound, UInt64.ofNat_toNat]

theorem encodeVarint_ne_nil (n : UInt64) : encodeVarint n ≠ [] := by
  rw [encodeVarint, varintDigits]
  split <;> simp

/-! ## Tagged fields -/

/-- The value of a field: wire types 0, 1, 2 and 5. -/
inductive Payload
  | varint (value : UInt64)
  | fixed64 (value : UInt64)
  | bytes (value : Bytes)
  | fixed32 (value : UInt32)
deriving DecidableEq, Repr

def Payload.wireType : Payload → ℕ
  | .varint _ => 0
  | .fixed64 _ => 1
  | .bytes _ => 2
  | .fixed32 _ => 5

/-- A field of a message: its number and its value. -/
structure Field where
  number : ℕ
  payload : Payload
deriving DecidableEq, Repr

/-- A length prefix and that many bytes. -/
def encodeDelimited (bytes : Bytes) : Bytes :=
  encodeVarint (UInt64.ofNat bytes.length) ++ bytes

def Payload.encode : Payload → Bytes
  | .varint value => encodeVarint value
  | .fixed64 value => leBytes 8 value.toNat
  | .bytes value => encodeDelimited value
  | .fixed32 value => leBytes 4 value.toNat

/-- The tag carries the field number above the three bits of the wire type. -/
def Field.tag (field : Field) : UInt64 :=
  UInt64.ofNat (field.number * 8 + field.payload.wireType)

def Field.encode (field : Field) : Bytes := encodeVarint field.tag ++ field.payload.encode

def encodeFields (fields : List Field) : Bytes := fields.flatMap Field.encode

/-- Take exactly `count` bytes off the front. -/
def takeBytes (count : ℕ) (bytes : Bytes) : Option (Bytes × Bytes) :=
  if count ≤ bytes.length then some (bytes.take count, bytes.drop count) else none

def decodePayload (wireType : ℕ) (bytes : Bytes) : Option (Payload × Bytes) :=
  match wireType with
  | 0 => (decodeVarint bytes).map fun (value, rest) => (.varint value, rest)
  | 1 => (takeBytes 8 bytes).map fun (value, rest) =>
      (.fixed64 (UInt64.ofNat (ofLeBytes value)), rest)
  | 2 => (decodeVarint bytes).bind fun (count, rest) =>
      (takeBytes count.toNat rest).map fun (value, rest) => (.bytes value, rest)
  | 5 => (takeBytes 4 bytes).map fun (value, rest) =>
      (.fixed32 (UInt32.ofNat (ofLeBytes value)), rest)
  | _ => none

def decodeField (bytes : Bytes) : Option (Field × Bytes) :=
  (decodeVarint bytes).bind fun (tag, rest) =>
    if tag.toNat / 8 = 0 then none
    else (decodePayload (tag.toNat % 8) rest).map fun (payload, rest) =>
      (⟨tag.toNat / 8, payload⟩, rest)

/-- Read fields until the input is empty; a field takes at least one byte, so as much fuel as
there are bytes is enough. -/
def decodeFieldsFuel : ℕ → Bytes → Option (List Field)
  | _, [] => some []
  | 0, _ :: _ => none
  | fuel + 1, byte :: bytes =>
      (decodeField (byte :: bytes)).bind fun (field, rest) =>
        (decodeFieldsFuel fuel rest).map (field :: ·)

def decodeFields (bytes : Bytes) : Option (List Field) := decodeFieldsFuel bytes.length bytes

/-- A field the format can carry: a number of 29 bits that is not zero and a length of 64 bits. -/
structure Field.Valid (field : Field) : Prop where
  number_pos : 0 < field.number
  number_lt : field.number < 2 ^ 29
  length_lt : ∀ {value}, field.payload = .bytes value → value.length < 2 ^ 64

theorem takeBytes_append (bytes rest : Bytes) :
    takeBytes bytes.length (bytes ++ rest) = some (bytes, rest) := by
  simp [takeBytes]

theorem decodePayload_encode {payload : Payload}
    (length_lt : ∀ {value}, payload = .bytes value → value.length < 2 ^ 64) (rest : Bytes) :
    decodePayload payload.wireType (payload.encode ++ rest) = some (payload, rest) := by
  cases payload with
  | varint value =>
      simp [decodePayload, Payload.wireType, Payload.encode, decodeVarint_encodeVarint]
  | fixed64 value =>
      have taken := takeBytes_append (leBytes 8 value.toNat) rest
      have back := ofLeBytes_leBytes (show value.toNat < 256 ^ 8 from value.toNat_lt)
      rw [length_leBytes] at taken
      simp [decodePayload, Payload.wireType, Payload.encode, taken, back]
  | bytes value =>
      have count : (UInt64.ofNat value.length).toNat = value.length := by
        rw [UInt64.toNat_ofNat']
        exact Nat.mod_eq_of_lt (length_lt rfl)
      have taken := takeBytes_append value rest
      rw [← count] at taken
      simp only [decodePayload, Payload.wireType, Payload.encode, encodeDelimited,
        List.append_assoc, decodeVarint_encodeVarint, Option.bind_some, taken, Option.map_some]
  | fixed32 value =>
      have taken := takeBytes_append (leBytes 4 value.toNat) rest
      have back := ofLeBytes_leBytes (show value.toNat < 256 ^ 4 from value.toNat_lt)
      rw [length_leBytes] at taken
      simp [decodePayload, Payload.wireType, Payload.encode, taken, back]

theorem Payload.wireType_lt (payload : Payload) : payload.wireType < 8 := by
  cases payload <;> simp [Payload.wireType]

/-- A valid field comes back from its encoding. -/
theorem decodeField_encode {field : Field} (valid : field.Valid) (rest : Bytes) :
    decodeField (field.encode ++ rest) = some (field, rest) := by
  have wireType := field.payload.wireType_lt
  have pos := valid.number_pos
  have lt := valid.number_lt
  have tag : field.tag.toNat = field.number * 8 + field.payload.wireType := by
    rw [Field.tag, UInt64.toNat_ofNat']
    omega
  have number : field.tag.toNat / 8 = field.number := by omega
  have type : field.tag.toNat % 8 = field.payload.wireType := by omega
  rw [decodeField, Field.encode, List.append_assoc, decodeVarint_encodeVarint, Option.bind_some]
  simp only [number, type, decodePayload_encode valid.length_lt, Option.map_some]
  rw [if_neg (by omega)]

theorem decodeFieldsFuel_encodeFields {fields : List Field} (valid : ∀ f ∈ fields, f.Valid) :
    ∀ {fuel}, (encodeFields fields).length ≤ fuel →
      decodeFieldsFuel fuel (encodeFields fields) = some fields := by
  induction fields with
  | nil => intro fuel _; cases fuel <;> rfl
  | cons field fields ih =>
      intro fuel enough
      have nonempty : field.encode ≠ [] := by
        simp [Field.encode, encodeVarint_ne_nil]
      have whole : encodeFields (field :: fields) = field.encode ++ encodeFields fields := rfl
      have decoded := decodeField_encode (valid field (List.mem_cons_self ..))
        (encodeFields fields)
      rw [whole] at enough ⊢
      cases shape : field.encode with
      | nil => exact (nonempty shape).elim
      | cons byte bytes =>
          rw [shape] at enough decoded
          cases fuel with
          | zero => simp at enough
          | succ fuel =>
              have less : (encodeFields fields).length ≤ fuel := by
                simp only [List.cons_append, List.length_cons, List.length_append] at enough
                omega
              rw [List.cons_append] at decoded ⊢
              have tail := ih (fun f member => valid f (List.mem_cons_of_mem _ member)) less
              rw [decodeFieldsFuel, decoded, Option.bind_some]
              simp only [tail, Option.map_some]

/-- **Wire round trip.**  The fields of a message come back, in order, from its encoding. -/
theorem decodeFields_encodeFields {fields : List Field} (valid : ∀ f ∈ fields, f.Valid) :
    decodeFields (encodeFields fields) = some fields :=
  decodeFieldsFuel_encodeFields valid le_rfl

/-! ## Lengths -/

/-- The number of base-128 digits. -/
def varintLength (n : ℕ) : ℕ := Nat.log 128 n + 1

/-- The length of a length-prefixed string of `n` bytes. -/
def delimitedLength (n : ℕ) : ℕ := varintLength n + n

def Payload.length : Payload → ℕ
  | .varint value => varintLength value.toNat
  | .fixed64 _ => 8
  | .bytes value => delimitedLength value.length
  | .fixed32 _ => 4

/-- The length of a field whose tag is one byte. -/
def Field.length (field : Field) : ℕ := 1 + field.payload.length

theorem length_varintDigits {fuel n : ℕ} (fits : n < 128 ^ (fuel + 1)) :
    (varintDigits (fuel + 1) n).length = varintLength n := by
  induction fuel generalizing n with
  | zero =>
      have small : n < 128 := by simpa using fits
      simp [varintDigits, varintLength, small, Nat.log_of_lt]
  | succ fuel ih =>
      rw [varintDigits]
      split
      · rename_i small
        simp [varintLength, Nat.log_of_lt small]
      · rename_i large
        have high : n / 128 < 128 ^ (fuel + 1) := by
          rw [Nat.div_lt_iff_lt_mul (by omega), ← pow_succ]
          exact fits
        rw [List.length_cons, ih high, varintLength, varintLength,
          Nat.log_of_one_lt_of_le (by omega) (Nat.not_lt.mp large)]

theorem length_encodeVarint (n : UInt64) : (encodeVarint n).length = varintLength n.toNat := by
  have bound : n.toNat < 2 ^ 64 := n.toNat_lt
  exact length_varintDigits (show n.toNat < 128 ^ (9 + 1) by omega)

theorem length_encodeDelimited {bytes : Bytes} (short : bytes.length < 2 ^ 64) :
    (encodeDelimited bytes).length = delimitedLength bytes.length := by
  rw [encodeDelimited, List.length_append, length_encodeVarint, UInt64.toNat_ofNat',
    Nat.mod_eq_of_lt short, delimitedLength]

theorem Field.length_encode {field : Field} (number : field.number < 16)
    (short : ∀ {value}, field.payload = .bytes value → value.length < 2 ^ 64) :
    field.encode.length = field.length := by
  have wireType := field.payload.wireType_lt
  have tag : field.tag.toNat < 128 := by
    rw [Field.tag, UInt64.toNat_ofNat']
    omega
  rw [Field.encode, List.length_append, length_encodeVarint, varintLength, Nat.log_of_lt tag,
    Field.length, zero_add]
  congr 1
  cases shape : field.payload with
  | varint value => exact length_encodeVarint value
  | fixed64 value => exact length_leBytes ..
  | bytes value => exact length_encodeDelimited (short shape)
  | fixed32 value => exact length_leBytes ..

/-- A message is within a limit exactly when the lengths of its fields add up to no more. -/
theorem length_encodeFields_le_iff {fields : List Field} {limit : ℕ}
    (numbers : ∀ f ∈ fields, f.number < 16) (limited : limit < 2 ^ 64) :
    (encodeFields fields).length ≤ limit ↔ (fields.map Field.length).sum ≤ limit := by
  by_cases short : ∀ f ∈ fields, ∀ value, f.payload = .bytes value → value.length < 2 ^ 64
  · have same : (encodeFields fields).length = (fields.map Field.length).sum := by
      rw [encodeFields, List.length_flatMap]
      congr 1
      exact List.map_congr_left fun f member =>
        Field.length_encode (numbers f member) fun shape => short f member _ shape
    rw [same]
  · -- a string too long for its prefix is over the limit by itself
    push Not at short
    obtain ⟨⟨number, payload⟩, member, value, shape, long⟩ := short
    cases shape
    obtain ⟨before, after, rfl⟩ := List.append_of_mem member
    have left : limit < (encodeFields (before ++ ⟨number, .bytes value⟩ :: after)).length := by
      simp only [encodeFields, List.flatMap_append, List.flatMap_cons, List.length_append,
        Field.encode, Payload.encode, encodeDelimited]
      omega
    have right : limit < ((before ++ ⟨number, .bytes value⟩ :: after).map Field.length).sum := by
      simp only [List.map_append, List.map_cons, List.sum_append, List.sum_cons, Field.length,
        Payload.length, delimitedLength]
      omega
    omega

end Wire
