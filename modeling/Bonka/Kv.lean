import Bonka.Lib.DashMap
import Bonka.Proto

/-!
# The key-value store (`src/kv.rs`)

The stored `Value`, its conversions to and from the protobuf `Value`, and `KeyValueStore` over
one `DashMap`.  The conversions are mutually inverse, so a store is seen from outside as one map
from keys to protobuf values (`KeyValueStore.view`), and each call of the store is one update or
one lookup of that map.
-/

namespace Bonka

namespace Kv

inductive Value
  | string (s : String)
  | bytes (b : Bytes)
  | int (i : Int64)
  | uint (u : UInt64)
  | float (f : F64)
  | bool (b : Bool)
  | null
deriving DecidableEq, Repr

/-- `impl From<Value> for proto::Value`. -/
def Value.toProto : Value → Proto.Value
  | .string s => { value := some (.stringValue s) }
  | .bytes b => { value := some (.bytesValue b) }
  | .int i => { value := some (.intValue i) }
  | .uint u => { value := some (.uintValue u) }
  | .float f => { value := some (.floatValue f) }
  | .bool b => { value := some (.boolValue b) }
  | .null => { value := none }

/-- `impl From<proto::Value> for Value`. -/
def Value.ofProto (value : Proto.Value) : Value :=
  match value.value with
  | some (.stringValue s) => .string s
  | some (.bytesValue b) => .bytes b
  | some (.intValue i) => .int i
  | some (.uintValue u) => .uint u
  | some (.floatValue f) => .float f
  | some (.boolValue b) => .bool b
  | none => .null

/-- A protobuf value survives being stored; Null stays a present value with an empty oneof. -/
@[simp] theorem Value.toProto_ofProto (value : Proto.Value) :
    (Value.ofProto value).toProto = value := by
  rcases value with ⟨_ | s | b | i | u | f | b⟩ <;> rfl

@[simp] theorem Value.ofProto_toProto (value : Value) : Value.ofProto value.toProto = value := by
  cases value <;> rfl

end Kv

structure KeyValueStore where
  data : DashMap String Kv.Value := ∅

namespace KeyValueStore

/-- `KeyValueStore::new()`. -/
def new : KeyValueStore := {}

def get (store : KeyValueStore) (key : String) : Option Kv.Value := store.data.lookup key

def set (store : KeyValueStore) (key : String) (value : Kv.Value) : KeyValueStore :=
  { store with data := store.data.insert key value }

/-- Whether the key was there, and the store without it. -/
def delete (store : KeyValueStore) (key : String) : Bool × KeyValueStore :=
  ((store.data.lookup key).isSome, { store with data := store.data.erase key })

def list (store : KeyValueStore) (order : IterOrder (String × Kv.Value)) : List String :=
  (store.data.iter order).map Prod.fst

theorem get_set (store : KeyValueStore) (key : String) (value : Kv.Value) (other : String) :
    (store.set key value).get other = if other = key then some value else store.get other :=
  DashMap.lookup_insert_if ..

theorem get_delete (store : KeyValueStore) (key other : String) :
    (store.delete key).2.get other = if other = key then none else store.get other :=
  DashMap.lookup_erase_if ..

/-! ## The store as one map of protobuf values -/

/-- What a client can observe of a store. -/
def view (store : KeyValueStore) : String → Option Proto.Value :=
  fun key => (store.get key).map Kv.Value.toProto

@[simp] theorem view_new : new.view = fun _ => none := rfl

theorem view_set (store : KeyValueStore) (key : String) (value : Proto.Value) :
    (store.set key (.ofProto value)).view = Function.update store.view key (some value) := by
  funext other
  by_cases same : other = key
  · subst same
    simp [view, get, set]
  · simp [view, get, set, same]

theorem view_delete (store : KeyValueStore) (key : String) :
    (store.delete key).2.view = Function.update store.view key none := by
  funext other
  by_cases same : other = key
  · subst same
    simp [view, get, delete]
  · simp [view, get, delete, same]

theorem delete_fst (store : KeyValueStore) (key : String) :
    (store.delete key).1 = (store.view key).isSome := by
  simp [view, get, delete]

/-- `list` yields every stored key once. -/
theorem list_perm (store : KeyValueStore) (order : IterOrder (String × Kv.Value)) :
    (store.list order).Perm store.data.keys :=
  DashMap.keys_iter_perm store.data order

end KeyValueStore

end Bonka
