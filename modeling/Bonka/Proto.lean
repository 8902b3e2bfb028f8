import Bonka.Lib.Wire

/-!
# The messages of `protocol/bonka.proto`

The Rust types that `prost` generates from the protocol file, as `server.rs` and `kv.rs` use
them: enumerations travel as raw `i32` fields with a getter that falls back to the default, and a
`Value` is a oneof that may be empty.  The `metadata` maps are left out: no code reads them and
the server never fills one.
-/

namespace Bonka

export Wire (Bytes)

/-- An `f64`, opaque: its bit pattern. -/
structure F64 where
  bits : UInt64
deriving DecidableEq, Repr

namespace Proto

/-- `proto::value::Value`: the populated cases of the oneof. -/
inductive Value.Oneof
  | stringValue (s : String)
  | bytesValue (b : Bytes)
  | intValue (i : Int64)
  | uintValue (u : UInt64)
  | floatValue (f : F64)
  | boolValue (b : Bool)
deriving DecidableEq, Repr

/-- `proto::Value`; an empty oneof stands for Null. -/
structure Value where
  value : Option Value.Oneof
deriving DecidableEq, Repr

inductive CommandType
  | commandUnspecified
  | commandGet
  | commandSet
  | commandDelete
  | commandList
  | commandExit
deriving DecidableEq, Repr

/-- `CommandType::try_from(i32)`. -/
def CommandType.tryFrom (n : Int32) : Option CommandType :=
  if n = 0 then some .commandUnspecified
  else if n = 1 then some .commandGet
  else if n = 2 then some .commandSet
  else if n = 3 then some .commandDelete
  else if n = 4 then some .commandList
  else if n = 5 then some .commandExit
  else none

/-- `command_type as i32`. -/
def CommandType.toInt32 : CommandType → Int32
  | .commandUnspecified => 0
  | .commandGet => 1
  | .commandSet => 2
  | .commandDelete => 3
  | .commandList => 4
  | .commandExit => 5

inductive ResultType
  | resultUnspecified
  | resultValue
  | resultSuccess
  | resultKeys
  | resultError
  | resultExit
deriving DecidableEq, Repr

/-- `ResultType::try_from(i32)`. -/
def ResultType.tryFrom (n : Int32) : Option ResultType :=
  if n = 0 then some .resultUnspecified
  else if n = 1 then some .resultValue
  else if n = 2 then some .resultSuccess
  else if n = 3 then some .resultKeys
  else if n = 4 then some .resultError
  else if n = 5 then some .resultExit
  else none

/-- `result_type as i32`. -/
def ResultType.toInt32 : ResultType → Int32
  | .resultUnspecified => 0
  | .resultValue => 1
  | .resultSuccess => 2
  | .resultKeys => 3
  | .resultError => 4
  | .resultExit => 5

structure Request where
  id : Option UInt64 := none
  timestamp : UInt64 := 0
  commandType : Int32 := 0
  key : Option String := none
  value : Option Value := none
deriving DecidableEq, Repr

/-- `request.command_type()`: an unknown number reads as the default. -/
def Request.getCommandType (request : Request) : CommandType :=
  (CommandType.tryFrom request.commandType).getD .commandUnspecified

structure Response where
  id : Option UInt64 := none
  timestamp : UInt64 := 0
  resultType : Int32 := 0
  value : Option Value := none
  keys : List String := []
  error : Option String := none
deriving DecidableEq, Repr

/-- `response.result_type()`. -/
def Response.getResultType (response : Response) : ResultType :=
  (ResultType.tryFrom response.resultType).getD .resultUnspecified

@[simp] theorem CommandType.tryFrom_toInt32 (command : CommandType) :
    CommandType.tryFrom command.toInt32 = some command := by
  cases command <;> rfl

@[simp] theorem ResultType.tryFrom_toInt32 (result : ResultType) :
    ResultType.tryFrom result.toInt32 = some result := by
  cases result <;> rfl

end Proto

end Bonka
