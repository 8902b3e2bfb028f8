import Bonka.Kv

/-!
# Commands and responses (`src/server.rs`)

The response constructors, the four command handlers and `process_command`.  A handler reads and
writes the shared store, so it takes the store and returns it next to the response.  The wall
clock (`get_timestamp`) and the order of a `LIST` iteration are arguments.
-/

namespace Bonka

open Proto

/-! ## Creating responses -/

def createSuccessResponse (timestamp : UInt64) (id : Option UInt64) : Response :=
  { id, timestamp, resultType := ResultType.resultSuccess.toInt32 }

def createValueResponse (timestamp : UInt64) (id : Option UInt64) (value : Option Kv.Value) :
    Response :=
  { id, timestamp, resultType := ResultType.resultValue.toInt32,
    value := value.map Kv.Value.toProto }

def createErrorResponse (timestamp : UInt64) (id : Option UInt64) (message : String) : Response :=
  { id, timestamp, resultType := ResultType.resultError.toInt32, error := some message }

def createKeysResponse (timestamp : UInt64) (id : Option UInt64) (keys : List String) : Response :=
  { id, timestamp, resultType := ResultType.resultKeys.toInt32, keys }

def createExitResponse (timestamp : UInt64) (id : Option UInt64) : Response :=
  { id, timestamp, resultType := ResultType.resultExit.toInt32 }

/-- The reply `handle_client` builds itself for a frame that does not decode. -/
def invalidRequestResponse (timestamp : UInt64) : Response :=
  { id := none, timestamp, resultType := ResultType.resultError.toInt32,
    error := some "Invalid request format" }

/-! ## Handling commands -/

def handleGetCommand (timestamp : UInt64) (request : Request) (store : KeyValueStore) : Response :=
  match request.key with
  | some key => createValueResponse timestamp request.id (store.get key)
  | none => createErrorResponse timestamp request.id "Key not provided"

def handleSetCommand (timestamp : UInt64) (request : Request) (store : KeyValueStore) :
    Response × KeyValueStore :=
  match request.key, request.value with
  | some key, some value =>
      (createSuccessResponse timestamp request.id, store.set key (.ofProto value))
  | none, _ => (createErrorResponse timestamp request.id "Key not provided", store)
  | _, none => (createErrorResponse timestamp request.id "Value not provided", store)

def handleDeleteCommand (timestamp : UInt64) (request : Request) (store : KeyValueStore) :
    Response × KeyValueStore :=
  match request.key with
  | some key =>
      match store.delete key with
      | (true, store) => (createSuccessResponse timestamp request.id, store)
      | (false, store) =>
          (createErrorResponse timestamp request.id ("Key '" ++ key ++ "' not found"), store)
  | none => (createErrorResponse timestamp request.id "Key not provided", store)

/-- `DELETE` of a key removes it, and says whether it was there. -/
theorem handleDeleteCommand_of_key {timestamp : UInt64} {request : Request} {store : KeyValueStore}
    {key : String} (found : request.key = some key) :
    handleDeleteCommand timestamp request store =
      (if (store.get key).isSome then createSuccessResponse timestamp request.id
        else createErrorResponse timestamp request.id ("Key '" ++ key ++ "' not found"),
        (store.delete key).2) := by
  have present : (store.delete key).1 = (store.get key).isSome := rfl
  simp only [handleDeleteCommand, found]
  rw [← present]
  rcases store.delete key with ⟨_ | _, after⟩
  · rfl
  · rfl

def handleListCommand (timestamp : UInt64) (order : IterOrder (String × Kv.Value))
    (request : Request) (store : KeyValueStore) : Response :=
  createKeysResponse timestamp request.id (store.list order)

def processCommand (timestamp : UInt64) (order : IterOrder (String × Kv.Value))
    (request : Request) (store : KeyValueStore) : Response × KeyValueStore :=
  match request.getCommandType with
  | .commandGet => (handleGetCommand timestamp request store, store)
  | .commandSet => handleSetCommand timestamp request store
  | .commandDelete => handleDeleteCommand timestamp request store
  | .commandList => (handleListCommand timestamp order request store, store)
  | .commandExit => (createExitResponse timestamp request.id, store)
  | .commandUnspecified => (createErrorResponse timestamp request.id "Unknown command", store)

/-! ## What every response carries -/

variable (timestamp : UInt64) (id : Option UInt64)

@[simp] theorem getResultType_createSuccessResponse :
    (createSuccessResponse timestamp id).getResultType = .resultSuccess := rfl

@[simp] theorem getResultType_createValueResponse (value : Option Kv.Value) :
    (createValueResponse timestamp id value).getResultType = .resultValue := rfl

@[simp] theorem getResultType_createErrorResponse (message : String) :
    (createErrorResponse timestamp id message).getResultType = .resultError := rfl

@[simp] theorem getResultType_createKeysResponse (keys : List String) :
    (createKeysResponse timestamp id keys).getResultType = .resultKeys := rfl

@[simp] theorem getResultType_createExitResponse :
    (createExitResponse timestamp id).getResultType = .resultExit := rfl

@[simp] theorem getResultType_invalidRequestResponse :
    (invalidRequestResponse timestamp).getResultType = .resultError := rfl

variable (order : IterOrder (String × Kv.Value)) (request : Request) (store : KeyValueStore)

/-- Every response echoes the id of its request. -/
theorem processCommand_id : (processCommand timestamp order request store).1.id = request.id := by
  unfold processCommand
  split
  · unfold handleGetCommand
    split <;> rfl
  · unfold handleSetCommand
    split <;> rfl
  · unfold handleDeleteCommand
    split
    · split <;> rfl
    · rfl
  · rfl
  · rfl
  · rfl

/-- `handle_client` leaves its loop on the type of the response, which is `RESULT_EXIT` for
`COMMAND_EXIT` only. -/
theorem processCommand_exit_iff :
    (processCommand timestamp order request store).1.getResultType = .resultExit ↔
      request.getCommandType = .commandExit := by
  unfold processCommand
  split <;> rename_i command <;> rw [command]
  · unfold handleGetCommand
    split <;> simp
  · unfold handleSetCommand
    split <;> simp
  · unfold handleDeleteCommand
    split
    · split <;> simp
    · simp
  · simp [handleListCommand]
  · simp
  · simp

end Bonka
