import Bonka.Lib.Unwinding
import Bonka.Server

/-!
# Clients on disjoint keys

Commands run one at a time on the shared store, in any order the clients happen to be scheduled.
A command reads and writes the store at its own key only, so clients whose requests share no key
cannot tell each other's presence: every interleaving answers them alike and leaves the same store
(`disjoint_clients`).
-/

namespace Bonka

open Proto Unwinding

/-- A request as `process_command` meets it: with the clock reading and the iteration order. -/
structure Call where
  timestamp : UInt64
  order : IterOrder (String × Kv.Value)
  request : Request

def Call.process (call : Call) (store : KeyValueStore) : Response × KeyValueStore :=
  processCommand call.timestamp call.order call.request store

/-- The calls of all clients in the order in which `process_command` runs them. -/
abbrev Schedule (ι : Type) := List (ι × Call)

/-- The response with its timestamp put aside. -/
def untimed (response : Response) : Response := { response with timestamp := 0 }

/-- The key occurs in the requests. -/
def Uses (key : String) (requests : List Request) : Prop :=
  ∃ request ∈ requests, request.key = some key

section

variable {ι : Type} [DecidableEq ι] (i : ι) (schedule : Schedule ι) (store : KeyValueStore)

def requestsOf : List Request := (own i schedule).map Call.request

def responsesTo : List Response := (own i (run Call.process schedule store).1).map untimed

omit [DecidableEq ι] in
def storeAfter : KeyValueStore := (run Call.process schedule store).2

end

/-! ## One command -/

section

variable {timestamp : UInt64} {order : IterOrder (String × Kv.Value)} {request : Request}
  {store other : KeyValueStore} {key : String}

/-- Apart from `LIST`, neither the clock nor the iteration order makes a difference. -/
theorem processCommand_untimed (command : request.getCommandType ≠ .commandList) :
    processCommand 0 default request store =
      Prod.map untimed id (processCommand timestamp order request store) := by
  unfold processCommand
  split
  · simp only [handleGetCommand]
    split <;> rfl
  · simp only [handleSetCommand]
    split <;> rfl
  · simp only [handleDeleteCommand]
    split
    · split <;> rfl
    · rfl
  · rename_i isList
    exact absurd isList command
  · rfl
  · rfl

/-- A command leaves every other key alone. -/
theorem processCommand_get_of_ne (ne : request.key ≠ some key) :
    (processCommand timestamp order request store).2.get key = store.get key := by
  unfold processCommand
  split
  · rfl
  · unfold handleSetCommand
    split
    · rename_i written value found carried
      rw [KeyValueStore.get_set, if_neg]
      intro same
      exact ne (same ▸ found)
    · rfl
    · rfl
  · cases found : request.key with
    | none => simp only [handleDeleteCommand, found]
    | some deleted =>
        rw [handleDeleteCommand_of_key found, KeyValueStore.get_delete, if_neg]
        intro same
        exact ne (same ▸ found)
  · rfl
  · rfl
  · rfl

/-- On two stores that hold the same at its key, a command gives the same response and leaves the
same at its key. -/
theorem processCommand_congr (command : request.getCommandType ≠ .commandList)
    (same : ∀ key, request.key = some key → store.get key = other.get key) :
    (processCommand timestamp order request store).1 =
        (processCommand timestamp order request other).1 ∧
      ∀ key, store.get key = other.get key →
        (processCommand timestamp order request store).2.get key =
          (processCommand timestamp order request other).2.get key := by
  cases kind : request.getCommandType with
  | commandGet =>
      simp only [processCommand, kind, handleGetCommand]
      cases found : request.key with
      | none => exact ⟨rfl, fun _ equal => equal⟩
      | some key => exact ⟨by simp only [same key found], fun _ equal => equal⟩
  | commandSet =>
      simp only [processCommand, kind, handleSetCommand]
      split
      · refine ⟨rfl, fun key equal => ?_⟩
        rw [KeyValueStore.get_set, KeyValueStore.get_set, equal]
      · exact ⟨rfl, fun _ equal => equal⟩
      · exact ⟨rfl, fun _ equal => equal⟩
  | commandDelete =>
      simp only [processCommand, kind]
      cases found : request.key with
      | none =>
          simp only [handleDeleteCommand, found]
          exact ⟨trivial, fun _ equal => equal⟩
      | some key =>
          rw [handleDeleteCommand_of_key found, handleDeleteCommand_of_key found, same key found]
          refine ⟨rfl, fun k equal => ?_⟩
          rw [KeyValueStore.get_delete, KeyValueStore.get_delete, equal]
  | commandList => exact absurd kind command
  | commandExit =>
      simp only [processCommand, kind]
      exact ⟨trivial, fun _ equal => equal⟩
  | commandUnspecified =>
      simp only [processCommand, kind]
      exact ⟨trivial, fun _ equal => equal⟩

end

/-! ## Whole schedules -/

variable {ι : Type} {requests : ι → List Request}

/-- Two stores hold the same at the keys of a client. -/
def SameAt (requests : ι → List Request) (i : ι) (s t : KeyValueStore) : Prop :=
  ∀ key, Uses key (requests i) → s.get key = t.get key

/-- Clients that share no key are separated: what a client observes of the store is what it holds
at the client's own keys. -/
theorem separates_of_disjoint
    (unlisted : ∀ i, ∀ request ∈ requests i, request.getCommandType ≠ .commandList)
    (disjoint : ∀ i j key, Uses key (requests i) → Uses key (requests j) → i = j) :
    Separates (processCommand 0 default) (fun i request => request ∈ requests i)
      (SameAt requests) where
  equiv i :=
    ⟨fun _ _ _ => rfl, fun same key used => (same key used).symm,
      fun left right key used => (left key used).trans (right key used)⟩
  consistent := by
    intro i request s t member same
    obtain ⟨answer, after⟩ := @processCommand_congr 0 default request s t
      (unlisted i request member)
      (fun key found => same key ⟨request, member, found⟩)
    exact ⟨answer, fun key used => after key (same key used)⟩
  respects := by
    intro i j request s t member different same key used
    rw [processCommand_get_of_ne]
    · exact same key used
    · intro found
      exact different (disjoint j i key ⟨request, member, found⟩ used)

section

variable [DecidableEq ι] {schedule : Schedule ι} {store : KeyValueStore}

/-- An interleaving that runs every request of every client. -/
def Complete (requests : ι → List Request) (schedule : Schedule ι) : Prop :=
  ∀ i, requestsOf i schedule = requests i

theorem Complete.mem (complete : Complete requests schedule) {i : ι} {call : Call}
    (turn : (i, call) ∈ schedule) : call.request ∈ requests i := by
  rw [← complete i]
  exact List.mem_map_of_mem (mem_own.mpr turn)

/-- **What one client sees of a schedule.**  Its responses, and the store at its keys, are those
of its own requests run alone. -/
theorem schedule_alone
    (unlisted : ∀ i, ∀ request ∈ requests i, request.getCommandType ≠ .commandList)
    (disjoint : ∀ i j key, Uses key (requests i) → Uses key (requests j) → i = j)
    (allowed : ∀ i call, (i, call) ∈ schedule → call.request ∈ requests i) (i : ι) :
    responsesTo i schedule store =
        (runAlone (processCommand 0 default) (requestsOf i schedule) store).1 ∧
      SameAt requests i (storeAfter schedule store)
        (runAlone (processCommand 0 default) (requestsOf i schedule) store).2 := by
  have separates := separates_of_disjoint unlisted disjoint
  have untimedRun := @run_map ι Call KeyValueStore Response Request Response Call.process
    (processCommand 0 default) Call.request untimed schedule
    (fun j call turn s => processCommand_untimed (unlisted j _ (allowed j call turn))) store
  have every : ∀ j request, (j, request) ∈ schedule.map (Prod.map id Call.request) →
      request ∈ requests j := by
    intro j request member
    rcases List.mem_map.mp member with ⟨⟨k, call⟩, turn, same⟩
    cases same
    exact allowed _ call turn
  have seen := separates.run_alone every ((separates.equiv i).refl store)
  rw [untimedRun, own_map] at seen
  rw [Prod.map_fst, own_map] at seen
  exact seen

/-- A key no client uses is left alone. -/
theorem storeAfter_of_unused (complete : Complete requests schedule) {key : String}
    (unused : ∀ i, ¬ Uses key (requests i)) :
    (storeAfter schedule store).get key = store.get key := by
  rw [storeAfter, run_snd]
  refine @runAlone_preserves _ _ _ Call.process (fun s => s.get key = store.get key) _ ?_ _ rfl
  intro call member s kept
  rcases List.mem_map.mp member with ⟨⟨i, call⟩, turn, rfl⟩
  refine (processCommand_get_of_ne ?_).trans kept
  intro found
  exact unused i ⟨call.request, complete.mem turn, found⟩

/-- A client that runs alone leaves at its keys what an interleaving with the others does. -/
theorem get_alone
    (unlisted : ∀ i, ∀ request ∈ requests i, request.getCommandType ≠ .commandList)
    (disjoint : ∀ i j key, Uses key (requests i) → Uses key (requests j) → i = j)
    (complete : Complete requests schedule) {i : ι} {calls : List Call}
    (own : calls.map Call.request = requests i) {key : String} (used : Uses key (requests i)) :
    (storeAfter (calls.map (Prod.mk i)) store).get key = (storeAfter schedule store).get key := by
  have mine : requestsOf i (calls.map (Prod.mk i)) = requests i := by
    rw [requestsOf, own_map_mk, own]
  have allowed : ∀ j call, (j, call) ∈ calls.map (Prod.mk i) → call.request ∈ requests j := by
    intro j call turn
    rcases List.mem_map.mp turn with ⟨call', member, same⟩
    cases same
    rw [← own]
    exact List.mem_map_of_mem member
  have alone := (@schedule_alone _ _ _ _ store unlisted disjoint allowed i).2 key used
  have mixed := (@schedule_alone _ _ _ _ store unlisted disjoint
    (fun _ _ turn => complete.mem turn) i).2 key used
  rw [mine] at alone
  rw [complete i] at mixed
  exact alone.trans mixed.symm

/-- The keys `LIST` returns are the present ones, each once. -/
theorem processCommand_keys {timestamp : UInt64} {order : IterOrder (String × Kv.Value)}
    {request : Request} (command : request.getCommandType = .commandList) :
    (processCommand timestamp order request store).1.keys.Nodup ∧
      ∀ key, key ∈ (processCommand timestamp order request store).1.keys ↔
        (store.get key).isSome := by
  have keys : (processCommand timestamp order request store).1.keys = store.list order := by
    rw [processCommand, command]
    rfl
  rw [keys]
  refine ⟨(store.list_perm order).nodup_iff.mpr store.data.keys_nodup, fun key => ?_⟩
  rw [(store.list_perm order).mem_iff, ← AList.mem_keys]
  exact AList.lookup_isSome.symm

/-- **Clients on disjoint keys do not interfere.**  Two complete interleavings of the same
requests give every client the same responses, timestamps aside, and leave the same store.  A
`LIST` after them returns the initial keys that no client uses, and those keys of each client that
it would have left present running alone. -/
theorem disjoint_clients (requests : ι → List Request)
    (unlisted : ∀ i, ∀ request ∈ requests i, request.getCommandType ≠ .commandList)
    (disjoint : ∀ i j key, Uses key (requests i) → Uses key (requests j) → i = j)
    (store : KeyValueStore) {left right : Schedule ι} (leftComplete : Complete requests left)
    (rightComplete : Complete requests right) :
    (∀ i, responsesTo i left store = responsesTo i right store) ∧
      (storeAfter left store).get = (storeAfter right store).get ∧
      ∀ (alone : ι → List Call), (∀ i, (alone i).map Call.request = requests i) →
        ∀ timestamp order request, request.getCommandType = .commandList →
          (processCommand timestamp order request (storeAfter left store)).1.keys.Nodup ∧
          ∀ key, key ∈ (processCommand timestamp order request (storeAfter left store)).1.keys ↔
            ((store.get key).isSome ∧ ∀ i, ¬ Uses key (requests i)) ∨
              ∃ i, Uses key (requests i) ∧
                ((storeAfter ((alone i).map (Prod.mk i)) store).get key).isSome := by
  have leftAlone := fun i =>
    @schedule_alone _ _ _ _ store unlisted disjoint (fun _ _ turn => leftComplete.mem turn) i
  have rightAlone := fun i =>
    @schedule_alone _ _ _ _ store unlisted disjoint (fun _ _ turn => rightComplete.mem turn) i
  simp only [leftComplete _] at leftAlone
  simp only [rightComplete _] at rightAlone
  refine ⟨fun i => (leftAlone i).1.trans (rightAlone i).1.symm, ?_, ?_⟩
  · funext key
    by_cases used : ∃ i, Uses key (requests i)
    · obtain ⟨i, used⟩ := used
      exact ((leftAlone i).2 key used).trans ((rightAlone i).2 key used).symm
    · have unused := not_exists.mp used
      exact (storeAfter_of_unused leftComplete unused).trans
        (storeAfter_of_unused rightComplete unused).symm
  · intro alone aloneComplete timestamp order request command
    obtain ⟨nodup, present⟩ :=
      @processCommand_keys (storeAfter left store) timestamp order _ command
    refine ⟨nodup, fun key => ?_⟩
    rw [present]
    constructor
    · intro stored
      by_cases used : ∃ i, Uses key (requests i)
      · obtain ⟨i, used⟩ := used
        rw [← get_alone unlisted disjoint leftComplete (aloneComplete i) used] at stored
        exact .inr ⟨i, used, stored⟩
      · have unused := not_exists.mp used
        exact .inl ⟨by rwa [storeAfter_of_unused leftComplete unused] at stored, unused⟩
    · intro holds
      rcases holds with ⟨stored, unused⟩ | ⟨i, used, stored⟩
      · rwa [storeAfter_of_unused leftComplete unused]
      · rwa [get_alone unlisted disjoint leftComplete (aloneComplete i) used] at stored

end

/-- Two clients in two orders: one sets and deletes `a` around the other's requests for `b`. -/
theorem disjoint_clients_two :
    responsesTo true
        [(true, ⟨1, default, { commandType := 2, key := some "a", value := some ⟨none⟩ }⟩),
          (false, ⟨2, default, { commandType := 3, key := some "b" }⟩),
          (true, ⟨3, default, { commandType := 3, key := some "a" }⟩)] .new =
      responsesTo true
        [(true, ⟨4, default, { commandType := 2, key := some "a", value := some ⟨none⟩ }⟩),
          (true, ⟨5, default, { commandType := 3, key := some "a" }⟩),
          (false, ⟨6, default, { commandType := 3, key := some "b" }⟩)] .new := by
  refine (disjoint_clients
    (fun i => cond i
      [{ commandType := 2, key := some "a", value := some ⟨none⟩ },
        { commandType := 3, key := some "a" }]
      [{ commandType := 3, key := some "b" }])
    (by decide) ?_ .new ?_ ?_).1 true
  · intro i j key usedLeft usedRight
    cases i <;> cases j <;> simp [Uses] at usedLeft usedRight ⊢
    · rw [← usedLeft] at usedRight
      revert usedRight
      decide
    · rw [← usedLeft] at usedRight
      revert usedRight
      decide
  · intro i
    cases i <;> rfl
  · intro i
    cases i <;> rfl

end Bonka
