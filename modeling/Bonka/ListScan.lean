import Bonka.Lib.ShardScan
import Bonka.ConnectionRuns

/-!
# `LIST` under concurrent writes

`LIST` goes over the shards of the store while other clients set and delete keys, so what it
returns is no snapshot.  It is regular (`list_regular`): no key twice, every key that was there
from the first to the last read of a shard, and only keys that were there at some moment between.
-/

namespace Bonka

open Proto Transition ShardScan

variable {C : Type} [DecidableEq C] {env : ServerEnv} {c : C} {s t : Server C}
  {event : ServerEvent C} {request : Request}

/-- The key is in the store. -/
def Server.Stores (s : Server C) (key : String) : Prop := key ∈ s.state.kvStore.data

omit [DecidableEq C] in
instance (s : Server C) (key : String) : Decidable (s.Stores key) :=
  inferInstanceAs (Decidable (key ∈ s.state.kvStore.data))

/-! ## One step during a `LIST` -/

/-- Until it is answered, a connection in a `LIST` only reads its next shard. -/
theorem ClientStep.listing {now : Instant} {state state' : ServerState} {conn conn' : Connection}
    {action : ClientAction} {shard : ℕ} {keys : List String}
    (edge : ClientStep env now state conn action state' conn')
    (stage : conn.stage = .processing request shard keys)
    (unanswered : ∀ n request response, action ≠ .exec n request response) :
    (conn'.stage = .processing request shard keys ∧ ∀ i, action ≠ .scan i) ∨
      action = .scan shard ∧ shard < env.shards ∧ state' = state ∧ ∃ found : List String,
        conn'.stage = .processing request (shard + 1) (keys ++ found) ∧
          found.Perm (state.kvStore.data.keys.filter fun key => env.shardOf key = shard) := by
  cases edge with
  | send frame open_ => exact .inl ⟨stage, fun _ same => by cases same⟩
  | hangUp => exact .inl ⟨stage, fun _ same => by cases same⟩
  | receive found => exact .inl ⟨stage, fun _ same => by cases same⟩
  | scan found here isList below perm =>
      rw [stage] at here
      cases here
      exact .inr ⟨rfl, below, rfl, found, rfl, perm⟩
  | list timestamp here isList done => exact absurd rfl (unanswered _ _ _)
  | exec timestamp here notList => exact absurd rfl (unanswered _ _ _)
  | read here | readMalformed _ here | endOfStream here | codecError here | touch here
  | reply here | reject here | sendErrorReply here | sendErrorReject here | remove here =>
      rw [stage] at here
      cases here

/-- A connection in a `LIST` stays in it, at the same shard or at the next. -/
theorem ServerStep.listing {conn : Connection} {shard : ℕ} {keys : List String}
    (edge : ServerStep env s event t) (found : s.connections c = some conn)
    (stage : conn.stage = .processing request shard keys)
    (unanswered : ∀ n request response, event ≠ .client c (.exec n request response)) :
    ∃ conn', t.connections c = some conn' ∧
      ((conn'.stage = .processing request shard keys ∧ ∀ i, event ≠ .client c (.scan i)) ∨
        event = .client c (.scan shard) ∧ shard < env.shards ∧ t.state = s.state ∧
          ∃ more : List String, conn'.stage = .processing request (shard + 1) (keys ++ more) ∧
            more.Perm (s.state.kvStore.data.keys.filter fun key => env.shardOf key = shard)) := by
  cases edge with
  | @accept d _ _ _ _ fresh =>
      have ne : c ≠ d := by
        intro same
        subst same
        rw [fresh] at found
        cases found
      exact ⟨conn, by rwa [Server.put_ne ne], .inl ⟨stage, fun _ same => by cases same⟩⟩
  | @client d mine conn' action state here edge =>
      by_cases same : c = d
      · subst same
        rw [here] at found
        cases found
        refine ⟨conn', Server.put_self, ?_⟩
        rcases edge.listing stage (fun n q r same => unanswered n q r (by rw [same])) with
          ⟨kept, noScan⟩ | ⟨rfl, below, rfl, more, next, perm⟩
        · refine .inl ⟨kept, fun i same => noScan i ?_⟩
          cases same
          rfl
        · exact .inr ⟨rfl, below, rfl, more, next, perm⟩
      · refine ⟨conn, by rwa [Server.put_ne same], .inl ⟨stage, fun _ other => ?_⟩⟩
        cases other
        exact same rfl
  | cleanup _ => exact ⟨conn, found, .inl ⟨stage, fun _ same => by cases same⟩⟩
  | advance _ => exact ⟨conn, found, .inl ⟨stage, fun _ same => by cases same⟩⟩

/-- Only a `SET` or `DELETE` changes the store. -/
theorem ServerStep.kvStore_eq (edge : ServerStep env s event t)
    (quiet : ∀ d n request response, event = .client d (.exec n request response) →
      request.getCommandType ≠ .commandSet ∧ request.getCommandType ≠ .commandDelete) :
    t.state.kvStore = s.state.kvStore := by
  cases edge with
  | accept | cleanup | advance => rfl
  | client _ edge =>
      cases edge with
      | exec timestamp stage notList =>
          obtain ⟨notSet, notDelete⟩ := quiet _ _ _ _ rfl
          simp only [Server.put, processCommand]
          split
          · rfl
          · exact absurd ‹_› notSet
          · exact absurd ‹_› notDelete
          · rfl
          · rfl
          · rfl
      | _ => rfl

/-! ## The shards read so far -/

/-- The connection is in a `LIST` and has found `keys` in the shards below `shard`. -/
structure Listing (env : ServerEnv) (c : C) (request : Request) (visited : List (Server C))
    (s : Server C) (shard : ℕ) (keys : List String) : Prop where
  here : ∃ conn, s.connections c = some conn ∧ conn.stage = .processing request shard keys
  regular : Regular Server.Stores env.shardOf visited shard keys

theorem Listing.step {visited : List (Server C)} {shard : ℕ} {keys : List String}
    (listing : Listing env c request visited s shard keys) (now : s ∈ visited)
    (edge : ServerStep env s event t)
    (unanswered : ∀ n request response, event ≠ .client c (.exec n request response)) :
    ∃ shard' keys', Listing env c request (visited ++ [t]) t shard' keys' ∧
      ∀ i, event = .client c (.scan i) → shard' = i + 1 := by
  obtain ⟨conn, found, stage⟩ := listing.here
  obtain ⟨conn', found', moved⟩ := edge.listing found stage unanswered
  rcases moved with ⟨kept, noScan⟩ | ⟨rfl, below, same, more, next, perm⟩
  · exact ⟨shard, keys, ⟨⟨conn', found', kept⟩, listing.regular.moved t⟩,
      fun i scan => absurd scan (noScan i)⟩
  · refine ⟨shard + 1, keys ++ more, ⟨⟨conn', found', next⟩, ?_⟩, fun i scan => ?_⟩
    · refine (listing.regular.read now ?_ fun key => ?_).moved t
      · exact perm.nodup_iff.mpr (s.state.kvStore.data.keys_nodup.filter _)
      · rw [perm.mem_iff, List.mem_filter, decide_eq_true_iff]
        rfl
    · cases scan
      rfl

/-- What a `LIST` has found at the end of a window without its answer. -/
theorem Listing.trace {window : List (ServerEvent C)} {visited : List (Server C)} {s₀ : Server C}
    (trace : Trace (ServerStep env) s₀ window visited s)
    (start : Listing env c request [s₀] s₀ 0 [])
    (unanswered : ∀ n request response, .client c (.exec n request response) ∉ window) :
    ∃ shard keys, Listing env c request visited s shard keys ∧
      ∀ i, window.getLast? = some (.client c (.scan i)) → shard = i + 1 := by
  induction trace with
  | nil => exact ⟨0, [], start, fun i last => by cases last⟩
  | snoc before edge ih =>
      obtain ⟨shard, keys, listing, -⟩ :=
        ih fun n q r member => unanswered n q r (List.mem_append_left _ member)
      obtain ⟨shard', keys', listing', last⟩ := listing.step before.final_mem edge
        fun n q r same => unanswered n q r (by rw [← same]; simp)
      refine ⟨shard', keys', listing', fun i scan => last i ?_⟩
      simpa using scan

/-- After the last shard a `LIST` waits, with the keys it has. -/
theorem stays_listed {events : List (ServerEvent C)} {conn : Connection} {keys : List String}
    (run : Run (ServerStep env) s events t) (found : s.connections c = some conn)
    (stage : conn.stage = .processing request env.shards keys)
    (unanswered : ∀ n request response, .client c (.exec n request response) ∉ events) :
    ∃ conn', t.connections c = some conn' ∧ conn'.stage = .processing request env.shards keys := by
  induction run with
  | nil => exact ⟨conn, found, stage⟩
  | snoc _ edge ih =>
      obtain ⟨conn', found', stage'⟩ :=
        ih fun n q r member => unanswered n q r (List.mem_append_left _ member)
      obtain ⟨conn'', found'', moved⟩ := edge.listing found' stage'
        fun n q r same => unanswered n q r (by rw [← same]; simp)
      rcases moved with ⟨kept, -⟩ | ⟨-, below, -⟩
      · exact ⟨conn'', found'', kept⟩
      · exact absurd below (lt_irrefl _)

/-- A connection that has read no shard has found no key. -/
theorem keys_eq_nil {events : List (ServerEvent C)} {conn : Connection} {keys : List String}
    (run : Run (ServerStep env) .init events s) (found : s.connections c = some conn)
    (stage : conn.stage = .processing request 0 keys) : keys = [] := by
  refine connection_invariant (P := fun _ conn => ∀ request keys,
    conn.stage = .processing request 0 keys → keys = []) ?_ ?_ run found _ _ stage
  · intro addr sessionId request keys stage
    cases stage
  · intro actions now state conn action state' conn' ih edge request keys stage
    cases edge with
    | send | hangUp | receive => exact ih _ _ stage
    | touch here =>
        cases stage
        rfl
    | reply here =>
        simp only at stage
        split at stage <;> cases stage
    | _ => cases stage

/-- A connection about to read the first shard is in a `LIST` that has found nothing yet. -/
theorem listing_of_first {before : List (ServerEvent C)}
    (run : Run (ServerStep env) .init before s)
    (edge : ServerStep env s (.client c (.scan 0)) t) :
    ∃ request, request.getCommandType = .commandList ∧ Listing env c request [s] s 0 [] := by
  cases edge with
  | client found edge =>
      cases edge with
      | scan more stage isList below perm =>
          cases keys_eq_nil run found stage
          exact ⟨_, isList, ⟨_, found, stage⟩, .start _ _ _⟩

/-! ## The response -/

/-- **`LIST` is regular.**  Between the first and the last read of a shard other clients may set
and delete keys in any order.  The response holds no key twice, every key that was stored
throughout, and only keys that were stored at some moment between; when no key is set or deleted
meanwhile, it holds exactly the stored keys. -/
theorem list_regular {before window after : List (ServerEvent C)} {visited : List (Server C)}
    {s₀ s₁ s₂ s₃ : Server C} {n : ℕ} {response : Response}
    (reached : Run (ServerStep env) .init before s₀)
    (scanned : Trace (ServerStep env) s₀ window visited s₁)
    (first : window.head? = some (.client c (.scan 0)))
    (last : window.getLast? = some (.client c (.scan (env.shards - 1))))
    (waited : Run (ServerStep env) s₁ after s₂)
    (answered : ServerStep env s₂ (.client c (.exec n request response)) s₃)
    (own : ∀ n request response, .client c (.exec n request response) ∉ window ++ after) :
    response.keys.Nodup ∧
      (∀ key, (∀ s ∈ visited, s.Stores key) → key ∈ response.keys) ∧
      (∀ key ∈ response.keys, ∃ s ∈ visited, s.Stores key) ∧
      ((∀ d n request response, .client d (.exec n request response) ∈ window →
          request.getCommandType ≠ .commandSet ∧ request.getCommandType ≠ .commandDelete) →
        response.keys.Perm s₀.state.kvStore.data.keys) := by
  obtain ⟨rest, shape⟩ := List.head?_eq_some_iff.mp first
  obtain ⟨request', isList, start⟩ : ∃ request', request'.getCommandType = .commandList ∧
      Listing env c request' [s₀] s₀ 0 [] := by
    have run := scanned.run
    rw [shape, ← List.nil_append (_ :: rest)] at run
    obtain ⟨m, next, left, edge, -⟩ := run.at_event
    rw [left.of_nil] at edge
    exact listing_of_first reached edge
  obtain ⟨shards, keys, listing, allRead⟩ :=
    Listing.trace scanned start fun n q r member => own n q r (List.mem_append_left _ member)
  have done : shards = env.shards := by
    have nonempty := env.shardOf_lt ""
    have ended := allRead _ last
    omega
  subst done
  obtain ⟨conn, found, stage⟩ := listing.here
  obtain ⟨conn', found', stage'⟩ :=
    stays_listed waited found stage fun n q r member => own n q r (List.mem_append_right _ member)
  -- the answer is made of the keys found
  have answer : response.keys = keys := by
    cases answered with
    | client here edge =>
        rw [found'] at here
        cases here
        cases edge with
        | list timestamp here isList' full =>
            rw [stage'] at here
            cases here
            rfl
        | exec timestamp here notList =>
            rw [stage'] at here
            cases here
            exact absurd isList notList
  rw [answer]
  refine ⟨listing.regular.nodup, fun key stays => listing.regular.complete key
    (env.shardOf_lt key) stays, listing.regular.sound, fun quiet => ?_⟩
  have same := scanned.forall_visited (P := fun s => s.state.kvStore = s₀.state.kvStore) rfl
    fun member kept edge => (edge.kvStore_eq fun d n q r equal =>
      quiet d n q r (equal ▸ member)).trans kept
  refine (List.perm_ext_iff_of_nodup listing.regular.nodup
    s₀.state.kvStore.data.keys_nodup).mpr fun key => ?_
  refine listing.regular.mem_iff env.shardOf_lt (fun s member key => ?_) key
  rw [Server.Stores, Server.Stores, same s member]

/-- The server on the proto3 wire format with a store of two shards: the keys of even length are in
the first, the others in the second. -/
def ServerEnv.twoShards : ServerEnv where
  decodeRequest := Request.decode
  encodeResponse := Response.encode
  ids := .byLength
  shards := 2
  shardOf key := key.length % 2
  shardOf_lt _ := Nat.mod_lt _ Nat.two_pos

/-- A `LIST` over two shards.  Between its two reads another client deletes `bc` and then sets `d`.
The response has both keys, which the store never held together. -/
theorem list_regular_stored :
    ∃ (before window : List (ServerEvent Bool)) (visited : List (Server Bool))
      (s₀ s₁ s₂ : Server Bool) (response : Response),
      Run (ServerStep .twoShards) .init before s₀ ∧
        Trace (ServerStep .twoShards) s₀ window visited s₁ ∧
        ServerStep .twoShards s₁ (.client true (.exec 0 { commandType := 4 } response)) s₂ ∧
        response.keys = ["bc", "a", "d"] ∧
        (∀ s ∈ visited, ¬ (s.Stores "bc" ∧ s.Stores "d")) ∧
        response.keys.Nodup ∧
        (∀ key, (∀ s ∈ visited, s.Stores key) → key ∈ response.keys) ∧
        ∀ key ∈ response.keys, ∃ s ∈ visited, s.Stores key := by
  have before := @Run.nil _ _ (ServerStep (C := Bool) .twoShards) .init
    |>.snoc (@ServerStep.accept _ _ _ _ false "a" (List.replicate 16 0) _ _ rfl rfl rfl)
    |>.snoc (@ServerStep.accept _ _ _ _ true "bc" (List.replicate 16 0) _ _ rfl rfl rfl)
    |>.snoc (.client (c := false) rfl (.send [24, 2, 34, 1, 97, 42, 0] rfl))
    |>.snoc (.client (c := false) Server.put_self (.send [24, 2, 34, 2, 98, 99, 42, 0] rfl))
    |>.snoc (.client (c := false) Server.put_self (.send [24, 3, 34, 2, 98, 99] rfl))
    |>.snoc (.client (c := false) Server.put_self (.send [24, 2, 34, 1, 100, 42, 0] rfl))
    |>.snoc (.client (c := false) Server.put_self
      (@ClientStep.read _ _ _ _ _ { commandType := 2, key := some "a", value := some ⟨none⟩ }
        rfl rfl (by decide) (by decide)))
    |>.snoc (.client (c := false) Server.put_self (.touch rfl))
    |>.snoc (.client (c := false) Server.put_self (.exec 0 rfl (by decide)))
    |>.snoc (.client (c := false) Server.put_self (.reply rfl rfl))
    |>.snoc (.client (c := false) Server.put_self
      (@ClientStep.read _ _ _ _ _ { commandType := 2, key := some "bc", value := some ⟨none⟩ }
        rfl rfl (by decide) (by decide)))
    |>.snoc (.client (c := false) Server.put_self (.touch rfl))
    |>.snoc (.client (c := false) Server.put_self (.exec 0 rfl (by decide)))
    |>.snoc (.client (c := false) Server.put_self (.reply rfl rfl))
    |>.snoc (.client (c := false) Server.put_self
      (@ClientStep.read _ _ _ _ _ { commandType := 3, key := some "bc" } rfl rfl (by decide)
        (by decide)))
    |>.snoc (.client (c := false) Server.put_self (.touch rfl))
    |>.snoc (.client (c := true) rfl (.send [24, 4] rfl))
    |>.snoc (.client (c := true) Server.put_self
      (@ClientStep.read _ _ _ _ _ { commandType := 4 } rfl rfl (by decide) (by decide)))
    |>.snoc (.client (c := true) Server.put_self (.touch rfl))
  have stay : ∀ {events} {s : Server Bool}, Run (ServerStep .twoShards) .init events s →
      Trace (ServerStep .twoShards) s [] [s] s := fun _ => .nil
  have scanned := stay before
    |>.snoc (.client (c := true) Server.put_self
      (@ClientStep.scan _ _ _ _ { commandType := 4 } 0 [] ["bc"] rfl rfl (by decide) (by decide)))
    |>.snoc (.client (c := false) rfl (.exec 0 rfl (by decide)))
    |>.snoc (.client (c := false) Server.put_self (.reply rfl rfl))
    |>.snoc (.client (c := false) Server.put_self
      (@ClientStep.read _ _ _ _ _ { commandType := 2, key := some "d", value := some ⟨none⟩ }
        rfl rfl (by decide) (by decide)))
    |>.snoc (.client (c := false) Server.put_self (.touch rfl))
    |>.snoc (.client (c := false) Server.put_self (.exec 0 rfl (by decide)))
    |>.snoc (.client (c := true) rfl
      (@ClientStep.scan _ _ _ _ { commandType := 4 } 1 ["bc"] ["a", "d"] rfl rfl (by decide)
        (by decide)))
  obtain ⟨once, complete, sound, -⟩ := list_regular before scanned rfl rfl .nil
    (.client Server.put_self (.list 0 rfl rfl (le_refl _))) (by simp)
  refine ⟨_, _, _, _, _, _, _, before, scanned,
    .client Server.put_self (.list 0 rfl rfl (le_refl _)), rfl, ?_, once, complete, sound⟩
  decide

end Bonka
