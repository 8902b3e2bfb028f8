import Bonka.ClientHistories
import Bonka.ListScan

/-!
# `list` of the Python client

`BonkaClient.list` returns what a scan of the store has found somewhere between the start of the
call and its return, while other clients set and delete keys.  So its callers see a set of keys
that is regular over the whole call (`list_call_regular`): every key that was stored throughout,
and none that was never stored meanwhile.
-/

namespace Bonka

open Proto Transition ShardScan

variable {C : Type} [DecidableEq C] {env : ServerEnv} {c : C}

/-! ## The scans of one handler -/

/-- A handler in a scan has just begun it, has read a shard, or was there before. -/
theorem ClientStep.processing_cases {now : Instant} {state state' : ServerState}
    {conn conn' : Connection} {action : ClientAction} {request : Request} {shards : ℕ}
    {keys : List String} (edge : ClientStep env now state conn action state' conn')
    (stage : conn'.stage = .processing request shards keys) :
    conn.stage = .processing request shards keys ∨ (shards = 0 ∧ keys = []) ∨
      ∃ (before : ℕ) (earlier found : List String),
        conn.stage = .processing request before earlier ∧ shards = before + 1 ∧
          keys = earlier ++ found ∧
          found.Perm (state.kvStore.data.keys.filter fun key => env.shardOf key = before) := by
  cases edge with
  | send | hangUp | receive => exact .inl stage
  | touch here =>
      cases stage
      exact .inr (.inl ⟨rfl, rfl⟩)
  | scan found here isList below perm =>
      cases stage
      exact .inr (.inr ⟨_, _, _, here, rfl, rfl, perm⟩)
  | reply here =>
      dsimp only at stage
      split at stage <;> cases stage
  | _ => cases stage

/-- What the scans of connection `c` have found since a window began. -/
structure ScansRegular (env : ServerEnv) (c : C) (window : List (ServerEvent C))
    (visited : List (Server C)) (s : Server C) : Prop where
  underWay : ∀ {conn request shards keys}, s.connections c = some conn →
    conn.stage = .processing request shards keys → request.getCommandType = .commandList →
    Regular Server.Stores env.shardOf visited shards keys
  answered : ∀ {n request response}, .client c (.exec n request response) ∈ window →
    request.getCommandType = .commandList → ∃ shards, env.shards ≤ shards ∧
      Regular Server.Stores env.shardOf visited shards response.keys

variable {window : List (ServerEvent C)} {visited : List (Server C)} {s t : Server C}
  {event : ServerEvent C}

theorem ScansRegular.step (scans : ScansRegular env c window visited s) (now : s ∈ visited)
    (edge : ServerStep env s event t) :
    ScansRegular env c (window ++ [event]) (visited ++ [t]) t := by
  constructor
  · intro conn request shards keys found stage isList
    cases edge with
    | @accept d _ _ _ _ fresh =>
        by_cases same : c = d
        · subst same
          rw [Server.put_self] at found
          cases found
          cases stage
        · rw [Server.put_ne same] at found
          exact (scans.underWay found stage isList).moved _
    | @client d before _ _ _ here edge =>
        by_cases same : c = d
        · subst same
          rw [Server.put_self] at found
          cases found
          rcases edge.processing_cases stage with kept | ⟨rfl, rfl⟩ |
            ⟨shard, earlier, more, before, rfl, rfl, perm⟩
          · exact (scans.underWay here kept isList).moved _
          · exact .start _ _ _
          · refine ((scans.underWay here before isList).read now ?_ fun key => ?_).moved _
            · exact perm.nodup_iff.mpr (s.state.kvStore.data.keys_nodup.filter _)
            · rw [perm.mem_iff, List.mem_filter, decide_eq_true_iff]
              rfl
        · rw [Server.put_ne same] at found
          exact (scans.underWay found stage isList).moved _
    | cleanup | advance => exact (scans.underWay found stage isList).moved _
  · intro n request response member isList
    rcases List.mem_append.mp member with old | new
    · obtain ⟨shards, all, regular⟩ := scans.answered old isList
      exact ⟨shards, all, regular.moved _⟩
    · cases List.mem_singleton.mp new
      cases edge with
      | client here edge =>
          cases edge with
          | list timestamp stage isList all =>
              exact ⟨_, all, (scans.underWay here stage isList).moved _⟩
          | exec timestamp stage notList => exact absurd isList notList

/-- In a window that begins between two commands of a handler, its lists are regular. -/
theorem scansRegular_of_trace {s₀ : Server C}
    (trace : Trace (ServerStep env) s₀ window visited s)
    (between : ∀ {conn request shards keys}, s₀.connections c = some conn →
      conn.stage ≠ .processing request shards keys) : ScansRegular env c window visited s := by
  induction trace with
  | nil =>
      exact ⟨fun found stage => absurd stage (between found), fun member => by cases member⟩
  | snoc before last ih => exact ih.step before.final_mem last

/-! ## The call -/

section

variable {codec : PyCodec} {s₀ s₁ s₂ : System C} {before later : List (SystemEvent C)}
  {request : Request} {response : Response}

/-- Between two calls of a client that is in touch, its handler is between two commands. -/
theorem not_processing_of_idle (laws : WireLaws codec env)
    (run : Run (SystemStep codec env) .init before s₀) (unbroken : Unbroken c before)
    (idle : (s₀.links c).stage = .idle) {conn : Connection}
    (found : s₀.server.connections c = some conn) {shards : ℕ} {keys : List String} :
    conn.stage ≠ .processing request shards keys := by
  intro stage
  have served := system_server_run run
  have inv := connection_inv served found
  have inTouch := inTouch_of_unbroken laws run unbroken
  unfold Link.InTouch at inTouch
  rw [idle] at inTouch
  have received := inTouch.2.1
  simp only [Server.framesOf, Server.receivedOf, found, Option.elim] at received
  have least := connection_received_le served found
  have position := inv.position
  rw [stage] at position
  have taken := position.1
  have most := inv.taken_le
  omega

/-- **`list` is regular for its callers.**  While a `list()` is under way other clients may set and
delete keys in any order.  It returns a list in which no key is twice, with every key that was
stored from the start of the call to its return, and only keys that were stored at some moment
between; when the store does not change meanwhile, it is the keys of the store. -/
theorem list_call_regular (laws : WireLaws codec env) {visited : List (System C)}
    (reached : Run (SystemStep codec env) .init before s₀)
    (called : Trace (SystemStep codec env) s₀ (.call c .list request :: later) visited s₁)
    (alone : ∀ event ∈ later, ¬ event.Boundary c)
    (returned : SystemStep codec env s₁ (.link c (.returned request response)) s₂)
    (unbroken : Unbroken c (before ++ .call c .list request :: later)) :
    ∃ texts : List String, listResult response = .ok (texts.map .ofUnicode) ∧ texts.Nodup ∧
      (∀ text, (∀ s ∈ visited, s.server.Stores text) → text ∈ texts) ∧
      (∀ text ∈ texts, ∃ s ∈ visited, s.server.Stores text) ∧
      ((∀ s ∈ visited, s.server.state.kvStore = s₀.server.state.kvStore) →
        texts.Perm s₀.server.state.kvStore.data.keys) := by
  have run := reached.trans called.run
  have behind := returning laws run unbroken returned
  have served := system_server_run run
  -- the call starts between two commands of the handler
  obtain ⟨idle, isList⟩ : (s₀.links c).stage = .idle ∧
      request.getCommandType = .commandList := by
    obtain ⟨_, _, first, edge, -⟩ := (show Run _ s₀ ([] ++ _ :: later) s₁ from called.run).at_event
    rw [first.of_nil] at edge
    cases edge with
    | call idle prepared => exact ⟨idle, (buildRequest_command (Prod.mk.inj prepared).1).1⟩
  have inTouch := inTouch_of_unbroken laws reached unbroken.of_append
  unfold Link.InTouch at inTouch
  rw [idle] at inTouch
  have count : returns c (before ++ .call c .list request :: later) = returns c before := by
    have none : later.countP (SystemEvent.isReturn c) = 0 := by
      rw [List.countP_eq_zero]
      intro event member
      simp [SystemEvent.not_isReturn (alone event member)]
    simp [returns, none, SystemEvent.isReturn]
  obtain ⟨parts, trace, back⟩ := called.project SystemStep.server_eq SystemStep.serverStep
  have scans := scansRegular_of_trace trace fun found =>
    not_processing_of_idle laws reached unbroken.of_append idle found
  have executed : .client c (.exec (returns c before) request response) ∈
      serverEvents (.call c .list request :: later) := by
    have ran := mem_serverEvents.mpr (count ▸ behind.executed)
    rw [serverEvents_append] at ran
    rcases List.mem_append.mp ran with early | late
    · -- that many commands had not been run before
      have before := system_server_run reached
      obtain ⟨conn, found⟩ := exists_connection before early
      have less := ((connection_traced before found).executed_lt (mem_actionsOf.mpr early)).trans_le
        (connection_inv before found).answered_le
      have most := (connection_inv before found).taken_le
      have frames := inTouch.1
      simp only [Server.framesOf, found, Option.elim] at frames
      omega
    · exact late
  obtain ⟨shards, all, regular⟩ := scans.answered executed isList
  have within : ∀ key, env.shardOf key < shards := fun key => (env.shardOf_lt key).trans_le all
  refine ⟨response.keys, ?_, regular.nodup, fun text stays => ?_, fun text member => ?_,
    fun quiet => ?_⟩
  · rw [listResult, exec_list served (mem_serverEvents.mpr behind.executed) isList]
  · refine regular.complete text (within text) fun server member => ?_
    obtain ⟨s, there, rfl⟩ := back server member
    exact stays s there
  · obtain ⟨server, member, stored⟩ := regular.sound text member
    obtain ⟨s, there, rfl⟩ := back server member
    exact ⟨s, there, stored⟩
  · refine (List.perm_ext_iff_of_nodup regular.nodup
      s₀.server.state.kvStore.data.keys_nodup).mpr ?_
    refine regular.mem_iff within fun server member key => ?_
    obtain ⟨s, there, rfl⟩ := back server member
    rw [Server.Stores, quiet s there]
    rfl

/-- A `list` over two shards.  Between its two reads one client deletes `"bc"` and then another sets
`"d"`.  It returns both keys, which the store never held together. -/
theorem list_call_regular_set :
    ∃ (before later : List (SystemEvent (Fin 4))) (s₀ s₁ s₂ : System (Fin 4))
      (visited : List (System (Fin 4))) (request : Request) (texts : List String),
      Run (SystemStep .proto3 .twoShards) .init before s₀ ∧
        Trace (SystemStep .proto3 .twoShards) s₀ (.call 0 .list request :: later) visited s₁ ∧
        SystemStep .proto3 .twoShards s₁ (.link 0 (.returned request
          { id := some 1, resultType := 3, keys := ["bc", "d"] })) s₂ ∧
        (∀ s ∈ visited, ¬ (s.server.Stores "bc" ∧ s.server.Stores "d")) ∧
        texts.map PyStr.ofUnicode = [.ofUnicode "bc", .ofUnicode "d"] ∧ texts.Nodup ∧
        (∀ text, (∀ s ∈ visited, s.server.Stores text) → text ∈ texts) ∧
        ∀ text ∈ texts, ∃ s ∈ visited, s.server.Stores text := by
  have before := @Run.nil _ _ (SystemStep (C := Fin 4) .proto3 .twoShards) .init
    |>.snoc (@SystemStep.server _ _ _ _ _ (.accept 0 "a" _) _ trivial
      (@ServerStep.accept _ _ _ _ 0 "a" (List.replicate 16 0) _ _ rfl rfl rfl))
    |>.snoc (@SystemStep.server _ _ _ _ _ (.accept 1 "bc" _) _ trivial
      (@ServerStep.accept _ _ _ _ 1 "bc" (List.replicate 16 0) _ _ rfl rfl rfl))
    |>.snoc (@SystemStep.server _ _ _ _ _ (.accept 2 "def" _) _ trivial
      (@ServerStep.accept _ _ _ _ 2 "def" (List.replicate 16 0) _ _ rfl rfl rfl))
    |>.snoc (@SystemStep.server _ _ _ _ _ (.accept 3 "ghij" _) _ trivial
      (@ServerStep.accept _ _ _ _ 3 "ghij" (List.replicate 16 0) _ _ rfl rfl rfl))
    -- client 1 has set `"bc"`
    |>.snoc (@SystemStep.call _ _ _ _ _ 1 (.set (.ofUnicode "bc") (.int 7)) 0
      { id := some 1, commandType := 2, key := some "bc", value := some ⟨some (.uintValue 7)⟩ } _
      rfl rfl (by decide))
    |>.snoc (@SystemStep.link _ _ _ _ _ 1 _ _
      (@LinkStep.send _ _ _ _ _ (frameBytes [8, 1, 24, 2, 34, 2, 98, 99, 42, 2, 32, 7]) [] rfl
        (by decide)) id)
    |>.snoc (@SystemStep.deliver _ _ _ _ _ 1 _ [8, 1, 24, 2, 34, 2, 98, 99, 42, 2, 32, 7] [] _
      rfl (by decide) (.client rfl (.send _ rfl)))
    |>.snoc (@SystemStep.server _ _ _ _ _ (.client 1 (.read _ _)) _ trivial
      (.client Server.put_self (.read rfl rfl (by decide) rfl)))
    |>.snoc (@SystemStep.server _ _ _ _ _ (.client 1 (.touch _)) _ trivial
      (.client Server.put_self (.touch rfl)))
    |>.snoc (@SystemStep.server _ _ _ _ _ (.client 1 (.exec _ _ _)) _ trivial
      (.client Server.put_self (.exec 0 rfl (by decide))))
    -- the handlers of clients 2 and 3 are about to delete `"bc"` and to set `"d"`
    |>.snoc (@SystemStep.call _ _ _ _ _ 2 (.delete (.ofUnicode "bc")) 0
      { id := some 1, commandType := 3, key := some "bc" } _ rfl rfl (by decide))
    |>.snoc (@SystemStep.link _ _ _ _ _ 2 _ _
      (@LinkStep.send _ _ _ _ _ (frameBytes [8, 1, 24, 3, 34, 2, 98, 99]) [] rfl (by decide)) id)
    |>.snoc (@SystemStep.deliver _ _ _ _ _ 2 _ [8, 1, 24, 3, 34, 2, 98, 99] [] _ rfl
      (by decide) (.client rfl (.send _ rfl)))
    |>.snoc (@SystemStep.server _ _ _ _ _ (.client 2 (.read _ _)) _ trivial
      (.client Server.put_self (.read rfl rfl (by decide) rfl)))
    |>.snoc (@SystemStep.server _ _ _ _ _ (.client 2 (.touch _)) _ trivial
      (.client Server.put_self (.touch rfl)))
    |>.snoc (@SystemStep.call _ _ _ _ _ 3 (.set (.ofUnicode "d") (.int 7)) 0
      { id := some 1, commandType := 2, key := some "d", value := some ⟨some (.uintValue 7)⟩ } _
      rfl rfl (by decide))
    |>.snoc (@SystemStep.link _ _ _ _ _ 3 _ _
      (@LinkStep.send _ _ _ _ _ (frameBytes [8, 1, 24, 2, 34, 1, 100, 42, 2, 32, 7]) [] rfl
        (by decide)) id)
    |>.snoc (@SystemStep.deliver _ _ _ _ _ 3 _ [8, 1, 24, 2, 34, 1, 100, 42, 2, 32, 7] [] _ rfl
      (by decide) (.client rfl (.send _ rfl)))
    |>.snoc (@SystemStep.server _ _ _ _ _ (.client 3 (.read _ _)) _ trivial
      (.client Server.put_self (.read rfl rfl (by decide) rfl)))
    |>.snoc (@SystemStep.server _ _ _ _ _ (.client 3 (.touch _)) _ trivial
      (.client Server.put_self (.touch rfl)))
  have stay : ∀ {events} {s : System (Fin 4)},
      Run (SystemStep .proto3 .twoShards) .init events s →
      Trace (SystemStep .proto3 .twoShards) s [] [s] s := fun _ => .nil
  have called := stay before
    |>.snoc (@SystemStep.call _ _ _ _ _ 0 .list 0 { id := some 1, commandType := 4 } _
      rfl rfl (by decide))
    |>.snoc (@SystemStep.link _ _ _ _ _ 0 _ _
      (@LinkStep.send _ _ _ _ _ (frameBytes [8, 1, 24, 4]) [] rfl (by decide)) id)
    |>.snoc (@SystemStep.deliver _ _ _ _ _ 0 _ [8, 1, 24, 4] [] _ rfl
      (by decide) (.client rfl (.send _ rfl)))
    |>.snoc (@SystemStep.server _ _ _ _ _ (.client 0 (.read _ _)) _ trivial
      (.client Server.put_self (.read rfl rfl (by decide) rfl)))
    |>.snoc (@SystemStep.server _ _ _ _ _ (.client 0 (.touch _)) _ trivial
      (.client Server.put_self (.touch rfl)))
    |>.snoc (@SystemStep.server _ _ _ _ _ (.client 0 (.scan _)) _ trivial
      (.client Server.put_self (.scan ["bc"] rfl rfl (by decide) (by decide))))
    |>.snoc (@SystemStep.server _ _ _ _ _ (.client 2 (.exec _ _ _)) _ trivial
      (.client rfl (.exec 0 rfl (by decide))))
    |>.snoc (@SystemStep.server _ _ _ _ _ (.client 3 (.exec _ _ _)) _ trivial
      (.client rfl (.exec 0 rfl (by decide))))
    |>.snoc (@SystemStep.server _ _ _ _ _ (.client 0 (.scan _)) _ trivial
      (.client rfl (.scan ["d"] rfl rfl (by decide) (by decide))))
    |>.snoc (@SystemStep.server _ _ _ _ _ (.client 0 (.exec _ _ _)) _ trivial
      (.client Server.put_self (.list 0 rfl rfl (by decide))))
    |>.snoc (@SystemStep.server _ _ _ _ _ (.client 0 (.reply _ _)) _ trivial
      (.client Server.put_self (.reply rfl rfl)))
    |>.snoc (@SystemStep.respond _ _ _ _ _ 0 _ _ _ (.client Server.put_self (.receive rfl)))
    |>.snoc (@SystemStep.link _ _ _ _ _ 0 _ _
      (@LinkStep.length _ _ _ _ _ [0, 0, 0, 11] [8, 1, 24, 3, 42, 2, 98, 99, 42, 1, 100] _
        rfl rfl rfl) id)
    |>.snoc (@SystemStep.link _ _ _ _ _ 0 _ _
      (@LinkStep.body _ _ _ _ _ _ [] [8, 1, 24, 3, 42, 2, 98, 99, 42, 1, 100] [] rfl rfl
        (by decide) (by decide)) id)
  have finish : ∀ {s₀ events visited} {s : System (Fin 4)} {request},
      Trace (SystemStep .proto3 .twoShards) s₀ events visited s →
      (s.links 0).stage = .readingBody request 11 [8, 1, 24, 3, 42, 2, 98, 99, 42, 1, 100] →
      ∃ s', SystemStep .proto3 .twoShards s (.link 0 (.returned request
        { id := some 1, resultType := 3, keys := ["bc", "d"] })) s' :=
    fun _ stage =>
      ⟨_, .link (@LinkStep.finish _ _ _ _ _ [8, 1, 24, 3, 42, 2, 98, 99, 42, 1, 100] _ stage rfl)
        id⟩
  obtain ⟨s₂, returned⟩ := finish called rfl
  have laws : WireLaws .proto3 .twoShards :=
    ⟨(WireLaws.proto3 .byLength).request, (WireLaws.proto3 .byLength).response⟩
  obtain ⟨texts, listed, once, complete, sound, -⟩ := list_call_regular laws before called
    (by simp [SystemEvent.Boundary]) returned (by simp [Unbroken])
  refine ⟨_, _, _, _, _, _, _, texts, before, called, returned, ?_,
    (Except.ok.inj listed).symm, once, complete, sound⟩
  decide

end

end Bonka
