import Bonka.ClientFraming
import Bonka.ResponseSize
import Mathlib.Logic.Relation

/-!
# Values through the client and the server

`set` and `get` of the Python client against the store of the server.  A value is a Python value, a
protobuf `Value`, a stored `Kv.Value`, again a protobuf `Value` and again a Python value; all of the
way but its ends is the identity, and the ends fit together for every type but `bool`, which
`isinstance` takes for an `int` (`pyValue_of_protoValue`).
-/

namespace Bonka

open Proto

/-! ## Python values and protobuf values -/

theorem PyStr.ofUnicode_of_toUnicode {s : PyStr} {text : String}
    (unicode : s.toUnicode = some text) : .ofUnicode text = s := by
  obtain ⟨codePoints⟩ := s
  obtain ⟨chars, valid, rfl⟩ := Option.map_eq_some_iff.mp unicode
  rw [ofUnicode, String.toList_ofList, mk.injEq]
  clear unicode
  induction codePoints generalizing chars with
  | nil =>
      cases valid
      rfl
  | cons n rest ih =>
      simp only [List.mapM_cons, Option.bind_eq_bind, Option.bind_eq_some_iff] at valid
      obtain ⟨char, head, tail, valid, same⟩ := valid
      cases same
      split at head
      · rename_i isChar
        cases head
        rw [List.map_cons, ih tail valid, Char.ofNat, dif_pos isChar]
        rfl
      · cases head

/-- **`get` gives back what `set` was given, unless it was a `bool`.** -/
theorem pyValue_of_protoValue {value : PyValue} {proto : Proto.Value}
    (sent : protoValue value = .ok proto) :
    pyValue proto = some value ↔ ∀ b, value ≠ .bool b := by
  cases value with
  | str s =>
      simp only [protoValue, PyValue.isInstance, if_true, setStringValue] at sent
      split at sent
      · rename_i text unicode
        cases sent
        simp [pyValue, PyStr.ofUnicode_of_toUnicode unicode]
      · cases sent
  | bytes b =>
      cases sent
      simp [pyValue]
  | int n =>
      refine iff_of_true ?_ fun b => PyValue.noConfusion
      by_cases negative : n < 0
      · have sent : setIntValue (.int n) = .ok proto := by
          simpa [protoValue, PyValue.isInstance, PyValue.toInt, negative] using sent
        simp only [setIntValue, PyValue.toInt] at sent
        split at sent
        · rename_i range
          cases sent
          simp only [pyValue, Int64.toInt_ofInt_of_le range.1 range.2]
        · cases sent
      · have sent : setUintValue (.int n) = .ok proto := by
          simpa [protoValue, PyValue.isInstance, PyValue.toInt, negative] using sent
        simp only [setUintValue, PyValue.toInt] at sent
        split at sent
        · rename_i range
          cases sent
          have fits : n.toNat < UInt64.size := by
            rw [UInt64.size]
            omega
          have exact : (UInt64.ofNat n.toNat).toNat = n.toNat := UInt64.toNat_ofNat_of_lt' fits
          simp only [pyValue, exact, Int.toNat_of_nonneg range.1]
        · cases sent
  | float f =>
      cases sent
      simp [pyValue]
  | bool b =>
      -- `isinstance` finds an `int` first
      cases b <;> cases sent <;> simp [pyValue]
  | object => cases sent

/-- Values that no field of the protobuf `Value` takes. -/
def PyValue.Unsendable : PyValue → Prop
  | .str s => s.toUnicode = none
  | .int n => n < -2 ^ 63 ∨ 2 ^ 64 ≤ n
  | .object => True
  | _ => False

theorem protoValue_error_iff {value : PyValue} :
    (∃ error, protoValue value = .error error) ↔ value.Unsendable := by
  cases value with
  | str s =>
      simp only [protoValue, PyValue.isInstance, if_true, setStringValue, PyValue.Unsendable]
      cases s.toUnicode <;> simp
  | bytes b => simp [protoValue, PyValue.isInstance, setBytesValue, PyValue.Unsendable]
  | int n =>
      simp only [protoValue, PyValue.isInstance, setIntValue, setUintValue, PyValue.toInt,
        Option.any_some, decide_eq_true_eq, PyValue.Unsendable, Bool.false_eq_true, if_false,
        if_true]
      split <;> split <;> simp <;> omega
  | float f => simp [protoValue, PyValue.isInstance, setFloatValue, PyValue.Unsendable]
  | bool b =>
      cases b <;> simp [protoValue, PyValue.isInstance, setUintValue, PyValue.toInt,
        PyValue.Unsendable]
  | object => simp [protoValue, PyValue.isInstance, PyValue.Unsendable]

/-! ## One call against the server -/

/-- What the server sends back for the payload of a frame, and its store after it.  It sends
nothing for a frame over the limit of the codec, or when its response is. -/
def serve (env : ServerEnv) (timestamp : UInt64) (order : IterOrder (String × Kv.Value))
    (store : KeyValueStore) (payload : Bytes) : Bytes × KeyValueStore :=
  if payload.length ≤ maxFrameLength then
    let (response, store) := answerFrame env timestamp order payload store
    match sendResponse env response with
    | .ok bytes => (bytes, store)
    | .error _ => ([], store)
  else ([], store)

section

variable {codec : PyCodec} {env : ServerEnv} {delivery : Delivery} {serverTime : UInt64}
  {order : IterOrder (String × Kv.Value)} {client : BonkaClient} {call : ClientCall}
  {timestamp : UInt64} {store : KeyValueStore}

/-- The request of a call and its response are within the limit of the codec. -/
def CallFits (codec : PyCodec) (env : ServerEnv) (serverTime : UInt64)
    (order : IterOrder (String × Kv.Value)) (client : BonkaClient) (call : ClientCall)
    (timestamp : UInt64) (store : KeyValueStore) : Prop :=
  ∀ request next, call.prepare client.requestId timestamp = (.ok request, next) →
    (codec.serialize request).length ≤ maxFrameLength ∧
    (env.encodeResponse (processCommand serverTime order request store).1).length ≤
      maxFrameLength

theorem serve_of_fits (laws : WireLaws codec env) {request : Request}
    (short : (codec.serialize request).length ≤ maxFrameLength) {response : Response}
    {store' : KeyValueStore}
    (answered : processCommand serverTime order request store = (response, store'))
    (fits : (env.encodeResponse response).length ≤ maxFrameLength) :
    serve env serverTime order store (codec.serialize request) =
      (frameBytes (env.encodeResponse response), store') := by
  simp only [serve, if_pos short, answerFrame, laws.request request short, answered, sendResponse,
    if_pos fits]

/-- The server sends the framed answer to the request or nothing. -/
theorem serve_cases (laws : WireLaws codec env) (request : Request) :
    (∃ store', serve env serverTime order store (codec.serialize request) = ([], store')) ∨
      ∃ response store', processCommand serverTime order request store = (response, store') ∧
        (codec.serialize request).length ≤ maxFrameLength ∧
        (env.encodeResponse response).length ≤ maxFrameLength ∧
        serve env serverTime order store (codec.serialize request) =
          (frameBytes (env.encodeResponse response), store') := by
  by_cases short : (codec.serialize request).length ≤ maxFrameLength
  · obtain ⟨⟨response, store'⟩, answered⟩ : ∃ result,
      processCommand serverTime order request store = result := ⟨_, rfl⟩
    by_cases fits : (env.encodeResponse response).length ≤ maxFrameLength
    · exact .inr ⟨response, store', answered, short, fits, serve_of_fits laws short answered fits⟩
    · left
      simp only [serve, if_pos short, answerFrame, laws.request request short, answered,
        sendResponse, if_neg fits]
      exact ⟨store', rfl⟩
  · exact .inl ⟨store, if_neg short⟩

/-- With the length of the response in one piece, a call gets the answer to its request. -/
theorem exchange_answered (laws : WireLaws codec env) (connected : client.connected = true)
    (inSync : client.socket.incoming = []) {request : Request} {next : ℕ}
    (prepared : call.prepare client.requestId timestamp = (.ok request, next))
    (fits : CallFits codec env serverTime order client call timestamp store)
    (whole : 3 ≤ delivery client.socket.recvs) {response : Response} {store' : KeyValueStore}
    (answered : processCommand serverTime order request store = (response, store')) :
    ∃ recvs, client.exchange codec delivery (serve env serverTime order) call timestamp store =
      (.ok response, { client with requestId := next, socket := ⟨[], recvs⟩ }, store') := by
  obtain ⟨short, reply⟩ := fits request next prepared
  rw [answered] at reply
  obtain ⟨recvs, read⟩ := recvResponse_frame whole (reply.trans_lt (by decide)) []
  rw [List.append_nil] at read
  have sendable : (codec.serialize request).length < 2 ^ 32 := short.trans_lt (by decide)
  refine ⟨recvs, ?_⟩
  simp only [BonkaClient.exchange, prepared, BonkaClient.sendRequest, connected, if_true,
    if_pos sendable, serve_of_fits laws short answered reply, inSync, List.nil_append, read,
    laws.response response reply]

/-- A length cut short: the server has done its part and the call raises. -/
theorem exchange_cut (laws : WireLaws codec env) (connected : client.connected = true)
    (inSync : client.socket.incoming = []) {request : Request} {next : ℕ}
    (prepared : call.prepare client.requestId timestamp = (.ok request, next))
    (fits : CallFits codec env serverTime order client call timestamp store)
    (cut : delivery client.socket.recvs < 3) :
    ∃ client' store',
      client.exchange codec delivery (serve env serverTime order) call timestamp store =
        (.error .structError, client', store') ∧
      client'.socket.recvs = client.socket.recvs + 1 := by
  obtain ⟨short, reply⟩ := fits request next prepared
  obtain ⟨⟨response, store'⟩, answered⟩ : ∃ result,
    processCommand serverTime order request store = result := ⟨_, rfl⟩
  rw [answered] at reply
  have failed := recvResponse_cut cut (env.encodeResponse response) []
  rw [List.append_nil] at failed
  have sendable : (codec.serialize request).length < 2 ^ 32 := short.trans_lt (by decide)
  simp only [BonkaClient.exchange, prepared, BonkaClient.sendRequest, connected, if_true,
    if_pos sendable, serve_of_fits laws short answered reply, inSync, List.nil_append,
    failed]
  exact ⟨_, _, rfl, rfl⟩

/-- What a call that returns has done. -/
structure Exchanged (codec : PyCodec) (env : ServerEnv) (serverTime : UInt64)
    (order : IterOrder (String × Kv.Value)) (client : BonkaClient) (call : ClientCall)
    (timestamp : UInt64) (store : KeyValueStore) (request : Request) (response : Response)
    (client' : BonkaClient) (store' : KeyValueStore) : Prop where
  connected : client'.connected = client.connected
  inSync : client'.socket.incoming = []
  prepared : call.prepare client.requestId timestamp = (.ok request, client'.requestId)
  short : (codec.serialize request).length ≤ maxFrameLength
  answered : processCommand serverTime order request store = (response, store')
  reply : (env.encodeResponse response).length ≤ maxFrameLength

/-- A call that returns has read all that the server sent, the answer to its request. -/
theorem exchange_ok (laws : WireLaws codec env) (inSync : client.socket.incoming = [])
    {response : Response} {client' : BonkaClient} {store' : KeyValueStore}
    (returned : client.exchange codec delivery (serve env serverTime order) call timestamp store =
      (.ok response, client', store')) :
    ∃ request, Exchanged codec env serverTime order client call timestamp store request response
      client' store' := by
  unfold BonkaClient.exchange at returned
  split at returned
  · rename_i request next prepared
    simp only [BonkaClient.sendRequest] at returned
    split at returned
    · split at returned
      · rcases @serve_cases codec env serverTime order store laws request with
          ⟨store'', silent⟩ | ⟨answer, store'', answered, short, reply, sent⟩
        · rw [silent, inSync, List.append_nil, recvResponse_nil] at returned
          cases returned
        · rw [sent, inSync, List.nil_append] at returned
          by_cases whole : 3 ≤ delivery client.socket.recvs
          · obtain ⟨recvs, read⟩ := recvResponse_frame whole (reply.trans_lt (by decide)) []
            rw [List.append_nil] at read
            simp only [read, laws.response answer reply] at returned
            cases returned
            exact ⟨request, rfl, rfl, prepared, short, answered, reply⟩
          · have failed := recvResponse_cut (Nat.not_le.mp whole) (env.encodeResponse answer) []
            rw [List.append_nil] at failed
            rw [failed] at returned
            cases returned
      · cases returned
    · cases returned
  · cases returned

/-! ## What `set` and `get` do -/

/-- The inputs that `set` refuses before it sends anything. -/
def SetRefused (client : BonkaClient) (key : PyStr) (value : PyValue) : Prop :=
  client.connected = false ∨ 2 ^ 64 ≤ client.requestId + 1 ∨ key.toUnicode = none ∨
    value.Unsendable

variable {key : PyStr} {value : PyValue}

theorem set_refused (refused : SetRefused client key value) :
    ∃ error next, client.set codec delivery (serve env serverTime order) key value timestamp store =
      (.error error, { client with requestId := next }, store) := by
  have refuse : ∀ {error next},
      ClientCall.prepare (.set key value) client.requestId timestamp = (.error error, next) →
        client.set codec delivery (serve env serverTime order) key value timestamp store =
          (.error error, { client with requestId := next }, store) := by
    intro error next prepared
    simp only [BonkaClient.set, BonkaClient.exchange, prepared]
    rfl
  cases sent : protoValue value with
  | error error =>
      exact ⟨error, client.requestId, refuse (by simp only [ClientCall.prepare, sent])⟩
  | ok proto =>
      have prepared : ClientCall.prepare (.set key value) client.requestId timestamp =
          (buildRequest (client.requestId + 1) timestamp .commandSet (some key) (some proto),
            client.requestId + 1) := by
        simp only [ClientCall.prepare, sent]
      cases built : buildRequest (client.requestId + 1) timestamp .commandSet (some key)
          (some proto) with
      | error error => exact ⟨error, _, refuse (by rw [prepared, built])⟩
      | ok request =>
          rcases refused with disconnected | overflow | invalid | unsendable
          · refine ⟨.notConnected, client.requestId + 1, ?_⟩
            simp only [BonkaClient.set, BonkaClient.exchange, prepared, built,
              BonkaClient.sendRequest, disconnected, Bool.false_eq_true, if_false]
            rfl
          · rw [buildRequest, if_neg (by omega)] at built
            cases built
          · simp only [buildRequest, invalid] at built
            split at built <;> cases built
          · obtain ⟨error, failed⟩ := protoValue_error_iff.mpr unsendable
            rw [sent] at failed
            cases failed

theorem prepare_set {text : String} {proto : Proto.Value} (room : client.requestId + 1 < 2 ^ 64)
    (unicode : key.toUnicode = some text) (sent : protoValue value = .ok proto) :
    ClientCall.prepare (.set key value) client.requestId timestamp =
      (.ok { id := some (UInt64.ofNat (client.requestId + 1)), timestamp,
             commandType := CommandType.commandSet.toInt32, key := some text,
             value := some proto }, client.requestId + 1) := by
  simp only [ClientCall.prepare, sent, buildRequest, if_pos room, unicode]

theorem prepare_get {text : String} (room : client.requestId + 1 < 2 ^ 64)
    (unicode : key.toUnicode = some text) :
    ClientCall.prepare (.get key) client.requestId timestamp =
      (.ok { id := some (UInt64.ofNat (client.requestId + 1)), timestamp,
             commandType := CommandType.commandGet.toInt32, key := some text },
        client.requestId + 1) := by
  simp only [ClientCall.prepare, buildRequest, if_pos room, unicode]

/-- A `set` that is not refused succeeds exactly when the length of its response arrives in one
piece; then the value is stored. -/
theorem set_answered (laws : WireLaws codec env) (connected : client.connected = true)
    (inSync : client.socket.incoming = []) {text : String} {proto : Proto.Value}
    (room : client.requestId + 1 < 2 ^ 64) (unicode : key.toUnicode = some text)
    (sent : protoValue value = .ok proto)
    (fits : CallFits codec env serverTime order client (.set key value) timestamp store)
    (whole : 3 ≤ delivery client.socket.recvs) :
    ∃ recvs, client.set codec delivery (serve env serverTime order) key value timestamp store =
      (.ok (), { client with requestId := client.requestId + 1, socket := ⟨[], recvs⟩ },
        store.set text (.ofProto proto)) := by
  obtain ⟨recvs, returned⟩ := exchange_answered laws connected inSync
    (prepare_set room unicode sent) fits whole rfl
  refine ⟨recvs, ?_⟩
  rw [BonkaClient.set, returned]
  rfl

theorem set_cut (laws : WireLaws codec env) (connected : client.connected = true)
    (inSync : client.socket.incoming = []) {text : String} {proto : Proto.Value}
    (room : client.requestId + 1 < 2 ^ 64) (unicode : key.toUnicode = some text)
    (sent : protoValue value = .ok proto)
    (fits : CallFits codec env serverTime order client (.set key value) timestamp store)
    (cut : delivery client.socket.recvs < 3) :
    ∃ error client' store',
      client.set codec delivery (serve env serverTime order) key value timestamp store =
        (.error error, client', store') ∧ client'.socket.recvs = client.socket.recvs + 1 := by
  obtain ⟨client', store', failed, read⟩ := exchange_cut laws connected inSync
    (prepare_set room unicode sent) fits cut
  refine ⟨.structError, client', store', ?_, read⟩
  rw [BonkaClient.set, failed]
  rfl

/-- What `get` returns for a stored value. -/
theorem get_iff (laws : WireLaws codec env) (connected : client.connected = true)
    (inSync : client.socket.incoming = []) {text : String} {proto : Proto.Value}
    (unicode : key.toUnicode = some text) (stored : store.view text = some proto)
    (fits : CallFits codec env serverTime order client (.get key) timestamp store) :
    (client.get codec delivery (serve env serverTime order) key timestamp store).1 =
        .ok (some value) ↔
      pyValue proto = some value ∧ 3 ≤ delivery client.socket.recvs ∧
        client.requestId + 1 < 2 ^ 64 := by
  by_cases room : client.requestId + 1 < 2 ^ 64
  · have prepared := @prepare_get client timestamp key text room unicode
    by_cases whole : 3 ≤ delivery client.socket.recvs
    · obtain ⟨recvs, returned⟩ := exchange_answered laws connected inSync prepared fits whole rfl
      have result : (client.get codec delivery (serve env serverTime order) key timestamp store).1 =
          .ok (pyValue ((store.view text).getD ⟨none⟩)) := by
        rw [BonkaClient.get, returned]
        rfl
      rw [result, stored, Option.getD_some]
      simp only [Except.ok.injEq, whole, room, and_true]
    · obtain ⟨client', store', failed, -⟩ :=
        exchange_cut laws connected inSync prepared fits (Nat.not_le.mp whole)
      rw [BonkaClient.get, failed]
      refine iff_of_false (fun same => ?_) fun holds => whole holds.2.1
      cases same
  · have refused : ClientCall.prepare (.get key) client.requestId timestamp =
        (.error .valueError, client.requestId + 1) := by
      simp only [ClientCall.prepare, buildRequest, if_neg room]
    simp only [BonkaClient.get, BonkaClient.exchange, refused]
    refine iff_of_false (fun same => ?_) fun holds => room holds.2.2
    cases same

end

/-! ## Between two calls -/

/-- The request sets or deletes the key. -/
def Writes (key : PyStr) (request : Request) : Prop :=
  (request.getCommandType = .commandSet ∨ request.getCommandType = .commandDelete) ∧
    ∃ text, request.key = some text ∧ key.toUnicode = some text

theorem view_of_spared {serverTime : UInt64} {order : IterOrder (String × Kv.Value)}
    {request : Request} {store store' : KeyValueStore} {key : PyStr} {text : String}
    (unicode : key.toUnicode = some text) (spared : ¬ Writes key request) {response : Response}
    (answered : processCommand serverTime order request store = (response, store')) :
    store'.view text = store.view text := by
  obtain rfl : (processCommand serverTime order request store).2 = store' := by rw [answered]
  clear answered
  cases command : request.getCommandType with
  | commandSet =>
      simp only [processCommand, command, handleSetCommand]
      split
      · rename_i other value found carried
        have distinct : text ≠ other := by
          intro same
          subst same
          exact spared ⟨.inl command, text, found, unicode⟩
        rw [KeyValueStore.view_set, Function.update_of_ne distinct]
      · rfl
      · rfl
  | commandDelete =>
      simp only [processCommand, command, handleDeleteCommand]
      split
      · rename_i other found
        have distinct : text ≠ other := by
          intro same
          subst same
          exact spared ⟨.inr command, text, found, unicode⟩
        have kept : (store.delete other).2.view text = store.view text := by
          rw [KeyValueStore.view_delete, Function.update_of_ne distinct]
        split <;> rename_i shape <;> rwa [shape] at kept
      · rfl
  | commandGet | commandList | commandExit | commandUnspecified =>
      simp only [processCommand, command]

/-- One thing that happens at the client or on the server, with an `allowed` request: another
client has its request answered, a call of the client returns, or a call is refused. -/
inductive Meanwhile (codec : PyCodec) (env : ServerEnv) (delivery : Delivery)
    (allowed : Request → Prop) :
    BonkaClient × KeyValueStore → BonkaClient × KeyValueStore → Prop
  | other {client : BonkaClient} {store : KeyValueStore} {serverTime : UInt64}
      {order : IterOrder (String × Kv.Value)} {request : Request} (may : allowed request) :
      Meanwhile codec env delivery allowed (client, store)
        (client, (processCommand serverTime order request store).2)
  | returned {client client' : BonkaClient} {store store' : KeyValueStore} {serverTime : UInt64}
      {order : IterOrder (String × Kv.Value)} {call : ClientCall} {timestamp : UInt64}
      {response : Response}
      (may : ∀ request next, call.prepare client.requestId timestamp = (.ok request, next) →
        allowed request)
      (done : client.exchange codec delivery (serve env serverTime order) call timestamp store =
        (.ok response, client', store')) :
      Meanwhile codec env delivery allowed (client, store) (client', store')
  | refused {client : BonkaClient} {store : KeyValueStore} {call : ClientCall}
      {timestamp : UInt64} {error : PyError} {next : ℕ}
      (prepared : call.prepare client.requestId timestamp = (.error error, next)) :
      Meanwhile codec env delivery allowed (client, store)
        ({ client with requestId := next }, store)

section

open Relation (ReflTransGen)

variable {codec : PyCodec} {env : ServerEnv} {delivery : Delivery} {allowed : Request → Prop}

/-- The stream stays empty between calls. -/
theorem Meanwhile.inSync (laws : WireLaws codec env) {before after : BonkaClient × KeyValueStore}
    (steps : ReflTransGen (Meanwhile codec env delivery allowed) before after)
    (start : before.1.socket.incoming = []) :
    after.1.connected = before.1.connected ∧ after.1.socket.incoming = [] := by
  induction steps with
  | refl => exact ⟨rfl, start⟩
  | tail _ step ih =>
      cases step with
      | other => exact ih
      | returned _ done =>
          obtain ⟨request, exchanged⟩ := exchange_ok laws ih.2 done
          exact ⟨exchanged.connected.trans ih.1, exchanged.inSync⟩
      | refused => exact ih

/-- Without a write to it, a key keeps its value. -/
theorem Meanwhile.view {key : PyStr} {text : String} (unicode : key.toUnicode = some text)
    (laws : WireLaws codec env) {before after : BonkaClient × KeyValueStore}
    (steps : ReflTransGen (Meanwhile codec env delivery fun request => ¬ Writes key request)
      before after) (start : before.1.socket.incoming = []) :
    after.2.view text = before.2.view text := by
  induction steps with
  | refl => rfl
  | tail earlier step ih =>
      have empty := (Meanwhile.inSync laws earlier start).2
      cases step with
      | other spared => exact (view_of_spared unicode spared rfl).trans ih
      | returned spared done =>
          obtain ⟨request, exchanged⟩ := exchange_ok laws empty done
          have spared := spared request _ exchanged.prepared
          exact (view_of_spared unicode spared exchanged.answered).trans ih
      | refused => exact ih

/-- **`set` and a later `get`.**  `client` has made any number of calls since it was created, and
other clients any number of requests.  `set` raises before it sends anything, or it succeeds and
the `get`, with no write to the key in between, returns the value as it was: this is so exactly if
`set` refuses the value, or the value is no `bool` and the length of either response arrives in
one piece. -/
theorem set_get_iff (laws : WireLaws codec env) {connected : Bool} {requestId : ℕ}
    {start store store₁ store₂ : KeyValueStore} {client client₁ client₂ : BonkaClient}
    (history : ReflTransGen (Meanwhile codec env delivery fun _ => True)
      (⟨⟨[], 0⟩, connected, requestId⟩, start) (client, store))
    {key : PyStr} {value : PyValue} {setTime getTime setServerTime getServerTime : UInt64}
    {setOrder getOrder : IterOrder (String × Kv.Value)}
    (setFits : CallFits codec env setServerTime setOrder client (.set key value) setTime store)
    {result : Except PyError Unit}
    (set : client.set codec delivery (serve env setServerTime setOrder) key value setTime store =
      (result, client₁, store₁))
    (meanwhile : ReflTransGen (Meanwhile codec env delivery fun request => ¬ Writes key request)
      (client₁, store₁) (client₂, store₂))
    (getFits : CallFits codec env getServerTime getOrder client₂ (.get key) getTime store₂) :
    ((∃ error, result = .error error) ∧ client₁.socket = client.socket ∧ store₁ = store ∨
        result = .ok () ∧
          (client₂.get codec delivery (serve env getServerTime getOrder) key getTime store₂).1 =
            .ok (some value)) ↔
      SetRefused client key value ∨
        (∀ b, value ≠ .bool b) ∧ 3 ≤ delivery client.socket.recvs ∧
          3 ≤ delivery client₂.socket.recvs ∧ client₂.requestId + 1 < 2 ^ 64 := by
  have inSync : client.socket.incoming = [] := (Meanwhile.inSync laws history rfl).2
  by_cases refused : SetRefused client key value
  · obtain ⟨error, next, raised⟩ := @set_refused codec env delivery setServerTime setOrder client
      setTime store key value refused
    cases set.symm.trans raised
    exact iff_of_true (.inl ⟨⟨error, rfl⟩, rfl, rfl⟩) (.inl refused)
  · obtain ⟨on, room, valid, sendable⟩ : client.connected ≠ false ∧ client.requestId + 1 < 2 ^ 64 ∧
        key.toUnicode ≠ none ∧ ¬ value.Unsendable := by
      simpa only [SetRefused, not_or, not_le] using refused
    have on : client.connected = true := by simpa using on
    obtain ⟨text, unicode⟩ := Option.ne_none_iff_exists'.mp valid
    obtain ⟨proto, sent⟩ : ∃ proto, protoValue value = .ok proto := by
      cases sent : protoValue value with
      | error error => exact absurd (protoValue_error_iff.mp ⟨error, sent⟩) sendable
      | ok proto => exact ⟨proto, rfl⟩
    simp only [refused, false_or]
    by_cases whole : 3 ≤ delivery client.socket.recvs
    · obtain ⟨recvs, stored⟩ := set_answered laws on inSync room unicode sent setFits whole
      cases set.symm.trans stored
      obtain ⟨on₂, inSync₂⟩ := Meanwhile.inSync laws meanwhile rfl
      have kept := Meanwhile.view unicode laws meanwhile rfl
      rw [KeyValueStore.view_set, Function.update_self] at kept
      have got := @get_iff codec env delivery getServerTime getOrder client₂ getTime store₂ key
        value laws (on₂.trans on) inSync₂ text proto unicode kept getFits
      rw [pyValue_of_protoValue sent] at got
      simpa [whole] using got
    · obtain ⟨error, client', store', raised, read⟩ :=
        set_cut laws on inSync room unicode sent setFits (Nat.not_le.mp whole)
      cases set.symm.trans raised
      refine iff_of_false ?_ fun holds => whole holds.2.1
      intro outcome
      rcases outcome with ⟨-, same, -⟩ | ⟨success, -⟩
      · rw [same] at read
        omega
      · cases success

/-- A 5 comes back, another client having set another key. -/
theorem set_get_five :
    ∃ client₁ store₁ store₂,
      BonkaClient.set .proto3 (fun _ => 3) (serve (.proto3 .byLength) 0 default)
        ⟨⟨[], 0⟩, true, 0⟩ ⟨[97]⟩ (.int 5) 0 .new = (.ok (), client₁, store₁) ∧
      store₂ = (processCommand 0 default
        { commandType := 2, key := some "b", value := some ⟨none⟩ } store₁).2 ∧
      (BonkaClient.get .proto3 (fun _ => 3) (serve (.proto3 .byLength) 0 default) client₁ ⟨[97]⟩ 0
        store₂).1 = .ok (some (.int 5)) := by
  have laws := WireLaws.proto3 .byLength
  have setFits : CallFits .proto3 (.proto3 .byLength) 0 default ⟨⟨[], 0⟩, true, 0⟩
      (.set ⟨[97]⟩ (.int 5)) 0 .new := by
    intro request next prepared
    cases prepared
    exact ⟨by decide, by decide⟩
  obtain ⟨recvs, stored⟩ := @set_answered .proto3 (.proto3 .byLength) (fun _ => 3) 0 default
    ⟨⟨[], 0⟩, true, 0⟩ 0 .new ⟨[97]⟩ (.int 5) laws rfl rfl "a" ⟨some (.uintValue 5)⟩ (by decide)
    rfl rfl setFits (by decide)
  have spared : ¬ Writes ⟨[97]⟩ { commandType := 2, key := some "b", value := some ⟨none⟩ } := by
    intro writes
    rcases writes with ⟨-, text, found, unicode⟩
    cases found
    exact absurd unicode (by decide)
  have returned := @set_get_iff .proto3 (.proto3 .byLength) (fun _ => 3) laws true 0 .new .new _ _
    _ _ _ .refl ⟨[97]⟩ (.int 5) 0 0 0 0 default default setFits _ stored
    (.single (@Meanwhile.other _ _ _ _ _ _ 0 default _ spared)) ?_
  · rcases returned.mpr (.inr ⟨nofun, by decide, by decide, by simp⟩) with
      ⟨⟨error, raised⟩, -⟩ | ⟨-, got⟩
    · cases raised
    · exact ⟨_, _, _, stored, rfl, got⟩
  · intro request next prepared
    cases prepared
    exact ⟨Nat.le_of_ble_eq_true rfl, Nat.le_of_ble_eq_true rfl⟩

/-- `set(key, True)` succeeds and `get(key)` returns the `int` 1. -/
theorem set_get_true :
    ∃ client₁ store₁,
      BonkaClient.set .proto3 (fun _ => 3) (serve (.proto3 .byLength) 0 default)
        ⟨⟨[], 0⟩, true, 0⟩ ⟨[97]⟩ (.bool true) 0 .new = (.ok (), client₁, store₁) ∧
      (BonkaClient.get .proto3 (fun _ => 3) (serve (.proto3 .byLength) 0 default) client₁ ⟨[97]⟩ 0
        store₁).1 = .ok (some (.int 1)) := by
  have laws := WireLaws.proto3 .byLength
  obtain ⟨recvs, stored⟩ := @set_answered .proto3 (.proto3 .byLength) (fun _ => 3) 0 default
    ⟨⟨[], 0⟩, true, 0⟩ 0 .new ⟨[97]⟩ (.bool true) laws rfl rfl "a" ⟨some (.uintValue 1)⟩
    (by decide) rfl rfl (by
      intro request next prepared
      cases prepared
      exact ⟨by decide, by decide⟩) (by decide)
  refine ⟨_, _, stored, (@get_iff .proto3 (.proto3 .byLength) _ _ _ _ _ _ _ _ laws rfl rfl "a"
    ⟨some (.uintValue 1)⟩ rfl rfl ?_).mpr ⟨rfl, by decide, by simp⟩⟩
  intro request next prepared
  cases prepared
  exact ⟨Nat.le_of_ble_eq_true rfl, Nat.le_of_ble_eq_true rfl⟩

end

end Bonka
