import Bonka.Client
import Bonka.ServerRun

/-!
# The client reads frames

`_send_request` reads the four bytes of the length with one `recv` and the rest of the frame in a
loop.  The loop reads the frame however the stream is cut (`recvBody_frame`); the single `recv` of
the length does so only when all four bytes are there (`sendRequest_reads_iff`).
-/

namespace Bonka

open Proto

/-- The protobuf package on the proto3 wire format. -/
def PyCodec.proto3 : PyCodec where
  serialize := Request.encode
  parse := Response.decode

/-- What the protobuf packages on both sides promise: a message comes back from its encoding. -/
structure WireLaws (codec : PyCodec) (env : ServerEnv) : Prop where
  request : ∀ request, (codec.serialize request).length ≤ maxFrameLength →
    env.decodeRequest (codec.serialize request) = some request
  response : ∀ response, (env.encodeResponse response).length ≤ maxFrameLength →
    codec.parse (env.encodeResponse response) = some response

theorem WireLaws.proto3 (ids : IdSource) : WireLaws .proto3 (.proto3 ids) where
  request _ short := Request.decode_encode (short.trans_lt (by decide))
  response _ short := Response.decode_encode (short.trans_lt (by decide))

/-- `struct.unpack(">I", ..)` reads what `struct.pack(">I", ..)` writes. -/
theorem unpackLength_beBytes {n : ℕ} (short : n < 2 ^ 32) :
    unpackLength (Wire.beBytes 4 n) = some n := by
  rw [unpackLength, if_pos (Wire.length_beBytes ..), Wire.ofBeBytes_beBytes (by omega)]

/-- The body loop takes the missing bytes off the stream, no more and no fewer. -/
theorem recvBody_frame (delivery : Delivery) {length : ℕ} {received missing rest : Bytes}
    (whole : received.length + missing.length = length) (recvs : ℕ) :
    ∃ recvs', recvBody delivery length received ⟨missing ++ rest, recvs⟩ =
      (.ok (received ++ missing), ⟨rest, recvs'⟩) := by
  induction size : missing.length using Nat.strongRecOn generalizing received missing recvs with
  | ind n ih =>
      rw [recvBody]
      split
      · rename_i more
        -- the next `recv` returns `count` of the missing bytes, at least one
        obtain ⟨count, chunk⟩ : ∃ count, count = min (length - received.length)
          (delivery recvs + 1) := ⟨_, rfl⟩
        have progress : 0 < count := by omega
        have within : count ≤ missing.length := by omega
        have read : PySocket.recv delivery ⟨missing ++ rest, recvs⟩ (length - received.length) =
            (missing.take count, ⟨missing.drop count ++ rest, recvs + 1⟩) := by
          rw [PySocket.recv, ← chunk]
          simp only [List.take_append_of_le_length within, List.drop_append_of_le_length within]
        rw [read]
        have parts : missing.take count ++ missing.drop count = missing :=
          List.take_append_drop count missing
        cases taken : missing.take count with
        | nil =>
            have length := congrArg List.length taken
            rw [List.length_take, List.length_nil] at length
            omega
        | cons byte bytes =>
            rw [taken] at parts
            have left : (missing.drop count).length < n := by
              rw [List.length_drop]
              omega
            have total : (received ++ byte :: bytes).length + (missing.drop count).length =
                length := by
              rw [List.length_append, Nat.add_assoc, ← List.length_append, parts, whole]
            obtain ⟨recvs', done⟩ := ih _ left total (recvs + 1) rfl
            refine ⟨recvs', ?_⟩
            dsimp only
            rw [done, List.append_assoc, parts]
      · rename_i full
        have none : missing = [] := List.eq_nil_of_length_eq_zero (by omega)
        subst none
        exact ⟨recvs, by simp⟩

/-- With the whole length in the first `recv`, the payload is read and nothing behind it. -/
theorem recvResponse_frame {delivery : Delivery} {recvs : ℕ} (whole : 3 ≤ delivery recvs)
    {payload : Bytes} (short : payload.length < 2 ^ 32) (rest : Bytes) :
    ∃ recvs', recvResponse delivery ⟨frameBytes payload ++ rest, recvs⟩ =
      (.ok payload, ⟨rest, recvs'⟩) := by
  have header : (Wire.beBytes 4 payload.length).length = 4 := Wire.length_beBytes ..
  have read : PySocket.recv delivery ⟨frameBytes payload ++ rest, recvs⟩ 4 =
      (Wire.beBytes 4 payload.length, ⟨payload ++ rest, recvs + 1⟩) := by
    have count : min 4 (delivery recvs + 1) = 4 := by omega
    simp only [PySocket.recv, count, frameBytes, List.append_assoc, List.take_left' header,
      List.drop_left' header]
  rw [recvResponse, read]
  cases shape : Wire.beBytes 4 payload.length with
  | nil => simp [shape] at header
  | cons byte bytes =>
      dsimp only
      rw [← shape, unpackLength_beBytes short]
      exact @recvBody_frame delivery _ [] payload rest (by simp) (recvs + 1)

/-- Nothing on the stream is the end of it. -/
theorem recvResponse_nil (delivery : Delivery) (recvs : ℕ) :
    recvResponse delivery ⟨[], recvs⟩ = (.error .connectionClosed, ⟨[], recvs + 1⟩) := by
  simp [recvResponse, PySocket.recv]

/-- A length cut short is no length. -/
theorem recvResponse_cut {delivery : Delivery} {recvs : ℕ} (cut : delivery recvs < 3)
    (payload rest : Bytes) :
    recvResponse delivery ⟨frameBytes payload ++ rest, recvs⟩ =
      (.error .structError,
        ⟨(frameBytes payload ++ rest).drop (delivery recvs + 1), recvs + 1⟩) := by
  have more : 4 ≤ (frameBytes payload ++ rest).length := by
    rw [List.length_append, length_frameBytes]
    omega
  generalize frameBytes payload ++ rest = incoming at more ⊢
  have read : PySocket.recv delivery ⟨incoming, recvs⟩ 4 =
      (incoming.take (delivery recvs + 1), ⟨incoming.drop (delivery recvs + 1), recvs + 1⟩) := by
    have count : min 4 (delivery recvs + 1) = delivery recvs + 1 := by omega
    simp only [PySocket.recv, count]
  have length : (incoming.take (delivery recvs + 1)).length = delivery recvs + 1 := by
    rw [List.length_take]
    omega
  rw [recvResponse, read]
  cases shape : incoming.take (delivery recvs + 1) with
  | nil => simp [shape] at length
  | cons byte bytes =>
      have refused : unpackLength (byte :: bytes) = none := by
        rw [unpackLength, if_neg]
        rw [shape] at length
        omega
      simp only [refused]

/-- **`_send_request` reads a frame exactly when its first `recv` finds the whole length.**  Then
the payload is what it parses, and the next frame starts at the next unread byte. -/
theorem sendRequest_reads_iff {σ : Type} {codec : PyCodec} {delivery : Delivery}
    {peer : σ → Bytes → Bytes × σ} {client : BonkaClient} {request : Request} {other : σ}
    (connected : client.connected = true) (sendable : (codec.serialize request).length < 2 ^ 32)
    {payload rest : Bytes} (small : payload.length ≤ maxFrameLength)
    (framed : client.socket.incoming ++ (peer other (codec.serialize request)).1 =
      frameBytes payload ++ rest)
    {response : Response} (parsed : codec.parse payload = some response) :
    (∃ recvs,
      recvResponse delivery ⟨frameBytes payload ++ rest, client.socket.recvs⟩ =
        (.ok payload, ⟨rest, recvs⟩) ∧
      BonkaClient.sendRequest codec delivery peer client request other =
        (.ok response, { client with socket := ⟨rest, recvs⟩ },
          (peer other (codec.serialize request)).2)) ↔
      3 ≤ delivery client.socket.recvs := by
  constructor
  · intro holds
    rcases holds with ⟨recvs, read, -⟩
    by_contra cut
    rw [recvResponse_cut (Nat.not_le.mp cut) payload rest] at read
    cases read
  · intro whole
    obtain ⟨recvs, read⟩ := recvResponse_frame whole
      (small.trans_lt (by decide)) rest
    refine ⟨recvs, read, ?_⟩
    rw [BonkaClient.sendRequest, if_pos connected]
    simp only [if_pos sendable, framed, read, parsed]

/-- A response with an id and nothing else, its body read in two pieces. -/
theorem sendRequest_reads_two_pieces :
    ∃ recvs,
      recvResponse (fun i => if i = 0 then 3 else 0) ⟨frameBytes [8, 1] ++ [], 0⟩ =
        (.ok [8, 1], ⟨[], recvs⟩) ∧
      BonkaClient.sendRequest .proto3 (fun i => if i = 0 then 3 else 0)
          (fun (_ : Unit) _ => (frameBytes [8, 1], ())) ⟨⟨[], 0⟩, true, 1⟩ { id := some 1 } () =
        (.ok { id := some 1 }, ⟨⟨[], recvs⟩, true, 1⟩, ()) :=
  (@sendRequest_reads_iff Unit .proto3 (fun i => if i = 0 then 3 else 0) _ ⟨⟨[], 0⟩, true, 1⟩
    { id := some 1 } () rfl (by decide) [8, 1] [] (by decide) rfl _ (by decide)).mpr (by decide)

/-- When the first segment has one byte of the length, the call raises and leaves the rest of the
frame on the socket. -/
theorem sendRequest_cut_length :
    BonkaClient.sendRequest .proto3 (fun _ => 0) (fun (_ : Unit) _ => (frameBytes [8, 1], ()))
        ⟨⟨[], 0⟩, true, 1⟩ { id := some 1 } () =
      (.error .structError, ⟨⟨[0, 0, 2, 8, 1], 1⟩, true, 1⟩, ()) := by
  decide

end Bonka
