import Ibv.SegmentStream
import Ibv.Setup

set_option autoImplicit false

namespace Ibv

open SegmentStream

/-- The part of `handshake` that reads: a buffer as long as the own encoded endpoint, decoded
as the endpoint of the peer. -/
def EndPoint.handshakeRead (own : EndPoint) (segments : List (List UInt8)) :
    Option (EndPoint × List (List UInt8)) := do
  let read ← readExact own.toBytes.length segments
  let remote ← EndPoint.fromBytes read.1
  some (remote, read.2)

/-- `QP::recv_mr` -/
def RemoteMR.recvMr (segments : List (List UInt8)) :
    Option (RemoteMR × List (List UInt8)) := do
  let read ← readExact RemoteMR.size segments
  let remoteMr ← RemoteMR.deserialize read.1
  some (remoteMr, read.2)

/-- The successful `tcp_recv` of the setup is an exact read, however the bytes arrive. -/
theorem Party.tcpRecv_segments (party : Party) (segments : List (List UInt8)) (length : Nat) :
    party.tcpRecv segments.flatten length .success =
      (readExact length segments).map fun read =>
        ({ party with consumed := party.consumed + length }, read.1) := by
  unfold tcpRecv
  by_cases enough : length ≤ segments.flatten.length
  · obtain ⟨unread, read, -⟩ := readExact_enough length segments enough
    rw [if_pos enough, read, Option.map_some]
  · rw [if_neg enough, readExact_short length segments (Nat.lt_of_not_le enough), Option.map_none]

namespace EndPoint

theorem format_canonical : format.Canonical :=
  ((ByteFormat.Format.array_canonical 16).pair
    (ByteFormat.Format.u32_canonical.pair ByteFormat.Format.u16_canonical)).record fun _ => rfl

theorem handshakeRead_front (own endpoint : EndPoint) {segments : List (List UInt8)}
    {rest : List UInt8} (arrives : segments.flatten = endpoint.toBytes ++ rest) :
    ∃ unread, own.handshakeRead segments = some (endpoint, unread) ∧ unread.flatten = rest := by
  obtain ⟨unread, read, left⟩ := readExact_front arrives
  rw [toBytes_length, ← toBytes_length own] at read
  refine ⟨unread, ?_, left⟩
  rw [handshakeRead, read, Option.bind_eq_bind, Option.bind_some, fromBytes_toBytes]
  rfl

end EndPoint

namespace RemoteMR

theorem format_canonical : format.Canonical :=
  (ByteFormat.Format.u64_canonical.pair
    (ByteFormat.Format.u32_canonical.pair ByteFormat.Format.u32_canonical)).record fun _ => rfl

theorem recvMr_front (mr : RemoteMR) {segments : List (List UInt8)} {rest : List UInt8}
    (arrives : segments.flatten = mr.serialize ++ rest) :
    ∃ unread, recvMr segments = some (mr, unread) ∧ unread.flatten = rest := by
  obtain ⟨unread, read, left⟩ := readExact_front arrives
  rw [serialize_length] at read
  refine ⟨unread, ?_, left⟩
  rw [recvMr, read, Option.bind_eq_bind, Option.bind_some, deserialize_serialize]
  rfl

end RemoteMR

/-- The wire format of the setup. The two reads decode the two values wherever the stream is
cut; both encodings are one to one, onto all byte strings of the lengths the reads ask for. -/
theorem setup_wire_format (own endpoint : EndPoint) (mr : RemoteMR) (rest : List UInt8)
    (segments : List (List UInt8))
    (arrives : segments.flatten = endpoint.toBytes ++ mr.serialize ++ rest) :
    (∃ behind unread, own.handshakeRead segments = some (endpoint, behind) ∧
      RemoteMR.recvMr behind = some (mr, unread) ∧ unread.flatten = rest) ∧
    Function.Injective EndPoint.toBytes ∧ Function.Injective RemoteMR.serialize ∧
    (∀ bytes, bytes.length = own.toBytes.length →
      (EndPoint.fromBytes bytes).map EndPoint.toBytes = some bytes) ∧
    (∀ bytes, bytes.length = RemoteMR.size →
      (RemoteMR.deserialize bytes).map RemoteMR.serialize = some bytes) := by
  rw [List.append_assoc] at arrives
  obtain ⟨behind, handshake, left⟩ := own.handshakeRead_front endpoint arrives
  obtain ⟨unread, exchange, left'⟩ := mr.recvMr_front left
  refine ⟨⟨behind, unread, handshake, exchange, left'⟩, EndPoint.format.encode_injective,
    RemoteMR.format.encode_injective, ?_, ?_⟩
  · intro bytes full
    rw [EndPoint.toBytes_length] at full
    exact ByteFormat.Format.Canonical.encode_read _ EndPoint.format_canonical bytes full
  · intro bytes full
    exact ByteFormat.Format.Canonical.encode_read _ RemoteMR.format_canonical bytes full

/-- The server's bytes and one more, cut inside the endpoint and inside the MR. -/
def sampleSegments : List (List UInt8) :=
  let stream := (Setup.sampleEndpoint .server).toBytes ++
    (RemoteMR.fromMr (Setup.sampleRecvMr .server)).serialize ++ [0]
  [stream.take 5, [], (stream.drop 5).take 20, stream.drop 25]

theorem setup_wire_format_cut :
    ∃ behind unread, (Setup.sampleEndpoint .client).handshakeRead sampleSegments =
        some (Setup.sampleEndpoint .server, behind) ∧
      RemoteMR.recvMr behind = some (.fromMr (Setup.sampleRecvMr .server), unread) ∧
      unread.flatten = [0] :=
  (setup_wire_format (Setup.sampleEndpoint .client) (Setup.sampleEndpoint .server)
    (.fromMr (Setup.sampleRecvMr .server)) [0] sampleSegments (by decide +kernel)).1

end Ibv
