import Ibv.System
import Ibv.WireFormat

set_option autoImplicit false

/- The connection setup of src/connection/conn.rs and src/types/qp.rs: `connect` on one
side and one iteration of `run` on the other, joined by a byte stream. Every call can
fail; what the code does then is part of the step. -/
namespace Ibv

/-- `Status`. A queue pair that has just been created, in RESET, reads as `unknown`. -/
inductive Status where
  | init
  | rtr
  | rts
  | error
  | unknown
deriving DecidableEq, Repr

structure QP where
  endpoint : EndPoint
  status : Status
  dest : Option EndPoint
deriving DecidableEq, Repr

namespace QP

def new (endpoint : EndPoint) : QP where
  endpoint := endpoint
  status := .unknown
  dest := none

/-- `ibv_modify_qp`: the driver refuses a transition out of order, and may refuse any.
`none` is the `Err` of the caller, with the queue pair as it was. -/
def modify (qp : QP) (accepts : Bool) (source target : Status) : Option QP :=
  if accepts && qp.status == source then some { qp with status := target } else none

def init (qp : QP) (accepts : Bool) : Option QP := qp.modify accepts .unknown .init

def readyToReceive (qp : QP) (accepts : Bool) (remote : EndPoint) : Option QP :=
  (qp.modify accepts .init .rtr).map fun moved => { moved with dest := some remote }

def readyToSend (qp : QP) (accepts : Bool) : Option QP := qp.modify accepts .rtr .rts

end QP

/-- The call a side makes next, with what the calls before it have returned. -/
inductive Phase where
  | create
  | init
  | sendEndpoint
  | recvEndpoint
  | readyToReceive (remote : EndPoint)
  | readyToSend
  | register
  | sendMr
  | recvMr
  | newConn (remoteMr : RemoteMR)
  | postRecvs (remoteMr : RemoteMR)
  | handOut (conn : Endpoint)
  | handedOut (conn : Endpoint)
  | closed
  | panicked

/-- How a call ends. A failing call on the stream has moved `count` bytes before; where
some of the receive posts fail, `count` of them do not. -/
inductive Outcome where
  | success
  | failure (count : Nat)
deriving DecidableEq, Repr

def Outcome.ok : Outcome → Bool
  | success => true
  | failure _ => false

/-- The receives posted by `Conn::new`, which does not see that a post fails. -/
def Outcome.receives : Outcome → Nat
  | success => defaultRqeCount
  | failure count => min count defaultRqeCount

/-- One side. `recvMr` and `sendMr` are what its two registrations give; `sent` is all it
has written to the stream and `consumed` how much of the peer's bytes it has read. -/
structure Party where
  qp : QP
  recvMr : MR
  sendMr : MR
  sent : List UInt8
  consumed : Nat
  phase : Phase

namespace Party

def new (endpoint : EndPoint) (recvMr sendMr : MR) : Party where
  qp := .new endpoint
  recvMr := recvMr
  sendMr := sendMr
  sent := []
  consumed := 0
  phase := .create

/-- A verb whose error is only logged. -/
def logged (party : Party) (result : Option QP) (next : Phase) : Party :=
  { party with qp := result.getD party.qp, phase := next }

/-- A call whose failure ends the task. -/
def unwrapped (party : Party) (outcome : Outcome) (next : Phase) : Party :=
  { party with phase := if outcome.ok then next else .panicked }

/-- `write_all`: a failure leaves some bytes unwritten. -/
def tcpSend (party : Party) (bytes : List UInt8) : Outcome → Option Party
  | .success => some { party with sent := party.sent ++ bytes }
  | .failure count =>
      if count < bytes.length then some { party with sent := party.sent ++ bytes.take count }
      else none

/-- `read_exact` into a zeroed buffer: it waits for all of the bytes, and a failure leaves
the rest of the buffer as it was. -/
def tcpRecv (party : Party) (incoming : List UInt8) (length : Nat) :
    Outcome → Option (Party × List UInt8)
  | .success =>
      if length ≤ incoming.length then
        some ({ party with consumed := party.consumed + length }, incoming.take length)
      else none
  | .failure count =>
      if count < length ∧ count ≤ incoming.length then
        some ({ party with consumed := party.consumed + count },
          incoming.take count ++ List.replicate (length - count) 0)
      else none

/-- The phase after a decoder whose error is unwrapped. -/
def decoded {Value : Type} (value : Option Value) (next : Value → Phase) : Phase :=
  (value.map next).getD .panicked

/-- One call of `connect`, or of one iteration of `run`; `none` while it waits. `handshake`
logs its errors and goes on, `exchange_recv_buf` unwraps its own. The client returns its
`Conn`; only the server can fail to pass it on, and then leaves its loop. -/
def step (role : Side) (incoming : List UInt8) (outcome : Outcome) (party : Party) :
    Option Party :=
  match party.phase with
  | .create => some (party.unwrapped outcome .init)
  | .init => some (party.logged (party.qp.init outcome.ok) .sendEndpoint)
  | .sendEndpoint =>
      (party.tcpSend party.qp.endpoint.toBytes outcome).map fun sent =>
        { sent with phase := .recvEndpoint }
  | .recvEndpoint =>
      (party.tcpRecv incoming party.qp.endpoint.toBytes.length outcome).map fun read =>
        { read.1 with phase := decoded (EndPoint.fromBytes read.2) .readyToReceive }
  | .readyToReceive remote =>
      some (party.logged (party.qp.readyToReceive outcome.ok remote) .readyToSend)
  | .readyToSend => some (party.logged (party.qp.readyToSend outcome.ok) .register)
  -- `MR::new` reads through the null pointer of a registration that fails
  | .register => some (party.unwrapped outcome .sendMr)
  | .sendMr =>
      (party.tcpSend (RemoteMR.fromMr party.recvMr).serialize outcome).map fun sent =>
        sent.unwrapped outcome .recvMr
  | .recvMr =>
      (party.tcpRecv incoming RemoteMR.size outcome).map fun read =>
        read.1.unwrapped outcome (decoded (RemoteMR.deserialize read.2) .newConn)
  | .newConn remoteMr => some (party.unwrapped outcome (.postRecvs remoteMr))
  | .postRecvs remoteMr =>
      let conn := Endpoint.new party.recvMr party.sendMr remoteMr
      some { party with phase := .handOut { conn with receives := outcome.receives } }
  | .handOut conn =>
      match outcome, role with
      | .success, _ => some { party with phase := .handedOut conn }
      | .failure _, .server => some { party with phase := .closed }
      | .failure _, .client => none
  | .handedOut _ | .closed | .panicked => none

end Party

abbrev Setup := Side → Party

namespace Setup

def new (endpoint : Side → EndPoint) (recvMr sendMr : Side → MR) : Setup := fun side =>
  .new (endpoint side) (recvMr side) (sendMr side)

/-- What the peer has written and `side` has not read. -/
def incoming (setup : Setup) (side : Side) : List UInt8 :=
  (setup side.other).sent.drop (setup side).consumed

/-- Either side makes its next call, with either outcome. -/
def step (setup : Setup) (action : Side × Outcome) : Option Setup :=
  ((setup action.1).step action.1 (setup.incoming action.1) action.2).map fun after =>
    Function.update setup action.1 after

/- Two sides with different endpoints and buffers. -/
def sampleEndpoint : Side → EndPoint
  | .client => ⟨⟨List.replicate 16 0xfe, rfl⟩, 0x1111, 3⟩
  | .server => ⟨⟨List.replicate 16 0xfd, rfl⟩, 0x2222, 4⟩

def sampleRecvMr : Side → MR
  | .client => ⟨0x10000000, 0x4000000, 7, 9⟩
  | .server => ⟨0x20000000, 0x4000000, 8, 10⟩

def sampleSendMr : Side → MR
  | .client => ⟨0x30000000, 0x4000000, 11, 12⟩
  | .server => ⟨0x40000000, 0x4000000, 13, 14⟩

end Setup

end Ibv
