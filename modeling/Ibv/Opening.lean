import Ibv.SetupAgreement

set_option autoImplicit false

/- The opening of a connection: `connect` and `run` up to the `Conn`, none of whose calls
fails, and the messages a side sends and receives from then on, while its peer may still
be in its own setup. -/
namespace Ibv

namespace Phase

def posting : Phase → Bool
  | postRecvs _ => true
  | _ => false

/-- `Conn::new` has returned. -/
def hasConn : Phase → Bool
  | handOut _ | handedOut _ => true
  | _ => false

/-- `exchange_recv_buf` has registered the receive buffer. -/
def registered : Phase → Bool
  | sendMr | recvMr | newConn _ | postRecvs _ | handOut _ | handedOut _ => true
  | create | init | sendEndpoint | recvEndpoint | readyToReceive _ | readyToSend | register => false
  | closed | panicked => false

end Phase

/-- How far the `send_msg` call that holds `Conn.lock` is. -/
inductive Sending where
  | locked
  | admitted
  | counted
deriving DecidableEq, Repr

/-- One side. `looped` counts the receives posted by `Conn::new`, `dispatched` the messages
of the peer for which `polling` has posted another one, `taken` those that `recv_msg` has
returned, and `posted` the messages of this side. -/
structure Opener where
  party : Party
  looped : Nat
  polls : Bool
  sending : Int
  lock : Option Sending
  posted : Nat
  dispatched : Nat
  taken : Nat

namespace Opener

inductive Action where
  | setup
  | postRecv
  | spawn
  | takeLock
  | load
  | count
  | post
  | dispatch
  | recv
deriving DecidableEq, Repr

def new (endpoint : EndPoint) (recvMr sendMr : MR) : Opener where
  party := .new endpoint recvMr sendMr
  looped := 0
  polls := false
  sending := 0
  lock := none
  posted := 0
  dispatched := 0
  taken := 0

variable (opener peer : Opener)

def hasConn : Bool := opener.party.phase.hasConn

def receives : Nat := opener.looped + opener.dispatched

/-- The calls of the setup succeed. `Conn::new` returns when `polling` has been spawned. -/
def setup (role : Side) : Option Opener :=
  if opener.party.phase.posting && !opener.polls then none
  else (opener.party.step role (peer.party.sent.drop opener.party.consumed) .success).map
    fun party => { opener with party := party }

/-- One round of the loop of `Conn::new`. -/
def postRecv : Option Opener :=
  if opener.party.phase.posting && decide (opener.looped < defaultRqeCount) then
    some { opener with looped := opener.looped + 1 }
  else none

def spawn : Option Opener :=
  if opener.party.phase.posting && opener.looped == defaultRqeCount && !opener.polls then
    some { opener with polls := true }
  else none

/-- Some `send_msg` call enters its critical section. -/
def takeLock : Option Opener :=
  if opener.hasConn && opener.lock.isNone then some { opener with lock := some .locked }
  else none

def load : Option Opener :=
  match opener.lock with
  | some .locked =>
      if opener.sending ≥ maxSending then none
      else some { opener with lock := some .admitted }
  | _ => none

def count : Option Opener :=
  match opener.lock with
  | some .admitted => some { opener with
      sending := fetchAddI32 opener.sending 1
      lock := some .counted }
  | _ => none

/-- `write_with_imm`, at the end of the critical section. -/
def post : Option Opener :=
  match opener.lock with
  | some .counted => some { opener with
      lock := none
      posted := opener.posted + 1 }
  | _ => none

/-- `polling` takes the completion of a message and posts a receive in its place. -/
def dispatch : Option Opener :=
  if opener.polls && decide (opener.dispatched < peer.posted) then
    some { opener with dispatched := opener.dispatched + 1 }
  else none

def recv : Option Opener :=
  if opener.hasConn && decide (opener.taken < opener.dispatched) then
    some { opener with
      taken := opener.taken + 1
      sending := fetchAddI32 opener.sending (-1) }
  else none

def step (role : Side) : Action → Option Opener
  | .setup => opener.setup peer role
  | .postRecv => opener.postRecv
  | .spawn => opener.spawn
  | .takeLock => opener.takeLock
  | .load => opener.load
  | .count => opener.count
  | .post => opener.post
  | .dispatch => opener.dispatch peer
  | .recv => opener.recv

end Opener

abbrev Opening := Side → Opener

namespace Opening

def new (endpoint : Side → EndPoint) (recvMr sendMr : Side → MR) : Opening := fun side =>
  .new (endpoint side) (recvMr side) (sendMr side)

def setup (opening : Opening) : Setup := fun side => (opening side).party

def step (opening : Opening) (action : Side × Opener.Action) : Option Opening :=
  ((opening action.1).step (opening action.1.other) action.1 action.2).map fun after =>
    Function.update opening action.1 after

/-- The next step of `side` is the post of a message. -/
def Posts (opening : Opening) (side : Side) : Prop :=
  (opening side).lock = some .counted

/-- What the peer of a side that posts a message must have done by then: its queue pair
takes messages, its receive buffer is registered and, as long as it has no `Conn`, it has
posted a receive for this message too. -/
structure Ready (opening : Opening) (side : Side) : Prop where
  status : (opening side.other).party.qp.status = .rtr ∨
    (opening side.other).party.qp.status = .rts
  registered : (opening side.other).party.phase.registered = true
  receives : (opening side.other).hasConn = false →
    (opening side).posted + 1 ≤ (opening side.other).receives

end Opening

end Ibv
