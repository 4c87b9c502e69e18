import Ibv.ByteMemory
import Ibv.LocalRing
import Ibv.Verbs

set_option autoImplicit false

namespace Ibv

open RingFifo

/-- A `send_msg` call between `SendBuffer::alloc` and `Conn.lock`: `rest` is still to be
copied, to `addr`. -/
structure Copying where
  msg : Msg
  buf : LocalBuf
  wrId : Nat
  rest : Msg
  addr : Nat

/-- Where the `send_msg` call that holds `Conn.lock` is. -/
inductive Stage where
  | locked
  | admitted
  | counted
  | placing (imm : Nat) (loop : Loop)
  | placed (imm : Nat) (buf : RemoteBuf)
deriving DecidableEq, Repr

structure Critical where
  msg : Msg
  buf : LocalBuf
  wrId : Nat
  stage : Stage

/-- `calls` wait for the index lock of the `SendBuffer`, `allocating` holds it; `lock` is
the call that holds `Conn.lock`. `posted` lists all requests posted so far, `delivered`
and `acked` count those completed on the peer's queue and on this one. `polled` and
`forward` are the batch that `polling` works on and the pair it is sending on its channel
`rx`; `receiving` is the pair `recv_msg` has taken from there. `counted`, `received`,
`handled`, `returned` and `results` record the run. -/
structure Endpoint where
  recvBuf : RecvBuffer
  sending : Int
  lock : Option Critical
  allocator : RemoteBufManager
  sendRing : LocalRing
  release : List Nat
  calls : List Msg
  allocating : Option (Msg × Loop)
  copying : List Copying
  posted : List Request
  fetched : Nat → Option (List UInt8)
  written : Nat → Bool
  delivered : Nat
  acked : Nat
  receives : Nat
  cq : List WC
  polled : List WC
  forward : Option (Nat × Nat)
  rx : List (Nat × Nat)
  receiving : Option (Nat × Nat)
  held : List Region
  sendMem : Nat → UInt8
  recvMem : Nat → UInt8
  counted : Nat
  received : Nat
  handled : Nat
  returned : List (List UInt8)
  results : List (Except Int Unit)

/-- `AtomicI32::fetch_add` -/
def fetchAddI32 (value delta : Int) : Int := (value + delta).bmod (2 ^ 32)

namespace Endpoint

/-- After `Conn::new`, with `polling` started. -/
def new (recvMr sendMr : MR) (remoteMr : RemoteMR) : Endpoint where
  recvBuf := .new recvMr
  sending := 0
  lock := none
  allocator := .new remoteMr
  sendRing := .new sendMr
  release := []
  calls := []
  allocating := none
  copying := []
  posted := []
  fetched := fun _ => none
  written := fun _ => false
  delivered := 0
  acked := 0
  receives := defaultRqeCount
  cq := []
  polled := []
  forward := none
  rx := []
  receiving := none
  held := []
  sendMem := fun _ => 0
  recvMem := fun _ => 0
  counted := 0
  received := 0
  handled := 0
  returned := []
  results := []

inductive Action where
  | call (msg : Msg)
  | lockIndex (i : Nat)
  | localFirst
  | localSecond
  | allocLocal
  | copy (i : Nat)
  | takeLock (i : Nat)
  | load
  | count
  | popNotice
  | remoteFirst
  | remoteSecond
  | allocRemote
  | post
  | postFail (errno : Int)
  | fetch (i : Nat)
  | ack
  | poll (n : Nat)
  | dispatch
  | sendPair
  | recv
  | finish
  | release
  | popRelease
  | releaseDone

variable (endpoint : Endpoint)

/-- The send requests whose completion has not been polled hold their queue slot. -/
def sqUsed : Nat := endpoint.posted.length - endpoint.acked + endpoint.cq.countP WC.isSend

def rqUsed : Nat := endpoint.receives + endpoint.cq.countP WC.isRecv

def call (msg : Msg) : Endpoint := { endpoint with calls := endpoint.calls ++ [msg] }

/-- `SendBuffer::alloc` takes the index lock. -/
def lockIndex (i : Nat) : Option Endpoint :=
  match endpoint.allocating, endpoint.calls[i]? with
  | none, some msg => some { endpoint with
      calls := endpoint.calls.eraseIdx i
      allocating := some (msg, .head) }
  | _, _ => none

def localFirst : Option Endpoint :=
  match endpoint.allocating with
  | some (msg, .head) => some { endpoint with
      allocating := some (msg, endpoint.sendRing.buffer.firstLoad msg.wireLen) }
  | _ => none

def localSecond : Option Endpoint :=
  match endpoint.allocating with
  | some (msg, .tested _) => some { endpoint with
      allocating := some (msg, endpoint.sendRing.buffer.secondLoad) }
  | _ => none

/-- The rest of `SendBuffer::alloc`; the queue of the release task is bounded. -/
def allocLocal : Option Endpoint :=
  match endpoint.allocating with
  | some (msg, .exited) =>
      if endpoint.sendRing.buffer.toRelease.length < 2 * defaultRqeCount then
        let taken := endpoint.sendRing.buffer.take msg.wireLen
        some { endpoint with
          sendRing := endpoint.sendRing.take msg.wireLen
          allocating := none
          copying := endpoint.copying ++ [⟨msg, taken.2.1, taken.2.2, msg, taken.2.1.addr⟩] }
      else none
  | _ => none

/-- `copy_nonoverlapping` of the next slice. -/
def copy (i : Nat) : Option Endpoint :=
  match endpoint.copying[i]? with
  | some ⟨msg, buf, wrId, slice :: rest, addr⟩ => some { endpoint with
      sendMem := ByteMemory.write endpoint.sendMem addr slice.bytes
      copying := endpoint.copying.set i ⟨msg, buf, wrId, rest, addr + slice.len⟩ }
  | _ => none

def takeLock (i : Nat) : Option Endpoint :=
  match endpoint.lock, endpoint.copying[i]? with
  | none, some ⟨msg, buf, wrId, [], _⟩ => some { endpoint with
      copying := endpoint.copying.eraseIdx i
      lock := some ⟨msg, buf, wrId, .locked⟩ }
  | _, _ => none

/-- `sending.load` finds room for one more. -/
def load : Option Endpoint :=
  match endpoint.lock with
  | some ⟨msg, buf, wrId, .locked⟩ =>
      if endpoint.sending ≥ maxSending then none
      else some { endpoint with lock := some ⟨msg, buf, wrId, .admitted⟩ }
  | _ => none

def count : Option Endpoint :=
  match endpoint.lock with
  | some ⟨msg, buf, wrId, .admitted⟩ => some { endpoint with
      sending := fetchAddI32 endpoint.sending 1
      lock := some ⟨msg, buf, wrId, .counted⟩
      counted := endpoint.counted + 1 }
  | _ => none

/-- `get_release_length`: 0 when the channel is empty. -/
def popNotice : Option Endpoint :=
  match endpoint.lock with
  | some ⟨msg, buf, wrId, .counted⟩ => some { endpoint with
      release := endpoint.release.tail
      lock := some ⟨msg, buf, wrId, .placing (endpoint.release.headD 0) .head⟩ }
  | _ => none

def remoteFirst : Option Endpoint :=
  match endpoint.lock with
  | some ⟨msg, buf, wrId, .placing imm .head⟩ => some { endpoint with
      lock := some ⟨msg, buf, wrId, .placing imm (endpoint.allocator.firstLoad msg.wireLen)⟩ }
  | _ => none

def remoteSecond : Option Endpoint :=
  match endpoint.lock with
  | some ⟨msg, buf, wrId, .placing imm (.tested _)⟩ => some { endpoint with
      lock := some ⟨msg, buf, wrId, .placing imm endpoint.allocator.secondLoad⟩ }
  | _ => none

def allocRemote : Option Endpoint :=
  match endpoint.lock with
  | some ⟨msg, buf, wrId, .placing imm .exited⟩ =>
      let taken := endpoint.allocator.take msg.wireLen
      some { endpoint with
        allocator := taken.1
        lock := some ⟨msg, buf, wrId, .placed imm taken.2⟩ }
  | _ => none

/-- `ibv_post_send` succeeds and `send_msg` returns. -/
def post : Option Endpoint :=
  match endpoint.lock with
  | some ⟨msg, buf, wrId, .placed imm remote⟩ =>
      if endpoint.sqUsed < maxQpWr then some { endpoint with
        posted := endpoint.posted ++ [⟨msg, wrId, buf, remote, imm⟩]
        lock := none
        results := endpoint.results ++ [sendMsgResult (.ok ())] }
      else none
  | _ => none

/-- `ibv_post_send` fails, for instance with a full send queue. -/
def postFail (errno : Int) : Option Endpoint :=
  match endpoint.lock with
  | some ⟨_, _, _, .placed _ _⟩ => some { endpoint with
      lock := none
      results := endpoint.results ++ [sendMsgResult (.error errno)] }
  | _ => none

/-- The queue pair reads the local bytes of a request. -/
def fetch (i : Nat) : Option Endpoint :=
  match endpoint.posted[i]?, endpoint.fetched i with
  | some request, none => some { endpoint with
      fetched := Function.update endpoint.fetched i
        (some (ByteMemory.read endpoint.sendMem request.localBuf.addr request.localBuf.length)) }
  | _, _ => none

/-- The completion of the next send request. Those that the transport produces are all
successful, here and at the peer. -/
def ack : Option Endpoint :=
  match endpoint.posted[endpoint.acked]?, endpoint.fetched endpoint.acked with
  | some request, some _ => some { endpoint with
      acked := endpoint.acked + 1
      cq := endpoint.cq ++ [request.sendWc] }
  | _, _ => none

/-- `poll_wc(100)` returns the oldest completions, at most 100. -/
def poll (n : Nat) : Option Endpoint :=
  match endpoint.polled, endpoint.forward with
  | [], none =>
      if n ≤ 100 ∧ n ≤ endpoint.cq.length then some { endpoint with
        polled := endpoint.cq.take n
        cq := endpoint.cq.drop n }
      else none
  | _, _ => none

/-- With a full receive queue the post fails, which is printed and ignored. -/
def postNullRecv : Endpoint :=
  if endpoint.rqUsed < maxQpWr then { endpoint with receives := endpoint.receives + 1 }
  else endpoint

/-- `polling` matches on the opcode of the next completion of its batch. -/
def dispatch : Option Endpoint :=
  match endpoint.forward, endpoint.polled with
  | none, wc :: rest =>
      match wc.opcode with
      | .writeWithImm => some { endpoint.postNullRecv with
          polled := rest
          forward := some (wc.byteLen, wc.imm)
          handled := endpoint.handled + 1 }
      | .write => some { endpoint with
          polled := rest
          sendRing := { endpoint.sendRing with buffer := endpoint.sendRing.buffer.clear wc.wrId } }
      | _ => some { endpoint with polled := rest }
  | _, _ => none

/-- `tx.send((length, imm))` on a bounded channel. -/
def sendPair : Option Endpoint :=
  match endpoint.forward with
  | some pair =>
      if endpoint.rx.length < defaultRqeCount then some { endpoint with
        forward := none
        rx := endpoint.rx ++ [pair] }
      else none
  | none => none

/-- `recv_msg` takes a pair and lowers `sending`. On an empty channel it has no step, also
where the only sender is gone and the `unwrap` would panic. -/
def recv : Option Endpoint :=
  match endpoint.receiving, endpoint.rx with
  | none, pair :: rest => some { endpoint with
      rx := rest
      receiving := some pair
      sending := fetchAddI32 endpoint.sending (-1)
      received := endpoint.received + 1 }
  | _, _ => none

/-- `recv_msg` hands the notice to the allocator and returns the slice. -/
def finish : Option Endpoint := do
  let pair ← endpoint.receiving
  let result ← endpoint.recvBuf.read pair.1
  some { endpoint with
    receiving := none
    allocator := if pair.2 ≠ 0 then endpoint.allocator.update pair.2 else endpoint.allocator
    recvBuf := result.1
    held := endpoint.held ++ [result.2]
    returned := endpoint.returned ++
      [ByteMemory.read endpoint.recvMem result.2.start result.2.length] }

/-- `Conn::release` of the oldest slice, its notice sent on a bounded channel. -/
def releaseSlice : Option Endpoint :=
  match endpoint.held with
  | slice :: rest =>
      let notified := endpoint.recvBuf.notifyRelease slice.length
      if endpoint.release.length + notified.2.toList.length ≤ defaultRqeCount then
        some { endpoint with
          recvBuf := notified.1
          held := rest
          release := endpoint.release ++ notified.2.toList }
      else none
  | [] => none

def popRelease : Option Endpoint :=
  endpoint.sendRing.buffer.popRelease.map fun buffer =>
    { endpoint with sendRing := { endpoint.sendRing with buffer := buffer } }

def releaseDone : Option Endpoint :=
  endpoint.sendRing.buffer.releaseDone.map fun buffer =>
    { endpoint with
      sendRing := { endpoint.sendRing with
        buffer := buffer
        retired := endpoint.sendRing.retired + 1 } }

def step : Action → Option Endpoint
  | .call msg => some (endpoint.call msg)
  | .lockIndex i => endpoint.lockIndex i
  | .localFirst => endpoint.localFirst
  | .localSecond => endpoint.localSecond
  | .allocLocal => endpoint.allocLocal
  | .copy i => endpoint.copy i
  | .takeLock i => endpoint.takeLock i
  | .load => endpoint.load
  | .count => endpoint.count
  | .popNotice => endpoint.popNotice
  | .remoteFirst => endpoint.remoteFirst
  | .remoteSecond => endpoint.remoteSecond
  | .allocRemote => endpoint.allocRemote
  | .post => endpoint.post
  | .postFail errno => endpoint.postFail errno
  | .fetch i => endpoint.fetch i
  | .ack => endpoint.ack
  | .poll n => endpoint.poll n
  | .dispatch => endpoint.dispatch
  | .sendPair => endpoint.sendPair
  | .recv => endpoint.recv
  | .finish => endpoint.finish
  | .release => endpoint.releaseSlice
  | .popRelease => endpoint.popRelease
  | .releaseDone => endpoint.releaseDone

end Endpoint

end Ibv
