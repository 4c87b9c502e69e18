import Ibv.Mr

set_option autoImplicit false

namespace Ibv

/-- A slice of the application's memory, as long as `send_msg` borrows it. -/
structure IoSlice where
  len : Nat
  byte : Nat → UInt8

def IoSlice.bytes (slice : IoSlice) : List UInt8 := (List.range slice.len).map slice.byte

@[simp] theorem IoSlice.bytes_length (slice : IoSlice) : slice.bytes.length = slice.len := by
  simp only [IoSlice.bytes, List.length_map, List.length_range]

abbrev Msg := List IoSlice

namespace Msg

def totalLen (msg : Msg) : Nat := (msg.map IoSlice.len).sum

def bytes (msg : Msg) : List UInt8 := msg.flatMap IoSlice.bytes

/-- `total_len as u32` -/
def wireLen (msg : Msg) : Nat := msg.totalLen % 2 ^ 32

theorem wireLen_eq {msg : Msg} (small : msg.totalLen < 2 ^ 32) : msg.wireLen = msg.totalLen :=
  Nat.mod_eq_of_lt small

@[simp] theorem totalLen_nil : totalLen [] = 0 := rfl

@[simp] theorem totalLen_cons (slice : IoSlice) (rest : Msg) :
    totalLen (slice :: rest) = slice.len + totalLen rest := by
  simp only [totalLen, List.map_cons, List.sum_cons]

@[simp] theorem bytes_nil : bytes [] = [] := rfl

@[simp] theorem bytes_cons (slice : IoSlice) (rest : Msg) :
    bytes (slice :: rest) = slice.bytes ++ bytes rest := List.flatMap_cons

@[simp] theorem bytes_length (msg : Msg) : msg.bytes.length = msg.totalLen := by
  induction msg with
  | nil => rfl
  | cons slice rest ih => simp only [bytes_cons, List.length_append, IoSlice.bytes_length, ih,
      totalLen_cons]

end Msg

inductive Opcode where
  | send
  | recv
  | read
  | write
  | sendWithImm
  | writeWithImm
  | unknown (value : Nat)
deriving DecidableEq, Repr

/-- `Opcode::from(u32)` -/
def Opcode.ofU32 : Nat → Opcode
  | 0 => .send
  | 128 => .recv
  | 2 => .read
  | 1 => .write
  | 129 => .writeWithImm
  | value => .unknown value

/-- The fields of an `ibv_wc` that `polling` reads. -/
structure WC where
  wrId : Nat
  code : Nat
  byteLen : Nat
  imm : Nat
deriving DecidableEq, Repr

def WC.opcode (wc : WC) : Opcode := .ofU32 wc.code

/-- A WRITE_WITH_IMM work request as `post_to_qp` builds it, with the message it carries. -/
structure Request where
  msg : Msg
  wrId : Nat
  localBuf : LocalBuf
  remoteBuf : RemoteBuf
  imm : Nat

/-- IBV_WC_RDMA_WRITE on the sender's queue: every send is signaled. -/
def Request.sendWc (request : Request) : WC := ⟨request.wrId, 1, request.localBuf.length, 0⟩

/-- IBV_WC_RECV_RDMA_WITH_IMM on the peer's queue, for a null receive. -/
def Request.recvWc (request : Request) : WC := ⟨0, 129, request.localBuf.length, request.imm⟩

/-- What the receiver learns of a message. -/
def Request.pair (request : Request) : Nat × Nat := (request.localBuf.length, request.imm)

def WC.pair (wc : WC) : Nat × Nat := (wc.byteLen, wc.imm)

/-- The completions of each kind on a completion queue or in a polled batch. -/
def WC.isSend (wc : WC) : Bool := wc.opcode = .write

def WC.isRecv (wc : WC) : Bool := wc.opcode = .writeWithImm

/-- `QP::write_with_imm`: an error of the post is logged and dropped. -/
def writeWithImm (posting : Except Int Unit) : Unit :=
  match posting with
  | .ok _ => ()
  | .error _ => ()

/-- The end of `send_msg`, after its call of `write_with_imm`. -/
def sendMsgResult (posting : Except Int Unit) : Except Int Unit :=
  match writeWithImm posting with
  | () => .ok ()

end Ibv
