import Ibv.ByteFormat
import Ibv.Mr

set_option autoImplicit false

namespace Ibv

open ByteFormat

/-- An `ibv_gid`, raw. -/
abbrev Gid := { raw : List UInt8 // raw.length = 16 }

structure EndPoint where
  gid : Gid
  qpn : UInt32
  lid : UInt16
deriving DecidableEq, Repr

namespace EndPoint

def format : Format EndPoint :=
  ((Format.array 16).pair (Format.u32.pair Format.u16)).record
    (fun fields => ⟨fields.1, fields.2.1, fields.2.2⟩)
    (fun endpoint => (endpoint.gid, endpoint.qpn, endpoint.lid)) fun _ => rfl

def toBytes (endpoint : EndPoint) : List UInt8 := format.encode endpoint

/-- `bincode::deserialize`; `none` is its error, on which the source unwraps. -/
def fromBytes (bytes : List UInt8) : Option EndPoint := format.read bytes

@[simp] theorem toBytes_length (endpoint : EndPoint) : endpoint.toBytes.length = 22 :=
  format.encode_length endpoint

theorem fromBytes_toBytes (endpoint : EndPoint) : fromBytes endpoint.toBytes = some endpoint := by
  have read := format.read_encode endpoint []
  rw [List.append_nil] at read
  exact read

/-- The unwrap in `from_bytes` never fails on the buffer of `handshake`, whatever it holds. -/
theorem fromBytes_total (bytes : List UInt8) (full : bytes.length = 22) :
    ∃ endpoint, fromBytes bytes = some endpoint := by
  apply format.read_enough
  exact Nat.le_of_eq full.symm

end EndPoint

namespace RemoteMR

/-- `size_of::<RemoteMR>()`: a u64 and two u32 need no padding. -/
def size : Nat := 16

def format : Format RemoteMR :=
  (Format.u64.pair (Format.u32.pair Format.u32)).record
    (fun fields => ⟨fields.1, fields.2.1, fields.2.2⟩)
    (fun mr => (mr.addr, mr.length, mr.rkey)) fun _ => rfl

def serialize (mr : RemoteMR) : List UInt8 := format.encode mr

def deserialize (bytes : List UInt8) : Option RemoteMR := format.read bytes

@[simp] theorem serialize_length (mr : RemoteMR) : mr.serialize.length = size :=
  format.encode_length mr

theorem deserialize_serialize (mr : RemoteMR) : deserialize mr.serialize = some mr := by
  have read := format.read_encode mr []
  rw [List.append_nil] at read
  exact read

theorem deserialize_total (bytes : List UInt8) (full : bytes.length = size) :
    ∃ mr, deserialize bytes = some mr := by
  apply format.read_enough
  exact Nat.le_of_eq full.symm

end RemoteMR

end Ibv
