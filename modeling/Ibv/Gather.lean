import Ibv.RemoteRing
import Ibv.Verbs
import Ibv.WordMemory

set_option autoImplicit false

namespace Ibv

structure Sge where
  addr : Nat
  length : Nat
  lkey : UInt32
deriving DecidableEq, Repr

/-- `LocalBuf::into`, for the one entry of the list that `write_with_imm` posts. -/
def LocalBuf.sge (buf : LocalBuf) : Sge := ⟨buf.addr, buf.length, buf.lkey⟩

namespace Msg

/-- The loop over the slices with its `addr_idx`. -/
def gather : (UInt64 → UInt8) → UInt64 → Msg → UInt64 → UInt8
  | memory, _, [] => memory
  | memory, addrIdx, slice :: rest =>
      gather (WordMemory.write memory addrIdx slice.bytes) (addrIdx + UInt64.ofNat slice.len) rest

theorem gather_eq (msg : Msg) (memory : UInt64 → UInt8) (addrIdx : UInt64)
    (usize : msg.totalLen < 2 ^ 64) :
    msg.gather memory addrIdx = WordMemory.write memory addrIdx msg.bytes := by
  induction msg generalizing memory addrIdx with
  | nil =>
      funext target
      rw [gather, bytes_nil, WordMemory.write_outside _ _ _ _ (Nat.zero_le _)]
  | cons slice rest ih =>
      rw [totalLen_cons] at usize
      have behind := WordMemory.write_behind memory addrIdx slice.bytes (bytes rest)
        (by rw [IoSlice.bytes_length, bytes_length]; omega)
        (by rw [IoSlice.bytes_length]; omega)
      rw [IoSlice.bytes_length] at behind
      rw [gather, ih _ _ (by omega), bytes_cons, behind]

/-- On addresses that do not wrap, the loop is the copy to natural addresses. -/
theorem gather_eq_write (msg : Msg) (memory : Nat → UInt8) (address : Nat)
    (inside : address + msg.totalLen ≤ 2 ^ 64) (small : address < 2 ^ 64)
    (usize : msg.totalLen < 2 ^ 64) :
    msg.gather (fun word => memory word.toNat) (UInt64.ofNat address) =
      fun word => ByteMemory.write memory address msg.bytes word.toNat := by
  rw [gather_eq _ _ _ usize, WordMemory.write_eq _ _ _ (by rw [bytes_length]; exact inside) small]

/-- What the copy loop does to memory with a granted region, and what is posted then. -/
structure Gathered (msg : Msg) (buf : LocalBuf) (before after : UInt64 → UInt8) : Prop where
  contents : WordMemory.read after (UInt64.ofNat buf.addr) buf.length = msg.bytes
  frame : ∀ target, buf.length ≤ WordMemory.offset (UInt64.ofNat buf.addr) target →
    after target = before target
  posted : buf.sge.length = msg.totalLen

variable {buffer granted : SendBuffer} {buf : LocalBuf} {wrId : Nat}

/-- `alloc` grants as many bytes as it is asked for, the truncated total. -/
theorem alloc_length {length : Nat} (taken : buffer.alloc length = some (granted, buf, wrId)) :
    buf.length = length := by
  obtain ⟨-, same⟩ := SendBuffer.alloc_eq_some_iff.mp taken
  rw [SendBuffer.take_eq, Prod.mk.injEq, Prod.mk.injEq] at same
  rw [← same.2.1]

/-- A message of 4 GiB or more is copied over the end of its region. -/
theorem gather_beyond (msg : Msg) (memory : UInt64 → UInt8) (usize : msg.totalLen < 2 ^ 64)
    (long : 2 ^ 32 ≤ msg.totalLen)
    (taken : buffer.alloc msg.wireLen = some (granted, buf, wrId)) :
    ∃ target, buf.length ≤ WordMemory.offset (UInt64.ofNat buf.addr) target ∧
      some (msg.gather memory (UInt64.ofNat buf.addr) target) = msg.bytes[buf.length]? := by
  have length := alloc_length taken
  have short : msg.wireLen < 2 ^ 32 := Nat.mod_lt _ (by decide)
  have inside : buf.length < msg.bytes.length := by
    rw [bytes_length]
    omega
  refine ⟨UInt64.ofNat buf.addr + UInt64.ofNat buf.length, ?_, ?_⟩
  · exact Nat.le_of_eq (WordMemory.offset_add _ _ (by omega)).symm
  · rw [gather_eq _ _ _ usize, WordMemory.write_inside _ _ _ _ inside (by omega),
      List.getElem?_eq_getElem inside]

/-- The gather copy does what it should exactly for the messages shorter than 4 GiB. -/
theorem gathered_iff (msg : Msg) (memory : UInt64 → UInt8) (buffer granted : SendBuffer)
    (buf : LocalBuf) (wrId : Nat) (usize : msg.totalLen < 2 ^ 64)
    (taken : buffer.alloc msg.wireLen = some (granted, buf, wrId)) :
    msg.Gathered buf memory (msg.gather memory (UInt64.ofNat buf.addr)) ↔
      msg.totalLen < 2 ^ 32 := by
  have length := alloc_length taken
  constructor
  · intro gathered
    have posted : buf.length = msg.totalLen := gathered.posted
    rw [← posted, length]
    exact Nat.mod_lt _ (by decide)
  · intro small
    have whole : buf.length = msg.bytes.length := by
      rw [length, wireLen_eq small, bytes_length]
    rw [gather_eq _ _ _ usize]
    refine ⟨?_, ?_, ?_⟩
    · rw [whole]
      apply WordMemory.read_write
      rw [bytes_length]
      exact Nat.le_of_lt usize
    · intro target outside
      exact WordMemory.write_outside _ _ _ _ (by rw [← whole]; exact outside)
    · exact whole.trans (bytes_length msg)

/-- A slice of as many ones. -/
def ones (len : Nat) : IoSlice := ⟨len, fun _ => 1⟩

theorem gathered_slices :
    ∃ buf, Gathered [ones 3, ones 0, ones 2] buf (fun _ => 0)
      (gather (fun _ => 0) (UInt64.ofNat buf.addr) [ones 3, ones 0, ones 2]) ∧
      buf.length = 5 := by
  have taken : (SendBuffer.new Direction.sampleMr).alloc 5 =
      some ((SendBuffer.new Direction.sampleMr).take 5) :=
    if_neg (by decide +kernel)
  exact ⟨_, (gathered_iff [ones 3, ones 0, ones 2] (fun _ => 0)
    (.new Direction.sampleMr) _ _ _ (by decide) taken).mpr (by decide), alloc_length taken⟩

/-- A message of 4 GiB is granted a region of no length, and all of it lands outside. -/
theorem not_gathered :
    ∃ granted buf wrId target,
      (SendBuffer.new Direction.sampleMr).alloc (wireLen [ones (2 ^ 32)]) =
        some (granted, buf, wrId) ∧
      ¬ Gathered [ones (2 ^ 32)] buf (fun _ => 0)
        (gather (fun _ => 0) (UInt64.ofNat buf.addr) [ones (2 ^ 32)]) ∧
      buf.length ≤ WordMemory.offset (UInt64.ofNat buf.addr) target ∧
      gather (fun _ => 0) (UInt64.ofNat buf.addr) [ones (2 ^ 32)] target = 1 := by
  let start := SendBuffer.new Direction.sampleMr
  have taken : start.alloc (wireLen [ones (2 ^ 32)]) = some (start.take 0) :=
    if_neg (by decide +kernel)
  have total : totalLen [ones (2 ^ 32)] = 2 ^ 32 := by
    rw [totalLen_cons]
    rfl
  obtain ⟨target, outside, moved⟩ := gather_beyond [ones (2 ^ 32)] (fun _ => 0)
    (by rw [total]; decide) (Nat.le_of_eq total.symm) taken
  refine ⟨_, _, _, target, taken, fun gathered => ?_, outside, ?_⟩
  · have posted := gathered.posted
    rw [total] at posted
    have length : (start.take 0).2.1.length = 0 := alloc_length taken
    change (start.take 0).2.1.length = 2 ^ 32 at posted
    rw [length] at posted
    cases posted
  · rw [alloc_length taken] at moved
    have first : bytes [ones (2 ^ 32)] = (ones (2 ^ 32)).bytes := by
      rw [bytes_cons, bytes_nil, List.append_nil]
    have zero : wireLen [ones (2 ^ 32)] = 0 := by
      rw [wireLen, total, Nat.mod_self]
    rw [first, zero, IoSlice.bytes, List.getElem?_map, List.getElem?_range (by decide)] at moved
    exact Option.some.inj moved

end Msg

end Ibv
