import Ibv.Direction

set_option autoImplicit false

namespace Ibv

open RingFifo

namespace Machine

structure RemoteBufManager where
  done : UInt64
  index : UInt64
  left : UInt64
  right : UInt64
deriving DecidableEq, Repr

/-- `RecvBuffer`, whose `recv_buffer` is as long as `mr`. -/
structure RecvBuffer where
  mr : MR
  released : UInt32
  done : UInt64
  index : UInt64
  left : UInt64
  right : UInt64
deriving DecidableEq, Repr

namespace RemoteBufManager

def new (mr : RemoteMR) : RemoteBufManager where
  done := mr.addr
  index := mr.addr
  left := mr.addr
  right := mr.addr + mr.length.toUInt64

/-- The wait condition of `alloc`. -/
def waits (manager : RemoteBufManager) (length : UInt32) : Bool :=
  if manager.index + length.toUInt64 > manager.right then
    manager.left + length.toUInt64 ≥ manager.done || manager.done > manager.index
  else
    manager.index + length.toUInt64 ≥ manager.done && manager.done > manager.index

/-- `alloc` once its wait is over, with the address of the region. -/
def take (manager : RemoteBufManager) (length : UInt32) : RemoteBufManager × UInt64 :=
  let index :=
    if manager.index + length.toUInt64 > manager.right then manager.left else manager.index
  ({ manager with index := index + length.toUInt64 }, index)

def update (manager : RemoteBufManager) (length : UInt32) : RemoteBufManager :=
  if manager.done + length.toUInt64 > manager.right then
    { manager with done := manager.left + length.toUInt64 }
  else
    { manager with done := manager.done + length.toUInt64 }

end RemoteBufManager

namespace RecvBuffer

def new (mr : MR) : RecvBuffer where
  mr := mr
  released := 0
  done := mr.addr
  index := mr.addr
  left := mr.addr
  right := mr.addr + mr.length.toUInt64

/-- `read`, with the range of its slice; `none` is the panic of a slice that is not inside
`recv_buffer`. -/
def read (buffer : RecvBuffer) (length : UInt32) : Option (RecvBuffer × UInt64 × UInt64) :=
  let start := if buffer.index + length.toUInt64 > buffer.right then buffer.left else buffer.index
  let stop := start + length.toUInt64
  let range := (start - buffer.mr.addr, stop - buffer.mr.addr)
  if range.1 ≤ range.2 ∧ range.2 ≤ buffer.mr.length.toUInt64 then
    some ({ buffer with index := stop }, range)
  else
    none

def notifyRelease (buffer : RecvBuffer) (length : UInt32) : RecvBuffer × Option UInt32 :=
  if buffer.done + buffer.released.toUInt64 + length.toUInt64 > buffer.right then
    ({ buffer with released := length, done := buffer.left }, some buffer.released)
  else if buffer.released + length ≥ UInt32.ofNat minLengthToNotifyRelease then
    let ret := buffer.released + length
    ({ buffer with done := buffer.done + ret.toUInt64, released := 0 }, some ret)
  else
    ({ buffer with released := buffer.released + length }, none)

/-- The u32 sum of `notify_release`, which only the branches behind the first comparison
form, does not overflow. -/
def SumFits (buffer : RecvBuffer) (length : UInt32) : Prop :=
  ¬ buffer.done + buffer.released.toUInt64 + length.toUInt64 > buffer.right →
    buffer.released.toNat + length.toNat < 2 ^ 32

end RecvBuffer

theorem toNat_add {address : UInt64} {length : UInt32}
    (fits : address.toNat + length.toNat < 2 ^ 64) :
    (address + length.toUInt64).toNat = address.toNat + length.toNat := by
  rw [UInt64.toNat_add, UInt32.toNat_toUInt64, Nat.mod_eq_of_lt fits]

theorem over_iff {address right : UInt64} {length : UInt32}
    (fits : address.toNat + length.toNat < 2 ^ 64) :
    address + length.toUInt64 > right ↔ right.toNat < address.toNat + length.toNat := by
  rw [gt_iff_lt, UInt64.lt_iff_toNat_lt, toNat_add fits]

namespace RemoteBufManager

/-- The same cursors as natural numbers. -/
def cursors (manager : RemoteBufManager) : Cursors :=
  ⟨manager.done.toNat, manager.index.toNat, manager.left.toNat, manager.right.toNat⟩

variable {manager : RemoteBufManager} {length : UInt32}

theorem waits_eq (left : manager.left.toNat + length.toNat < 2 ^ 64)
    (index : manager.index.toNat + length.toNat < 2 ^ 64) :
    manager.waits length = manager.cursors.waits length.toNat := by
  unfold waits Cursors.waits cursors
  simp only [gt_iff_lt, ge_iff_le, UInt64.lt_iff_toNat_lt, UInt64.le_iff_toNat_le,
    toNat_add left, toNat_add index]

theorem take_eq (left : manager.left.toNat + length.toNat < 2 ^ 64)
    (index : manager.index.toNat + length.toNat < 2 ^ 64) :
    ((manager.take length).1.cursors, (manager.take length).2.toNat) =
      manager.cursors.grant length.toNat := by
  unfold take Cursors.grant
  have wraps : manager.index + length.toUInt64 > manager.right ↔
      manager.cursors.index + length.toNat > manager.cursors.right := over_iff index
  by_cases over_end : manager.cursors.index + length.toNat > manager.cursors.right
  · rw [if_pos over_end, if_pos (wraps.mpr over_end)]
    simp only [cursors, toNat_add left]
    rfl
  · rw [if_neg over_end, if_neg (mt wraps.mp over_end)]
    simp only [cursors, toNat_add index]
    rfl

theorem update_eq (left : manager.left.toNat + length.toNat < 2 ^ 64)
    (done : manager.done.toNat + length.toNat < 2 ^ 64) :
    (manager.update length).cursors = manager.cursors.retire length.toNat := by
  unfold update Cursors.retire
  have wraps : manager.done + length.toUInt64 > manager.right ↔
      manager.cursors.done + length.toNat > manager.cursors.right := over_iff done
  by_cases over_end : manager.cursors.done + length.toNat > manager.cursors.right
  · rw [if_pos over_end, if_pos (wraps.mpr over_end)]
    simp only [cursors, toNat_add left]
  · rw [if_neg over_end, if_neg (mt wraps.mp over_end)]
    simp only [cursors, toNat_add done]

end RemoteBufManager

namespace RecvBuffer

/-- The same buffer in natural numbers. -/
def numbers (buffer : RecvBuffer) : Ibv.RecvBuffer where
  mr := buffer.mr
  released := buffer.released.toNat
  done := buffer.done.toNat
  index := buffer.index.toNat
  left := buffer.left.toNat
  right := buffer.right.toNat

/-- The words of a `RecvBuffer` in use: it covers its MR, its cursors are in it, and one more
message of its size can be added to an address without a wrap. -/
structure Sound (buffer : RecvBuffer) : Prop where
  left : buffer.left = buffer.mr.addr
  right : buffer.right.toNat = buffer.mr.addr.toNat + buffer.mr.length.toNat
  top : buffer.right.toNat + buffer.mr.length.toNat < 2 ^ 64
  index : buffer.left.toNat ≤ buffer.index.toNat ∧ buffer.index.toNat ≤ buffer.right.toNat
  done : buffer.left.toNat ≤ buffer.done.toNat ∧
    buffer.done.toNat + buffer.released.toNat ≤ buffer.right.toNat

variable {buffer : RecvBuffer} {length : UInt32}

theorem new_sound (mr : MR) (top : mr.addr.toNat + 2 * mr.length.toNat < 2 ^ 64) :
    (new mr).Sound := by
  have right : (new mr).right.toNat = mr.addr.toNat + mr.length.toNat := toNat_add (by omega)
  refine ⟨rfl, right, ?_, ⟨Nat.le_refl _, ?_⟩, Nat.le_refl _, ?_⟩
  · rw [right]
    change mr.addr.toNat + mr.length.toNat + mr.length.toNat < 2 ^ 64
    omega
  · rw [right]
    exact Nat.le_add_right _ _
  · rw [right]
    exact Nat.le_add_right _ _

theorem Sound.start_eq (sound : buffer.Sound) (within : length ≤ buffer.mr.length) :
    ∃ start : UInt64,
      (if buffer.index + length.toUInt64 > buffer.right then buffer.left else buffer.index) =
        start ∧
      start.toNat = buffer.numbers.ring.place buffer.index.toNat length.toNat ∧
      buffer.mr.addr.toNat ≤ start.toNat ∧
      start.toNat + length.toNat ≤ buffer.mr.addr.toNat + buffer.mr.length.toNat := by
  obtain ⟨left, right, top, index, -⟩ := sound
  have small : length.toNat ≤ buffer.mr.length.toNat := UInt32.le_iff_toNat_le.mp within
  have wraps : buffer.index + length.toUInt64 > buffer.right ↔
      buffer.numbers.ring.right < buffer.index.toNat + length.toNat := over_iff (by omega)
  refine ⟨_, rfl, ?_⟩
  rw [left] at index ⊢
  by_cases over_end : buffer.numbers.ring.right < buffer.index.toNat + length.toNat
  · rw [if_pos (wraps.mpr over_end), Ring.place_wraps over_end]
    exact ⟨congrArg UInt64.toNat left.symm, Nat.le_refl _, by omega⟩
  · rw [if_neg (mt wraps.mp over_end), Ring.place_fits (Nat.not_lt.mp over_end)]
    exact ⟨rfl, index.1, Nat.le_trans (Nat.not_lt.mp over_end) (Nat.le_of_eq right)⟩

/-- The slice of a message lies where the cursor of natural numbers puts it, inside
`recv_buffer`. -/
theorem Sound.read_eq (sound : buffer.Sound) (within : length ≤ buffer.mr.length) :
    ∃ after start stop, buffer.read length = some (after, start, stop) ∧ after.Sound ∧
      after.numbers = { buffer.numbers with
        index := buffer.numbers.ring.advance buffer.index.toNat length.toNat } ∧
      (buffer.mr.addr + start).toNat =
        buffer.numbers.ring.place buffer.index.toNat length.toNat ∧
      stop.toNat = start.toNat + length.toNat ∧ stop.toNat ≤ buffer.mr.length.toNat := by
  obtain ⟨start, chosen, place, low, high⟩ := sound.start_eq within
  obtain ⟨left, right, top, index, done⟩ := sound
  have stop : (start + length.toUInt64).toNat = start.toNat + length.toNat :=
    toNat_add (by omega)
  have offset : (start - buffer.mr.addr).toNat = start.toNat - buffer.mr.addr.toNat :=
    UInt64.toNat_sub_of_le _ _ (UInt64.le_iff_toNat_le.mpr low)
  have offset' : (start + length.toUInt64 - buffer.mr.addr).toNat =
      start.toNat + length.toNat - buffer.mr.addr.toNat := by
    rw [UInt64.toNat_sub_of_le _ _ (UInt64.le_iff_toNat_le.mpr (by omega)), stop]
  have inside : start - buffer.mr.addr ≤ start + length.toUInt64 - buffer.mr.addr ∧
      start + length.toUInt64 - buffer.mr.addr ≤ buffer.mr.length.toUInt64 := by
    simp only [UInt64.le_iff_toNat_le, offset, offset', UInt32.toNat_toUInt64]
    omega
  refine ⟨{ buffer with index := start + length.toUInt64 }, start - buffer.mr.addr,
    start + length.toUInt64 - buffer.mr.addr, ?_, ?_, ?_, ?_, ?_, ?_⟩
  · simp only [read, chosen]
    rw [if_pos inside]
  · refine ⟨left, right, top, ?_, done⟩
    dsimp only
    rw [left, stop]
    omega
  · simp only [numbers, stop, place]
    rfl
  · rw [← place, UInt64.add_comm, UInt64.sub_add_cancel]
  · rw [offset, offset']
    omega
  · rw [offset']
    omega

theorem Sound.notifyRelease_eq (sound : buffer.Sound) (within : length ≤ buffer.mr.length) :
    buffer.SumFits length ∧ (buffer.notifyRelease length).1.Sound ∧
      (buffer.notifyRelease length).1.mr = buffer.mr ∧
      buffer.numbers.notifyRelease length.toNat =
        ((buffer.notifyRelease length).1.numbers,
          (buffer.notifyRelease length).2.map UInt32.toNat) := by
  obtain ⟨left, right, top, index, done⟩ := sound
  have small : length.toNat ≤ buffer.mr.length.toNat := UInt32.le_iff_toNat_le.mp within
  have bound := buffer.mr.length.toNat_lt
  have withheld : (buffer.done + buffer.released.toUInt64).toNat =
      buffer.done.toNat + buffer.released.toNat := toNat_add (by omega)
  have wraps : buffer.done + buffer.released.toUInt64 + length.toUInt64 > buffer.right ↔
      buffer.numbers.right < buffer.numbers.done + buffer.numbers.released + length.toNat := by
    rw [over_iff (by omega), withheld]
    rfl
  rw [left] at index done
  by_cases over_end :
      buffer.numbers.right < buffer.numbers.done + buffer.numbers.released + length.toNat
  · rw [RecvBuffer.notifyRelease, if_pos (wraps.mpr over_end),
      Ibv.RecvBuffer.notifyRelease_wraps over_end]
    refine ⟨fun fits => absurd (wraps.mpr over_end) fits,
      ⟨left, right, top, by rw [left]; exact index, ?_⟩, rfl, rfl⟩
    dsimp only
    rw [left]
    omega
  · have fits : buffer.done.toNat + buffer.released.toNat + length.toNat ≤ buffer.right.toNat :=
      Nat.not_lt.mp over_end
    have sum : (buffer.released + length).toNat = buffer.released.toNat + length.toNat := by
      rw [UInt32.toNat_add, Nat.mod_eq_of_lt (by omega)]
    have threshold : buffer.released + length ≥ UInt32.ofNat minLengthToNotifyRelease ↔
        minLengthToNotifyRelease ≤ buffer.numbers.released + length.toNat := by
      rw [ge_iff_le, UInt32.le_iff_toNat_le, sum]
      rfl
    refine ⟨fun _ => by omega, ?_⟩
    rw [RecvBuffer.notifyRelease, if_neg (mt wraps.mp over_end)]
    by_cases enough : minLengthToNotifyRelease ≤ buffer.numbers.released + length.toNat
    · have reported : (buffer.done + (buffer.released + length).toUInt64).toNat =
          buffer.done.toNat + (buffer.released.toNat + length.toNat) := by
        rw [toNat_add (by omega), sum]
      rw [if_pos (threshold.mpr enough), Ibv.RecvBuffer.notifyRelease_reports over_end enough]
      refine ⟨⟨left, right, top, by rw [left]; exact index, ?_⟩, rfl, ?_⟩
      · dsimp only
        rw [left, reported]
        change _ ∧ _ + 0 ≤ _
        omega
      · simp only [numbers, reported, sum, Option.map_some]
        rfl
    · rw [if_neg (mt threshold.mp enough), Ibv.RecvBuffer.notifyRelease_gathers over_end enough]
      refine ⟨⟨left, right, top, by rw [left]; exact index, ?_⟩, rfl, ?_⟩
      · dsimp only
        rw [left, sum]
        omega
      · simp only [numbers, sum, Option.map_none]

end RecvBuffer

end Machine

end Ibv
