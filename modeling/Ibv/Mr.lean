import Ibv.RingFifo

set_option autoImplicit false

/- The buffers of src/types/mr.rs. Addresses and lengths are natural numbers; that these give
what the u64 and u32 words of the source give is shown in `System.rings_in_words`. -/
namespace Ibv

open RingFifo

/- src/types/default.rs and conn.rs -/
def maxCqe : Nat := 32767
def maxQpWr : Nat := 16384
def defaultRqeCount : Nat := maxQpWr
def minLengthToNotifyRelease : Nat := 8 * 1024
def maxSending : Int := defaultRqeCount

structure MR where
  addr : UInt64
  length : UInt32
  lkey : UInt32
  rkey : UInt32
deriving DecidableEq, Repr

structure RemoteMR where
  addr : UInt64
  length : UInt32
  rkey : UInt32
deriving DecidableEq, Repr

def RemoteMR.fromMr (mr : MR) : RemoteMR where
  addr := mr.addr
  length := mr.length
  rkey := mr.rkey

/-- A section of the remote MR, alloced. -/
structure RemoteBuf where
  addr : Nat
  length : Nat
  rkey : UInt32
deriving DecidableEq, Repr

structure LocalBuf where
  addr : Nat
  length : Nat
  lkey : UInt32
deriving DecidableEq, Repr

def RemoteBuf.region (buf : RemoteBuf) : Region := ⟨buf.addr, buf.length⟩

def LocalBuf.region (buf : LocalBuf) : Region := ⟨buf.addr, buf.length⟩

/-- The words `RemoteBufManager` and `SendBuffer` both keep. `done` catching up
with `index` means that the space is empty. -/
structure Cursors where
  done : Nat
  index : Nat
  left : Nat
  right : Nat
deriving DecidableEq, Repr

/-- Where the allocating task is in its wait loop. The loop condition loads
`done` twice, the second time only if the first comparison did not decide. -/
inductive Loop where
  | head
  | tested (first : Nat)
  | exited
deriving DecidableEq, Repr

namespace Cursors

def ring (cursors : Cursors) : Ring := ⟨cursors.left, cursors.right⟩

/-- The loop condition of `alloc`, evaluated on one reading of `done`. -/
def waits (cursors : Cursors) (length : Nat) : Bool :=
  if cursors.index + length > cursors.right then
    cursors.left + length ≥ cursors.done || cursors.done > cursors.index
  else
    cursors.index + length ≥ cursors.done && cursors.done > cursors.index

/-- The first load of `done` in the loop condition: `||` of the wrap branch goes on
waiting when its left side holds, `&&` of the other branch leaves when it does not. -/
def firstLoad (cursors : Cursors) (length : Nat) : Loop :=
  if cursors.index + length > cursors.right then
    if cursors.left + length ≥ cursors.done then .head else .tested cursors.done
  else
    if cursors.index + length ≥ cursors.done then .tested cursors.done else .exited

/-- The second load of `done`, compared with `index` in both branches. -/
def secondLoad (cursors : Cursors) : Loop :=
  if cursors.done > cursors.index then .head else .exited

/-- `index.store(left)`, in the wrap branch only. -/
def rewind (cursors : Cursors) : Cursors := { cursors with index := cursors.left }

/-- `index.fetch_add(length)`. -/
def fetchAdd (cursors : Cursors) (length : Nat) : Cursors × Nat :=
  ({ cursors with index := cursors.index + length }, cursors.index)

/-- What follows the wait of `alloc`. -/
def grant (cursors : Cursors) (length : Nat) : Cursors × Nat :=
  if cursors.index + length > cursors.right then cursors.rewind.fetchAdd length
  else cursors.fetchAdd length

/-- The body of `update` and of the release task. -/
def retire (cursors : Cursors) (length : Nat) : Cursors :=
  if cursors.done + length > cursors.right then
    { cursors with done := cursors.left + length }
  else
    { cursors with done := cursors.done + length }

variable (cursors : Cursors) (length : Nat)

theorem waits_false_iff :
    cursors.waits length = false ↔ cursors.ring.Admits cursors.done cursors.index length := by
  unfold waits Ring.Admits ring
  dsimp only
  by_cases wraps : cursors.right < cursors.index + length
  · simp only [gt_iff_lt, wraps, ↓reduceIte, ge_iff_le, Bool.or_eq_false_iff,
      decide_eq_false_iff_not, Nat.not_le, Nat.not_lt]
  · simp only [gt_iff_lt, wraps, ↓reduceIte, ge_iff_le, Bool.and_eq_false_iff,
      decide_eq_false_iff_not, Nat.not_le, Nat.not_lt]

theorem grant_eq : cursors.grant length =
    ({ cursors with index := cursors.ring.advance cursors.index length },
      cursors.ring.place cursors.index length) := by
  unfold grant
  split
  · rename_i wraps
    have crosses : cursors.ring.right < cursors.index + length := wraps
    rw [Ring.advance_wraps crosses, Ring.place_wraps crosses]
    rfl
  · rename_i fits
    have inside : cursors.index + length ≤ cursors.ring.right := Nat.not_lt.mp fits
    rw [Ring.advance_fits inside, Ring.place_fits inside]
    rfl

theorem retire_eq : cursors.retire length =
    { cursors with done := cursors.ring.advance cursors.done length } := by
  unfold retire
  split
  · rename_i wraps
    rw [Ring.advance_wraps (show cursors.ring.right < cursors.done + length from wraps)]
    rfl
  · rename_i fits
    rw [Ring.advance_fits (show cursors.done + length ≤ cursors.ring.right from Nat.not_lt.mp fits)]

@[simp] theorem retire_ring : (cursors.retire length).ring = cursors.ring := by
  rw [retire_eq, ring, ring]

theorem firstLoad_exits (exits : cursors.firstLoad length = .exited) :
    cursors.ring.Admits cursors.done cursors.index length := by
  unfold firstLoad at exits
  split at exits
  · split at exits <;> cases exits
  · rename_i fits
    split at exits
    · cases exits
    · rename_i room
      have kept : ¬ cursors.ring.right < cursors.index + length := fits
      simp only [Ring.Admits, kept, ↓reduceIte]
      omega

theorem firstLoad_tested {first : Nat} (tested : cursors.firstLoad length = .tested first)
    (wraps : cursors.right < cursors.index + length) : cursors.left + length < first := by
  unfold firstLoad at tested
  rw [if_pos wraps] at tested
  split at tested
  · cases tested
  · rename_i room
    cases tested
    exact Nat.not_le.mp room

theorem secondLoad_decides (first : Nat) : cursors.secondLoad ≠ .tested first := by
  unfold secondLoad
  split <;> exact fun same => nomatch same

/-- A loop left after its second load has seen room, provided that in the wrap
branch the first comparison would still pass. -/
theorem secondLoad_exits (exits : cursors.secondLoad = .exited)
    (still : cursors.right < cursors.index + length → cursors.left + length < cursors.done) :
    cursors.ring.Admits cursors.done cursors.index length := by
  unfold secondLoad at exits
  split at exits
  · cases exits
  · rename_i order
    unfold Ring.Admits ring
    dsimp only
    split
    · rename_i wraps
      exact ⟨still wraps, by omega⟩
    · omega

end Cursors

/-- The sender's view of the peer's receive buffer. -/
structure RemoteBufManager extends Cursors where
  mr : RemoteMR
deriving DecidableEq, Repr

namespace RemoteBufManager

def new (mr : RemoteMR) : RemoteBufManager where
  done := mr.addr.toNat
  index := mr.addr.toNat
  left := mr.addr.toNat
  right := mr.addr.toNat + mr.length.toNat
  mr := mr

/-- The tail of `alloc`, once its wait is over. -/
def take (manager : RemoteBufManager) (length : Nat) : RemoteBufManager × RemoteBuf :=
  let granted := manager.toCursors.grant length
  ({ manager with toCursors := granted.1 }, ⟨granted.2, length, manager.mr.rkey⟩)

/-- `alloc` with its wait condition evaluated on one reading of `done`; `none` while
the task sleeps. -/
def alloc (manager : RemoteBufManager) (length : Nat) : Option (RemoteBufManager × RemoteBuf) :=
  if manager.waits length then none else some (manager.take length)

def update (manager : RemoteBufManager) (length : Nat) : RemoteBufManager :=
  { manager with toCursors := manager.toCursors.retire length }

/-- `recv_msg` calls `update` for a notice that is not zero; either way only `done` moves. -/
theorem update_kept (manager : RemoteBufManager) (imm : Nat) :
    (if imm ≠ 0 then manager.update imm else manager).index = manager.index ∧
      (if imm ≠ 0 then manager.update imm else manager).left = manager.left ∧
        (if imm ≠ 0 then manager.update imm else manager).right = manager.right := by
  split
  · unfold update
    rw [Cursors.retire_eq]
    exact ⟨rfl, rfl, rfl⟩
  · exact ⟨rfl, rfl, rfl⟩

theorem take_eq (manager : RemoteBufManager) (length : Nat) : manager.take length =
    ({ manager with index := manager.ring.advance manager.index length },
      ⟨manager.ring.place manager.index length, length, manager.mr.rkey⟩) := by
  rw [take, Cursors.grant_eq]

theorem alloc_eq_some_iff {manager granted : RemoteBufManager} {length : Nat} {buf : RemoteBuf} :
    manager.alloc length = some (granted, buf) ↔
      manager.ring.Admits manager.done manager.index length ∧
        manager.take length = (granted, buf) := by
  rw [← Cursors.waits_false_iff, alloc]
  cases manager.waits length <;> simp

end RemoteBufManager

/-- The local ring of outgoing messages. `inUse` holds the flags, named by the
pointer that `Arc::into_raw` gave for them, and `fresh` the next such pointer.
`releasing` is the pair the release task has popped and waits for. -/
structure SendBuffer extends Cursors where
  mr : MR
  toRelease : List (Nat × Nat)
  releasing : Option (Nat × Nat)
  inUse : Nat → Bool
  fresh : Nat

namespace SendBuffer

def new (mr : MR) : SendBuffer where
  done := mr.addr.toNat
  index := mr.addr.toNat
  left := mr.addr.toNat
  right := mr.addr.toNat + mr.length.toNat
  mr := mr
  toRelease := []
  releasing := none
  inUse := fun _ => false
  fresh := 0

def addToRelease (buffer : SendBuffer) (length : Nat) : SendBuffer × Nat :=
  ({ buffer with
      toRelease := buffer.toRelease ++ [(buffer.fresh, length)]
      inUse := Function.update buffer.inUse buffer.fresh true
      fresh := buffer.fresh + 1 }, buffer.fresh)

/-- The tail of `alloc`, once its wait is over. -/
def take (buffer : SendBuffer) (length : Nat) : SendBuffer × LocalBuf × Nat :=
  let granted := buffer.toCursors.grant length
  let queued := { buffer with toCursors := granted.1 }.addToRelease length
  (queued.1, ⟨granted.2, length, buffer.mr.lkey⟩, queued.2)

def alloc (buffer : SendBuffer) (length : Nat) : Option (SendBuffer × LocalBuf × Nat) :=
  if buffer.waits length then none else some (buffer.take length)

/-- The completion of a send: `using.store(false)`. -/
def clear (buffer : SendBuffer) (wrId : Nat) : SendBuffer :=
  { buffer with inUse := Function.update buffer.inUse wrId false }

/-- The release task takes the next pair from the queue. -/
def popRelease (buffer : SendBuffer) : Option SendBuffer :=
  match buffer.releasing, buffer.toRelease with
  | none, pair :: rest => some { buffer with releasing := some pair, toRelease := rest }
  | _, _ => none

/-- The release task finds the flag cleared and moves `done`. -/
def releaseDone (buffer : SendBuffer) : Option SendBuffer :=
  match buffer.releasing with
  | some (wrId, length) =>
      if buffer.inUse wrId then none
      else some { buffer with
        toCursors := buffer.toCursors.retire length
        releasing := none }
  | none => none

/-- The (flag, length) pairs of all regions not yet retired, oldest first. -/
def queue (buffer : SendBuffer) : List (Nat × Nat) :=
  buffer.releasing.toList ++ buffer.toRelease

theorem take_eq (buffer : SendBuffer) (length : Nat) : buffer.take length =
    ({ buffer with
        index := buffer.ring.advance buffer.index length
        toRelease := buffer.toRelease ++ [(buffer.fresh, length)]
        inUse := Function.update buffer.inUse buffer.fresh true
        fresh := buffer.fresh + 1 },
      ⟨buffer.ring.place buffer.index length, length, buffer.mr.lkey⟩, buffer.fresh) := by
  rw [take, Cursors.grant_eq]
  rfl

theorem alloc_eq_some_iff {buffer granted : SendBuffer} {length : Nat} {result : LocalBuf × Nat} :
    buffer.alloc length = some (granted, result) ↔
      buffer.ring.Admits buffer.done buffer.index length ∧
        buffer.take length = (granted, result) := by
  rw [← Cursors.waits_false_iff, alloc]
  cases buffer.waits length <;> simp

theorem popRelease_cases {buffer after : SendBuffer} (taken : buffer.popRelease = some after) :
    ∃ pair rest, buffer.releasing = none ∧ buffer.toRelease = pair :: rest ∧
      after = { buffer with releasing := some pair, toRelease := rest } := by
  unfold popRelease at taken
  split at taken
  · rename_i pair rest idle queued
    exact ⟨pair, rest, idle, queued, (Option.some.inj taken).symm⟩
  · cases taken

theorem releaseDone_cases {buffer after : SendBuffer} (taken : buffer.releaseDone = some after) :
    ∃ wrId length, buffer.releasing = some (wrId, length) ∧ buffer.inUse wrId = false ∧
      after = { buffer with
        done := buffer.ring.advance buffer.done length
        releasing := none } := by
  unfold releaseDone at taken
  split at taken
  · rename_i wrId length waiting
    simp only [Cursors.retire_eq] at taken
    split at taken
    · cases taken
    · rename_i cleared
      exact ⟨wrId, length, waiting, by simpa using cleared, (Option.some.inj taken).symm⟩
  · cases taken

end SendBuffer

/-- The receiver's own ring. `released` is the length gathered and not yet
reported, `done` the position up to which it has been. -/
structure RecvBuffer where
  mr : MR
  released : Nat
  done : Nat
  index : Nat
  left : Nat
  right : Nat
deriving DecidableEq, Repr

namespace RecvBuffer

def new (mr : MR) : RecvBuffer where
  mr := mr
  released := 0
  done := mr.addr.toNat
  index := mr.addr.toNat
  left := mr.addr.toNat
  right := mr.addr.toNat + mr.length.toNat

def ring (buffer : RecvBuffer) : Ring := ⟨buffer.left, buffer.right⟩

/-- The slice of the next message; `none` is the panic of a slice that leaves
`recv_buffer`. -/
def read (buffer : RecvBuffer) (length : Nat) : Option (RecvBuffer × Region) :=
  let start := if buffer.index + length > buffer.right then buffer.left else buffer.index
  let stop := start + length
  if stop - buffer.mr.addr.toNat ≤ buffer.mr.length.toNat then
    some ({ buffer with index := stop }, ⟨start, length⟩)
  else
    none

def notifyRelease (buffer : RecvBuffer) (length : Nat) : RecvBuffer × Option Nat :=
  if buffer.done + buffer.released + length > buffer.right then
    -- over the right end: report the old batch and start a new one at the left
    ({ buffer with released := length, done := buffer.left }, some buffer.released)
  else if buffer.released + length ≥ minLengthToNotifyRelease then
    ({ buffer with
        done := buffer.done + (buffer.released + length)
        released := 0 }, some (buffer.released + length))
  else
    ({ buffer with released := buffer.released + length }, none)

theorem read_eq (buffer : RecvBuffer) (length : Nat) : buffer.read length =
    if buffer.ring.advance buffer.index length - buffer.mr.addr.toNat ≤ buffer.mr.length.toNat then
      some ({ buffer with index := buffer.ring.advance buffer.index length },
        ⟨buffer.ring.place buffer.index length, length⟩)
    else none := rfl

theorem read_cases {buffer : RecvBuffer} {length : Nat} {result : RecvBuffer × Region}
    (sliced : buffer.read length = some result) :
    result = ({ buffer with index := buffer.ring.advance buffer.index length },
      ⟨buffer.ring.place buffer.index length, length⟩) := by
  rw [read_eq] at sliced
  split at sliced
  · exact (Option.some.inj sliced).symm
  · cases sliced

end RecvBuffer

end Ibv
