import Ibv.Mr
import Ibv.Runs

set_option autoImplicit false

namespace Ibv

open RingFifo

namespace RecvBuffer

/-- The lengths gathered since the last report. They start at `position`, unless the
first of them went over the right end and the buffer restarted at the left. -/
def Withholds (ring : Ring) (position : Nat) (withheld : List Nat) (done released : Nat) : Prop :=
  released = withheld.sum ∧
    ((done = position ∧ position + withheld.sum ≤ ring.right) ∨
      ∃ first rest, withheld = first :: rest ∧ ring.right < position + first ∧
        done = ring.left ∧ ring.left + withheld.sum ≤ ring.right)

theorem Withholds.batch {ring : Ring} {position done released : Nat} {withheld : List Nat}
    (withholds : Withholds ring position withheld done released) : ring.Batch position withheld := by
  rcases withholds.2 with ⟨-, fits⟩ | ⟨first, rest, shape, wraps, -, fits⟩
  · exact .inl fits
  · exact .inr ⟨first, rest, shape, wraps, fits⟩

theorem Withholds.cursor {ring : Ring} {position done released : Nat} {withheld : List Nat}
    (withholds : Withholds ring position withheld done released) :
    ring.cursor position withheld = done + released := by
  rw [withholds.1]
  rcases withholds.2 with ⟨rfl, fits⟩ | ⟨first, rest, rfl, wraps, rfl, fits⟩
  · exact Ring.cursor_fits _ _ fits
  · simp only [List.sum_cons] at fits ⊢
    rw [Ring.cursor_cons, Ring.advance_wraps wraps, Ring.cursor_fits _ _ (by omega)]
    omega

theorem Withholds.below {ring : Ring} {position done released : Nat} {withheld : List Nat}
    (withholds : Withholds ring position withheld done released) :
    done + released ≤ ring.right := by
  rw [withholds.1]
  rcases withholds.2 with ⟨rfl, fits⟩ | ⟨first, rest, rfl, wraps, rfl, fits⟩ <;> exact fits

theorem notifyRelease_wraps {buffer : RecvBuffer} {length : Nat}
    (wraps : buffer.right < buffer.done + buffer.released + length) :
    buffer.notifyRelease length =
      ({ buffer with released := length, done := buffer.left }, some buffer.released) := by
  simp only [notifyRelease, gt_iff_lt, wraps, ↓reduceIte]

theorem notifyRelease_reports {buffer : RecvBuffer} {length : Nat}
    (fits : ¬ buffer.right < buffer.done + buffer.released + length)
    (enough : minLengthToNotifyRelease ≤ buffer.released + length) :
    buffer.notifyRelease length =
      ({ buffer with done := buffer.done + (buffer.released + length), released := 0 },
        some (buffer.released + length)) := by
  simp only [notifyRelease, gt_iff_lt, fits, ↓reduceIte, ge_iff_le, enough]

theorem notifyRelease_gathers {buffer : RecvBuffer} {length : Nat}
    (fits : ¬ buffer.right < buffer.done + buffer.released + length)
    (few : ¬ minLengthToNotifyRelease ≤ buffer.released + length) :
    buffer.notifyRelease length =
      ({ buffer with released := buffer.released + length }, none) := by
  simp only [notifyRelease, gt_iff_lt, fits, ↓reduceIte, ge_iff_le, few]

@[simp] theorem notifyRelease_index (buffer : RecvBuffer) (length : Nat) :
    (buffer.notifyRelease length).1.index = buffer.index := by
  unfold notifyRelease
  split <;> [rfl; split <;> rfl]

@[simp] theorem notifyRelease_ring (buffer : RecvBuffer) (length : Nat) :
    (buffer.notifyRelease length).1.ring = buffer.ring := by
  unfold notifyRelease
  split <;> [rfl; split <;> rfl]

@[simp] theorem notifyRelease_mr (buffer : RecvBuffer) (length : Nat) :
    (buffer.notifyRelease length).1.mr = buffer.mr := by
  unfold notifyRelease
  split <;> [rfl; split <;> rfl]

/-- A release is either gathered, or the gathered lengths are reported as one batch
and what is left of them is withheld behind it. -/
theorem notifyRelease_spec (buffer : RecvBuffer) (position length : Nat) (withheld : List Nat)
    (withholds : Withholds buffer.ring position withheld buffer.done buffer.released)
    (inside : buffer.left + length ≤ buffer.right) :
    ∃ (reports : List (List Nat)) (rest : List Nat),
      withheld ++ [length] = reports.flatten ++ rest ∧
      (buffer.notifyRelease length).2.toList = reports.map List.sum ∧
      buffer.ring.Batches position reports ∧
      Withholds buffer.ring (buffer.ring.cursor position reports.flatten) rest
        (buffer.notifyRelease length).1.done (buffer.notifyRelease length).1.released := by
  have arrived := withholds.cursor
  have gathered : (withheld ++ [length]).sum = buffer.released + length := by
    rw [List.sum_append, List.sum_singleton, withholds.1]
  by_cases wraps : buffer.right < buffer.done + buffer.released + length
  · -- the old batch ends where the skipped piece of the ring begins
    refine ⟨[withheld], [length], by simp, ?_, ⟨withholds.batch, trivial⟩, ?_⟩
    · rw [notifyRelease_wraps wraps, List.map_singleton, ← withholds.1, Option.toList_some]
    · rw [notifyRelease_wraps wraps, List.flatten_singleton, arrived]
      exact ⟨List.sum_singleton.symm, .inr ⟨length, [], rfl, wraps, rfl, by
        rw [List.sum_singleton]
        exact inside⟩⟩
  · have fits : buffer.done + buffer.released + length ≤ buffer.right := by omega
    have extended : Withholds buffer.ring position (withheld ++ [length]) buffer.done
        (buffer.released + length) := by
      refine ⟨gathered.symm, ?_⟩
      rcases withholds.2 with ⟨same, -⟩ | ⟨first, rest, shape, crosses, same, -⟩
      · refine .inl ⟨same, ?_⟩
        rw [gathered, ← same, ← Nat.add_assoc]
        exact fits
      · refine .inr ⟨first, rest ++ [length], by rw [shape, List.cons_append], crosses, same, ?_⟩
        rw [gathered, ← same, ← Nat.add_assoc]
        exact fits
    by_cases enough : minLengthToNotifyRelease ≤ buffer.released + length
    · refine ⟨[withheld ++ [length]], [], by simp, ?_, ⟨extended.batch, trivial⟩, ?_⟩
      · rw [notifyRelease_reports wraps enough, List.map_singleton, gathered, Option.toList_some]
      · rw [notifyRelease_reports wraps enough, List.flatten_singleton, extended.cursor]
        exact ⟨rfl, .inl ⟨rfl, by simpa only [List.sum_nil, Nat.add_zero] using extended.below⟩⟩
    · refine ⟨[], withheld ++ [length], rfl, ?_, trivial, ?_⟩
      · rw [notifyRelease_gathers wraps enough, Option.toList_none, List.map_nil]
      · rw [notifyRelease_gathers wraps enough, List.flatten_nil, Ring.cursor_nil]
        exact extended

end RecvBuffer

/-- `granted` lists every grant so far, `held` the slices that `recv_msg` has returned
and the application has not released, `released` counts the releases. Notices are
`queued` in the release channel, then `riding` on a reverse message; `reported` sums
what was handed to `update`. -/
structure Direction where
  allocator : RemoteBufManager
  recvBuf : RecvBuffer
  granted : List RemoteBuf
  held : List Region
  released : Nat
  queued : List Nat
  riding : List Nat
  reported : Nat
deriving DecidableEq, Repr

namespace Direction

def new (mr : MR) : Direction where
  allocator := .new (.fromMr mr)
  recvBuf := .new mr
  granted := []
  held := []
  released := 0
  queued := []
  riding := []
  reported := 0

inductive Action where
  | grant (length : Nat)
  | read
  | release
  | carry
  | update
deriving DecidableEq, Repr

/-- `RemoteBufManager::alloc`, its wait over at once. -/
def grant (direction : Direction) (length : Nat) : Option Direction :=
  (direction.allocator.alloc length).map fun granted =>
    { direction with allocator := granted.1, granted := direction.granted ++ [granted.2] }

/-- The next message, delivered in the order of the grants, is read. -/
def read (direction : Direction) : Option Direction := do
  let buf ← direction.granted[direction.released + direction.held.length]?
  let result ← direction.recvBuf.read buf.length
  some { direction with recvBuf := result.1, held := direction.held ++ [result.2] }

/-- `Conn::release` of the oldest slice held. -/
def release (direction : Direction) : Option Direction :=
  match direction.held with
  | slice :: rest =>
      let notified := direction.recvBuf.notifyRelease slice.length
      some { direction with
        recvBuf := notified.1
        held := rest
        released := direction.released + 1
        queued := direction.queued ++ notified.2.toList }
  | [] => none

/-- `get_release_length`: the oldest queued notice, or 0, goes into a reverse message. -/
def carry (direction : Direction) : Direction :=
  match direction.queued with
  | notice :: rest => { direction with queued := rest, riding := direction.riding ++ [notice] }
  | [] => { direction with riding := direction.riding ++ [0] }

/-- `recv_msg` of the reverse message. -/
def update (direction : Direction) : Option Direction :=
  match direction.riding with
  | imm :: rest => some { direction with
      allocator := if imm ≠ 0 then direction.allocator.update imm else direction.allocator
      riding := rest
      reported := direction.reported + imm }
  | [] => none

def step (direction : Direction) : Action → Option Direction
  | .grant length => direction.grant length
  | .read => direction.read
  | .release => direction.release
  | .carry => some direction.carry
  | .update => direction.update

def ring (direction : Direction) : Ring := direction.allocator.ring

def lengths (direction : Direction) : List Nat := direction.granted.map RemoteBuf.length

end Direction

end Ibv
