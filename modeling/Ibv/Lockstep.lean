import Ibv.MachineWords
import Ibv.RemoteRing

set_option autoImplicit false

namespace Ibv

open RingFifo

namespace RecvBuffer

/-- The reports that `notify_release` makes over a sequence of releases, and the buffer then. -/
def notices : RecvBuffer → List Nat → List Nat × RecvBuffer
  | buffer, [] => ([], buffer)
  | buffer, length :: lengths =>
      let notified := buffer.notifyRelease length
      let rest := notified.1.notices lengths
      (notified.2.toList ++ rest.1, rest.2)

/-- The reports are the sums of consecutive batches of messages, and the last messages are
withheld. -/
theorem notices_spec (buffer : RecvBuffer) (position : Nat) (withheld lengths : List Nat)
    (withholds : Withholds buffer.ring position withheld buffer.done buffer.released)
    (inside : ∀ length ∈ lengths, buffer.left + length ≤ buffer.right) :
    ∃ batches rest, withheld ++ lengths = batches.flatten ++ rest ∧
      (buffer.notices lengths).1 = batches.map List.sum ∧ buffer.ring.Batches position batches ∧
      (buffer.notices lengths).2.released = rest.sum := by
  induction lengths generalizing buffer position withheld with
  | nil => exact ⟨[], withheld, List.append_nil _, rfl, trivial, withholds.1⟩
  | cons length lengths ih =>
      obtain ⟨reports, rest, split, notified, batched, withholds'⟩ :=
        notifyRelease_spec buffer position length withheld withholds
          (inside length List.mem_cons_self)
      have ring := notifyRelease_ring buffer length
      rw [← ring] at withholds'
      obtain ⟨batches, last, split', notified', batched', released⟩ :=
        ih (buffer.notifyRelease length).1 _ rest withholds' (by
          intro other member
          have bound := inside other (List.mem_cons_of_mem length member)
          have left : (buffer.notifyRelease length).1.left = buffer.left :=
            congrArg Ring.left ring
          have right : (buffer.notifyRelease length).1.right = buffer.right :=
            congrArg Ring.right ring
          rw [left, right]
          exact bound)
      rw [ring] at batched'
      refine ⟨reports ++ batches, last, ?_, ?_, (Ring.batches_append _ _ _).mpr
        ⟨batched, batched'⟩, released⟩
      · rw [List.flatten_append, List.append_assoc, ← split', ← List.append_assoc, ← split,
          List.append_assoc, List.singleton_append]
      · rw [List.map_append, ← notified, ← notified']
        rfl

end RecvBuffer

namespace Machine

namespace RemoteBufManager

/-- The addresses that `alloc` grants to a sequence of messages, each behind the reports
that are handed to `update` before its wait is over. -/
def addresses : RemoteBufManager → List (List UInt32 × UInt32) → List UInt64
  | _, [] => []
  | manager, (reports, length) :: messages =>
      let granted := (reports.foldl update manager).take length
      granted.2 :: granted.1.addresses messages

/-- Calls of `update`, a zero report being skipped as in `recv_msg`. -/
def updates (manager : RemoteBufManager) (reports : List UInt32) : RemoteBufManager :=
  (reports.filter (· ≠ 0)).foldl update manager

def ring (manager : RemoteBufManager) : Ring := ⟨manager.left.toNat, manager.right.toNat⟩

theorem update_kept (manager : RemoteBufManager) (length : UInt32) :
    (manager.update length).index = manager.index ∧
      (manager.update length).ring = manager.ring := by
  unfold update
  split <;> exact ⟨rfl, rfl⟩

theorem foldl_update_kept (reports : List UInt32) (manager : RemoteBufManager) :
    (reports.foldl update manager).index = manager.index ∧
      (reports.foldl update manager).ring = manager.ring := by
  induction reports generalizing manager with
  | nil => exact ⟨rfl, rfl⟩
  | cons report reports ih =>
      obtain ⟨index, ring⟩ := ih (manager.update report)
      obtain ⟨index', ring'⟩ := manager.update_kept report
      exact ⟨index.trans index', ring.trans ring'⟩

variable {manager : RemoteBufManager}

/-- `alloc` grants the regions of the ring, whatever `update` does meanwhile. -/
theorem addresses_eq (messages : List (List UInt32 × UInt32))
    (lower : manager.ring.left ≤ manager.index.toNat)
    (upper : manager.index.toNat ≤ manager.ring.right)
    (inside : ∀ message ∈ messages,
      manager.ring.left + message.2.toNat ≤ manager.ring.right ∧
        manager.ring.right + message.2.toNat < 2 ^ 64) :
    (manager.addresses messages).map UInt64.toNat =
      (manager.ring.regions manager.index.toNat (messages.map fun message =>
        message.2.toNat)).map Region.start := by
  induction messages generalizing manager with
  | nil => rfl
  | cons message messages ih =>
      obtain ⟨reports, length⟩ := message
      obtain ⟨fits, top⟩ := inside _ List.mem_cons_self
      dsimp only at fits top
      obtain ⟨index, ring⟩ := foldl_update_kept reports manager
      let waited := reports.foldl update manager
      change waited.index = manager.index at index
      change waited.ring = manager.ring at ring
      have left : waited.left.toNat = manager.ring.left := congrArg Ring.left ring
      have right : waited.right.toNat = manager.ring.right := congrArg Ring.right ring
      have taken := @take_eq waited length (by omega) (by
        rw [index]
        omega)
      rw [Cursors.grant_eq, Prod.mk.injEq] at taken
      have moved : (waited.take length).1.index.toNat =
          manager.ring.advance manager.index.toNat length.toNat := by
        rw [← ring, ← index]
        exact congrArg Cursors.index taken.1
      have place : (waited.take length).2.toNat =
          manager.ring.place manager.index.toNat length.toNat := by
        rw [← ring, ← index]
        exact taken.2
      have kept : (waited.take length).1.ring = manager.ring := ring
      have bounds := Ring.advance_inside lower fits
      have rest := @ih (waited.take length).1 (by rw [kept, moved]; exact bounds.1)
        (by rw [kept, moved]; exact bounds.2) (by
          rw [kept]
          exact fun message member => inside message (List.mem_cons_of_mem _ member))
      rw [kept, moved] at rest
      change (waited.take length).2.toNat :: ((waited.take length).1.addresses messages).map
        UInt64.toNat = _
      rw [rest, place]
      rfl

theorem foldl_update_eq (lengths : List UInt32)
    (lower : manager.ring.left ≤ manager.done.toNat)
    (upper : manager.done.toNat ≤ manager.ring.right)
    (inside : ∀ length ∈ lengths, manager.ring.left + length.toNat ≤ manager.ring.right ∧
      manager.ring.right + length.toNat < 2 ^ 64) :
    (lengths.foldl update manager).done.toNat =
      manager.ring.cursor manager.done.toNat (lengths.map UInt32.toNat) := by
  induction lengths generalizing manager with
  | nil => rfl
  | cons length lengths ih =>
      obtain ⟨fits, top⟩ := inside length List.mem_cons_self
      have left : manager.left.toNat = manager.ring.left := rfl
      have updated := @update_eq manager length (by omega) (by omega)
      rw [Cursors.retire_eq] at updated
      have moved : (manager.update length).done.toNat =
          manager.ring.advance manager.done.toNat length.toNat := congrArg Cursors.done updated
      have kept := (manager.update_kept length).2
      have bounds := Ring.advance_inside lower fits
      have rest := @ih (manager.update length) (by rw [kept, moved]; exact bounds.1)
        (by rw [kept, moved]; exact bounds.2) (by
          rw [kept]
          exact fun other member => inside other (List.mem_cons_of_mem length member))
      rw [kept, moved] at rest
      rw [List.foldl_cons, rest]
      rfl

theorem updates_eq (reports : List UInt32) (lower : manager.ring.left ≤ manager.done.toNat)
    (upper : manager.done.toNat ≤ manager.ring.right)
    (inside : ∀ report ∈ reports, manager.ring.left + report.toNat ≤ manager.ring.right ∧
      manager.ring.right + report.toNat < 2 ^ 64) :
    (manager.updates reports).done.toNat =
      manager.ring.cursor manager.done.toNat (reports.map UInt32.toNat) := by
  have skipped : (reports.filter (· ≠ 0)).map UInt32.toNat =
      (reports.map UInt32.toNat).filter (· ≠ 0) := by
    rw [List.filter_map]
    congr 1
    apply List.filter_congr
    intro report _
    simp only [Function.comp_apply, ne_eq, ← UInt32.toNat_inj, UInt32.toNat_zero]
  rw [updates, foldl_update_eq _ lower upper fun report member =>
    inside report (List.mem_of_mem_filter member), skipped]
  apply Ring.cursor_skip_zero lower upper
  intro length member
  obtain ⟨report, listed, rfl⟩ := List.mem_map.mp member
  exact (inside report listed).1

end RemoteBufManager

namespace RecvBuffer

/-- The ranges that `read` slices for a sequence of messages. -/
def slices : RecvBuffer → List UInt32 → Option (List (UInt64 × UInt64))
  | _, [] => some []
  | buffer, length :: lengths => do
      let result ← buffer.read length
      let rest ← result.1.slices lengths
      some (result.2 :: rest)

def notices : RecvBuffer → List UInt32 → List UInt32 × RecvBuffer
  | buffer, [] => ([], buffer)
  | buffer, length :: lengths =>
      let notified := buffer.notifyRelease length
      let rest := notified.1.notices lengths
      (notified.2.toList ++ rest.1, rest.2)

/-- None of the u32 sums on the way overflows. -/
def SumsFit : RecvBuffer → List UInt32 → Prop
  | _, [] => True
  | buffer, length :: lengths =>
      buffer.SumFits length ∧ SumsFit (buffer.notifyRelease length).1 lengths

variable {buffer : RecvBuffer}

theorem Sound.slices_eq (sound : buffer.Sound) (lengths : List UInt32)
    (within : ∀ length ∈ lengths, length ≤ buffer.mr.length) :
    ∃ slices, buffer.slices lengths = some slices ∧
      slices.map (fun slice => (buffer.mr.addr + slice.1).toNat) =
        (buffer.numbers.ring.regions buffer.index.toNat (lengths.map UInt32.toNat)).map
          Region.start ∧
      slices.map (fun slice => slice.2.toNat - slice.1.toNat) = lengths.map UInt32.toNat ∧
      ∀ slice ∈ slices, slice.2.toNat ≤ buffer.mr.length.toNat := by
  induction lengths generalizing buffer with
  | nil => exact ⟨[], rfl, rfl, rfl, fun _ member => nomatch member⟩
  | cons length lengths ih =>
      obtain ⟨after, start, stop, read, sound', numbers, place, size, inside⟩ :=
        sound.read_eq (within length List.mem_cons_self)
      have mr : after.mr = buffer.mr := congrArg Ibv.RecvBuffer.mr numbers
      have ring : after.numbers.ring = buffer.numbers.ring := by
        rw [numbers]
        rfl
      have index : after.index.toNat =
          buffer.numbers.ring.advance buffer.index.toNat length.toNat :=
        congrArg Ibv.RecvBuffer.index numbers
      obtain ⟨rest, sliced, starts, sizes, bounds⟩ := ih sound' (by
        rw [mr]
        exact fun other member => within other (List.mem_cons_of_mem length member))
      rw [mr, ring, index] at starts
      rw [mr] at bounds
      refine ⟨(start, stop) :: rest, ?_, ?_, ?_, ?_⟩
      · simp only [slices, read, sliced, Option.bind_eq_bind, Option.bind_some]
      · rw [List.map_cons, starts, List.map_cons, Ring.regions_cons, List.map_cons, place]
      · rw [List.map_cons, sizes, List.map_cons, size, Nat.add_sub_cancel_left]
      · intro slice member
        rcases List.mem_cons.mp member with rfl | member
        · exact inside
        · exact bounds slice member

theorem Sound.notices_eq (sound : buffer.Sound) (lengths : List UInt32)
    (within : ∀ length ∈ lengths, length ≤ buffer.mr.length) :
    buffer.SumsFit lengths ∧ buffer.numbers.notices (lengths.map UInt32.toNat) =
      ((buffer.notices lengths).1.map UInt32.toNat, (buffer.notices lengths).2.numbers) := by
  induction lengths generalizing buffer with
  | nil => exact ⟨trivial, rfl⟩
  | cons length lengths ih =>
      obtain ⟨fits, sound', mr, notified⟩ :=
        sound.notifyRelease_eq (within length List.mem_cons_self)
      obtain ⟨fits', rest⟩ := ih sound' (by
        rw [mr]
        exact fun other member => within other (List.mem_cons_of_mem length member))
      refine ⟨⟨fits, fits'⟩, ?_⟩
      simp only [List.map_cons, Ibv.RecvBuffer.notices, notified, rest, notices, List.map_append]
      cases (buffer.notifyRelease length).2 <;> rfl

end RecvBuffer

/-- The lockstep of the cursors over a sequence of messages, each with the reports that
`update` gets while `alloc` waits for it. -/
structure Lockstep (mr : MR) (messages : List (List UInt32 × UInt32)) : Prop where
  /-- Every message is sliced where it was granted, inside `recv_buffer`. -/
  places : ∃ slices, (RecvBuffer.new mr).slices (messages.map Prod.snd) = some slices ∧
    slices.map (fun slice => mr.addr + slice.1) =
      (RemoteBufManager.new (.fromMr mr)).addresses messages ∧
    slices.map (fun slice => slice.2.toNat - slice.1.toNat) =
      messages.map (fun message => message.2.toNat) ∧
    ∀ slice ∈ slices, slice.2.toNat ≤ mr.length.toNat
  /-- Any number of reports stands for the first messages, as many as they sum up to. -/
  reports : ∀ m, ∃ k ≤ messages.length,
    let reported := ((RecvBuffer.new mr).notices (messages.map Prod.snd)).1.take m
    let released := (messages.map Prod.snd).take k
    ((RemoteBufManager.new (.fromMr mr)).updates reported).done =
        (released.foldl RemoteBufManager.update (.new (.fromMr mr))).done ∧
      (released.map UInt32.toNat).sum = (reported.map UInt32.toNat).sum
  /-- Nothing is reported twice or lost, and no u32 sum overflows. -/
  total : (((RecvBuffer.new mr).notices (messages.map Prod.snd)).1.map UInt32.toNat).sum +
      ((RecvBuffer.new mr).notices (messages.map Prod.snd)).2.released.toNat =
        (messages.map fun message => message.2.toNat).sum ∧
    (RecvBuffer.new mr).SumsFit (messages.map Prod.snd)

def ringOf (mr : MR) : Ring := ⟨mr.addr.toNat, mr.addr.toNat + mr.length.toNat⟩

section

variable {mr : MR} {messages : List (List UInt32 × UInt32)}

theorem new_ring (top : mr.addr.toNat + 2 * mr.length.toNat < 2 ^ 64) :
    (RemoteBufManager.new (.fromMr mr)).ring = ringOf mr ∧
      (RecvBuffer.new mr).numbers.ring = ringOf mr := by
  have right : (mr.addr + mr.length.toUInt64).toNat = mr.addr.toNat + mr.length.toNat :=
    toNat_add (by omega)
  exact ⟨congrArg (RingFifo.Ring.mk _) right, congrArg (RingFifo.Ring.mk _) right⟩

theorem messages_inside (within : ∀ message ∈ messages, message.2 ≤ mr.length)
    (top : mr.addr.toNat + 2 * mr.length.toNat < 2 ^ 64) :
    ∀ message ∈ messages, (ringOf mr).left + message.2.toNat ≤ (ringOf mr).right ∧
      (ringOf mr).right + message.2.toNat < 2 ^ 64 := by
  intro message member
  have small := UInt32.le_iff_toNat_le.mp (within message member)
  unfold ringOf
  dsimp only
  omega

theorem places_agree (within : ∀ message ∈ messages, message.2 ≤ mr.length)
    (top : mr.addr.toNat + 2 * mr.length.toNat < 2 ^ 64) :
    ∃ slices, (RecvBuffer.new mr).slices (messages.map Prod.snd) = some slices ∧
      slices.map (fun slice => mr.addr + slice.1) =
        (RemoteBufManager.new (.fromMr mr)).addresses messages ∧
      slices.map (fun slice => slice.2.toNat - slice.1.toNat) =
        messages.map (fun message => message.2.toNat) ∧
      ∀ slice ∈ slices, slice.2.toNat ≤ mr.length.toNat := by
  obtain ⟨sender, receiver⟩ := new_ring top
  obtain ⟨slices, sliced, starts, sizes, inside⟩ :=
    (RecvBuffer.new_sound mr top).slices_eq (messages.map Prod.snd) (by
      intro length member
      obtain ⟨message, listed, rfl⟩ := List.mem_map.mp member
      exact within message listed)
  have granted := @RemoteBufManager.addresses_eq (.new (.fromMr mr)) messages
    (Nat.le_refl _) (by rw [sender]; exact Nat.le_add_right _ _) (by
      rw [sender]
      exact messages_inside within top)
  rw [receiver, List.map_map] at starts
  rw [sender] at granted
  rw [List.map_map] at sizes
  refine ⟨slices, sliced, ?_, sizes, inside⟩
  apply List.map_injective_iff.mpr fun _ _ => UInt64.toNat_inj.mp
  rw [granted, List.map_map]
  exact starts

theorem notices_batches (within : ∀ message ∈ messages, message.2 ≤ mr.length)
    (top : mr.addr.toNat + 2 * mr.length.toNat < 2 ^ 64) :
    ∃ batches rest, (messages.map Prod.snd).map UInt32.toNat = batches.flatten ++ rest ∧
      ((RecvBuffer.new mr).notices (messages.map Prod.snd)).1.map UInt32.toNat =
        batches.map List.sum ∧
      ((RecvBuffer.new mr).notices (messages.map Prod.snd)).2.released.toNat = rest.sum ∧
      (ringOf mr).Batches mr.addr.toNat batches ∧
      (RecvBuffer.new mr).SumsFit (messages.map Prod.snd) := by
  have receiver := (new_ring top).2
  obtain ⟨fits, numbers⟩ :=
    (RecvBuffer.new_sound mr top).notices_eq (messages.map Prod.snd) (by
      intro length member
      obtain ⟨message, listed, rfl⟩ := List.mem_map.mp member
      exact within message listed)
  obtain ⟨batches, rest, split, notices, batched, released⟩ :=
    (RecvBuffer.new mr).numbers.notices_spec mr.addr.toNat []
      ((messages.map Prod.snd).map UInt32.toNat)
      (by
        rw [receiver]
        exact ⟨rfl, .inl ⟨rfl, Nat.le_add_right _ _⟩⟩)
      (by
        intro length member
        obtain ⟨word, among, rfl⟩ := List.mem_map.mp member
        obtain ⟨message, listed, rfl⟩ := List.mem_map.mp among
        have left : (RecvBuffer.new mr).numbers.left = (ringOf mr).left :=
          congrArg Ring.left receiver
        have right : (RecvBuffer.new mr).numbers.right = (ringOf mr).right :=
          congrArg Ring.right receiver
        rw [left, right]
        exact (messages_inside within top message listed).1)
  rw [receiver] at batched
  rw [numbers] at notices released
  exact ⟨batches, rest, split, notices, released, batched, fits⟩

/-- The first reports stand for the first messages, and move `done` as these do. -/
theorem reports_agree (within : ∀ message ∈ messages, message.2 ≤ mr.length)
    (top : mr.addr.toNat + 2 * mr.length.toNat < 2 ^ 64) (m : Nat) :
    ∃ k ≤ messages.length,
      let reported := ((RecvBuffer.new mr).notices (messages.map Prod.snd)).1.take m
      let released := (messages.map Prod.snd).take k
      ((RemoteBufManager.new (.fromMr mr)).updates reported).done =
          (released.foldl RemoteBufManager.update (.new (.fromMr mr))).done ∧
        (released.map UInt32.toNat).sum = (reported.map UInt32.toNat).sum := by
  obtain ⟨batches, rest, split, notices, -, batched, -⟩ := notices_batches within top
  have sender := (new_ring top).1
  have covered : (RemoteBufManager.new (.fromMr mr)).done.toNat ≤ (ringOf mr).right :=
    Nat.le_add_right _ _
  let reported := ((RecvBuffer.new mr).notices (messages.map Prod.snd)).1.take m
  let front := (batches.take m).flatten
  have sums : reported.map UInt32.toNat = (batches.take m).map List.sum := by
    rw [List.map_take, List.map_take, notices]
  -- the batches reported are the first messages
  have prefixed : ((messages.map Prod.snd).take front.length).map UInt32.toNat = front := by
    rw [List.map_take, split, ← List.take_append_drop m batches, List.flatten_append,
      List.append_assoc, List.take_left]
  have bound : front.length ≤ messages.length := by
    have lengths := congrArg List.length prefixed
    rw [List.length_map, List.length_take, List.length_map] at lengths
    omega
  refine ⟨front.length, bound, ?_, ?_⟩
  · apply UInt64.toNat_inj.mp
    have inside := batched.inside (Nat.le_refl _)
    rw [RemoteBufManager.updates_eq _ (Nat.le_refl _) (by rw [sender]; exact covered),
      RemoteBufManager.foldl_update_eq _ (Nat.le_refl _) (by rw [sender]; exact covered),
      sender, prefixed]
    · change (ringOf mr).cursor mr.addr.toNat (reported.map UInt32.toNat) =
        (ringOf mr).cursor mr.addr.toNat front
      rw [sums]
      exact (batched.take m).cursor
    · intro length member
      obtain ⟨message, listed, rfl⟩ := List.mem_map.mp (List.mem_of_mem_take member)
      rw [sender]
      exact messages_inside within top message listed
    · intro report member
      have listed : report.toNat ∈ batches.map List.sum := by
        rw [← notices]
        exact List.mem_map_of_mem (List.mem_of_mem_take member)
      obtain ⟨batch, among, sum⟩ := List.mem_map.mp listed
      have small := inside batch among
      rw [sender, ← sum]
      unfold ringOf at small ⊢
      dsimp only at small ⊢
      omega
  · rw [prefixed]
    change front.sum = (reported.map UInt32.toNat).sum
    rw [sums, List.sum_flatten]

theorem total_agrees (within : ∀ message ∈ messages, message.2 ≤ mr.length)
    (top : mr.addr.toNat + 2 * mr.length.toNat < 2 ^ 64) :
    (((RecvBuffer.new mr).notices (messages.map Prod.snd)).1.map UInt32.toNat).sum +
        ((RecvBuffer.new mr).notices (messages.map Prod.snd)).2.released.toNat =
          (messages.map fun message => message.2.toNat).sum ∧
      (RecvBuffer.new mr).SumsFit (messages.map Prod.snd) := by
  obtain ⟨batches, rest, split, notices, released, -, fits⟩ := notices_batches within top
  refine ⟨?_, fits⟩
  rw [notices, released, ← List.sum_flatten, ← List.sum_append, ← split, List.map_map]
  rfl

end

/-- Lockstep of the ring cursors, wherever the ring ends one message below the end of the
address space. -/
theorem cursors_lockstep (mr : MR) (messages : List (List UInt32 × UInt32))
    (within : ∀ message ∈ messages, message.2 ≤ mr.length)
    (top : mr.addr.toNat + 2 * mr.length.toNat < 2 ^ 64) : Lockstep mr messages where
  places := places_agree within top
  reports := reports_agree within top
  total := total_agrees within top

/-- Messages of 40, 20 and 30 MiB in a ring of 64 MiB; the third goes over the right end. -/
def sampleMessages : List (List UInt32 × UInt32) :=
  [([], 0x2800000), ([0x2800000], 0x1400000), ([], 0x1e00000)]

theorem cursors_lockstep_over_the_end : Lockstep Direction.sampleMr sampleMessages :=
  cursors_lockstep Direction.sampleMr sampleMessages (by decide +kernel) (by decide +kernel)

/-- A ring of 64 MiB that ends with the last address but one. -/
def topMr : MR := ⟨0xfffffffffbffffff, 0x4000000, 7, 9⟩

/-- Behind a message that fills that ring, the end of a message of one byte wraps to zero,
and the receiver slices out of its buffer. -/
theorem cursors_out_of_step :
    topMr.addr.toNat + topMr.length.toNat < 2 ^ 64 ∧
      (0x4000000 ≤ topMr.length ∧ 1 ≤ topMr.length) ∧
      ¬ Lockstep topMr [([], 0x4000000), ([], 1)] := by
  refine ⟨by decide +kernel, by decide +kernel, fun lockstep => ?_⟩
  obtain ⟨slices, sliced, -⟩ := lockstep.places
  have panics : (RecvBuffer.new topMr).slices [0x4000000, 1] = none := by decide +kernel
  rw [show [([], 0x4000000), ([], 1)].map (@Prod.snd (List UInt32) UInt32) = [0x4000000, 1] from
    rfl, panics] at sliced
  cases sliced

end Machine

end Ibv
