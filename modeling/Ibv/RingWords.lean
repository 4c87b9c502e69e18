import Ibv.MachineWords
import Ibv.Notices
import Ibv.SmallMessages

set_option autoImplicit false

namespace Ibv

open RingFifo

/-- The words of the source for the cursors of a ring. Every length gives what it gives with
natural numbers: the wait condition, the region that is granted, and the region retired. -/
structure Cursors.Words (cursors : Cursors) (words : Machine.RemoteBufManager) : Prop where
  same : words.cursors = cursors
  fits : ∀ length : UInt32, cursors.done + length.toNat < 2 ^ 64 ∧
    cursors.index + length.toNat < 2 ^ 64 ∧ cursors.left + length.toNat < 2 ^ 64
  waits : ∀ length : UInt32, words.waits length = cursors.waits length.toNat
  grant : ∀ length : UInt32, ((words.take length).1.cursors, (words.take length).2.toNat) =
    cursors.grant length.toNat
  retire : ∀ length : UInt32, (words.update length).cursors = cursors.retire length.toNat

/-- The words of the source for a `RecvBuffer`, for all lengths up to its own. -/
structure RecvBuffer.Words (buffer : RecvBuffer) (words : Machine.RecvBuffer) : Prop where
  numbers : words.numbers = buffer
  fits : ∀ length : UInt32, buffer.index + length.toNat < 2 ^ 64 ∧
    buffer.left + length.toNat < 2 ^ 64 ∧ buffer.done + buffer.released + length.toNat < 2 ^ 64
  read : ∀ length ≤ buffer.mr.length, ∃ after start stop,
    words.read length = some (after, start, stop) ∧
      buffer.read length.toNat =
        some (after.numbers, ⟨(buffer.mr.addr + start).toNat, length.toNat⟩) ∧
      stop.toNat = start.toNat + length.toNat
  notifyRelease : ∀ length ≤ buffer.mr.length, words.SumFits length ∧
    buffer.notifyRelease length.toNat =
      ((words.notifyRelease length).1.numbers, (words.notifyRelease length).2.map UInt32.toNat)

/-- No length wraps when it is added to an address of this region. -/
def MR.Low (mr : MR) : Prop := mr.addr.toNat + mr.length.toNat + 2 ^ 32 ≤ 2 ^ 64

theorem toNat_ofNat_below {n limit : Nat} (below : n ≤ limit) (low : limit + 2 ^ 32 ≤ 2 ^ 64) :
    (UInt64.ofNat n).toNat = n := by
  rw [UInt64.toNat_ofNat', Nat.mod_eq_of_lt (by omega)]

theorem Cursors.has_words {cursors : Cursors} {lengths : List Nat}
    (holds : cursors.ring.Holds cursors.done lengths cursors.index)
    (low : cursors.right + 2 ^ 32 ≤ 2 ^ 64) : ∃ words, cursors.Words words := by
  have bounds := holds.bounds
  have lower := holds.lower
  unfold Cursors.ring at bounds lower
  dsimp only at bounds lower
  let words : Machine.RemoteBufManager :=
    ⟨.ofNat cursors.done, .ofNat cursors.index, .ofNat cursors.left, .ofNat cursors.right⟩
  have done : words.done.toNat = cursors.done := toNat_ofNat_below bounds.1 low
  have index : words.index.toNat = cursors.index := toNat_ofNat_below bounds.2.2 low
  have left : words.left.toNat = cursors.left := toNat_ofNat_below (by omega) low
  have right : words.right.toNat = cursors.right := toNat_ofNat_below (Nat.le_refl _) low
  have same : words.cursors = cursors := by
    rw [Machine.RemoteBufManager.cursors, done, index, left, right]
  have fits : ∀ length : UInt32, words.done.toNat + length.toNat < 2 ^ 64 ∧
      words.index.toNat + length.toNat < 2 ^ 64 ∧ words.left.toNat + length.toNat < 2 ^ 64 := by
    intro length
    have short := length.toNat_lt
    omega
  refine ⟨words, same, ?_, ?_, ?_, ?_⟩
  · rw [← done, ← index, ← left]
    exact fits
  · intro length
    rw [Machine.RemoteBufManager.waits_eq (fits length).2.2 (fits length).2.1, same]
  · intro length
    rw [Machine.RemoteBufManager.take_eq (fits length).2.2 (fits length).2.1, same]
  · intro length
    rw [Machine.RemoteBufManager.update_eq (fits length).2.2 (fits length).1, same]

/-- What holds of the numbers of a `RecvBuffer` in use. -/
structure RecvBuffer.Placed (buffer : RecvBuffer) : Prop where
  left : buffer.left = buffer.mr.addr.toNat
  right : buffer.right = buffer.mr.addr.toNat + buffer.mr.length.toNat
  index : buffer.left ≤ buffer.index ∧ buffer.index ≤ buffer.right
  done : buffer.left ≤ buffer.done ∧ buffer.done + buffer.released ≤ buffer.right

theorem RecvBuffer.has_words {buffer : RecvBuffer} (placed : buffer.Placed)
    (low : buffer.mr.Low) : ∃ words, buffer.Words words := by
  obtain ⟨left, right, index, done⟩ := placed
  unfold MR.Low at low
  rw [← right] at low
  let words : Machine.RecvBuffer := ⟨buffer.mr, .ofNat buffer.released, .ofNat buffer.done,
    .ofNat buffer.index, .ofNat buffer.left, .ofNat buffer.right⟩
  have short := buffer.mr.length.toNat_lt
  have doneWord : words.done.toNat = buffer.done := toNat_ofNat_below (by omega) low
  have indexWord : words.index.toNat = buffer.index := toNat_ofNat_below index.2 low
  have leftWord : words.left.toNat = buffer.left := toNat_ofNat_below (by omega) low
  have rightWord : words.right.toNat = buffer.right := toNat_ofNat_below (Nat.le_refl _) low
  have releasedWord : words.released.toNat = buffer.released := by
    change (UInt32.ofNat buffer.released).toNat = _
    rw [UInt32.toNat_ofNat', Nat.mod_eq_of_lt (by omega)]
  have numbers : words.numbers = buffer := by
    rw [Machine.RecvBuffer.numbers, doneWord, indexWord, leftWord, rightWord, releasedWord]
  have sound : words.Sound := by
    refine ⟨?_, ?_, ?_, ?_, ?_⟩
    · rw [← UInt64.toNat_inj, leftWord, left]
    · rw [rightWord, right]
    · rw [rightWord]
      change buffer.right + buffer.mr.length.toNat < 2 ^ 64
      omega
    · rw [leftWord, indexWord, rightWord]
      exact index
    · rw [leftWord, doneWord, releasedWord, rightWord]
      exact done
  refine ⟨words, numbers, ?_, ?_, ?_⟩
  · intro length
    have bound := length.toNat_lt
    omega
  · intro length within
    obtain ⟨after, start, stop, read, -, moved, place, size, -⟩ := sound.read_eq within
    refine ⟨after, start, stop, read, ?_, size⟩
    rw [numbers, indexWord] at moved place
    have within' : length.toNat ≤ buffer.mr.length.toNat := UInt32.le_iff_toNat_le.mp within
    have inside : buffer.ring.left + length.toNat ≤ buffer.ring.right := by
      change buffer.left + length.toNat ≤ buffer.right
      omega
    have ends : buffer.ring.advance buffer.index length.toNat ≤ buffer.right :=
      (Ring.advance_inside index.1 inside).2
    rw [read_eq, if_pos (by omega), moved]
    change some (_, _) = some (_, (⟨(words.mr.addr + start).toNat, _⟩ : Region))
    rw [place]
  · intro length within
    obtain ⟨fits, -, -, notified⟩ := sound.notifyRelease_eq within
    rw [numbers] at notified
    exact ⟨fits, notified⟩

theorem Direction.Accounts.placed_recvBuf {direction : Direction} {updated : Nat}
    {batches : List (List Nat)} {withheld : List Nat}
    (accounts : direction.Accounts updated batches withheld) : direction.recvBuf.Placed := by
  have left : direction.recvBuf.left = direction.ring.left :=
    congrArg Ring.left accounts.sameRing
  have right : direction.recvBuf.right = direction.ring.right :=
    congrArg Ring.right accounts.sameRing
  -- the three cursors stand where a part of what the sender has outstanding ends
  have split : direction.lengths.drop updated = batches.flatten ++
      (withheld ++ (direction.held.map Region.length ++
        (direction.lengths.drop direction.released).drop direction.held.length)) := by
    rw [accounts.held_lengths, List.take_append_drop, ← List.append_assoc]
    exact accounts.split
  have holds := accounts.holds
  rw [split] at holds
  have reported := holds.pop_all
  have read := reported.pop_all.pop_all
  rw [← Ring.cursor_append, ← Ring.cursor_append, ← List.append_assoc, ← accounts.reading] at read
  refine ⟨?_, ?_, ?_, ?_⟩
  · rw [left]
    exact accounts.backed.1.symm
  · rw [right, accounts.backed.1]
    exact accounts.backed.2.symm
  · rw [left, right]
    exact ⟨read.lower, read.bounds.1⟩
  · rw [left, right]
    refine ⟨?_, accounts.withholding.below⟩
    rcases accounts.withholding.2 with ⟨same, -⟩ | ⟨first, rest, -, -, same, -⟩
    · rw [same]
      exact reported.lower
    · exact Nat.le_of_eq same.symm

namespace System

variable {recvMr sendMr : Side → MR} {system : System}

/-- The lengths that the receiving side of an endpoint still has to do with: of the slices
held, of the pair in the hand of `recv_msg` and of the notices in the release channel. -/
theorem run_short_words (run : Runs.Run step Regular (new recvMr sendMr) system) (side : Side) :
    (∀ slice ∈ (system side).held, slice.length ≤ (recvMr side).length.toNat) ∧
      (∀ notice ∈ (system side).release, notice ≤ (recvMr side).length.toNat) ∧
      ∀ pair, (system side).receiving = some pair →
        pair.1 ≤ (recvMr side).length.toNat ∧ pair.2 ≤ (recvMr side.other).length.toNat := by
  have forth := regular_linked run side
  have back := regular_linked run side.other
  rw [Side.other_other] at back
  obtain ⟨outstanding, holds, -, places⟩ := back.flow.credits
  have fits := holds.sum_le
  rw [run_allocator_ring run side.other, Side.other_other] at fits
  dsimp only at fits
  refine ⟨?_, ?_, ?_⟩
  · intro slice held
    have part := List.le_sum_of_mem (List.mem_map_of_mem (f := Region.length) held)
    unfold Endpoint.heldBytes at places
    omega
  · intro notice queued
    have part := List.le_sum_of_mem queued
    omega
  · intro pair receiving
    obtain ⟨-, request, next, same⟩ := forth.transport.next receiving
    obtain ⟨outstanding', holds', -, places'⟩ := forth.flow.credits
    have fits' := holds'.sum_le
    rw [run_allocator_ring run side] at fits'
    dsimp only at fits'
    obtain ⟨orphans, tickets, -⟩ := back.sending
    have sized := (tickets.bought request.job (List.mem_append_right _
      (List.mem_map_of_mem (List.mem_of_getElem? next)))).2
    have placed := back.flow.posted request (List.mem_of_getElem? next)
    have unread : request.remoteBuf.length ≤
        (system side.other).unreadBytes (system side) := by
      apply List.le_sum_of_mem
      apply List.mem_map_of_mem
      apply List.mem_of_getElem? (i := 0)
      rw [List.getElem?_drop, Nat.add_zero]
      exact Flow.granted_posted (system side) next
    have riding : request.imm ≤ (system side).ridingBytes (system side.other) := by
      apply List.le_sum_of_mem
      apply List.mem_of_getElem? (i := 0)
      rw [List.getElem?_drop, Nat.add_zero, Endpoint.carriedImms,
        List.getElem?_append_left (by simpa using (List.getElem?_eq_some_iff.mp next).1),
        List.getElem?_map, next, Option.map_some]
    rw [← same]
    change request.localBuf.length ≤ _ ∧ request.imm ≤ _
    change request.localBuf.length = request.msg.wireLen at sized
    exact ⟨by omega, by omega⟩

/-- The model of the rings in natural numbers is that of the source's words, where the regions
of both sides end 4 GiB below the end of the address space. -/
theorem rings_in_words (recvMr sendMr : Side → MR) (system : System)
    (run : Runs.Run step Regular (new recvMr sendMr) system)
    (low : ∀ side, (recvMr side).Low ∧ (sendMr side).Low) (side : Side) :
    (∃ words, (system side).allocator.toCursors.Words words) ∧
      (∃ words, (system side).sendRing.buffer.toCursors.Words words) ∧
      (∃ words, (system side).recvBuf.Words words) ∧
      (∀ slice ∈ (system side).held, slice.length ≤ (system side).recvBuf.mr.length.toNat) ∧
      (∀ notice ∈ (system side).release, notice < 2 ^ 32) ∧
      ∀ pair, (system side).receiving = some pair →
        pair.1 ≤ (system side).recvBuf.mr.length.toNat ∧ pair.2 < 2 ^ 32 := by
  have forth := regular_linked run side
  have back := regular_linked run side.other
  rw [Side.other_other] at back
  obtain ⟨updated, batches, withheld, accounts⟩ := back.flow.accounts
  have placed : (system side).recvBuf.Placed := accounts.placed_recvBuf
  obtain ⟨held, notices, receiving⟩ := run_short_words run side
  have own := (recvMr side).length.toNat_lt
  have peer := (recvMr side.other).length.toNat_lt
  have left : (system side).recvBuf.left = (recvMr side).addr.toNat :=
    congrArg Ring.left (run_recvBuf_ring run side)
  have right : (system side).recvBuf.right =
      (recvMr side).addr.toNat + (recvMr side).length.toNat :=
    congrArg Ring.right (run_recvBuf_ring run side)
  have placedLeft := placed.left
  have placedRight := placed.right
  have length : (system side).recvBuf.mr.length.toNat = (recvMr side).length.toNat := by omega
  refine ⟨?_, ?_, ?_, ?_, ?_, ?_⟩
  · obtain ⟨outstanding, holds, -, -⟩ := forth.flow.credits
    apply Cursors.has_words holds
    have ends : (system side).allocator.right =
        (recvMr side.other).addr.toNat + (recvMr side.other).length.toNat :=
      congrArg Ring.right (run_allocator_ring run side)
    rw [ends]
    exact (low side.other).1
  · obtain ⟨orphans, -, intact⟩ := forth.sending
    apply Cursors.has_words intact.sound.accounts.holds
    have ends : (system side).sendRing.buffer.right =
        (sendMr side).addr.toNat + (sendMr side).length.toNat :=
      congrArg Ring.right (run_sendRing_addresses run side)
    change (system side).sendRing.buffer.right + 2 ^ 32 ≤ 2 ^ 64
    rw [ends]
    exact (low side).2
  · apply RecvBuffer.has_words placed
    unfold MR.Low
    rw [← placedRight, right]
    exact (low side).1
  · intro slice member
    rw [length]
    exact held slice member
  · intro notice member
    exact Nat.lt_of_le_of_lt (notices notice member) own
  · intro pair taken
    rw [length]
    exact ⟨(receiving pair taken).1, Nat.lt_of_le_of_lt (receiving pair taken).2 peer⟩

theorem sampleMr_low : Direction.sampleMr.Low := by
  unfold MR.Low
  decide

theorem rings_in_words_one_held : ∃ system,
    Runs.Run step Regular (new (fun _ => Direction.sampleMr) (fun _ => Direction.sampleMr))
        system ∧
      (system .server).heldBytes = 3 ∧ ∃ words, (system .server).recvBuf.Words words := by
  obtain ⟨system, run, reached⟩ : ∃ system,
      Runs.Run step (Allowed fun mine _ action => mine.Assumed action)
        (new (fun _ => Direction.sampleMr) (fun _ => Direction.sampleMr)) system ∧
        decide ((system .server).heldBytes = 3) = true :=
    Runs.Run.exists_of_execChecked assumes _ assumes_sound twoSlices (by decide +kernel)
  have regular := run_regular run
  obtain ⟨-, -, words, -⟩ := rings_in_words _ _ system regular
    (fun _ => ⟨sampleMr_low, sampleMr_low⟩) .server
  exact ⟨system, regular, of_decide_eq_true reached, words⟩

end System

end Ibv
