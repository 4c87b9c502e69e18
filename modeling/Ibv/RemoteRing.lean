import Ibv.DirectionInvariant

set_option autoImplicit false

namespace Ibv

open RingFifo

namespace Direction

/-- Exclusivity of the remote ring. When `index` and `done` are equal every granted byte has
been reported. The sums are the u64 sums of the source for regions that end 4 GiB below the
top of the address space (`System.rings_in_words`). -/
theorem remote_ring_exclusive (mr : MR) (direction : Direction)
    (run : Runs.Run step Runs.Any (new mr) direction) :
    (∀ length after, direction.step (.grant length) = some after →
      ∃ buf, after.granted = direction.granted ++ [buf] ∧ buf.length = length ∧
        buf.region.Within mr.addr.toNat (mr.addr.toNat + mr.length.toNat) ∧
        (∀ old ∈ direction.granted.drop direction.released, buf.region.Apart old.region) ∧
        (direction.allocator.index < direction.allocator.done →
          after.allocator.index < after.allocator.done) ∧
        (after.allocator.index < direction.allocator.index →
          after.allocator.index < after.allocator.done)) ∧
    (direction.allocator.done = direction.allocator.index →
      direction.lengths.sum = direction.reported) := by
  obtain ⟨updated, batches, withheld, accounts⟩ := run_accounts run
  refine ⟨?_, accounts.all_reported⟩
  intro length after taken
  obtain ⟨room, shape⟩ := grant_eq_some_iff.mp taken
  have apart := accounts.grant_apart room
  rw [RemoteBufManager.take_eq] at shape apart
  subst shape
  have bounds := accounts.holds.bounds
  have within := (room.fresh bounds.2.1 bounds.1).1
  have left : direction.ring.left = mr.addr.toNat := congrArg Ring.left (run_ring run)
  have right : direction.ring.right = mr.addr.toNat + mr.length.toNat :=
    congrArg Ring.right (run_ring run)
  rw [left, right] at within
  refine ⟨_, rfl, rfl, ?_, ?_, room.head_below.1, room.head_below.2⟩
  · exact within
  · intro old member
    apply apart
    rw [show direction.released = updated + (direction.released - updated) by
      have early := accounts.updated_le
      omega, ← List.drop_drop] at member
    exact List.mem_of_mem_drop member

/-- A receive buffer of the default size. -/
def sampleMr : MR := ⟨0x10000000, 0x4000000, 7, 9⟩

/-- 40 and 20 MiB are granted, the first message is read, released and reported. -/
def sampleActions : List Action :=
  [.grant 0x2800000, .grant 0x1400000, .read, .release, .carry, .update]

def sampleDirection : Direction where
  allocator := ⟨⟨0x12800000, 0x13c00000, 0x10000000, 0x14000000⟩, .fromMr sampleMr⟩
  recvBuf := ⟨sampleMr, 0, 0x12800000, 0x12800000, 0x10000000, 0x14000000⟩
  granted := [⟨0x10000000, 0x2800000, 9⟩, ⟨0x12800000, 0x1400000, 9⟩]
  held := []
  released := 1
  queued := []
  riding := []
  reported := 0x2800000

/-- The next grant of 12 MiB goes over the right end, apart from the 20 MiB before it. -/
theorem remote_ring_exclusive_over_the_end :
    ∃ after buf, sampleDirection.step (.grant 0xc00000) = some after ∧
      after.granted = sampleDirection.granted ++ [buf] ∧
      buf.region.Apart ⟨0x12800000, 0x1400000⟩ := by
  have run : Runs.Run step Runs.Any (new sampleMr) sampleDirection :=
    .of_exec sampleActions (by decide +kernel)
  obtain ⟨after, taken⟩ : ∃ after, sampleDirection.step (.grant 0xc00000) = some after :=
    Option.isSome_iff_exists.mp (by decide +kernel)
  obtain ⟨buf, granted, -, -, apart, -⟩ :=
    (remote_ring_exclusive sampleMr sampleDirection run).1 0xc00000 after taken
  exact ⟨after, buf, taken, granted, apart ⟨0x12800000, 0x1400000, 9⟩ (by decide +kernel)⟩

end Direction

end Ibv
