import Ibv.RemoteRing
import Ibv.LocalRing

set_option autoImplicit false

namespace Ibv

open RingFifo Runs

namespace Cursors

variable {cursors : Cursors} {length : Nat}

/-- An empty ring admits a region in front of its cursor or below it, and none over it. -/
theorem empty_waits_iff (empty : cursors.done = cursors.index) :
    cursors.waits length = false ↔
      cursors.index + length ≤ cursors.right ∨ cursors.left + length < cursors.index := by
  rw [waits_false_iff, ring, Ring.Admits, empty]
  dsimp only
  split <;> omega

theorem retire_zero (upper : cursors.done ≤ cursors.right) : cursors.retire 0 = cursors := by
  rw [retire_eq, Ring.advance_fits (show cursors.done + 0 ≤ cursors.ring.right from upper)]
  rfl

end Cursors

namespace Direction

/-- The steps left while a call waits in `alloc` and holds `Conn.lock`. -/
def GrantsNothing (_ : Direction) : Action → Prop
  | .grant _ => False
  | _ => True

variable {direction after : Direction} {updated : Nat} {batches : List (List Nat)}
  {withheld : List Nat}

theorem Accounts.empty_notices (accounts : Accounts direction updated batches withheld)
    (empty : direction.allocator.done = direction.allocator.index) :
    ∀ notice ∈ direction.riding, notice = 0 := by
  intro notice member
  obtain ⟨reach, -⟩ := accounts.holds.straight (Nat.le_of_eq empty)
  have none_left : (direction.lengths.drop updated).sum = 0 := by omega
  rw [accounts.split, List.sum_append, List.sum_append] at none_left
  have listed : notice ∈ batches.map List.sum := by
    rw [← accounts.notices]
    exact List.mem_append_left _ member
  obtain ⟨batch, among, rfl⟩ := List.mem_map.mp listed
  obtain ⟨front, back, rfl⟩ := List.append_of_mem among
  rw [List.flatten_append, List.flatten_cons, List.sum_append, List.sum_append] at none_left
  omega

/-- The wait on an empty ring is for a release that never comes. -/
theorem empty_allocator_kept {ok : Direction → Action → Prop} {mr : MR}
    (start : Run step ok (new mr) direction)
    (empty : direction.allocator.done = direction.allocator.index)
    (run : Run step GrantsNothing direction after) : after.allocator = direction.allocator := by
  have reached : Run step Any (new mr) after ∧ after.allocator = direction.allocator := by
    refine run.invariant
      (fun state => Run step Any (new mr) state ∧ state.allocator = direction.allocator)
      ⟨start.any, rfl⟩ ?_
    rintro before action next ⟨reached, same⟩ allowed taken
    refine ⟨reached.next action trivial taken, ?_⟩
    rw [← same]
    cases action with
    | grant length => exact allowed.elim
    | read =>
        obtain ⟨buf, -, rest⟩ := Option.bind_eq_some_iff.mp taken
        obtain ⟨result, -, last⟩ := Option.bind_eq_some_iff.mp rest
        cases last
        rfl
    | release =>
        obtain ⟨slice, rest, -, rfl⟩ := release_cases taken
        rfl
    | carry =>
        cases taken
        unfold carry
        split <;> rfl
    | update =>
        obtain ⟨imm, rest, riding, rfl⟩ := update_cases taken
        obtain ⟨updated, batches, withheld, accounts⟩ := run_accounts reached
        rw [← same] at empty
        have zero : imm = 0 := accounts.empty_notices empty imm (by
          rw [riding]
          exact List.mem_cons_self)
        subst zero
        rfl
  exact reached.2

end Direction

namespace LocalRing

def GrantsNothing (_ : LocalRing) : Action → Prop
  | .alloc _ => False
  | _ => True

variable {ring after : LocalRing}

theorem empty_cursors_kept {ok : LocalRing → Action → Prop} {mr : MR}
    (start : Run step ok (new mr) ring) (empty : ring.buffer.done = ring.buffer.index)
    (run : Run step GrantsNothing ring after) :
    after.buffer.toCursors = ring.buffer.toCursors := by
  have reached : Run step Any (new mr) after ∧
      after.buffer.toCursors = ring.buffer.toCursors := by
    refine run.invariant (fun state => Run step Any (new mr) state ∧
      state.buffer.toCursors = ring.buffer.toCursors) ⟨start.any, rfl⟩ ?_
    rintro before action next ⟨reached, same⟩ allowed taken
    refine ⟨reached.next action trivial taken, ?_⟩
    rw [← same]
    cases action with
    | alloc length => exact allowed.elim
    | clear wrId =>
        cases taken
        rfl
    | popRelease =>
        obtain ⟨buffer, popped, rfl⟩ := Option.map_eq_some_iff.mp taken
        obtain ⟨pair, rest, -, -, rfl⟩ := SendBuffer.popRelease_cases popped
        rfl
    | releaseDone =>
        obtain ⟨buffer, retired, rfl⟩ := Option.map_eq_some_iff.mp taken
        obtain ⟨wrId, length, waiting, -, rfl⟩ := SendBuffer.releaseDone_cases retired
        -- the region retired is among the outstanding ones, which have no length
        have accounts := run_accounts reached
        have holds := accounts.holds
        rw [← same] at empty
        obtain ⟨reach, -⟩ := holds.straight (Nat.le_of_eq empty)
        rw [SendBuffer.queue, waiting, Option.toList_some, List.map_append, List.sum_append]
          at reach
        have zero : length = 0 := by
          change before.buffer.done + ((length + 0) + _) = _ at reach
          omega
        subst zero
        have kept := Cursors.retire_zero holds.bounds.1
        rw [Cursors.retire_eq] at kept
        exact kept
  exact reached.2

end LocalRing

/-- When an empty ring admits a message. A length that fits neither in front of the cursor nor
strictly below it waits in every state that the other steps can lead to. -/
theorem empty_ring_admits_iff (mr : MR) (length : Nat) :
    (∀ cursors : Cursors, cursors.done = cursors.index →
      (cursors.waits length = false ↔
        cursors.index + length ≤ cursors.right ∨ cursors.left + length < cursors.index)) ∧
    (∀ direction, Run Direction.step Any (.new mr) direction →
      direction.allocator.done = direction.allocator.index →
      direction.allocator.waits length = true →
        ∀ after, Run Direction.step Direction.GrantsNothing direction after →
          after.allocator.waits length = true) ∧
    (∀ ring, Run LocalRing.step Any (.new mr) ring → ring.buffer.done = ring.buffer.index →
      ring.buffer.waits length = true →
        ∀ after, Run LocalRing.step LocalRing.GrantsNothing ring after →
          after.buffer.waits length = true) := by
  refine ⟨fun cursors empty => Cursors.empty_waits_iff empty, ?_, ?_⟩
  · intro direction start empty waits after run
    rw [Direction.empty_allocator_kept start empty run]
    exact waits
  · intro ring start empty waits after run
    rw [LocalRing.empty_cursors_kept start empty run]
    exact waits

/-- 40 MiB are granted and retired again. -/
def Direction.emptied : List Direction.Action :=
  [.grant 0x2800000, .read, .release, .carry, .update]

def LocalRing.emptied : List LocalRing.Action :=
  [.alloc 0x2800000, .clear 0, .popRelease, .releaseDone]

theorem empty_ring_admits_in_front :
    (∃ direction, Run Direction.step Any (.new Direction.sampleMr) direction ∧
      direction.allocator.waits 0x1400000 = false) ∧
    (∃ ring, Run LocalRing.step Any (.new Direction.sampleMr) ring ∧
      ring.buffer.waits 0x1400000 = false) := by
  obtain ⟨direction, run, reached⟩ : ∃ direction,
      Run Direction.step Any (.new Direction.sampleMr) direction ∧
        decide (direction.allocator.done = direction.allocator.index ∧
          direction.allocator.index + 0x1400000 ≤ direction.allocator.right) = true :=
    Run.exists_of_exec _ Direction.emptied (by decide +kernel)
  obtain ⟨ring, run', reached'⟩ : ∃ ring,
      Run LocalRing.step Any (.new Direction.sampleMr) ring ∧
        decide (ring.buffer.done = ring.buffer.index ∧
          ring.buffer.index + 0x1400000 ≤ ring.buffer.right) = true :=
    Run.exists_of_exec _ LocalRing.emptied (by decide +kernel)
  have room := of_decide_eq_true reached
  have room' := of_decide_eq_true reached'
  have admits := (empty_ring_admits_iff Direction.sampleMr 0x1400000).1
  exact ⟨⟨direction, run, (admits direction.allocator.toCursors room.1).mpr (.inl room.2)⟩,
    ⟨ring, run', (admits ring.buffer.toCursors room'.1).mpr (.inl room'.2)⟩⟩

theorem empty_ring_waits :
    (∃ direction, Run Direction.step Any (.new Direction.sampleMr) direction ∧
      direction.allocator.done = direction.allocator.index ∧
      0x2800000 ≤ direction.allocator.right - direction.allocator.left ∧
      direction.allocator.waits 0x2800000 = true) ∧
    (∃ ring, Run LocalRing.step Any (.new Direction.sampleMr) ring ∧
      ring.buffer.done = ring.buffer.index ∧
      0x2800000 ≤ ring.buffer.right - ring.buffer.left ∧
      ring.buffer.waits 0x2800000 = true) := by
  obtain ⟨direction, run, reached⟩ : ∃ direction,
      Run Direction.step Any (.new Direction.sampleMr) direction ∧
        decide (direction.allocator.done = direction.allocator.index ∧
          0x2800000 ≤ direction.allocator.right - direction.allocator.left ∧
          direction.allocator.waits 0x2800000 = true) = true :=
    Run.exists_of_exec _ Direction.emptied (by decide +kernel)
  obtain ⟨ring, run', reached'⟩ : ∃ ring,
      Run LocalRing.step Any (.new Direction.sampleMr) ring ∧
        decide (ring.buffer.done = ring.buffer.index ∧
          0x2800000 ≤ ring.buffer.right - ring.buffer.left ∧
          ring.buffer.waits 0x2800000 = true) = true :=
    Run.exists_of_exec _ LocalRing.emptied (by decide +kernel)
  exact ⟨⟨direction, run, of_decide_eq_true reached⟩, ⟨ring, run', of_decide_eq_true reached'⟩⟩

end Ibv
