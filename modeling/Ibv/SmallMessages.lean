import Mathlib.Algebra.Order.BigOperators.Group.List
import Mathlib.Algebra.Order.Ring.Nat
import Ibv.Burst
import Ibv.Credits

set_option autoImplicit false

namespace Ibv

open RingFifo
open Direction (sampleMr)

namespace Outgoing

/-- No call and no region is longer than `limit`, and the queue keeps its capacity. -/
structure Short (limit : Nat) (out : Outgoing) : Prop where
  calls : ∀ msg ∈ out.calls, msg.wireLen ≤ limit
  allocating : ∀ msg loop, out.allocating = some (msg, loop) → msg.wireLen ≤ limit
  regions : ∀ pair ∈ out.ring.buffer.queue, pair.2 ≤ limit
  queue : out.ring.buffer.toRelease.length ≤ 2 * defaultRqeCount

end Outgoing

namespace Endpoint

open Outgoing (Short)

variable {endpoint after : Endpoint} {limit : Nat}

/-- Calls of at most `limit` bytes. -/
def CallsBelow (limit : Nat) : Action → Prop
  | .call msg => msg.wireLen ≤ limit
  | _ => True

theorem allocLocal_short (short : Short limit (endpoint.outgoing []))
    (taken : endpoint.allocLocal = some after) : Short limit (after.outgoing []) := by
  obtain ⟨msg, waiting, room, rfl⟩ := allocLocal_cases taken
  have shape : (endpoint.sendRing.take msg.wireLen).buffer =
      (endpoint.sendRing.buffer.take msg.wireLen).1 := rfl
  rw [SendBuffer.take_eq] at shape
  refine
    { calls := short.calls
      allocating := ?_
      regions := ?_
      queue := ?_ }
  · intro msg' loop same
    cases same
  · intro pair member
    change pair ∈ (endpoint.sendRing.take msg.wireLen).buffer.queue at member
    rw [shape, SendBuffer.queue] at member
    dsimp only at member
    rw [← List.append_assoc] at member
    rcases List.mem_append.mp member with old | new
    · exact short.regions pair old
    · rw [List.mem_singleton.mp new]
      exact short.allocating msg _ waiting
  · change (endpoint.sendRing.take msg.wireLen).buffer.toRelease.length ≤ _
    rw [shape]
    dsimp only
    rw [List.length_append, List.length_singleton]
    exact room

theorem step_short (action : Action) (short : Short limit (endpoint.outgoing []))
    (below : CallsBelow limit action) (taken : endpoint.step action = some after) :
    Short limit (after.outgoing []) := by
  cases sends : action.sends with
  | false =>
      rw [step_not_sends action sends [] taken]
      exact short
  | true =>
      cases action with
      | call msg =>
          cases taken
          refine { short with calls := ?_ }
          intro msg' member
          rcases List.mem_append.mp member with old | new
          · exact short.calls msg' old
          · rw [List.mem_singleton.mp new]
            exact below
      | lockIndex i =>
          obtain ⟨msg, -, entry, rfl⟩ := lockIndex_cases taken
          refine { short with calls := ?_, allocating := ?_ }
          · exact fun msg' member => short.calls msg' (List.mem_of_mem_eraseIdx member)
          · intro msg' loop same
            cases same
            exact short.calls msg (List.mem_of_getElem? entry)
      | localFirst =>
          obtain ⟨msg, waiting, rfl⟩ := localFirst_cases taken
          refine { short with allocating := ?_ }
          intro msg' loop same
          cases same
          exact short.allocating msg _ waiting
      | localSecond =>
          obtain ⟨msg, first, waiting, rfl⟩ := localSecond_cases taken
          refine { short with allocating := ?_ }
          intro msg' loop same
          cases same
          exact short.allocating msg _ waiting
      | allocLocal => exact allocLocal_short short taken
      | copy i =>
          obtain ⟨msg, buf, wrId, slice, rest, addr, -, rfl⟩ := copy_cases taken
          exact { short with }
      | takeLock i =>
          obtain ⟨msg, buf, wrId, addr, -, -, rfl⟩ := takeLock_cases taken
          exact { short with }
      | post =>
          obtain ⟨msg, buf, wrId, imm, remote, -, -, rfl⟩ := post_cases taken
          exact { short with }
      | postFail errno =>
          obtain ⟨msg, buf, wrId, imm, remote, -, rfl⟩ := postFail_cases taken
          exact { short with }
      | fetch i =>
          obtain ⟨request, -, -, rfl⟩ := fetch_cases taken
          exact { short with }
      | ack =>
          obtain ⟨request, data, -, -, rfl⟩ := ack_cases taken
          exact { short with }
      | dispatch =>
          obtain ⟨wc, rest, -, -, ⟨-, rfl⟩ | ⟨-, rfl⟩ | ⟨-, -, rfl⟩⟩ := dispatch_cases taken
          · unfold postNullRecv
            split <;> exact { short with }
          · exact ⟨short.calls, short.allocating, short.regions, short.queue⟩
          · exact { short with }
      | popRelease =>
          obtain ⟨buffer, popped, rfl⟩ := popRelease_cases taken
          obtain ⟨pair, rest, idle, queued, rfl⟩ := SendBuffer.popRelease_cases popped
          have regions := short.regions
          have queue := short.queue
          unfold SendBuffer.queue outgoing at regions
          unfold outgoing at queue
          dsimp only at regions queue
          rw [idle, queued] at regions
          rw [queued, List.length_cons] at queue
          exact ⟨short.calls, short.allocating, regions, Nat.le_of_succ_le queue⟩
      | releaseDone =>
          obtain ⟨buffer, done, rfl⟩ := releaseDone_cases taken
          obtain ⟨flag, length, -, -, rfl⟩ := SendBuffer.releaseDone_cases done
          exact ⟨short.calls, short.allocating,
            fun pair member => short.regions pair (List.mem_append_right _ member), short.queue⟩
      | _ => cases sends

theorem step_sendRing_addresses (action : Action) (taken : endpoint.step action = some after) :
    after.sendRing.addresses = endpoint.sendRing.addresses := by
  cases sends : action.sends with
  | false =>
      have same := step_not_sends action sends [] taken
      exact congrArg (fun out => out.ring.addresses) same
  | true =>
      cases action with
      | call msg =>
          cases taken
          rfl
      | lockIndex i =>
          obtain ⟨msg, -, -, rfl⟩ := lockIndex_cases taken
          rfl
      | localFirst =>
          obtain ⟨msg, -, rfl⟩ := localFirst_cases taken
          rfl
      | localSecond =>
          obtain ⟨msg, first, -, rfl⟩ := localSecond_cases taken
          rfl
      | allocLocal =>
          obtain ⟨msg, -, -, rfl⟩ := allocLocal_cases taken
          have shape : (endpoint.sendRing.take msg.wireLen).addresses =
              (endpoint.sendRing.buffer.take msg.wireLen).1.ring := rfl
          rw [SendBuffer.take_eq] at shape
          exact shape
      | copy i =>
          obtain ⟨msg, buf, wrId, slice, rest, addr, -, rfl⟩ := copy_cases taken
          rfl
      | takeLock i =>
          obtain ⟨msg, buf, wrId, addr, -, -, rfl⟩ := takeLock_cases taken
          rfl
      | post =>
          obtain ⟨msg, buf, wrId, imm, remote, -, -, rfl⟩ := post_cases taken
          rfl
      | postFail errno =>
          obtain ⟨msg, buf, wrId, imm, remote, -, rfl⟩ := postFail_cases taken
          rfl
      | fetch i =>
          obtain ⟨request, -, -, rfl⟩ := fetch_cases taken
          rfl
      | ack =>
          obtain ⟨request, data, -, -, rfl⟩ := ack_cases taken
          rfl
      | dispatch =>
          obtain ⟨wc, rest, -, -, ⟨-, rfl⟩ | ⟨-, rfl⟩ | ⟨-, -, rfl⟩⟩ := dispatch_cases taken
          · unfold postNullRecv
            split <;> rfl
          · rfl
          · rfl
      | popRelease =>
          obtain ⟨buffer, popped, rfl⟩ := popRelease_cases taken
          obtain ⟨pair, rest, -, -, rfl⟩ := SendBuffer.popRelease_cases popped
          rfl
      | releaseDone =>
          obtain ⟨buffer, done, rfl⟩ := releaseDone_cases taken
          obtain ⟨flag, length, -, -, rfl⟩ := SendBuffer.releaseDone_cases done
          rfl
      | _ => cases sends

end Endpoint

namespace System

/-- A regular run in which one side only sends messages of at most `limit` bytes. -/
def RegularBelow (side : Side) (limit : Nat) (system : System) (action : Action) : Prop :=
  system.Regular action ∧ ∀ own, action = .own side own → Endpoint.CallsBelow limit own

variable {recvMr sendMr : Side → MR} {ok : System → Action → Prop} {system : System}

theorem run_sendRing_addresses (run : Runs.Run step ok (new recvMr sendMr) system)
    (side : Side) : (system side).sendRing.addresses = ⟨(sendMr side).addr.toNat,
      (sendMr side).addr.toNat + (sendMr side).length.toNat⟩ := by
  refine alone (fun side mine => mine.sendRing.addresses = ⟨(sendMr side).addr.toNat,
    (sendMr side).addr.toNat + (sendMr side).length.toNat⟩) (unrestricted run) ?_ ?_ ?_ side
  · intro side
    rfl
  · intro side mine peer action after same _ taken
    exact (Endpoint.step_sendRing_addresses action taken).trans same
  · intro side mine written delivered receives cq recvMem same
    exact same

theorem run_short {side : Side} {limit : Nat}
    (run : Runs.Run step (RegularBelow side limit) (new recvMr sendMr) system) :
    ((system side).outgoing []).Short limit := by
  refine run.invariant (fun system => ((system side).outgoing []).Short limit) ?_ ?_
  · exact ⟨fun _ member => (nomatch member), fun _ _ same => (nomatch same),
      fun _ member => (nomatch member), Nat.zero_le _⟩
  intro before label after short allowed taken
  rcases step_side side taken with ⟨own, rfl, acted⟩ | ⟨-, _, _, _, _, _, same⟩
  · exact Endpoint.step_short own short (allowed.2 own rfl) acted
  · rw [same]
    exact { short with }

theorem run_waits_short {side : Side} {limit : Nat}
    (room : (2 * defaultRqeCount + 3) * limit ≤ (sendMr side).length.toNat)
    (run : Runs.Run step (RegularBelow side limit) (new recvMr sendMr) system) {msg : Msg}
    {loop : Loop} (allocating : (system side).allocating = some (msg, loop)) :
    (system side).sendRing.buffer.waits msg.wireLen = false := by
  have short := run_short run
  obtain ⟨orphans, -, intact⟩ := (regular_linked (run.mono fun _ _ => And.left) side).sending
  have holds : (system side).sendRing.addresses.Holds (system side).sendRing.buffer.done
    ((system side).sendRing.buffer.queue.map Prod.snd) (system side).sendRing.buffer.index :=
    intact.sound.accounts.holds
  have regions : ∀ length ∈ (system side).sendRing.buffer.queue.map Prod.snd, length ≤ limit := by
    intro length member
    obtain ⟨pair, queued, rfl⟩ := List.mem_map.mp member
    exact short.regions pair queued
  have few : (system side).sendRing.buffer.queue.length ≤ 2 * defaultRqeCount + 1 := by
    have waiting : (system side).sendRing.buffer.toRelease.length ≤ _ := short.queue
    have one : (system side).sendRing.buffer.releasing.toList.length ≤ 1 := by
      cases (system side).sendRing.buffer.releasing with
      | none => exact Nat.zero_le _
      | some pair => exact Nat.le_refl _
    unfold SendBuffer.queue
    rw [List.length_append]
    omega
  have total := List.sum_le_card_nsmul _ limit regions
  rw [List.length_map, nsmul_eq_mul, Nat.cast_id] at total
  have bound := Nat.mul_le_mul_right limit few
  refine (Cursors.waits_false_iff _ _).mpr (holds.admits_short regions
    (short.allocating msg loop allocating) ?_)
  have length : msg.wireLen ≤ limit := short.allocating msg loop allocating
  rw [run_sendRing_addresses run side]
  dsimp only
  rw [Nat.add_mul] at room bound
  omega

/-- Small messages never sleep in `SendBuffer::alloc`. For the 64 MiB of a `Conn` that is up to
2047 bytes. -/
theorem small_messages_pass (recvMr sendMr : Side → MR) (side : Side) (limit : Nat)
    (room : (2 * defaultRqeCount + 3) * limit ≤ (sendMr side).length.toNat) (system : System)
    (run : Runs.Run step (RegularBelow side limit) (new recvMr sendMr) system) (msg : Msg)
    (loop : Loop) (allocating : (system side).allocating = some (msg, loop)) :
    (system side).sendRing.buffer.waits msg.wireLen = false :=
  run_waits_short room run allocating

/-- A call that has just taken the index lock, with the buffers of a `Conn`. -/
theorem small_messages_pass_one_byte : ∃ system msg,
    Runs.Run step (RegularBelow .client 2047)
      (new (fun _ => sampleMr) (fun _ => sampleMr)) system ∧
      (system .client).allocating = some (msg, .head) ∧
      (system .client).sendRing.buffer.waits msg.wireLen = false := by
  have small : Msg.totalLen [Endpoint.oneByte] < 2 ^ 32 := by decide
  have small' : Msg.wireLen [Endpoint.oneByte] ≤ 2047 := by decide
  have run : Runs.Run step (RegularBelow .client 2047)
      (new (fun _ => sampleMr) (fun _ => sampleMr)) _ :=
    (Runs.Run.single (.own .client (.call [Endpoint.oneByte])) ⟨small, by
      rintro own same
      cases same
      exact small'⟩ rfl).next (.own .client (.lockIndex 0)) ⟨trivial, by
        rintro own same
        cases same
        trivial⟩ rfl
  exact ⟨_, [Endpoint.oneByte], run, rfl,
    small_messages_pass _ _ .client 2047 (by decide) _ run _ _ rfl⟩

end System

end Ibv
