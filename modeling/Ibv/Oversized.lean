import Ibv.SmallMessages

set_option autoImplicit false

namespace Ibv

open Direction (sampleMr)

namespace Endpoint

variable {endpoint after : Endpoint}

/-- The calls that have left `SendBuffer::alloc`, without those whose post has failed. -/
def allocated (endpoint : Endpoint) : Nat :=
  endpoint.copying.length + endpoint.lock.toList.length + endpoint.posted.length

/-- As long as a call stays in the wait of `SendBuffer::alloc`, no other passes it. -/
theorem step_allocating (action : Action) {msg : Msg} {loop : Loop}
    (waiting : endpoint.allocating = some (msg, loop)) (stays : loop ≠ .exited)
    (taken : endpoint.step action = some after) :
    (∃ later, after.allocating = some (msg, later)) ∧ endpoint.calls <+: after.calls ∧
      after.allocated ≤ endpoint.allocated := by
  have kept : endpoint.calls <+: endpoint.calls := List.prefix_rfl
  cases action with
  | call msg' =>
      cases taken
      exact ⟨⟨loop, waiting⟩, List.prefix_append _ _, Nat.le_refl _⟩
  | lockIndex i =>
      obtain ⟨msg', free, -, -⟩ := lockIndex_cases taken
      rw [waiting] at free
      cases free
  | localFirst =>
      obtain ⟨msg', same, rfl⟩ := localFirst_cases taken
      rw [waiting] at same
      cases same
      exact ⟨⟨_, rfl⟩, kept, Nat.le_refl _⟩
  | localSecond =>
      obtain ⟨msg', first, same, rfl⟩ := localSecond_cases taken
      rw [waiting] at same
      cases same
      exact ⟨⟨_, rfl⟩, kept, Nat.le_refl _⟩
  | allocLocal =>
      obtain ⟨msg', same, -, -⟩ := allocLocal_cases taken
      rw [waiting] at same
      cases same
      exact absurd rfl stays
  | copy i =>
      obtain ⟨msg', buf, wrId, slice, rest, addr, entry, rfl⟩ := copy_cases taken
      refine ⟨⟨loop, waiting⟩, kept, Nat.le_of_eq ?_⟩
      simp only [allocated, List.length_set]
  | takeLock i =>
      obtain ⟨msg', buf, wrId, addr, free, entry, rfl⟩ := takeLock_cases taken
      have below := (List.getElem?_eq_some_iff.mp entry).1
      refine ⟨⟨loop, waiting⟩, kept, ?_⟩
      simp only [allocated, free, List.length_eraseIdx_of_lt below, Option.toList_some,
        List.length_singleton, Option.toList_none, List.length_nil]
      omega
  | load =>
      obtain ⟨msg', buf, wrId, holder, -, rfl⟩ := load_cases taken
      exact ⟨⟨loop, waiting⟩, kept, by simp [allocated, holder]⟩
  | count =>
      obtain ⟨msg', buf, wrId, holder, rfl⟩ := count_cases taken
      exact ⟨⟨loop, waiting⟩, kept, by simp [allocated, holder]⟩
  | popNotice =>
      obtain ⟨msg', buf, wrId, holder, rfl⟩ := popNotice_cases taken
      exact ⟨⟨loop, waiting⟩, kept, by simp [allocated, holder]⟩
  | remoteFirst =>
      obtain ⟨msg', buf, wrId, imm, holder, rfl⟩ := remoteFirst_cases taken
      exact ⟨⟨loop, waiting⟩, kept, by simp [allocated, holder]⟩
  | remoteSecond =>
      obtain ⟨msg', buf, wrId, imm, first, holder, rfl⟩ := remoteSecond_cases taken
      exact ⟨⟨loop, waiting⟩, kept, by simp [allocated, holder]⟩
  | allocRemote =>
      obtain ⟨msg', buf, wrId, imm, holder, rfl⟩ := allocRemote_cases taken
      exact ⟨⟨loop, waiting⟩, kept, by simp [allocated, holder]⟩
  | post =>
      obtain ⟨msg', buf, wrId, imm, remote, holder, -, rfl⟩ := post_cases taken
      refine ⟨⟨loop, waiting⟩, kept, ?_⟩
      simp only [allocated, holder, List.length_append, Option.toList_some, Option.toList_none,
        List.length_singleton, List.length_nil]
      omega
  | postFail errno =>
      obtain ⟨msg', buf, wrId, imm, remote, holder, rfl⟩ := postFail_cases taken
      refine ⟨⟨loop, waiting⟩, kept, ?_⟩
      simp only [allocated, holder, Option.toList_some, Option.toList_none,
        List.length_singleton, List.length_nil]
      omega
  | fetch i =>
      obtain ⟨request, -, -, rfl⟩ := fetch_cases taken
      exact ⟨⟨loop, waiting⟩, kept, Nat.le_refl _⟩
  | ack =>
      obtain ⟨request, data, -, -, rfl⟩ := ack_cases taken
      exact ⟨⟨loop, waiting⟩, kept, Nat.le_refl _⟩
  | poll n =>
      obtain ⟨-, -, -, -, rfl⟩ := poll_cases taken
      exact ⟨⟨loop, waiting⟩, kept, Nat.le_refl _⟩
  | dispatch =>
      obtain ⟨wc, rest, -, -, ⟨-, rfl⟩ | ⟨-, rfl⟩ | ⟨-, -, rfl⟩⟩ := dispatch_cases taken
      · unfold postNullRecv
        split <;> exact ⟨⟨loop, waiting⟩, kept, Nat.le_refl _⟩
      · exact ⟨⟨loop, waiting⟩, kept, Nat.le_refl _⟩
      · exact ⟨⟨loop, waiting⟩, kept, Nat.le_refl _⟩
  | sendPair =>
      obtain ⟨pair, -, -, rfl⟩ := sendPair_cases taken
      exact ⟨⟨loop, waiting⟩, kept, Nat.le_refl _⟩
  | recv =>
      obtain ⟨pair, rest, -, -, rfl⟩ := recv_cases taken
      exact ⟨⟨loop, waiting⟩, kept, Nat.le_refl _⟩
  | finish =>
      obtain ⟨pair, recvBuf, slice, -, -, rfl⟩ := finish_cases taken
      exact ⟨⟨loop, waiting⟩, kept, Nat.le_refl _⟩
  | release =>
      obtain ⟨slice, rest, -, rfl⟩ := releaseSlice_cases taken
      exact ⟨⟨loop, waiting⟩, kept, Nat.le_refl _⟩
  | popRelease =>
      obtain ⟨buffer, -, rfl⟩ := popRelease_cases taken
      exact ⟨⟨loop, waiting⟩, kept, Nat.le_refl _⟩
  | releaseDone =>
      obtain ⟨buffer, -, rfl⟩ := releaseDone_cases taken
      exact ⟨⟨loop, waiting⟩, kept, Nat.le_refl _⟩

end Endpoint

namespace System

variable {recvMr sendMr : Side → MR} {start later : System} {side : Side} {msg : Msg}

theorem run_long_stays (run : Runs.Run step Regular (new recvMr sendMr) start)
    (long : (sendMr side).length.toNat < msg.wireLen) {loop : Loop}
    (waiting : (start side).allocating = some (msg, loop)) : loop ≠ .exited := by
  rintro rfl
  obtain ⟨orphans, -, intact⟩ := (regular_linked run side).sending
  have holds : (start side).sendRing.addresses.Holds (start side).sendRing.buffer.done
    ((start side).sendRing.buffer.queue.map Prod.snd) (start side).sendRing.buffer.index :=
    intact.sound.accounts.holds
  refine holds.not_admits ?_ (intact.sound.room msg.wireLen ?_)
  · rw [run_sendRing_addresses run side]
    dsimp only
    omega
  · change (start side).allocating.map _ = _
    rw [waiting]
    rfl

theorem step_waiting {before after : System} {action : Action} {loop : Loop}
    (waiting : (before side).allocating = some (msg, loop)) (stays : loop ≠ .exited)
    (taken : step before action = some after) :
    (∃ later, (after side).allocating = some (msg, later)) ∧
      (before side).calls <+: (after side).calls ∧
      (after side).allocated ≤ (before side).allocated := by
  rcases step_side side taken with ⟨own, rfl, acted⟩ | ⟨-, _, _, _, _, _, same⟩
  · exact Endpoint.step_allocating own waiting stays acted
  · rw [same]
    exact ⟨⟨loop, waiting⟩, List.prefix_rfl, Nat.le_refl _⟩

theorem run_returned (run : Runs.Run step Regular (new recvMr sendMr) start) (side : Side) :
    (start side.other).returned.length ≤ (start side).posted.length := by
  have back := regular_linked run side.other
  rw [Side.other_other] at back
  have arrived := back.counts.arrived
  have handled := back.counts.queues.handled
  have sent := (regular_linked run side).counts.sent
  have count := back.transport.count
  omega

/-- A `send_msg` of more bytes than the `SendBuffer` is long neither fails nor returns, and
with it all that come behind. The peer gets at most the messages that had left
`SendBuffer::alloc` before. -/
theorem oversized_blocks (recvMr sendMr : Side → MR) (side : Side) (start later : System)
    (msg : Msg) (loop : Loop) (run : Runs.Run step Regular (new recvMr sendMr) start)
    (rest : Runs.Run step Regular start later)
    (long : (sendMr side).length.toNat < msg.wireLen)
    (waiting : (start side).allocating = some (msg, loop)) :
    (∃ loop', (later side).allocating = some (msg, loop')) ∧
      (start side).calls <+: (later side).calls ∧
      (later side.other).returned.length ≤ (start side).allocated := by
  have stays : Runs.Run step Regular (new recvMr sendMr) later ∧
      (∃ loop', (later side).allocating = some (msg, loop')) ∧
      (start side).calls <+: (later side).calls ∧
      (later side).allocated ≤ (start side).allocated := by
    refine rest.invariant (fun reached => Runs.Run step Regular (new recvMr sendMr) reached ∧
      (∃ loop', (reached side).allocating = some (msg, loop')) ∧
      (start side).calls <+: (reached side).calls ∧
      (reached side).allocated ≤ (start side).allocated)
      ⟨run, ⟨loop, waiting⟩, List.prefix_rfl, Nat.le_refl _⟩ ?_
    rintro before action after ⟨reached, ⟨loop', waiting'⟩, calls, allocated⟩ regular taken
    obtain ⟨waits, more, less⟩ :=
      step_waiting waiting' (run_long_stays reached long waiting') taken
    exact ⟨reached.next action regular taken, waits, calls.trans more, less.trans allocated⟩
  obtain ⟨reached, waits, calls, allocated⟩ := stays
  have returned := run_returned reached side
  unfold Endpoint.allocated at allocated ⊢
  exact ⟨waits, calls, by omega⟩

/-- One byte more than the 64 MiB of the ring. The call looks once at the ring and goes on to
wait, and the message of one byte that is called behind it is never received. -/
theorem oversized_blocks_64_mib : ∃ start later msg,
    Runs.Run step Regular (new (fun _ => sampleMr) (fun _ => sampleMr)) start ∧
      Runs.Run step Regular start later ∧ (start .client).allocating = some (msg, .head) ∧
      (sampleMr.length.toNat < msg.wireLen) ∧
      (later .client).calls = [[Endpoint.oneByte]] ∧
      (∃ loop, (later .client).allocating = some (msg, loop)) ∧
      (later .server).returned.length = 0 := by
  have small : Msg.totalLen [⟨0x4000001, fun _ => 0⟩] < 2 ^ 32 := by decide
  have small' : Msg.totalLen [Endpoint.oneByte] < 2 ^ 32 := by decide
  have long : sampleMr.length.toNat < Msg.wireLen [⟨0x4000001, fun _ => 0⟩] := by decide
  obtain ⟨start, run, waiting, calls, allocated⟩ : ∃ start,
      Runs.Run step Regular (new (fun _ => sampleMr) (fun _ => sampleMr)) start ∧
        (start .client).allocating = some ([⟨0x4000001, fun _ => 0⟩], .head) ∧
        (start .client).calls = [] ∧ (start .client).allocated = 0 :=
    ⟨_, (Runs.Run.single (.own .client (.call [⟨0x4000001, fun _ => 0⟩])) small rfl).next
      (.own .client (.lockIndex 0)) trivial rfl, rfl, rfl, rfl⟩
  have looks : step start (.own .client .localFirst) = some (join .client
      { start .client with allocating := some ([⟨0x4000001, fun _ => 0⟩],
        (start .client).sendRing.buffer.firstLoad (Msg.wireLen [⟨0x4000001, fun _ => 0⟩])) }
      (start .server)) := by
    simp [step, Endpoint.step, Endpoint.localFirst, waiting, Side.other]
  have rest : Runs.Run step Regular start _ :=
    (Runs.Run.single (.own .client .localFirst) trivial looks).next
      (.own .client (.call [Endpoint.oneByte])) small' rfl
  obtain ⟨waits, -, returned⟩ :=
    oversized_blocks _ _ .client start _ _ .head run rest long waiting
  refine ⟨start, _, _, run, rest, waiting, long, ?_, waits, ?_⟩
  · simp [Endpoint.call, calls]
  · rw [allocated] at returned
    exact Nat.le_zero.mp returned

end System

end Ibv
