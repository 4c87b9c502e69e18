import Ibv.Regular

set_option autoImplicit false

namespace Ibv

open RingFifo
open Direction (sampleMr)

namespace Endpoint

variable {endpoint after : Endpoint}

theorem step_allocator_ring (action : Action) (taken : endpoint.step action = some after) :
    after.allocator.ring = endpoint.allocator.ring := by
  cases critical : action.critical with
  | false =>
      obtain ⟨-, -, -, -, -, same, -⟩ := step_not_critical action critical taken
      by_cases updates : action = .finish
      · subst updates
        obtain ⟨pair, recvBuf, slice, -, -, rfl⟩ := finish_cases taken
        obtain ⟨-, left, right⟩ := endpoint.allocator.update_kept pair.2
        unfold Cursors.ring
        dsimp only
        rw [left, right]
      · rw [same updates]
  | true =>
      cases action with
      | takeLock i =>
          obtain ⟨msg, buf, wrId, addr, -, -, rfl⟩ := takeLock_cases taken
          rfl
      | load =>
          obtain ⟨msg, buf, wrId, -, -, rfl⟩ := load_cases taken
          rfl
      | count =>
          obtain ⟨msg, buf, wrId, -, rfl⟩ := count_cases taken
          rfl
      | popNotice =>
          obtain ⟨msg, buf, wrId, -, rfl⟩ := popNotice_cases taken
          rfl
      | remoteFirst =>
          obtain ⟨msg, buf, wrId, imm, -, rfl⟩ := remoteFirst_cases taken
          rfl
      | remoteSecond =>
          obtain ⟨msg, buf, wrId, imm, first, -, rfl⟩ := remoteSecond_cases taken
          rfl
      | allocRemote =>
          obtain ⟨msg, buf, wrId, imm, -, rfl⟩ := allocRemote_cases taken
          dsimp only
          rw [RemoteBufManager.take_eq]
          rfl
      | post =>
          obtain ⟨msg, buf, wrId, imm, remote, -, -, rfl⟩ := post_cases taken
          rfl
      | postFail errno =>
          obtain ⟨msg, buf, wrId, imm, remote, -, rfl⟩ := postFail_cases taken
          rfl
      | _ => cases critical

/-- Whether its post succeeds or fails, a call that returns has been counted. -/
theorem step_results (action : Action)
    (counts : endpoint.results.length + endpoint.charged ≤ endpoint.counted)
    (taken : endpoint.step action = some after) :
    after.results.length + after.charged ≤ after.counted := by
  cases critical : action.critical with
  | false =>
      obtain ⟨lock, counted, -, results, -⟩ := step_not_critical action critical taken
      rw [charged, lock, counted, results]
      exact counts
  | true =>
      cases action with
      | takeLock i =>
          obtain ⟨msg, buf, wrId, addr, free, -, rfl⟩ := takeLock_cases taken
          exact Nat.le_trans (Nat.le_add_right _ _) counts
      | load =>
          obtain ⟨msg, buf, wrId, holder, -, rfl⟩ := load_cases taken
          rw [charged_eq holder] at counts
          exact counts
      | count =>
          obtain ⟨msg, buf, wrId, holder, rfl⟩ := count_cases taken
          rw [charged_eq holder] at counts
          exact Nat.succ_le_succ counts
      | popNotice =>
          obtain ⟨msg, buf, wrId, holder, rfl⟩ := popNotice_cases taken
          rw [charged_eq holder] at counts
          exact counts
      | remoteFirst =>
          obtain ⟨msg, buf, wrId, imm, holder, rfl⟩ := remoteFirst_cases taken
          rw [charged_eq holder] at counts
          exact counts
      | remoteSecond =>
          obtain ⟨msg, buf, wrId, imm, first, holder, rfl⟩ := remoteSecond_cases taken
          rw [charged_eq holder] at counts
          exact counts
      | allocRemote =>
          obtain ⟨msg, buf, wrId, imm, holder, rfl⟩ := allocRemote_cases taken
          rw [charged_eq holder] at counts
          exact counts
      | post =>
          obtain ⟨msg, buf, wrId, imm, remote, holder, -, rfl⟩ := post_cases taken
          rw [charged_eq holder] at counts
          dsimp only [charged]
          rw [List.length_append]
          exact counts
      | postFail errno =>
          obtain ⟨msg, buf, wrId, imm, remote, holder, rfl⟩ := postFail_cases taken
          rw [charged_eq holder] at counts
          dsimp only [charged]
          rw [List.length_append]
          exact counts
      | _ => cases critical

/-- The steps of `polling`. -/
def Action.polls : Action → Bool
  | .poll _ => true
  | .dispatch => true
  | .sendPair => true
  | _ => false

theorem step_idle (action : Action) (idle : action.polls = false)
    (taken : endpoint.step action = some after) : after.handled = endpoint.handled := by
  cases queueing : action.queueing with
  | false =>
      obtain ⟨state, rfl⟩ := step_not_queueing action queueing taken
      rfl
  | true =>
      cases action with
      | post =>
          obtain ⟨msg, buf, wrId, imm, remote, -, -, rfl⟩ := post_cases taken
          rfl
      | ack =>
          obtain ⟨request, data, -, -, rfl⟩ := ack_cases taken
          rfl
      | recv =>
          obtain ⟨pair, rest, -, -, rfl⟩ := recv_cases taken
          rfl
      | poll | dispatch | sendPair => cases idle
      | _ => cases queueing

/-- The bytes granted in the peer's ring, the last of them perhaps not posted yet. -/
def grantedBytes (endpoint : Endpoint) : Nat := (endpoint.grantedBufs.map RemoteBuf.length).sum

/-- The bytes whose release the peer has reported to this endpoint's allocator. -/
def retiredBytes (mine peer : Endpoint) : Nat :=
  (peer.carriedImms.take mine.returned.length).sum

/-- The bytes of messages that the peer's `recv_msg` has not returned. -/
def unreadBytes (mine peer : Endpoint) : Nat :=
  ((mine.grantedBufs.drop peer.returned.length).map RemoteBuf.length).sum

/-- The notices popped from the peer's release channel and not handed to `update`. -/
def ridingBytes (mine peer : Endpoint) : Nat :=
  (peer.carriedImms.drop mine.returned.length).sum

def heldBytes (endpoint : Endpoint) : Nat := (endpoint.held.map Region.length).sum

end Endpoint

namespace Flow

open Endpoint (direction)

variable {mine peer : Endpoint}

theorem credits (flow : Flow mine peer) : ∃ outstanding,
    mine.allocator.ring.Holds mine.allocator.done outstanding mine.allocator.index ∧
      mine.grantedBytes = mine.retiredBytes peer + outstanding.sum ∧
      outstanding.sum = mine.ridingBytes peer + peer.release.sum + peer.recvBuf.released +
        peer.heldBytes + mine.unreadBytes peer := by
  obtain ⟨updated, batches, withheld, accounts⟩ := flow.accounts
  have held : (direction mine peer).released + (direction mine peer).held.length =
      peer.returned.length := Nat.sub_add_cancel flow.held
  refine ⟨_, accounts.holds, ?_, ?_⟩
  · have reports : ((direction mine peer).lengths.take updated).sum = mine.retiredBytes peer :=
      accounts.reports
    rw [← reports, ← List.sum_append, List.take_append_drop]
    rfl
  · have notices : (mine.ridingBytes peer) + peer.release.sum = batches.flatten.sum := by
      have sums := congrArg List.sum accounts.notices
      rw [List.sum_append] at sums
      rw [List.sum_flatten]
      exact sums
    have withholds : peer.recvBuf.released = withheld.sum := accounts.withholding.1
    have slices : peer.heldBytes = (((direction mine peer).lengths.drop
        (direction mine peer).released).take peer.held.length).sum :=
      congrArg List.sum accounts.held_lengths
    have unread : mine.unreadBytes peer = (((direction mine peer).lengths.drop
        (direction mine peer).released).drop peer.held.length).sum := by
      rw [List.drop_drop, show _ + peer.held.length = peer.returned.length from held]
      unfold Endpoint.unreadBytes Direction.lengths
      rw [List.map_drop]
      rfl
    have split := (List.sum_take_add_sum_drop ((direction mine peer).lengths.drop
      (direction mine peer).released) peer.held.length)
    rw [accounts.split, List.sum_append, List.sum_append]
    omega

end Flow

namespace System

variable {recvMr sendMr : Side → MR} {system : System}

theorem run_allocator_ring {ok : System → Action → Prop}
    (run : Runs.Run step ok (new recvMr sendMr) system) (side : Side) :
    (system side).allocator.ring = ⟨(recvMr side.other).addr.toNat,
      (recvMr side.other).addr.toNat + (recvMr side.other).length.toNat⟩ := by
  refine alone (fun side mine => mine.allocator.ring = ⟨(recvMr side.other).addr.toNat,
    (recvMr side.other).addr.toNat + (recvMr side.other).length.toNat⟩) (unrestricted run) ?_ ?_
    ?_ side
  · intro side
    rfl
  · intro side mine peer action after same _ taken
    exact (Endpoint.step_allocator_ring action taken).trans same
  · intro side mine written delivered receives cq recvMem same
    exact same

/-- Each byte granted in the peer's ring is in one place: retired by a notice, in a notice on
its way, withheld by the peer's `RecvBuffer`, held by its application, or not read yet. -/
theorem credits_conserved (recvMr sendMr : Side → MR) (system : System)
    (run : Runs.Run step Regular (new recvMr sendMr) system) (side : Side) :
    (system side).grantedBytes = (system side).retiredBytes (system side.other) +
      (system side).ridingBytes (system side.other) + (system side.other).release.sum +
      (system side.other).recvBuf.released + (system side.other).heldBytes +
      (system side).unreadBytes (system side.other) := by
  obtain ⟨outstanding, -, granted, places⟩ := (regular_linked run side).flow.credits
  omega

/-- One message of three bytes, received and not released, is all in the application's hands. -/
theorem credits_conserved_one_held : ∃ system,
    Runs.Run step Regular (new (fun _ => sampleMr) (fun _ => sampleMr)) system ∧
      (system .client).grantedBytes = 3 ∧ (system .server).heldBytes = 3 ∧
      (system .client).ridingBytes (system .server) + (system .server).release.sum +
        (system .server).recvBuf.released + (system .client).unreadBytes (system .server) = 0 := by
  obtain ⟨system, run, reached⟩ : ∃ system,
      Runs.Run step (Allowed fun mine _ action => mine.Assumed action)
        (new (fun _ => sampleMr) (fun _ => sampleMr)) system ∧
        decide ((system .client).grantedBytes = 3 ∧ (system .server).heldBytes = 3) = true :=
    Runs.Run.exists_of_execChecked assumes _ assumes_sound twoSlices (by decide +kernel)
  obtain ⟨granted, held⟩ := of_decide_eq_true reached
  have regular := run_regular run
  have conserved := credits_conserved _ _ system regular .client
  rw [show Side.client.other = Side.server from rfl] at conserved
  exact ⟨system, regular, granted, held, by omega⟩

/-- The window, in bytes of the peer's ring and in messages. -/
theorem window_respected (recvMr sendMr : Side → MR) (system : System)
    (run : Runs.Run step Regular (new recvMr sendMr) system) (side : Side) :
    (system side).grantedBytes ≤
        (system side).retiredBytes (system side.other) + (recvMr side.other).length.toNat ∧
      (system side).posted.length ≤ (system side).received + defaultRqeCount ∧
      ((system side.other).posted = [] →
        (system side).grantedBytes ≤ (recvMr side.other).length.toNat ∧
          (system side).posted.length ≤ defaultRqeCount) := by
  have forth := regular_linked run side
  have back := regular_linked run side.other
  rw [Side.other_other] at back
  obtain ⟨outstanding, holds, granted, -⟩ := forth.flow.credits
  have fits := holds.sum_le
  rw [run_allocator_ring run side] at fits
  dsimp only at fits
  have posted := forth.counts.counting.posted
  have balance := forth.counts.counting.balance
  have upper := forth.counts.counting.upper
  unfold maxSending at upper
  refine ⟨by omega, by omega, ?_⟩
  intro silent
  have arrived := forth.counts.arrived
  have handled := forth.counts.queues.handled
  have sent := back.counts.sent
  have count := forth.transport.count
  rw [silent, List.length_nil] at sent
  have unread : (system side).returned.length = 0 := by omega
  have unreported : (system side).retiredBytes (system side.other) = 0 := by
    unfold Endpoint.retiredBytes
    rw [unread]
    rfl
  exact ⟨by omega, by omega⟩

theorem window_respected_silent_server : ∃ system,
    Runs.Run step Regular (new (fun _ => sampleMr) (fun _ => sampleMr)) system ∧
      0 < (system .client).grantedBytes ∧ (system .client).grantedBytes ≤ 0x4000000 ∧
      (system .client).posted.length ≤ defaultRqeCount := by
  obtain ⟨system, run, reached⟩ : ∃ system,
      Runs.Run step (Allowed fun mine _ action => mine.Assumed action)
        (new (fun _ => sampleMr) (fun _ => sampleMr)) system ∧
        (decide (0 < (system .client).grantedBytes) &&
          (system .server).posted.isEmpty) = true :=
    Runs.Run.exists_of_execChecked assumes _ assumes_sound twoSlices (by decide +kernel)
  rw [Bool.and_eq_true, decide_eq_true_eq, List.isEmpty_iff] at reached
  have regular := run_regular run
  obtain ⟨bytes, messages⟩ := (window_respected _ _ system regular .client).2.2 reached.2
  exact ⟨system, regular, reached.1, bytes, messages⟩

theorem run_received {ok : System → Action → Prop}
    (run : Runs.Run step ok (new recvMr sendMr) system) (side : Side) :
    (system side.other).received ≤ (system side).posted.length := by
  have forth := run_counts run side
  have back := run_counts run side.other
  rw [Side.other_other] at back
  have handled := back.queues.handled
  have arrived := back.arrived
  have sent := forth.sent
  omega

/-- The polling task of an endpoint that has not sent more than it has received, as one that
answers each message, is never held up by a slow application. -/
theorem polling_never_waits (recvMr sendMr : Side → MR) (system : System)
    (run : Runs.Run step Regular (new recvMr sendMr) system) (side : Side) (pair : Nat × Nat)
    (forward : (system side).forward = some pair)
    (answers : (system side).posted.length ≤ (system side).received) :
    ∃ mine, (system side).step .sendPair = some mine ∧ mine.rx = (system side).rx ++ [pair] := by
  have forth := regular_linked run side
  have back := regular_linked run side.other
  rw [Side.other_other] at back
  have window : (system side.other).posted.length ≤
      (system side.other).received + defaultRqeCount := by
    have posted := back.counts.counting.posted
    have balance := back.counts.counting.balance
    have upper := back.counts.counting.upper
    unfold maxSending at upper
    omega
  have answered := run_received run side
  have place : (system side).rx.length < defaultRqeCount := by
    have handled := forth.counts.queues.handled
    rw [forward, Option.toList_some, List.length_singleton] at handled
    have arrived := forth.counts.arrived
    have sent := back.counts.sent
    omega
  refine ⟨{ system side with forward := none, rx := (system side).rx ++ [pair] }, ?_, rfl⟩
  simp only [Endpoint.step, Endpoint.sendPair, forward, place, ↓reduceIte]

theorem polling_never_waits_one_message : ∃ system mine,
    Runs.Run step Regular (new (fun _ => sampleMr) (fun _ => sampleMr)) system ∧
      (system .server).forward = some (3, 0) ∧ (system .server).step .sendPair = some mine ∧
      mine.rx = (system .server).rx ++ [(3, 0)] := by
  obtain ⟨system, run, reached⟩ : ∃ system,
      Runs.Run step (Allowed fun mine _ action => mine.Assumed action)
        (new (fun _ => sampleMr) (fun _ => sampleMr)) system ∧
        decide ((system .server).forward = some (3, 0) ∧
          (system .server).posted.length ≤ (system .server).received) = true :=
    Runs.Run.exists_of_execChecked assumes _ assumes_sound (twoSlices.take 20)
      (by decide +kernel)
  obtain ⟨forward, answers⟩ := of_decide_eq_true reached
  have regular := run_regular run
  obtain ⟨mine, taken, rx⟩ := polling_never_waits _ _ system regular .server _ forward answers
  exact ⟨system, mine, regular, forward, taken, rx⟩

/-- Once the polling task of the side has left its loop. -/
def PollingEnded (side : Side) (_ : System) (action : Action) : Prop :=
  ∀ own, action = .own side own → own.polls = false

theorem run_ended {side : Side} {start later : System}
    (rest : Runs.Run step (PollingEnded side) start later) :
    (later side).handled = (start side).handled := by
  refine rest.invariant (fun reached => (reached side).handled = (start side).handled) rfl ?_
  intro before action after same ended taken
  rw [← same]
  rcases step_side side taken with ⟨own, rfl, stepped⟩ | ⟨-, _, _, _, _, _, same⟩
  · exact Endpoint.step_idle own (ended own rfl) stepped
  · rw [same]

theorem run_results {ok : System → Action → Prop}
    (run : Runs.Run step ok (new recvMr sendMr) system) (side : Side) :
    (system side).results.length ≤ (system side).received + defaultRqeCount := by
  have counts : (system side).results.length + (system side).charged ≤ (system side).counted := by
    refine alone (fun _ mine => mine.results.length + mine.charged ≤ mine.counted)
      (unrestricted run) ?_ ?_ ?_ side
    · intro side
      exact Nat.le_refl _
    · intro side mine peer action after counts _ taken
      exact Endpoint.step_results action counts taken
    · intro side mine written delivered receives cq recvMem counts
      exact counts
  have balance := (run_counts run side).counting.balance
  have upper := (run_counts run side).counting.upper
  unfold maxSending at upper
  omega

/-- What a polling task that has ended still allows, whichever posts fail, while all
completions are successful. -/
theorem polling_ended_stalls (recvMr sendMr : Side → MR) (side : Side) (start later : System)
    (run : Runs.Run step Runs.Any (new recvMr sendMr) start)
    (rest : Runs.Run step (PollingEnded side) start later) :
    (later side).received ≤ (start side).handled ∧
      (later side).results.length ≤ (start side).handled + defaultRqeCount ∧
      (later side.other).results.length ≤ (start side).handled + 2 * defaultRqeCount := by
  have whole : Runs.Run step Runs.Any (new recvMr sendMr) later := run.trans rest.any
  have counts := run_counts whole side
  have received : (later side).received ≤ (start side).handled := by
    rw [← run_ended rest]
    have handled := counts.queues.handled
    omega
  have own := run_results whole side
  have peer := run_results whole side.other
  have answered := run_received whole side
  have posted := counts.counting.posted
  have balance := counts.counting.balance
  have upper := counts.counting.upper
  unfold maxSending at upper
  exact ⟨received, by omega, by omega⟩

def clientSilent : Action → Bool
  | .own .client action => !action.polls
  | _ => true

/-- The client's task has ended before its two calls, of which the first fails to post. -/
theorem polling_ended_stalls_client : ∃ later,
    Runs.Run step (PollingEnded .client) (new (fun _ => sampleMr) (fun _ => sampleMr)) later ∧
      (later .client).results.length = 2 ∧ (later .client).posted.length = 1 ∧
      (later .client).results.length ≤ defaultRqeCount := by
  obtain ⟨later, rest, reached⟩ : ∃ later,
      Runs.Run step (PollingEnded .client) (new (fun _ => sampleMr) (fun _ => sampleMr)) later ∧
        decide ((later .client).results.length = 2 ∧ (later .client).posted.length = 1) = true :=
    Runs.Run.exists_of_execChecked (fun _ action => clientSilent action) _
      (fun _ action silent own same => by
        subst same
        simpa [clientSilent] using silent)
      (((Endpoint.sendSteps Endpoint.oneByte).dropLast ++ .postFail 12 ::
        Endpoint.sendSteps Endpoint.oneByte).map (Action.own .client)) (by decide +kernel)
  obtain ⟨returned, posted⟩ := of_decide_eq_true reached
  obtain ⟨-, own, -⟩ := polling_ended_stalls _ _ .client _ later .refl rest
  refine ⟨later, rest, returned, posted, ?_⟩
  simpa [new, Endpoint.new] using own

end System

end Ibv
