import Ibv.Burst

set_option autoImplicit false

namespace Ibv

open Direction (sampleMr)

namespace Endpoint

/-- Every `send_msg` call that has not posted. -/
def pending (endpoint : Endpoint) : List Msg :=
  endpoint.calls ++ endpoint.allocating.toList.map Prod.fst ++
    endpoint.copying.map Copying.msg ++ endpoint.lock.toList.map Critical.msg

/-- The holder of the lock sleeps in `RemoteBufManager::alloc`: its wait condition holds,
and the load it may be about to make goes back to sleep. -/
def waiting (endpoint : Endpoint) : Bool :=
  match endpoint.lock with
  | some ⟨msg, _, _, .placing _ loop⟩ =>
      endpoint.allocator.waits msg.wireLen &&
        match loop with
        | .head => true
        | .tested _ => decide (endpoint.allocator.secondLoad = .head)
        | .exited => false
  | _ => false

/-- Nothing is in flight to this endpoint, and all it has posted was delivered. -/
def Drained (endpoint : Endpoint) : Prop :=
  endpoint.delivered = endpoint.posted.length ∧ endpoint.unhandled = 0 ∧
    endpoint.forward = none ∧ endpoint.rx = [] ∧ endpoint.receiving = none

instance (endpoint : Endpoint) : Decidable endpoint.Drained := by
  unfold Drained
  infer_instance

/-- What one endpoint sees of a connection at rest: all messages delivered, returned and
released, all local regions of posted messages retired, `sending` below its limit, and a
`send_msg` pending of at most half of the peer's ring. -/
def AtRest (mine peer : Endpoint) : Prop :=
  mine.Drained ∧ peer.returned.length = mine.posted.length ∧ mine.held = [] ∧
    mine.acked = mine.posted.length ∧ mine.cq = [] ∧ mine.polled = [] ∧
    mine.sendRing.granted.length =
      mine.sendRing.retired + mine.copying.length + mine.lock.toList.length ∧
    mine.sending < maxSending ∧
    ∃ msg ∈ mine.pending, 0 < msg.totalLen ∧
      2 * msg.totalLen ≤ mine.allocator.right - mine.allocator.left

instance (mine peer : Endpoint) : Decidable (AtRest mine peer) := by
  unfold AtRest
  infer_instance

variable {endpoint after : Endpoint}

/-- What keeps an endpoint waiting: its own loop, and that no message is on its way. -/
structure Stalled (endpoint : Endpoint) : Prop where
  queues : endpoint.Queues
  waiting : endpoint.waiting = true
  drained : endpoint.Drained

theorem waiting_cases (waiting : endpoint.waiting = true) :
    ∃ msg buf wrId imm loop, endpoint.lock = some ⟨msg, buf, wrId, .placing imm loop⟩ ∧
      endpoint.allocator.waits msg.wireLen = true ∧ loop ≠ .exited ∧
      ∀ first, loop = .tested first → endpoint.allocator.secondLoad = .head := by
  unfold Endpoint.waiting at waiting
  split at waiting
  · rename_i msg buf wrId imm loop holder
    rw [Bool.and_eq_true] at waiting
    refine ⟨msg, buf, wrId, imm, loop, holder, waiting.1, ?_, ?_⟩
    · intro same
      rw [same] at waiting
      cases waiting.2
    · intro first same
      rw [same] at waiting
      exact of_decide_eq_true waiting.2
  · cases waiting

theorem waits_loads (cursors : Cursors) (length : Nat) (waits : cursors.waits length = true) :
    cursors.firstLoad length = .head ∨
      ∃ first, cursors.firstLoad length = .tested first ∧ cursors.secondLoad = .head := by
  unfold Cursors.waits at waits
  unfold Cursors.firstLoad Cursors.secondLoad
  by_cases wraps : cursors.index + length > cursors.right
  · rw [if_pos wraps] at waits ⊢
    by_cases below : cursors.left + length ≥ cursors.done
    · rw [if_pos below]
      exact .inl rfl
    · have ahead : cursors.done > cursors.index := by simpa [below] using waits
      rw [if_neg below, if_pos ahead]
      exact .inr ⟨_, rfl, rfl⟩
  · rw [if_neg wraps] at waits ⊢
    rw [Bool.and_eq_true, decide_eq_true_eq, decide_eq_true_eq] at waits
    rw [if_pos waits.1, if_pos waits.2]
    exact .inr ⟨_, rfl, rfl⟩

theorem step_stalled (action : Action) (stalled : Stalled endpoint)
    (taken : endpoint.step action = some after) : Stalled after := by
  obtain ⟨msg, buf, wrId, imm, loop, holder, waits, inside, asleep⟩ :=
    waiting_cases stalled.waiting
  obtain ⟨delivered, unhandled, forward, rx, receiving⟩ := stalled.drained
  have queues := step_queues action stalled.queues taken
  cases critical : action.critical with
  | false =>
      obtain ⟨lock, -, posted, -, quiet, allocator, kept⟩ :=
        step_not_critical action critical taken
      have notRecv : action ≠ .recv := by
        intro same
        subst same
        obtain ⟨pair, rest, -, queue, -⟩ := recv_cases taken
        rw [rx] at queue
        cases queue
      have notFinish : action ≠ .finish := by
        intro same
        subst same
        obtain ⟨pair, recvBuf, slice, some, -⟩ := finish_cases taken
        rw [receiving] at some
        cases some
      refine ⟨queues, ?_, ?_⟩
      · have same := stalled.waiting
        unfold Endpoint.waiting at same ⊢
        rw [lock, allocator notFinish]
        exact same
      · -- no completion arrives, so none is dispatched
        have arrivals := step_arrivals action stalled.queues taken
        have grown := step_handled action taken
        have before := stalled.queues.handled
        have now := queues.handled
        rw [(quiet notRecv).2] at now
        rw [rx, forward, Option.toList_none, List.length_nil] at before
        refine ⟨?_, by omega, ?_, ?_, ?_⟩
        · rw [(step_posted action taken).1, posted]
          exact delivered
        · apply Option.toList_eq_nil_iff.mp
          apply List.length_eq_zero_iff.mp
          omega
        · apply List.length_eq_zero_iff.mp
          omega
        · rw [kept notRecv notFinish]
          exact receiving
  | true =>
      cases action with
      | remoteFirst =>
          obtain ⟨msg', buf', wrId', imm', holder', rfl⟩ := remoteFirst_cases taken
          rw [holder] at holder'
          cases holder'
          refine ⟨queues, ?_, stalled.drained⟩
          rcases waits_loads _ _ waits with asleep' | ⟨first, tested, asleep'⟩
          · simp only [Endpoint.waiting, waits, asleep', Bool.and_self]
          · simp only [Endpoint.waiting, waits, tested, asleep', decide_true, Bool.and_self]
      | remoteSecond =>
          obtain ⟨msg', buf', wrId', imm', first, holder', rfl⟩ := remoteSecond_cases taken
          rw [holder] at holder'
          cases holder'
          refine ⟨queues, ?_, stalled.drained⟩
          have asleep' := asleep first rfl
          simp only [Endpoint.waiting, waits, asleep', Bool.and_self]
      | takeLock i =>
          obtain ⟨msg', buf', wrId', addr, free, -⟩ := takeLock_cases taken
          rw [holder] at free
          cases free
      | load =>
          obtain ⟨msg', buf', wrId', holder', -⟩ := load_cases taken
          rw [holder] at holder'
          cases holder'
      | count =>
          obtain ⟨msg', buf', wrId', holder', -⟩ := count_cases taken
          rw [holder] at holder'
          cases holder'
      | popNotice =>
          obtain ⟨msg', buf', wrId', holder', -⟩ := popNotice_cases taken
          rw [holder] at holder'
          cases holder'
      | allocRemote =>
          obtain ⟨msg', buf', wrId', imm', holder', -⟩ := allocRemote_cases taken
          rw [holder] at holder'
          cases holder'
          exact absurd rfl inside
      | post =>
          obtain ⟨msg', buf', wrId', imm', remote, holder', -⟩ := post_cases taken
          rw [holder] at holder'
          cases holder'
      | postFail errno =>
          obtain ⟨msg', buf', wrId', imm', remote, holder', -⟩ := postFail_cases taken
          rw [holder] at holder'
          cases holder'
      | _ => cases critical

end Endpoint

namespace System

/-- In alloc's wait, now and whatever either endpoint does. -/
def Stuck (system : System) (side : Side) : Prop :=
  ∀ later, Runs.Run step Runs.Any system later → (later side).waiting = true

theorem run_stalled {system later : System} (stalled : ∀ side, (system side).Stalled)
    (run : Runs.Run step Runs.Any system later) : ∀ side, (later side).Stalled := by
  refine pairwise (fun _ mine _ => mine.Stalled) (unrestricted run) stalled ?_ ?_ ?_
  · intro side mine peer action after stalled stalled' _ taken
    exact ⟨Endpoint.step_stalled action stalled taken, stalled'⟩
  · intro side sender receiver i both stalled stalled' taken
    obtain ⟨request, data, -, -, -, rfl⟩ := writeData_cases taken
    exact ⟨⟨{ stalled.queues with }, stalled.waiting, stalled.drained⟩,
      ⟨{ stalled'.queues with }, stalled'.waiting, stalled'.drained⟩⟩
  · intro side sender receiver both stalled stalled' taken
    obtain ⟨request, entry, -⟩ := deliverNext_cases taken
    have below := (List.getElem?_eq_some_iff.mp entry).1
    have delivered := stalled.drained.1
    omega

theorem stuck_of_waiting {recvMr sendMr : Side → MR} {system : System}
    (run : Runs.Run step Runs.Any (new recvMr sendMr) system)
    (rest : ∀ side, Endpoint.AtRest (system side) (system side.other))
    (waiting : ∀ side, (system side).waiting = true) (side : Side) : system.Stuck side := by
  have stalled : ∀ side, (system side).Stalled := fun side =>
    ⟨(run_counts run side).queues, waiting side, (rest side).1⟩
  intro later onward
  exact (run_stalled stalled onward side).waiting

/-- No mutual blocking. At rest, the two endpoints are not both stuck exactly as long as
they are not both in alloc's wait with its condition true. -/
theorem not_both_stuck_iff (recvMr sendMr : Side → MR) (system : System)
    (run : Runs.Run step Runs.Any (new recvMr sendMr) system)
    (rest : ∀ side, Endpoint.AtRest (system side) (system side.other)) :
    ¬ (system.Stuck .client ∧ system.Stuck .server) ↔
      ¬ ((system .client).waiting = true ∧ (system .server).waiting = true) := by
  apply not_congr
  constructor
  · rintro ⟨client, server⟩
    exact ⟨client system .refl, server system .refl⟩
  · rintro ⟨client, server⟩
    have waiting : ∀ side, (system side).waiting = true := by
      intro side
      cases side
      · exact client
      · exact server
    exact ⟨stuck_of_waiting run rest waiting .client, stuck_of_waiting run rest waiting .server⟩

/-- One 40 MiB message each way, posted by both sides before either executes, so that no
notice rides on either. Both are then returned and released, and retired. -/
def exchange : List Action :=
  let large : IoSlice := ⟨0x2800000, fun _ => 0⟩
  let posts (side : Side) := (Endpoint.sendSteps large).map (Action.own side)
  let executes (side : Side) := [.own side (.fetch 0), .own side .ack, .write side 0]
  let answers (side : Side) := [Endpoint.Action.poll 2, .dispatch, .dispatch, .sendPair, .recv,
    .finish, .release, .popRelease, .releaseDone].map (Action.own side)
  posts .client ++ posts .server ++ executes .client ++ executes .server ++
    [.deliver .client, .deliver .server] ++ answers .client ++ answers .server

def nextSend (side : Side) : List Action :=
  ((Endpoint.sendSteps ⟨0x1e00000, fun _ => 0⟩).take 11).map (Action.own side)

theorem not_both_stuck_one_call : ∃ system,
    Runs.Run step Runs.Any (new (fun _ => sampleMr) (fun _ => sampleMr)) system ∧
      (system .client).waiting = true ∧ ¬ (system.Stuck .client ∧ system.Stuck .server) := by
  let later : List Action := [.own .server (.call [⟨0x1e00000, fun _ => 0⟩])]
  obtain ⟨system, run, reached⟩ : ∃ system,
      Runs.Run step Runs.Any (new (fun _ => sampleMr) (fun _ => sampleMr)) system ∧
        decide (Endpoint.AtRest (system .client) (system .server) ∧
          Endpoint.AtRest (system .server) (system .client) ∧
          (system .client).waiting = true ∧ (system .server).waiting = false) = true :=
    Runs.Run.exists_of_exec _ (exchange ++ nextSend .client ++ later) (by decide +kernel)
  obtain ⟨client, server, waits, goes⟩ := of_decide_eq_true reached
  refine ⟨system, run, waits, ?_⟩
  apply (not_both_stuck_iff _ _ system run ?_).mpr
  · rintro ⟨-, waits'⟩
    rw [goes] at waits'
    cases waits'
  · intro side
    cases side
    · exact client
    · exact server

/-- After an exchange of 40 MiB messages each side owes the other the notice of it. Both
next calls pop that notice and then wait in `alloc`, each for the notice that the other
has popped. -/
theorem both_stuck : ∃ system,
    Runs.Run step Runs.Any (new (fun _ => sampleMr) (fun _ => sampleMr)) system ∧
      (∀ side, Endpoint.AtRest (system side) (system side.other)) ∧
      system.Stuck .client ∧ system.Stuck .server := by
  obtain ⟨system, run, reached⟩ : ∃ system,
      Runs.Run step Runs.Any (new (fun _ => sampleMr) (fun _ => sampleMr)) system ∧
        decide (Endpoint.AtRest (system .client) (system .server) ∧
          Endpoint.AtRest (system .server) (system .client) ∧
          (system .client).waiting = true ∧ (system .server).waiting = true) = true :=
    Runs.Run.exists_of_exec _ (exchange ++ nextSend .client ++ nextSend .server)
      (by decide +kernel)
  obtain ⟨client, server, waits, waits'⟩ := of_decide_eq_true reached
  have rest : ∀ side, Endpoint.AtRest (system side) (system side.other) := by
    intro side
    cases side
    · exact client
    · exact server
  have waiting : ∀ side, (system side).waiting = true := by
    intro side
    cases side
    · exact waits
    · exact waits'
  exact ⟨system, run, rest, stuck_of_waiting run rest waiting .client,
    stuck_of_waiting run rest waiting .server⟩

end System

end Ibv
