import Ibv.Burst

set_option autoImplicit false

namespace Ibv

open Direction (sampleMr)

/-- `sending` is lowered by what this endpoint receives, the peer's receive queue refilled by
what the peer handles. A message is either an answer, counted while `sending` is negative, or
sent when no more messages have been received than the peer has handled. -/
def Endpoint.FlowControlled (mine peer : Endpoint) : Endpoint.Action → Prop
  | .count => mine.sending < 0 ∨ mine.received ≤ peer.handled
  | _ => True

def System.flowChecked (system : System) : System.Action → Bool
  | .own side .count => decide ((system side).sending < 0 ∨
      (system side).received ≤ (system side.other).handled)
  | _ => true

theorem System.flowChecked_sound (system : System) (action : System.Action)
    (checked : system.flowChecked action = true) :
    System.Allowed Endpoint.FlowControlled system action := by
  cases action with
  | own side action =>
      cases action with
      | count =>
          have below := of_decide_eq_true checked
          exact below
      | _ => trivial
  | write side i => trivial
  | deliver side => trivial

namespace Endpoint

variable {endpoint after : Endpoint}

theorem step_counted (action : Action) (other : action ≠ .count)
    (taken : endpoint.step action = some after) : after.counted = endpoint.counted := by
  cases critical : action.critical with
  | false => exact (step_not_critical action critical taken).2.1
  | true =>
      cases action with
      | takeLock i =>
          obtain ⟨msg, buf, wrId, addr, -, -, rfl⟩ := takeLock_cases taken
          rfl
      | load =>
          obtain ⟨msg, buf, wrId, -, -, rfl⟩ := load_cases taken
          rfl
      | count => exact absurd rfl other
      | popNotice =>
          obtain ⟨msg, buf, wrId, -, rfl⟩ := popNotice_cases taken
          rfl
      | remoteFirst =>
          obtain ⟨msg, buf, wrId, imm, -, rfl⟩ := remoteFirst_cases taken
          rfl
      | remoteSecond =>
          obtain ⟨msg, buf, wrId, imm, first, -, rfl⟩ := remoteSecond_cases taken
          rfl
      | allocRemote =>
          obtain ⟨msg, buf, wrId, imm, -, rfl⟩ := allocRemote_cases taken
          rfl
      | post =>
          obtain ⟨msg, buf, wrId, imm, remote, -, -, rfl⟩ := post_cases taken
          rfl
      | postFail errno =>
          obtain ⟨msg, buf, wrId, imm, remote, -, rfl⟩ := postFail_cases taken
          rfl
      | _ => cases critical

end Endpoint

namespace System

/-- A message that is sent on an endpoint's own account is kept below the bound by the limit
on its `sending`, an answer by the limit on the peer's. -/
theorem count_controlled {mine peer after : Endpoint} (counts : Counts mine peer)
    (back : Counts peer mine) (allowed : mine.FlowControlled peer .count)
    (taken : mine.step .count = some after) :
    after.counted ≤ defaultRqeCount + peer.handled := by
  obtain ⟨msg, buf, wrId, holder, rfl⟩ := Endpoint.count_cases taken
  have balance := counts.counting.balance
  dsimp only
  rcases allowed with answer | few
  · -- what is answered the peer has counted, and has been ahead of what it received by the limit
    have asked := counts.causal back
    have balance' := back.counting.balance
    have upper' := back.counting.upper
    have handled := back.queues.handled
    unfold maxSending at upper'
    omega
  · have below := counts.counting.guard msg buf wrId holder
    unfold maxSending at below
    omega

/-- The counted messages of an endpoint are bounded by what its peer has handled. -/
theorem run_controlled {recvMr sendMr : Side → MR} {system : System}
    (run : Runs.Run step (Allowed Endpoint.FlowControlled) (new recvMr sendMr) system)
    (side : Side) : Counts (system side) (system side.other) ∧
      (system side).counted ≤ defaultRqeCount + (system side.other).handled := by
  refine pairwise (fun _ mine peer =>
    Counts mine peer ∧ mine.counted ≤ defaultRqeCount + peer.handled) run ?_ ?_ ?_ ?_ side
  · intro side
    have start : Runs.Run step Runs.Any (new recvMr sendMr) (new recvMr sendMr) := .refl
    exact ⟨run_counts start side, Nat.zero_le _⟩
  · intro side mine peer action after forth back allowed taken
    obtain ⟨counts, counts'⟩ := forth.1.own_step action back.1 taken
    refine ⟨⟨counts, ?_⟩, counts', ?_⟩
    · by_cases counting : action = .count
      · subst counting
        exact count_controlled forth.1 back.1 allowed taken
      · rw [Endpoint.step_counted action counting taken]
        exact forth.2
    · have grown := Endpoint.step_handled action taken
      have bound := back.2
      omega
  · intro side sender receiver i both forth back taken
    obtain ⟨counts, counts'⟩ := forth.1.write_step back.1 taken
    obtain ⟨request, data, -, -, -, rfl⟩ := writeData_cases taken
    exact ⟨⟨counts, forth.2⟩, counts', back.2⟩
  · intro side sender receiver both forth back taken
    obtain ⟨counts, counts'⟩ := forth.1.deliver_step back.1 taken
    obtain ⟨request, -, -, -, rfl⟩ := deliverNext_cases taken
    exact ⟨⟨counts, forth.2⟩, counts', back.2⟩

/-- Flow control of the receive queue. Each message answers one, or is sent when no more have
been received than the peer has handled. -/
theorem receive_queue_flow (recvMr sendMr : Side → MR) (system : System)
    (run : Runs.Run step (Allowed Endpoint.FlowControlled) (new recvMr sendMr) system)
    (side : Side) :
    (system side).posted.length ≤ (system side.other).handled + defaultRqeCount ∧
      ((system side).delivered < (system side).posted.length →
        0 < (system side.other).receives) := by
  obtain ⟨counts, bound⟩ := run_controlled run side
  have back := (run_controlled run side.other).1
  rw [Side.other_other] at back
  have posted := counts.counting.posted
  have arrived := back.arrived
  have credits := back.queues.credits
  omega

/-- A request of one byte and its answer. -/
def requestAndAnswer : List Action :=
  (Endpoint.sendSteps Endpoint.oneByte).map (.own .client) ++
    [.own .client (.fetch 0), .write .client 0, .deliver .client] ++
    [.poll 1, .dispatch, .sendPair, .recv, .finish].map (.own .server) ++
    (Endpoint.sendSteps Endpoint.oneByte).map (.own .server)

theorem receive_queue_flow_answer :
    ∃ system, Runs.Run step (Allowed Endpoint.FlowControlled)
        (new (fun _ => sampleMr) (fun _ => sampleMr)) system ∧
      (system .server).posted.length = 1 ∧ 0 < (system .client).receives := by
  obtain ⟨system, run, reached⟩ : ∃ system, Runs.Run step (Allowed Endpoint.FlowControlled)
      (new (fun _ => sampleMr) (fun _ => sampleMr)) system ∧
        decide ((system .server).posted.length = 1 ∧ (system .server).delivered = 0) = true :=
    Runs.Run.exists_of_execChecked flowChecked _ flowChecked_sound requestAndAnswer
      (by decide +kernel)
  obtain ⟨posted, delivered⟩ := of_decide_eq_true reached
  refine ⟨system, run, posted, ?_⟩
  apply (receive_queue_flow _ _ system run .server).2
  rw [posted, delivered]
  decide

end System

namespace Endpoint

/-- After `polling` and `recv_msg` have taken in the only completion, that of a message. -/
def receivedOne (endpoint : Endpoint) (wc : WC) : Endpoint :=
  { endpoint with
    receives := endpoint.receives + 1
    cq := []
    polled := []
    forward := none
    rx := []
    receiving := some wc.pair
    handled := endpoint.handled + 1
    sending := fetchAddI32 endpoint.sending (-1)
    received := endpoint.received + 1 }

/-- After `polling` has taken in the oldest completion, that of a send. -/
def reaped (endpoint : Endpoint) (wc : WC) (rest : List WC) : Endpoint :=
  { endpoint with
    sendRing := { endpoint.sendRing with buffer := endpoint.sendRing.buffer.clear wc.wrId }
    cq := rest
    polled := []
    forward := none }

theorem exec_receive (endpoint : Endpoint) (wc : WC) (credits : endpoint.receives < maxQpWr)
    (cq : endpoint.cq = [wc]) (code : wc.opcode = .writeWithImm) (polled : endpoint.polled = [])
    (forward : endpoint.forward = none) (rx : endpoint.rx = [])
    (receiving : endpoint.receiving = none) :
    Runs.exec step endpoint [.poll 1, .dispatch, .sendPair, .recv] =
      some (endpoint.receivedOne wc) := by
  have batch : 1 ≤ 100 ∧ 1 ≤ [wc].length := ⟨by decide, Nat.le_refl 1⟩
  have room : 0 < defaultRqeCount := by decide
  simp only [Runs.exec_cons, Runs.exec_nil, step, poll, polled, forward, cq, batch, and_self,
    ↓reduceIte, Option.bind_some, dispatch, List.take_succ_cons, List.take_zero,
    List.drop_succ_cons, List.drop_zero, code, postNullRecv, rqUsed, List.countP_nil, Nat.add_zero,
    credits, sendPair, rx, List.length_nil, room, recv, receiving, List.nil_append]
  rfl

theorem exec_reap (endpoint : Endpoint) (wc : WC) (rest : List WC)
    (cq : endpoint.cq = wc :: rest) (code : wc.opcode = .write) (polled : endpoint.polled = [])
    (forward : endpoint.forward = none) :
    Runs.exec step endpoint [.poll 1, .dispatch] = some (endpoint.reaped wc rest) := by
  have batch : 1 ≤ 100 ∧ 1 ≤ (wc :: rest).length := ⟨by decide, Nat.succ_pos _⟩
  simp only [Runs.exec_cons, Runs.exec_nil, step, poll, polled, forward, cq, batch, and_self,
    ↓reduceIte, Option.bind_some, dispatch, List.take_succ_cons, List.take_zero,
    List.drop_succ_cons, List.drop_zero, code]
  rfl

/-- Both rings and the queue of the release task take `n` more messages of one byte. -/
structure Roomy (endpoint : Endpoint) (n : Nat) : Prop where
  localRoom : endpoint.sendRing.buffer.index + n ≤ endpoint.sendRing.buffer.right
  queue : endpoint.sendRing.buffer.toRelease.length + n ≤ 2 * defaultRqeCount
  remoteRoom : endpoint.allocator.index + n ≤ endpoint.allocator.right

/-- One completion polled frees a slot of a full send queue for one more message. -/
theorem Sent.reaped_ready {before after : Endpoint} {wc : WC} {rest : List WC}
    (sent : Sent before after maxQpWr) (done : after.Primed 0)
    (roomy : before.Roomy (maxQpWr + 1)) (below : after.sending < maxSending)
    (cq : rest.length + 1 = maxQpWr) : (after.reaped wc rest).Ready oneByte where
  calls := done.calls
  allocating := done.allocating
  copying := done.copying
  lock := done.lock
  small := by decide
  localOrder := done.localOrder
  localRoom := by
    have room := roomy.localRoom
    change after.sendRing.buffer.index + 1 ≤ after.sendRing.buffer.right
    rw [sent.localIndex, sent.localRight]
    omega
  queue := by
    have queue := roomy.queue
    change after.sendRing.buffer.toRelease.length < 2 * defaultRqeCount
    rw [sent.queue]
    omega
  remoteOrder := done.remoteOrder
  remoteRoom := by
    have room := roomy.remoteRoom
    change after.allocator.index + 1 ≤ after.allocator.right
    rw [sent.remoteIndex, sent.remoteRight]
    omega
  below := below
  slot := by
    have acked := done.acked
    have few := List.countP_le_length (p := WC.isSend) (l := rest)
    unfold sqUsed reaped
    dsimp only
    omega

theorem Primed.receivedOne {endpoint : Endpoint} (primed : endpoint.Primed maxQpWr)
    (zero : endpoint.sending = 0) (wc : WC) :
    (endpoint.receivedOne wc).sending = -1 ∧ (endpoint.receivedOne wc).Primed maxQpWr := by
  have lowered : (endpoint.receivedOne wc).sending = -1 := by
    change fetchAddI32 endpoint.sending (-1) = -1
    rw [zero]
    decide
  refine ⟨lowered, { primed with lower := ?_, upper := ?_, slots := ?_ }⟩
  · rw [lowered]
    decide
  · rw [lowered]
    decide
  · have acked := primed.acked
    unfold sqUsed Endpoint.receivedOne
    dsimp only
    simp only [acked, Nat.sub_self, List.countP_nil, Nat.zero_add, Nat.le_refl]

end Endpoint

namespace System

theorem server_speaks_first : ∃ (client server : Endpoint) (wc : WC),
    Runs.Run step Runs.Any (new (fun _ => sampleMr) (fun _ => sampleMr))
        (join .client (client.receivedOne wc) server) ∧
      (client.receivedOne wc).Primed maxQpWr ∧ client.Roomy (maxQpWr + 1) ∧
      (client.receivedOne wc).sending = -1 ∧ client.posted = [] ∧
      server.receives = maxQpWr ∧ server.handled = 0 := by
  let start := new (fun _ => sampleMr) (fun _ => sampleMr)
  obtain ⟨server, client, run, sent, -, delivered⟩ := burst .server 1
    ((new_primed .server).mono (by decide)) (show 1 ≤ (start .client).receives by decide)
  obtain ⟨added, same, count, kinds⟩ := delivered.completed
  obtain ⟨wc, rfl⟩ := List.length_eq_one_iff.mp count
  have credits : client.receives < maxQpWr := by
    have spent := delivered.receives
    change client.receives + 1 = maxQpWr at spent
    omega
  have shape := delivered.same
  have receive := Endpoint.exec_receive client wc credits same
    (kinds wc (List.mem_singleton_self wc)) (by rw [shape]; rfl) (by rw [shape]; rfl)
    (by rw [shape]; rfl) (by rw [shape]; rfl)
  obtain ⟨lowered, primed⟩ := (delivered.primed (new_primed .client)).receivedOne
    (by rw [shape]; rfl) wc
  have roomy : (start .client).Roomy (maxQpWr + 1) :=
    ⟨by decide +kernel, by decide +kernel, by decide +kernel⟩
  refine ⟨client, server, wc, ?_, primed, ?_, lowered, ?_, sent.receives, sent.handled⟩
  · change Runs.Run step Runs.Any start _
    rw [← join_eq .server start]
    refine run.trans ?_
    rw [← join_swap .server server client]
    exact run_own .client _ receive
  · rw [shape]
    exact { roomy with }
  · rw [shape]
    rfl

/-- With its counter at -1 the client may send 16385 messages, while the server has handled
none and its receive queue is empty. -/
theorem receive_queue_runs_empty :
    ∃ system, Runs.Run step Runs.Any (new (fun _ => sampleMr) (fun _ => sampleMr)) system ∧
      (system .server).handled + defaultRqeCount < (system .client).posted.length ∧
      (system .client).delivered < (system .client).posted.length ∧
      (system .server).receives = 0 := by
  obtain ⟨client, server, wc, run, primed, roomy, negative, fresh, ready, unhandled⟩ :=
    server_speaks_first
  obtain ⟨client', server', run', sent, done, delivered⟩ :=
    burst .client maxQpWr primed (Nat.le_of_eq ready.symm)
  obtain ⟨added, cq, count, kinds⟩ := sent.completed
  obtain ⟨first, rest, rfl⟩ := List.exists_cons_of_length_pos
    (show 0 < added.length by rw [count]; decide)
  have reap := Endpoint.exec_reap client' first rest cq (kinds first List.mem_cons_self)
    sent.polled sent.forward
  have below : client'.sending < maxSending := by
    rw [sent.sending, negative]
    decide
  have last := Endpoint.exec_send (client'.reaped first rest) Endpoint.oneByte
    (sent.reaped_ready done { roomy with } below count)
  have before : client'.posted.length = maxQpWr := by
    rw [sent.posted]
    change client.posted.length + maxQpWr = maxQpWr
    rw [fresh]
    exact Nat.zero_add _
  have posted : ((client'.reaped first rest).sent Endpoint.oneByte).posted.length =
      maxQpWr + 1 := by
    rw [← before]
    exact List.length_append
  have executed : ((client'.reaped first rest).sent Endpoint.oneByte).delivered = maxQpWr :=
    done.delivered.trans before
  have handled : server'.handled = 0 := by
    rw [delivered.same]
    exact unhandled
  have empty : server'.receives = 0 := by
    have spent := delivered.receives
    omega
  refine ⟨join .client ((client'.reaped first rest).sent Endpoint.oneByte) server', ?_, ?_, ?_, ?_⟩
  · exact run.trans (run'.trans ((run_own .client _ reap).trans (run_own .client _ last)))
  · rw [join_self, posted, show Side.server = Side.client.other from rfl, join_other, handled]
    decide
  · rw [join_self, posted, executed]
    exact Nat.lt_succ_self _
  · rw [show Side.server = Side.client.other from rfl, join_other]
    exact empty

end System

end Ibv
