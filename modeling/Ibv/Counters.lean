import Ibv.System

set_option autoImplicit false

namespace Ibv

namespace Endpoint

/-- Receive completions that `polling` has not dispatched. -/
def unhandled (endpoint : Endpoint) : Nat :=
  endpoint.polled.countP WC.isRecv + endpoint.cq.countP WC.isRecv

/-- Queue depths: the send queue is bounded by the post, the receive queue by the number
of receives first posted, each replaced when its completion is dispatched. -/
structure Queues (endpoint : Endpoint) : Prop where
  handled : endpoint.received + endpoint.rx.length + endpoint.forward.toList.length =
    endpoint.handled
  acked : endpoint.acked ≤ endpoint.posted.length
  slots : endpoint.sqUsed ≤ maxQpWr
  credits : endpoint.receives + endpoint.unhandled = defaultRqeCount
  kinds : ∀ wc ∈ endpoint.cq, wc.isRecv = !wc.isSend

variable {endpoint after : Endpoint}

theorem new_queues (recvMr sendMr : MR) (remoteMr : RemoteMR) :
    Queues (new recvMr sendMr remoteMr) where
  handled := rfl
  acked := Nat.le_refl _
  slots := Nat.zero_le _
  credits := rfl
  kinds := by
    intro wc member
    cases member

theorem Queues.completions (queues : Queues endpoint) :
    endpoint.cq.length = endpoint.cq.countP WC.isSend + endpoint.cq.countP WC.isRecv := by
  rw [List.length_eq_countP_add_countP WC.isSend]
  congr 1
  apply List.countP_congr
  intro wc member
  rw [queues.kinds wc member]
  cases wc.isSend <;> decide

theorem post_queues (queues : Queues endpoint) (taken : endpoint.post = some after) :
    Queues after := by
  obtain ⟨msg, buf, wrId, imm, remote, holder, room, rfl⟩ := post_cases taken
  have acked := queues.acked
  refine { queues with acked := ?_, slots := ?_ }
  · simp only [List.length_append, List.length_singleton]
    omega
  · unfold sqUsed at room ⊢
    simp only [List.length_append, List.length_singleton]
    omega

theorem ack_queues (queues : Queues endpoint) (taken : endpoint.ack = some after) :
    Queues after := by
  obtain ⟨request, data, entry, fetched, rfl⟩ := ack_cases taken
  have below := (List.getElem?_eq_some_iff.mp entry).1
  have slots := queues.slots
  have credits := queues.credits
  have isSend : WC.isSend request.sendWc = true := rfl
  have notRecv : WC.isRecv request.sendWc = false := rfl
  refine { queues with acked := below, slots := ?_, credits := ?_, kinds := ?_ }
  · unfold sqUsed at slots ⊢
    simp only [List.countP_append, List.countP_singleton, isSend, ↓reduceIte]
    omega
  · unfold unhandled at credits ⊢
    simp only [List.countP_append, List.countP_singleton, notRecv, Bool.false_eq_true, ↓reduceIte]
    omega
  · intro wc member
    rcases List.mem_append.mp member with old | new
    · exact queues.kinds wc old
    · rw [List.mem_singleton.mp new]
      rfl

theorem poll_queues {n : Nat} (queues : Queues endpoint) (taken : endpoint.poll n = some after) :
    Queues after := by
  obtain ⟨idle, free, few, enough, rfl⟩ := poll_cases taken
  have slots := queues.slots
  have credits := queues.credits
  have sends : endpoint.cq.countP WC.isSend =
      (endpoint.cq.take n).countP WC.isSend + (endpoint.cq.drop n).countP WC.isSend := by
    rw [← List.countP_append, List.take_append_drop]
  have recvs : endpoint.cq.countP WC.isRecv =
      (endpoint.cq.take n).countP WC.isRecv + (endpoint.cq.drop n).countP WC.isRecv := by
    rw [← List.countP_append, List.take_append_drop]
  refine { queues with slots := ?_, credits := ?_, kinds := ?_ }
  · unfold sqUsed at slots ⊢
    dsimp only
    omega
  · unfold unhandled at credits ⊢
    rw [idle, List.countP_nil] at credits
    dsimp only
    omega
  · intro wc member
    exact queues.kinds wc (List.mem_of_mem_drop member)

theorem Queues.postNullRecv {wc : WC} {rest : List WC} (queues : Queues endpoint)
    (batch : endpoint.polled = wc :: rest) (isRecv : wc.isRecv = true) :
    endpoint.postNullRecv = { endpoint with receives := endpoint.receives + 1 } := by
  have credits := queues.credits
  have room : endpoint.rqUsed < maxQpWr := by
    unfold unhandled at credits
    rw [batch, List.countP_cons_of_pos isRecv] at credits
    unfold rqUsed
    unfold defaultRqeCount at credits
    omega
  rw [Endpoint.postNullRecv, if_pos room]

theorem dispatch_queues (queues : Queues endpoint) (taken : endpoint.dispatch = some after) :
    Queues after := by
  obtain ⟨wc, rest, free, batch, cases⟩ := dispatch_cases taken
  have credits := queues.credits
  have handled := queues.handled
  rcases cases with ⟨code, rfl⟩ | ⟨code, rfl⟩ | ⟨notRecv, notSend, rfl⟩
  · have isRecv : wc.isRecv = true := decide_eq_true code
    rw [queues.postNullRecv batch isRecv]
    rw [free, Option.toList_none, List.length_nil] at handled
    refine { queues with handled := ?_, credits := ?_ }
    · dsimp only [Option.toList_some, List.length_singleton]
      omega
    · unfold unhandled at credits ⊢
      rw [batch, List.countP_cons_of_pos isRecv] at credits
      dsimp only
      omega
  · have notRecv : wc.isRecv = false := decide_eq_false (by rw [code]; decide)
    refine { queues with credits := ?_ }
    unfold unhandled at credits ⊢
    rw [batch, List.countP_cons, notRecv] at credits
    exact credits
  · have notRecv : wc.isRecv = false := decide_eq_false notRecv
    refine { queues with credits := ?_ }
    unfold unhandled at credits ⊢
    rw [batch, List.countP_cons, notRecv] at credits
    exact credits

theorem sendPair_queues (queues : Queues endpoint) (taken : endpoint.sendPair = some after) :
    Queues after := by
  obtain ⟨pair, sending, room, rfl⟩ := sendPair_cases taken
  have handled := queues.handled
  rw [sending, Option.toList_some, List.length_singleton] at handled
  refine { queues with handled := ?_ }
  simp only [List.length_append, List.length_singleton, Option.toList_none, List.length_nil]
  omega

theorem recv_queues (queues : Queues endpoint) (taken : endpoint.recv = some after) :
    Queues after := by
  obtain ⟨pair, rest, idle, queue, rfl⟩ := recv_cases taken
  have handled := queues.handled
  rw [queue, List.length_cons] at handled
  refine { queues with handled := ?_ }
  dsimp only
  omega

theorem step_queues (action : Action) (queues : Queues endpoint)
    (taken : endpoint.step action = some after) : Queues after := by
  cases queueing : action.queueing with
  | false =>
      obtain ⟨state, rfl⟩ := step_not_queueing action queueing taken
      exact { queues with }
  | true =>
      cases action with
      | post => exact post_queues queues taken
      | ack => exact ack_queues queues taken
      | poll n => exact poll_queues queues taken
      | dispatch => exact dispatch_queues queues taken
      | sendPair => exact sendPair_queues queues taken
      | recv => exact recv_queues queues taken
      | _ => cases queueing

/-- Posting is the only step that adds to `posted`; none removes or delivers. -/
theorem step_posted (action : Action) (taken : endpoint.step action = some after) :
    after.delivered = endpoint.delivered ∧ ∃ added, after.posted = endpoint.posted ++ added := by
  cases queueing : action.queueing with
  | false =>
      obtain ⟨state, rfl⟩ := step_not_queueing action queueing taken
      exact ⟨rfl, [], (List.append_nil _).symm⟩
  | true =>
      cases action with
      | post =>
          obtain ⟨msg, buf, wrId, imm, remote, -, -, rfl⟩ := post_cases taken
          exact ⟨rfl, _, rfl⟩
      | ack =>
          obtain ⟨request, data, -, -, rfl⟩ := ack_cases taken
          exact ⟨rfl, [], (List.append_nil _).symm⟩
      | poll n =>
          obtain ⟨-, -, -, -, rfl⟩ := poll_cases taken
          exact ⟨rfl, [], (List.append_nil _).symm⟩
      | dispatch =>
          obtain ⟨wc, rest, -, -, branches⟩ := dispatch_cases taken
          rcases branches with ⟨-, rfl⟩ | ⟨-, rfl⟩ | ⟨-, -, rfl⟩
          · unfold postNullRecv
            split <;> exact ⟨rfl, [], (List.append_nil _).symm⟩
          · exact ⟨rfl, [], (List.append_nil _).symm⟩
          · exact ⟨rfl, [], (List.append_nil _).symm⟩
      | sendPair =>
          obtain ⟨pair, -, -, rfl⟩ := sendPair_cases taken
          exact ⟨rfl, [], (List.append_nil _).symm⟩
      | recv =>
          obtain ⟨pair, rest, -, -, rfl⟩ := recv_cases taken
          exact ⟨rfl, [], (List.append_nil _).symm⟩
      | _ => cases queueing

theorem step_written (action : Action) (taken : endpoint.step action = some after) :
    after.written = endpoint.written := by
  cases queueing : action.queueing with
  | false =>
      obtain ⟨state, rfl⟩ := step_not_queueing action queueing taken
      rfl
  | true =>
      cases action with
      | post =>
          obtain ⟨msg, buf, wrId, imm, remote, -, -, rfl⟩ := post_cases taken
          rfl
      | ack =>
          obtain ⟨request, data, -, -, rfl⟩ := ack_cases taken
          rfl
      | poll n =>
          obtain ⟨-, -, -, -, rfl⟩ := poll_cases taken
          rfl
      | dispatch =>
          obtain ⟨wc, rest, -, -, branches⟩ := dispatch_cases taken
          rcases branches with ⟨-, rfl⟩ | ⟨-, rfl⟩ | ⟨-, -, rfl⟩
          · unfold postNullRecv
            split <;> rfl
          · rfl
          · rfl
      | sendPair =>
          obtain ⟨pair, -, -, rfl⟩ := sendPair_cases taken
          rfl
      | recv =>
          obtain ⟨pair, rest, -, -, rfl⟩ := recv_cases taken
          rfl
      | _ => cases queueing

theorem step_arrivals (action : Action) (queues : Queues endpoint)
    (taken : endpoint.step action = some after) :
    after.handled + after.unhandled = endpoint.handled + endpoint.unhandled := by
  cases queueing : action.queueing with
  | false =>
      obtain ⟨state, rfl⟩ := step_not_queueing action queueing taken
      rfl
  | true =>
      cases action with
      | post =>
          obtain ⟨msg, buf, wrId, imm, remote, -, -, rfl⟩ := post_cases taken
          rfl
      | ack =>
          obtain ⟨request, data, -, -, rfl⟩ := ack_cases taken
          have notRecv : WC.isRecv request.sendWc = false := rfl
          simp only [unhandled, List.countP_append, List.countP_singleton, notRecv,
            Bool.false_eq_true, ↓reduceIte, Nat.add_zero]
      | poll n =>
          obtain ⟨idle, -, -, -, rfl⟩ := poll_cases taken
          simp only [unhandled, idle, List.countP_nil, Nat.zero_add]
          rw [← List.countP_append, List.take_append_drop]
      | dispatch =>
          obtain ⟨wc, rest, -, batch, branches⟩ := dispatch_cases taken
          rcases branches with ⟨code, rfl⟩ | ⟨code, rfl⟩ | ⟨other, -, rfl⟩
          · have isRecv : wc.isRecv = true := decide_eq_true code
            rw [queues.postNullRecv batch isRecv]
            unfold unhandled
            rw [batch, List.countP_cons_of_pos isRecv]
            dsimp only
            omega
          · have notRecv : wc.isRecv = false := decide_eq_false (by rw [code]; decide)
            simp only [unhandled, batch, List.countP_cons, notRecv, Bool.false_eq_true, ↓reduceIte,
              Nat.add_zero]
          · have notRecv : wc.isRecv = false := decide_eq_false other
            simp only [unhandled, batch, List.countP_cons, notRecv, Bool.false_eq_true, ↓reduceIte,
              Nat.add_zero]
      | sendPair =>
          obtain ⟨pair, -, -, rfl⟩ := sendPair_cases taken
          rfl
      | recv =>
          obtain ⟨pair, rest, -, -, rfl⟩ := recv_cases taken
          rfl
      | _ => cases queueing

theorem step_handled (action : Action) (taken : endpoint.step action = some after) :
    endpoint.handled ≤ after.handled := by
  cases queueing : action.queueing with
  | false =>
      obtain ⟨state, rfl⟩ := step_not_queueing action queueing taken
      exact Nat.le_refl _
  | true =>
      cases action with
      | post =>
          obtain ⟨msg, buf, wrId, imm, remote, -, -, rfl⟩ := post_cases taken
          exact Nat.le_refl _
      | ack =>
          obtain ⟨request, data, -, -, rfl⟩ := ack_cases taken
          exact Nat.le_refl _
      | poll n =>
          obtain ⟨-, -, -, -, rfl⟩ := poll_cases taken
          exact Nat.le_refl _
      | dispatch =>
          obtain ⟨wc, rest, -, -, branches⟩ := dispatch_cases taken
          rcases branches with ⟨-, rfl⟩ | ⟨-, rfl⟩ | ⟨-, -, rfl⟩
          · exact Nat.le_succ _
          · exact Nat.le_refl _
          · exact Nat.le_refl _
      | sendPair =>
          obtain ⟨pair, -, -, rfl⟩ := sendPair_cases taken
          exact Nat.le_refl _
      | recv =>
          obtain ⟨pair, rest, -, -, rfl⟩ := recv_cases taken
          exact Nat.le_refl _
      | _ => cases queueing

end Endpoint

/-- Between its `fetch_add` and its post a call is counted and not posted. -/
def Stage.charged : Stage → Nat
  | .locked | .admitted => 0
  | .counted | .placing _ _ | .placed _ _ => 1

namespace Endpoint

def charged (endpoint : Endpoint) : Nat :=
  match endpoint.lock with
  | some critical => critical.stage.charged
  | none => 0

/-- What `sending` counts, on one endpoint. -/
structure Counting (endpoint : Endpoint) : Prop where
  posted : endpoint.posted.length + endpoint.charged ≤ endpoint.counted
  balance : endpoint.sending = endpoint.counted - endpoint.received
  guard : ∀ msg buf wrId, endpoint.lock = some ⟨msg, buf, wrId, .admitted⟩ →
    endpoint.sending < maxSending
  upper : endpoint.sending ≤ maxSending

variable {endpoint after : Endpoint}

theorem new_counting (recvMr sendMr : MR) (remoteMr : RemoteMR) :
    Counting (new recvMr sendMr remoteMr) where
  posted := Nat.le_refl _
  balance := rfl
  guard := by
    intro msg buf wrId holder
    cases holder
  upper := by
    change (0 : Int) ≤ maxSending
    decide

theorem Counting.move (counting : Counting endpoint) (counted : after.counted = endpoint.counted)
    (received : after.received = endpoint.received) (sending : after.sending = endpoint.sending)
    (posted : after.posted.length + after.charged ≤ endpoint.posted.length + endpoint.charged)
    (guard : ∀ msg buf wrId, after.lock = some ⟨msg, buf, wrId, .admitted⟩ →
      endpoint.sending < maxSending) : Counting after where
  posted := by
    rw [counted]
    exact Nat.le_trans posted counting.posted
  balance := by
    rw [sending, counted, received]
    exact counting.balance
  guard := by
    rw [sending]
    exact guard
  upper := by
    rw [sending]
    exact counting.upper

/-- As long as the sum stays in the range of the guard, the i32 does not wrap. -/
theorem fetchAddI32_eq {value delta : Int} (lower : -maxSending ≤ value + delta)
    (upper : value + delta ≤ maxSending) : fetchAddI32 value delta = value + delta := by
  unfold maxSending defaultRqeCount maxQpWr at lower upper
  apply Int.bmod_eq_of_le <;> omega

theorem charged_eq {msg : Msg} {buf : LocalBuf} {wrId : Nat} {stage : Stage}
    (holder : endpoint.lock = some ⟨msg, buf, wrId, stage⟩) :
    endpoint.charged = stage.charged := by
  rw [charged, holder]

theorem recv_counting (counting : Counting endpoint) (lower : -maxSending < endpoint.sending)
    (taken : endpoint.step .recv = some after) : Counting after := by
  obtain ⟨pair, rest, -, -, rfl⟩ := recv_cases taken
  have balance := counting.balance
  have upper := counting.upper
  have lowered : fetchAddI32 endpoint.sending (-1) = endpoint.sending + -1 :=
    fetchAddI32_eq (by omega) (by omega)
  refine ⟨counting.posted, ?_, ?_, ?_⟩
  · change fetchAddI32 endpoint.sending (-1) =
      endpoint.counted - (endpoint.received + 1 : Nat)
    omega
  · intro msg buf wrId holder
    have below := counting.guard msg buf wrId holder
    change fetchAddI32 endpoint.sending (-1) < maxSending
    omega
  · change fetchAddI32 endpoint.sending (-1) ≤ maxSending
    omega

theorem count_counting (counting : Counting endpoint) (lower : -maxSending ≤ endpoint.sending)
    (taken : endpoint.step .count = some after) : Counting after := by
  obtain ⟨msg, buf, wrId, holder, rfl⟩ := count_cases taken
  have posted := counting.posted
  have balance := counting.balance
  have below := counting.guard msg buf wrId holder
  have raised : fetchAddI32 endpoint.sending 1 = endpoint.sending + 1 :=
    fetchAddI32_eq (by omega) (by omega)
  rw [charged_eq holder] at posted
  refine ⟨?_, ?_, ?_, ?_⟩
  · exact Nat.add_le_add_right posted 1
  · change fetchAddI32 endpoint.sending 1 = (endpoint.counted + 1 : Nat) - endpoint.received
    omega
  · intro msg buf wrId holder
    cases holder
  · change fetchAddI32 endpoint.sending 1 ≤ maxSending
    omega

theorem step_counting (action : Action) (counting : Counting endpoint)
    (lower : -maxSending ≤ endpoint.sending)
    (unreceived : action = .recv → -maxSending < endpoint.sending)
    (taken : endpoint.step action = some after) : Counting after := by
  cases critical : action.critical with
  | false =>
      obtain ⟨lock, counted, kept, -, quiet, -, -⟩ := step_not_critical action critical taken
      by_cases receives : action = .recv
      · subst receives
        exact recv_counting counting (unreceived rfl) taken
      · obtain ⟨sending, received⟩ := quiet receives
        refine counting.move counted received sending ?_ ?_
        · rw [kept, charged, charged, lock]
        · rw [lock]
          exact counting.guard
  | true =>
      cases action with
      | takeLock i =>
          obtain ⟨msg, buf, wrId, addr, free, -, rfl⟩ := takeLock_cases taken
          refine counting.move rfl rfl rfl ?_ ?_
          · exact Nat.add_le_add_left (Nat.zero_le _) _
          · intro msg buf wrId holder
            cases holder
      | load =>
          obtain ⟨msg, buf, wrId, holder, below, rfl⟩ := load_cases taken
          refine counting.move rfl rfl rfl ?_ ?_
          · exact Nat.add_le_add_left (Nat.zero_le _) _
          · exact fun _ _ _ _ => below
      | count => exact count_counting counting lower taken
      | popNotice =>
          obtain ⟨msg, buf, wrId, holder, rfl⟩ := popNotice_cases taken
          refine counting.move rfl rfl rfl ?_ ?_
          · rw [charged_eq holder]
            exact Nat.le_refl _
          · intro msg buf wrId holder
            cases holder
      | remoteFirst =>
          obtain ⟨msg, buf, wrId, imm, holder, rfl⟩ := remoteFirst_cases taken
          refine counting.move rfl rfl rfl ?_ ?_
          · rw [charged_eq holder]
            exact Nat.le_refl _
          · intro msg buf wrId holder
            cases holder
      | remoteSecond =>
          obtain ⟨msg, buf, wrId, imm, first, holder, rfl⟩ := remoteSecond_cases taken
          refine counting.move rfl rfl rfl ?_ ?_
          · rw [charged_eq holder]
            exact Nat.le_refl _
          · intro msg buf wrId holder
            cases holder
      | allocRemote =>
          obtain ⟨msg, buf, wrId, imm, holder, rfl⟩ := allocRemote_cases taken
          refine counting.move rfl rfl rfl ?_ ?_
          · rw [charged_eq holder]
            exact Nat.le_refl _
          · intro msg buf wrId holder
            cases holder
      | post =>
          obtain ⟨msg, buf, wrId, imm, remote, holder, room, rfl⟩ := post_cases taken
          refine counting.move rfl rfl rfl ?_ ?_
          · rw [charged_eq holder, List.length_append]
            exact Nat.le_refl _
          · intro msg buf wrId holder
            cases holder
      | postFail errno =>
          obtain ⟨msg, buf, wrId, imm, remote, holder, rfl⟩ := postFail_cases taken
          refine counting.move rfl rfl rfl ?_ ?_
          · exact Nat.add_le_add_left (Nat.zero_le _) _
          · intro msg buf wrId holder
            cases holder
      | _ => cases critical

end Endpoint

/-- Both endpoints' counters together: what one has handled or has still to handle was
delivered by its peer. -/
structure Counts (mine peer : Endpoint) : Prop where
  queues : mine.Queues
  counting : mine.Counting
  arrived : mine.handled + mine.unhandled = peer.delivered
  sent : mine.delivered ≤ mine.posted.length

namespace Counts

open Endpoint (step_queues step_counting step_arrivals step_posted)

variable {mine peer after : Endpoint}

theorem causal (counts : Counts mine peer) (back : Counts peer mine) :
    mine.received ≤ peer.counted := by
  have handled := counts.queues.handled
  have arrived := counts.arrived
  have sent := back.sent
  have posted := back.counting.posted
  omega

/-- The lower bound of one counter is the guard of the other endpoint. -/
theorem lower (counts : Counts mine peer) (back : Counts peer mine) :
    -maxSending ≤ mine.sending := by
  have balance := counts.counting.balance
  have balance' := back.counting.balance
  have upper := back.counting.upper
  have forth := counts.causal back
  have here := back.causal counts
  omega

theorem unreceived (counts : Counts mine peer) (back : Counts peer mine)
    (waiting : mine.rx ≠ []) : -maxSending < mine.sending := by
  have handled := counts.queues.handled
  have arrived := counts.arrived
  have sent := back.sent
  have posted := back.counting.posted
  have balance := counts.counting.balance
  have balance' := back.counting.balance
  have upper := back.counting.upper
  have here := back.causal counts
  have some := List.length_pos_iff.mpr waiting
  omega

theorem own_step (action : Endpoint.Action) (counts : Counts mine peer) (back : Counts peer mine)
    (taken : mine.step action = some after) : Counts after peer ∧ Counts peer after := by
  obtain ⟨delivered, added, posted⟩ := step_posted action taken
  have counting := step_counting action counts.counting (counts.lower back) (by
    intro same
    subst same
    obtain ⟨pair, rest, -, queue, -⟩ := Endpoint.recv_cases taken
    exact counts.unreceived back (by rw [queue]; exact List.cons_ne_nil _ _)) taken
  have sent := counts.sent
  refine ⟨⟨step_queues action counts.queues taken, counting, ?_, ?_⟩,
    ⟨back.queues, back.counting, ?_, back.sent⟩⟩
  · rw [step_arrivals action counts.queues taken]
    exact counts.arrived
  · rw [delivered, posted, List.length_append]
    omega
  · rw [delivered]
    exact back.arrived

theorem write_step {i : Nat} {both : Endpoint × Endpoint} (counts : Counts mine peer)
    (back : Counts peer mine) (taken : System.writeData mine peer i = some both) :
    Counts both.1 both.2 ∧ Counts both.2 both.1 := by
  obtain ⟨request, data, -, -, -, rfl⟩ := System.writeData_cases taken
  exact ⟨⟨{ counts.queues with }, { counts.counting with }, counts.arrived, counts.sent⟩,
    ⟨{ back.queues with }, { back.counting with }, back.arrived, back.sent⟩⟩

theorem deliver_step {both : Endpoint × Endpoint} (counts : Counts mine peer)
    (back : Counts peer mine) (taken : System.deliverNext mine peer = some both) :
    Counts both.1 both.2 ∧ Counts both.2 both.1 := by
  obtain ⟨request, entry, -, some, rfl⟩ := System.deliverNext_cases taken
  have isRecv : WC.isRecv request.recvWc = true := rfl
  have notSend : WC.isSend request.recvWc = false := rfl
  have credits := back.queues.credits
  have slots := back.queues.slots
  have arrived := back.arrived
  unfold Endpoint.unhandled at credits arrived
  refine ⟨⟨{ counts.queues with }, { counts.counting with }, counts.arrived,
    (List.getElem?_eq_some_iff.mp entry).1⟩,
    ⟨{ back.queues with slots := ?_, credits := ?_, kinds := ?_ }, { back.counting with }, ?_,
      back.sent⟩⟩
  · unfold Endpoint.sqUsed at slots ⊢
    simp only [List.countP_append, List.countP_singleton, notSend, Bool.false_eq_true, ↓reduceIte]
    exact slots
  · unfold Endpoint.unhandled
    simp only [List.countP_append, List.countP_singleton, isRecv, ↓reduceIte]
    omega
  · intro wc member
    rcases List.mem_append.mp member with old | new
    · exact back.queues.kinds wc old
    · rw [List.mem_singleton.mp new]
      rfl
  · unfold Endpoint.unhandled
    simp only [List.countP_append, List.countP_singleton, isRecv, ↓reduceIte]
    omega

end Counts

namespace System

theorem run_counts {recvMr sendMr : Side → MR} {system : System}
    {ok : System → Action → Prop} (run : Runs.Run step ok (new recvMr sendMr) system)
    (side : Side) : Counts (system side) (system side.other) := by
  refine pairwise (fun _ => Counts) (unrestricted run) ?_ ?_ ?_ ?_ side
  · intro side
    exact ⟨Endpoint.new_queues _ _ _, Endpoint.new_counting _ _ _, rfl, Nat.le_refl _⟩
  · intro side mine peer action after counts back _ taken
    exact counts.own_step action back taken
  · intro side sender receiver i both counts back taken
    exact counts.write_step back taken
  · intro side sender receiver both counts back taken
    exact counts.deliver_step back taken

end System

end Ibv
