import Ibv.Counters

set_option autoImplicit false

namespace Ibv

namespace Endpoint

/-- The (length, imm) pairs still to be returned by `recv_msg`, oldest first. -/
def inbox (endpoint : Endpoint) : List (Nat × Nat) :=
  endpoint.receiving.toList ++ (endpoint.rx ++ (endpoint.forward.toList ++
    ((endpoint.polled ++ endpoint.cq).filter WC.isRecv).map WC.pair))

variable {endpoint after : Endpoint}

/-- Polling and the channel only move pairs, and the completion of a send is none. -/
theorem step_inbox (action : Action) (other : action ≠ .finish)
    (taken : endpoint.step action = some after) :
    after.inbox = endpoint.inbox ∧ after.returned = endpoint.returned := by
  by_cases reading : action.reading = true
  · cases action with
    | finish => exact absurd rfl other
    | release =>
        obtain ⟨slice, rest, -, rfl⟩ := releaseSlice_cases taken
        exact ⟨rfl, rfl⟩
    | _ => cases reading
  obtain ⟨-, -, returned, -, receiving, -⟩ :=
    step_not_reading action (Bool.eq_false_iff.mpr reading) taken
  refine ⟨?_, returned⟩
  cases queueing : action.queueing with
  | false =>
      have kept := receiving (by rintro rfl; cases queueing)
      obtain ⟨state, rfl⟩ := step_not_queueing action queueing taken
      unfold inbox
      rw [kept]
  | true =>
      cases action with
      | post =>
          obtain ⟨msg, buf, wrId, imm, remote, -, -, rfl⟩ := post_cases taken
          rfl
      | ack =>
          obtain ⟨request, data, -, -, rfl⟩ := ack_cases taken
          have notRecv : WC.isRecv request.sendWc = false := rfl
          unfold inbox
          rw [← List.append_assoc endpoint.polled, List.filter_append _ [request.sendWc],
            List.filter_singleton, notRecv]
          simp only [cond_false, List.append_nil]
      | poll n =>
          obtain ⟨idle, -, -, -, rfl⟩ := poll_cases taken
          unfold inbox
          rw [idle, List.take_append_drop, List.nil_append]
      | dispatch =>
          obtain ⟨wc, rest, free, batch, branches⟩ := dispatch_cases taken
          rcases branches with ⟨code, rfl⟩ | ⟨code, rfl⟩ | ⟨code, -, rfl⟩
          · have isRecv : wc.isRecv = true := decide_eq_true code
            unfold inbox postNullRecv
            split
            · simp only [free, batch, List.cons_append, List.filter_cons, isRecv, ↓reduceIte,
                List.map_cons, Option.toList_some, Option.toList_none, List.nil_append]
            · simp only [free, batch, List.cons_append, List.filter_cons, isRecv, ↓reduceIte,
                List.map_cons, Option.toList_some, Option.toList_none, List.nil_append]
          · have notRecv : wc.isRecv = false := decide_eq_false (by rw [code]; decide)
            unfold inbox
            simp only [batch, List.cons_append, List.filter_cons, notRecv, Bool.false_eq_true,
              ↓reduceIte]
          · have notRecv : wc.isRecv = false := decide_eq_false code
            unfold inbox
            simp only [batch, List.cons_append, List.filter_cons, notRecv, Bool.false_eq_true,
              ↓reduceIte]
      | sendPair =>
          obtain ⟨pair, sending, -, rfl⟩ := sendPair_cases taken
          unfold inbox
          simp only [sending, Option.toList_some, Option.toList_none, List.nil_append,
            List.append_assoc]
      | recv =>
          obtain ⟨pair, rest, idle, queue, rfl⟩ := recv_cases taken
          unfold inbox
          simp only [idle, queue, Option.toList_some, Option.toList_none, List.nil_append,
            List.cons_append]
      | _ => cases queueing

theorem finish_inbox {pair : Nat × Nat} (receiving : endpoint.receiving = some pair)
    (taken : endpoint.finish = some after) :
    endpoint.inbox = pair :: after.inbox ∧
      after.returned.length = endpoint.returned.length + 1 := by
  obtain ⟨pair', recvBuf, slice, same, -, rfl⟩ := finish_cases taken
  rw [receiving] at same
  cases same
  refine ⟨?_, List.length_append⟩
  unfold inbox
  rw [receiving]
  rfl

end Endpoint

/-- The messages the peer's queue pair has delivered are those returned by `recv_msg` and,
behind them, those on their way to it. -/
structure Transport (mine peer : Endpoint) : Prop where
  count : mine.returned.length ≤ peer.delivered
  pairs : mine.inbox =
    ((peer.posted.take peer.delivered).drop mine.returned.length).map Request.pair

namespace Transport

variable {mine peer after : Endpoint}

theorem next {pair : Nat × Nat} (transport : Transport mine peer)
    (receiving : mine.receiving = some pair) :
    mine.returned.length < peer.delivered ∧
      ∃ request, peer.posted[mine.returned.length]? = some request ∧ request.pair = pair := by
  have pairs := transport.pairs
  unfold Endpoint.inbox at pairs
  rw [receiving, Option.toList_some, List.singleton_append] at pairs
  have head := congrArg List.head? pairs
  rw [List.head?_cons, List.head?_map, List.head?_drop, List.getElem?_take] at head
  by_cases below : mine.returned.length < peer.delivered
  · rw [if_pos below] at head
    obtain ⟨request, entry, same⟩ := Option.map_eq_some_iff.mp head.symm
    exact ⟨below, request, entry, same⟩
  · rw [if_neg below] at head
    cases head

theorem own_step (action : Endpoint.Action) (transport : Transport mine peer)
    (back : Transport peer mine) (sent : mine.delivered ≤ mine.posted.length)
    (taken : mine.step action = some after) : Transport after peer ∧ Transport peer after := by
  obtain ⟨delivered, added, posted⟩ := Endpoint.step_posted action taken
  refine ⟨?_, ?_, ?_⟩
  · by_cases finishes : action = .finish
    · subst finishes
      obtain ⟨pair, recvBuf, slice, receiving, -, -⟩ := Endpoint.finish_cases taken
      obtain ⟨below, -⟩ := transport.next receiving
      obtain ⟨inbox, returned⟩ := Endpoint.finish_inbox receiving taken
      refine ⟨by omega, ?_⟩
      have pairs := congrArg List.tail transport.pairs
      rw [inbox, List.tail_cons, ← List.map_tail, List.tail_drop] at pairs
      rw [returned]
      exact pairs
    · obtain ⟨inbox, returned⟩ := Endpoint.step_inbox action finishes taken
      refine ⟨?_, ?_⟩
      · rw [returned]
        exact transport.count
      · rw [inbox, returned]
        exact transport.pairs
  · rw [delivered]
    exact back.count
  · rw [delivered, posted, List.take_append_of_le_length sent]
    exact back.pairs

theorem write_step {i : Nat} {both : Endpoint × Endpoint} (transport : Transport mine peer)
    (back : Transport peer mine) (taken : System.writeData mine peer i = some both) :
    Transport both.1 both.2 ∧ Transport both.2 both.1 := by
  obtain ⟨request, data, -, -, -, rfl⟩ := System.writeData_cases taken
  exact ⟨⟨transport.count, transport.pairs⟩, ⟨back.count, back.pairs⟩⟩

theorem deliver_step {both : Endpoint × Endpoint} (transport : Transport mine peer)
    (back : Transport peer mine) (taken : System.deliverNext mine peer = some both) :
    Transport both.1 both.2 ∧ Transport both.2 both.1 := by
  obtain ⟨request, entry, -, -, rfl⟩ := System.deliverNext_cases taken
  have count := back.count
  have below := (List.getElem?_eq_some_iff.mp entry).1
  have isRecv : WC.isRecv request.recvWc = true := rfl
  have grown : (mine.posted.take (mine.delivered + 1)).drop peer.returned.length =
      (mine.posted.take mine.delivered).drop peer.returned.length ++ [request] := by
    rw [List.take_add_one, entry, Option.toList_some, List.drop_append_of_le_length]
    rw [List.length_take]
    omega
  refine ⟨⟨transport.count, transport.pairs⟩, ⟨Nat.le_succ_of_le count, ?_⟩⟩
  have pairs := back.pairs
  unfold Endpoint.inbox at pairs ⊢
  dsimp only
  rw [grown, List.map_append, ← pairs, ← List.append_assoc peer.polled,
    List.filter_append _ [request.recvWc], List.filter_singleton, isRecv, cond_true, List.map_append]
  simp only [List.append_assoc]
  rfl

end Transport

namespace System

theorem run_transport {recvMr sendMr : Side → MR} {system : System}
    {ok : System → Action → Prop} (run : Runs.Run step ok (new recvMr sendMr) system)
    (side : Side) : Transport (system side) (system side.other) := by
  refine (pairwise (fun _ mine peer => Counts mine peer ∧ Transport mine peer)
    (unrestricted run) ?_ ?_ ?_ ?_ side).2
  · intro side
    have start : Runs.Run step ok (new recvMr sendMr) (new recvMr sendMr) := .refl
    exact ⟨run_counts start side, Nat.le_refl _, rfl⟩
  · intro side mine peer action after forth back _ taken
    obtain ⟨counts, counts'⟩ := forth.1.own_step action back.1 taken
    obtain ⟨transport, transport'⟩ := forth.2.own_step action back.2 forth.1.sent taken
    exact ⟨⟨counts, transport⟩, ⟨counts', transport'⟩⟩
  · intro side sender receiver i both forth back taken
    obtain ⟨counts, counts'⟩ := forth.1.write_step back.1 taken
    obtain ⟨transport, transport'⟩ := forth.2.write_step back.2 taken
    exact ⟨⟨counts, transport⟩, ⟨counts', transport'⟩⟩
  · intro side sender receiver both forth back taken
    obtain ⟨counts, counts'⟩ := forth.1.deliver_step back.1 taken
    obtain ⟨transport, transport'⟩ := forth.2.deliver_step back.2 taken
    exact ⟨⟨counts, transport⟩, ⟨counts', transport'⟩⟩

end System

end Ibv
