import Ibv.Calls
import Ibv.Duplex

set_option autoImplicit false

namespace Ibv

open Direction (sampleMr)

namespace Endpoint

/-- The messages of one side, wherever they are. -/
def abstraction (mine peer : Endpoint) : Duplex.Post (List UInt8) where
  pending := (mine.pending.map Msg.bytes : List (List UInt8))
  queue := (mine.posted.drop peer.received).map fun request => request.msg.bytes
  hand := mine.receiving.bind fun _ =>
    peer.posted[mine.returned.length]?.map fun request => request.msg.bytes
  ahead := mine.posted.length - mine.received

variable {endpoint after : Endpoint}

theorem step_messages (action : Action) (notPost : action ≠ .post) (notRecv : action ≠ .recv)
    (notFinish : action ≠ .finish) (taken : endpoint.step action = some after) :
    after.posted = endpoint.posted ∧ after.received = endpoint.received ∧
      after.receiving = endpoint.receiving ∧ after.returned = endpoint.returned := by
  have returned := (step_inbox action notFinish taken).2
  cases step_footprint action taken with
  | sends | queues => exact ⟨rfl, rfl, rfl, rfl⟩
  | critical _ _ _ _ _ _ _ _ _ _ keepsPosted => exact ⟨keepsPosted notPost, rfl, rfl, rfl⟩
  | recv isRecv => exact absurd isRecv notRecv
  | reads _ _ _ _ _ _ _ finishes => exact ⟨rfl, rfl, (finishes notFinish).2, returned⟩

theorem step_pending (action : Action) (succeeds : endpoint.failing action = [])
    (taken : endpoint.step action = some after) (added : List Request)
    (posted : after.posted = endpoint.posted ++ added) :
    ((added.map fun request => request.msg.bytes : List _) : Multiset (List UInt8)) +
        after.pending.map Msg.bytes =
      (endpoint.pending.map Msg.bytes : List _) + (action.called.map Msg.bytes : List _) := by
  have moved := step_submitted action taken
  rw [succeeds, List.append_nil, submitted, submitted, posted, List.map_append,
    List.append_assoc, List.append_assoc] at moved
  have bytes := ((List.perm_append_left_iff _).mp moved).map Msg.bytes
  rw [List.map_append, List.map_append, List.map_map] at bytes
  exact Multiset.coe_eq_coe.mpr bytes

/-- A step that posts nothing and calls nothing leaves the calls pending. -/
theorem step_pending_same (action : Action) (succeeds : endpoint.failing action = [])
    (uncalled : action.called = []) (taken : endpoint.step action = some after)
    (posted : after.posted = endpoint.posted) :
    (after.pending.map Msg.bytes : Multiset (List UInt8)) = endpoint.pending.map Msg.bytes := by
  have moved := step_pending action succeeds taken [] (posted.trans (List.append_nil _).symm)
  rw [uncalled] at moved
  simpa using moved

end Endpoint

namespace Linked

variable {mine peer : Endpoint}

/-- What `sending` was lowered for is returned, or will be by the `recv_msg` under way. -/
theorem received (forth : Linked mine peer) (back : Linked peer mine) :
    mine.received = mine.returned.length + mine.receiving.toList.length ∧
      mine.received + mine.rx.length ≤ peer.posted.length := by
  have handled := forth.counts.queues.handled
  have arrived := forth.counts.arrived
  have sent := back.counts.sent
  have count := forth.transport.count
  have pairs := congrArg List.length forth.transport.pairs
  unfold Endpoint.inbox at pairs
  rw [List.length_append, List.length_append, List.length_append, List.length_map,
    List.length_map, ← List.countP_eq_length_filter, List.countP_append, List.length_drop,
    List.length_take] at pairs
  unfold Endpoint.unhandled at arrived
  omega

/-- A post brings its side nearer to the limit, and never over it. -/
theorem ahead {msg : Msg} {buf : LocalBuf} {wrId imm : Nat} {remote : RemoteBuf}
    (forth : Linked mine peer) (holder : mine.lock = some ⟨msg, buf, wrId, .placed imm remote⟩) :
    (mine.posted.length : Int) - mine.received < defaultRqeCount := by
  have posted := forth.counts.counting.posted
  have balance := forth.counts.counting.balance
  have upper := forth.counts.counting.upper
  rw [Endpoint.charged_eq holder, Stage.charged] at posted
  unfold maxSending at upper
  omega

theorem silent_view {after : Endpoint} (peer : Endpoint) (action : Endpoint.Action)
    (succeeds : mine.failing action = []) (uncalled : action.called = [])
    (notPost : action ≠ .post) (notRecv : action ≠ .recv) (notFinish : action ≠ .finish)
    (taken : mine.step action = some after) :
    after.abstraction peer = mine.abstraction peer ∧
      peer.abstraction after = peer.abstraction mine := by
  obtain ⟨posted, received, receiving, returned⟩ :=
    Endpoint.step_messages action notPost notRecv notFinish taken
  have pending := Endpoint.step_pending_same action succeeds uncalled taken posted
  unfold Endpoint.abstraction
  rw [posted, received, receiving, returned, pending]
  exact ⟨rfl, rfl⟩

theorem call_view {after : Endpoint} (peer : Endpoint) (msg : Msg)
    (taken : mine.step (.call msg) = some after) :
    after.abstraction peer = { mine.abstraction peer with
        pending := msg.bytes ::ₘ (mine.abstraction peer).pending } ∧
      peer.abstraction after = peer.abstraction mine := by
  have moved := Endpoint.step_pending (.call msg) rfl taken [] (by
    cases taken
    exact (List.append_nil _).symm)
  cases taken
  refine ⟨Duplex.Post.ext ?_ rfl rfl rfl, rfl⟩
  rw [List.map_nil, Multiset.coe_nil, Multiset.zero_add, Multiset.add_comm] at moved
  exact moved

theorem post_view {after : Endpoint} (forth : Linked mine peer) (back : Linked peer mine)
    (taken : mine.step .post = some after) :
    ∃ msg buf wrId imm remote, mine.lock = some ⟨msg, buf, wrId, .placed imm remote⟩ ∧
      msg.bytes ∈ (mine.abstraction peer).pending ∧
      (mine.abstraction peer).ahead < defaultRqeCount ∧
      after.abstraction peer = { mine.abstraction peer with
        pending := (mine.abstraction peer).pending.erase msg.bytes
        queue := (mine.abstraction peer).queue ++ [msg.bytes]
        ahead := (mine.abstraction peer).ahead + 1 } ∧
      peer.abstraction after = peer.abstraction mine := by
  obtain ⟨msg, buf, wrId, imm, remote, holder, room, same⟩ := Endpoint.post_cases taken
  obtain ⟨count, sent⟩ := back.received forth
  have moved := Endpoint.step_pending .post rfl taken _ (by rw [same])
  have uncalled : Endpoint.Action.post.called = [] := rfl
  rw [uncalled, List.map_nil, Multiset.coe_nil, Multiset.add_zero, List.map_singleton,
    Multiset.coe_singleton, Multiset.singleton_add] at moved
  change msg.bytes ::ₘ _ = (mine.abstraction peer).pending at moved
  refine ⟨msg, buf, wrId, imm, remote, holder, ?_, forth.ahead holder, ?_, ?_⟩
  · rw [← moved]
    exact Multiset.mem_cons_self _ _
  · apply Duplex.Post.ext
    · rw [← moved, Multiset.erase_cons_head]
      rfl
    · subst same
      dsimp only [Endpoint.abstraction]
      rw [List.drop_append_of_le_length (by omega), List.map_append]
      rfl
    · subst same
      rfl
    · subst same
      dsimp only [Endpoint.abstraction]
      rw [List.length_append]
      simp
      omega
  · subst same
    apply Duplex.Post.ext
    · rfl
    · rfl
    · dsimp only [Endpoint.abstraction]
      cases receiving : peer.receiving with
      | none => rfl
      | some pair =>
          have below := (back.transport.next receiving).1
          have inside := Nat.lt_of_lt_of_le below forth.counts.sent
          rw [Option.bind_some, Option.bind_some, List.getElem?_append_left inside]
    · rfl

theorem recv_view {after : Endpoint} (forth : Linked mine peer) (back : Linked peer mine)
    (taken : mine.step .recv = some after) :
    ∃ bytes rest, (mine.abstraction peer).hand = none ∧
      (peer.abstraction mine).queue = bytes :: rest ∧
      after.abstraction peer = { mine.abstraction peer with
        hand := some bytes
        ahead := (mine.abstraction peer).ahead - 1 } ∧
      peer.abstraction after = { peer.abstraction mine with queue := rest } := by
  obtain ⟨count, sent⟩ := forth.received back
  obtain ⟨pair, others, idle, waiting, rfl⟩ := Endpoint.recv_cases taken
  rw [waiting, List.length_cons] at sent
  rw [idle, Option.toList_none, List.length_nil, Nat.add_zero] at count
  have inside : mine.received < peer.posted.length := by omega
  refine ⟨peer.posted[mine.received].msg.bytes,
    (peer.posted.drop (mine.received + 1)).map fun request => request.msg.bytes, ?_, ?_, ?_, rfl⟩
  · dsimp only [Endpoint.abstraction]
    rw [idle, Option.bind_none]
  · dsimp only [Endpoint.abstraction]
    rw [List.drop_eq_getElem_cons inside, List.map_cons]
  · apply Duplex.Post.ext
    · rfl
    · rfl
    · dsimp only [Endpoint.abstraction]
      rw [Option.bind_some, ← count, List.getElem?_eq_getElem inside, Option.map_some]
    · dsimp only [Endpoint.abstraction]
      omega

theorem finish_view {after : Endpoint} (forth : Linked mine peer) (arrived : Arrived peer after)
    (taken : mine.step .finish = some after) :
    ∃ bytes, (mine.abstraction peer).hand = some bytes ∧
      after.returned = mine.returned ++ [bytes] ∧
      after.abstraction peer = { mine.abstraction peer with hand := none } ∧
      peer.abstraction after = peer.abstraction mine := by
  obtain ⟨pair, recvBuf, slice, receiving, -, rfl⟩ := Endpoint.finish_cases taken
  obtain ⟨-, request, entry, -⟩ := forth.transport.next receiving
  have returned := congrArg (fun bytes => bytes[mine.returned.length]?) arrived.returned
  dsimp only at returned
  rw [List.getElem?_append_right (Nat.le_refl _), Nat.sub_self, List.getElem?_cons_zero,
    List.getElem?_map, List.length_append, List.length_singleton,
    List.getElem?_take_of_lt (Nat.lt_succ_self _), entry, Option.map_some] at returned
  refine ⟨request.msg.bytes, ?_, ?_, rfl, rfl⟩
  · dsimp only [Endpoint.abstraction]
    rw [receiving, Option.bind_some, entry, Option.map_some]
  · rw [Option.some.inj returned]

end Linked

namespace System

/-- The connection with its rings and queues forgotten. -/
def duplex (system : System) : Side → Duplex.Post (List UInt8) := fun side =>
  (system side).abstraction (system side.other)

/-- What the applications see: their calls of `send_msg`, those that return, and the bytes
that `recv_msg` returns. -/
def talk (system : System) : Action → List (Duplex.Event Side (List UInt8))
  | .own side (.call msg) => [.called side msg.bytes]
  | .own side .post =>
      (system side).lock.toList.map fun critical => .sent side critical.msg.bytes
  | .own side .finish =>
      match (system side).finish with
      | some after =>
          (after.returned.drop (system side).returned.length).map (.received side)
      | none => []
  | _ => []

theorem duplex_join (system : System) (side : Side) (mine peer : Endpoint) :
    duplex (join side mine peer) =
      Function.update (Function.update (duplex system) side.other (peer.abstraction mine)) side
        (mine.abstraction peer) := by
  funext chosen
  rcases chosen.eq_or_other side with rfl | rfl
  · rw [Function.update_self, duplex, join_self, join_other]
  · rw [Function.update_of_ne side.other_ne, Function.update_self, duplex, join_other,
      Side.other_other, join_self]

theorem duplex_own (system : System) {side : Side} {mine : Endpoint}
    (same : (system side.other).abstraction mine = duplex system side.other) :
    duplex (join side mine (system side.other)) =
      Function.update (duplex system) side (mine.abstraction (system side.other)) := by
  rw [duplex_join system, same, Function.update_eq_self]

theorem duplex_kept (system : System) {side : Side} {mine peer : Endpoint}
    (own : mine.abstraction peer = duplex system side)
    (others : peer.abstraction mine = duplex system side.other) :
    duplex (join side mine peer) = duplex system := by
  rw [duplex_join system, own, others, Function.update_eq_self, Function.update_eq_self]

variable {recvMr sendMr : Side → MR} {before : System} {side : Side} {mine : Endpoint}

theorem duplex_silent {action : Endpoint.Action} (taken : (before side).step action = some mine)
    (succeeds : (before side).failing action = []) (uncalled : action.called = [])
    (notPost : action ≠ .post) (notRecv : action ≠ .recv) (notFinish : action ≠ .finish) :
    duplex (join side mine (before side.other)) = duplex before := by
  obtain ⟨own, others⟩ := Linked.silent_view (before side.other) action succeeds uncalled
    notPost notRecv notFinish taken
  apply duplex_kept
  · rw [own, duplex]
  · rw [others, duplex, Side.other_other]

/-- One step of an endpoint is one of the two parties, or none. -/
theorem own_refines (action : Endpoint.Action)
    (run : Runs.Run step Regular (new recvMr sendMr) before)
    (regular : (before side).Regular action) (taken : (before side).step action = some mine) :
    (duplex (join side mine (before side.other)) = duplex before ∧
        talk before (.own side action) = []) ∨
      ∃ label, Duplex.step Side.other defaultRqeCount (duplex before) label =
          some (duplex (join side mine (before side.other))) ∧
        Duplex.see (duplex before) label = talk before (.own side action) := by
  have forth := regular_linked run side
  have back := regular_linked run side.other
  rw [Side.other_other] at back
  have peer : duplex before side.other = (before side.other).abstraction (before side) := by
    rw [duplex, Side.other_other]
  cases action with
  | call msg =>
      obtain ⟨own, others⟩ := Linked.call_view (before side.other) msg taken
      refine .inr ⟨.call side msg.bytes, ?_, rfl⟩
      rw [duplex_own before (others.trans peer.symm), own]
      rfl
  | post =>
      obtain ⟨msg, buf, wrId, imm, remote, holder, member, below, own, others⟩ :=
        forth.post_view back taken
      refine .inr ⟨.send side msg.bytes, ?_, ?_⟩
      · rw [duplex_own before (others.trans peer.symm), own, Duplex.step]
        exact if_pos ⟨member, below⟩
      · rw [talk, holder]
        rfl
  | recv =>
      obtain ⟨bytes, rest, free, first, own, others⟩ := forth.recv_view back taken
      rw [← peer] at first others
      refine .inr ⟨.take side, ?_, rfl⟩
      have hand : (duplex before side).hand = none := free
      rw [duplex_join before, own, others, Duplex.step, hand, first]
      rfl
  | finish =>
      have moved : step before (.own side .finish) = some (join side mine (before side.other)) := by
        rw [step, taken, Option.map_some]
      have after := regular_linked (run.next (.own side .finish) regular moved) side.other
      rw [join_other, Side.other_other, join_self] at after
      obtain ⟨bytes, holds, returned, own, others⟩ := forth.finish_view after.arrived taken
      have hand : (duplex before side).hand = some bytes := holds
      refine .inr ⟨.receive side, ?_, ?_⟩
      · rw [duplex_own before (others.trans peer.symm), own, Duplex.step, hand]
        rfl
      · have taken' : (before side).finish = some mine := taken
        rw [Duplex.see, hand, talk, taken']
        dsimp only
        rw [returned, List.drop_left]
        rfl
  | postFail errno => exact absurd regular not_false
  | _ => exact .inl ⟨duplex_silent taken rfl rfl (by simp) (by simp) (by simp), rfl⟩

theorem step_refines (action : Action) {after : System}
    (run : Runs.Run step Regular (new recvMr sendMr) before) (regular : Regular before action)
    (taken : step before action = some after) :
    (duplex after = duplex before ∧ talk before action = []) ∨
      ∃ label, Runs.Any (duplex before) label ∧
        Duplex.step Side.other defaultRqeCount (duplex before) label = some (duplex after) ∧
        Duplex.see (duplex before) label = talk before action := by
  cases action with
  | own side action =>
      obtain ⟨mine, acted, rfl⟩ := Option.map_eq_some_iff.mp taken
      rcases own_refines action run regular acted with silent | ⟨label, taken', shown⟩
      · exact .inl silent
      · exact .inr ⟨label, trivial, taken', shown⟩
  | write side i =>
      obtain ⟨both, acted, rfl⟩ := Option.map_eq_some_iff.mp taken
      obtain ⟨request, data, -, -, -, rfl⟩ := writeData_cases acted
      refine .inl ⟨duplex_kept before rfl ?_, rfl⟩
      rw [duplex, Side.other_other]
      rfl
  | deliver side =>
      obtain ⟨both, acted, rfl⟩ := Option.map_eq_some_iff.mp taken
      obtain ⟨request, -, -, -, rfl⟩ := deliverNext_cases acted
      refine .inl ⟨duplex_kept before rfl ?_, rfl⟩
      rw [duplex, Side.other_other]
      rfl

theorem observed_duplex {seen : List (Duplex.Event Side (List UInt8))} {system : System}
    (run : Runs.Observed step Regular talk (new recvMr sendMr) seen system) :
    Runs.Observed (Duplex.step Side.other defaultRqeCount) Runs.Any Duplex.see Duplex.idle seen
      (duplex system) := by
  have start : duplex (new recvMr sendMr) = Duplex.idle := by
    funext side
    rfl
  rw [← start]
  exact run.simulates duplex fun before action after run => step_refines action run

/-- The connection refines two parties with a queue in each direction and nothing between
them. -/
theorem refines_duplex (recvMr sendMr : Side → MR) (seen : List (Duplex.Event Side (List UInt8)))
    (system : System)
    (run : Runs.Observed step Regular talk (new recvMr sendMr) seen system) :
    Runs.Observed (Duplex.step Side.other defaultRqeCount) Runs.Any Duplex.see Duplex.idle seen
      (duplex system) :=
  observed_duplex run

theorem refines_duplex_two_slices : ∃ seen system,
    Runs.Observed step Regular talk (new (fun _ => sampleMr) (fun _ => sampleMr)) seen system ∧
      Duplex.receipts .server seen = [[7, 8, 9]] ∧
      Runs.Observed (Duplex.step Side.other defaultRqeCount) Runs.Any Duplex.see Duplex.idle seen
        (duplex system) := by
  obtain ⟨seen, system, run, reached⟩ : ∃ seen system,
      Runs.Observed step (Allowed fun mine _ action => mine.Assumed action) talk
        (new (fun _ => sampleMr) (fun _ => sampleMr)) seen system ∧
        decide (Duplex.receipts .server seen = [[7, 8, 9]]) = true :=
    Runs.Observed.exists_of_observe assumes _ assumes_sound twoSlices (by decide +kernel)
  have regular := observed_regular run
  exact ⟨seen, system, regular, of_decide_eq_true reached, refines_duplex _ _ seen system regular⟩

/-- What the users may rely on, at any moment of a regular run. Messages arrive in the order
in which their calls have returned; whatever returns was called; and the calls of a side that
return are ahead of what its own user has received by `DEFAULT_RQE_COUNT` and one at most. -/
theorem conversation (recvMr sendMr : Side → MR)
    (before after : List (Duplex.Event Side (List UInt8))) (middle system : System)
    (first : Runs.Observed step Regular talk (new recvMr sendMr) before middle)
    (second : Runs.Observed step Regular talk middle after system) (side : Side) :
    Duplex.receipts side.other (before ++ after) <+:
        Duplex.sends side before ++ Duplex.sends side after ∧
      (Duplex.sends side before : Multiset (List UInt8)) ≤ Duplex.calls side before ∧
      (Duplex.sends side after : Multiset (List UInt8)) ≤
        (duplex middle side).pending + Duplex.calls side after ∧
      ((Duplex.sends side (before ++ after)).length : Int) ≤
        (Duplex.receipts side (before ++ after)).length + defaultRqeCount + 1 := by
  have positive : (0 : Int) ≤ defaultRqeCount := Int.natCast_nonneg _
  have kept (seen : List (Duplex.Event Side (List UInt8))) (system : System)
      (run : Runs.Observed step Regular talk (new recvMr sendMr) seen system) :
      Duplex.Kept Side.other defaultRqeCount seen (duplex system) side :=
    Duplex.run_kept Side.other_ne Side.other_other positive (observed_duplex run) side
  have early := kept before middle first
  have late := kept (before ++ after) system (first.trans second)
  refine ⟨?_, early.sent, ?_, late.window⟩
  · rw [← Duplex.sends_append]
    exact late.received
  · have called := late.called
    rw [Duplex.calls_append, Duplex.sends_append, ← Multiset.coe_add, ← Multiset.coe_add,
      early.called] at called
    have left : (Duplex.sends side before : Multiset (List UInt8)) +
        ((duplex middle side).pending + Duplex.calls side after) =
        Duplex.sends side before + (Duplex.sends side after + (duplex system side).pending) := by
      rw [← Multiset.add_assoc, called, Multiset.add_assoc]
    rw [Multiset.add_right_inj.mp left]
    exact Multiset.le_add_right _ _

/-- Called before the middle, posted and received after it. -/
theorem conversation_two_slices : ∃ before after middle system,
    Runs.Observed step Regular talk (new (fun _ => sampleMr) (fun _ => sampleMr)) before middle ∧
      Runs.Observed step Regular talk middle after system ∧
      Duplex.calls .client before = [[7, 8, 9]] ∧ Duplex.receipts .server after = [[7, 8, 9]] ∧
      Duplex.receipts .server (before ++ after) <+:
        Duplex.sends .client before ++ Duplex.sends .client after ∧
      (Duplex.sends .client after : Multiset (List UInt8)) ≤
        (duplex middle .client).pending + Duplex.calls .client after := by
  obtain ⟨before, middle, first, reached⟩ : ∃ before middle,
      Runs.Observed step (Allowed fun mine _ action => mine.Assumed action) talk
        (new (fun _ => sampleMr) (fun _ => sampleMr)) before middle ∧
        (decide (Duplex.calls .client before = [[7, 8, 9]]) &&
          (Runs.observe step assumes talk middle (twoSlices.drop 5)).any fun result =>
            decide (Duplex.receipts .server result.1 = [[7, 8, 9]])) = true :=
    Runs.Observed.exists_of_observe assumes
      (fun before middle => decide (Duplex.calls Side.client before = [[7, 8, 9]]) &&
        (Runs.observe step assumes talk middle (twoSlices.drop 5)).any fun result =>
          decide (Duplex.receipts Side.server result.1 = [[7, 8, 9]]))
      assumes_sound (twoSlices.take 5) (by decide +kernel)
  obtain ⟨called, rest⟩ := Bool.and_eq_true_iff.mp reached
  obtain ⟨after, system, second, received⟩ :=
    Runs.Observed.exists_of_observe assumes
      (fun after _ => decide (Duplex.receipts Side.server after = [[7, 8, 9]])) assumes_sound _ rest
  have early := observed_regular first
  have late := observed_regular_later first.run second
  obtain ⟨order, -, caused, -⟩ := conversation _ _ before after middle system early late .client
  exact ⟨before, after, middle, system, early, late, of_decide_eq_true called,
    of_decide_eq_true received, order, caused⟩

end System

end Ibv
