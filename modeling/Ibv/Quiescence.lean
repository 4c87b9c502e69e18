import Ibv.Blocking
import Ibv.Credits
import Ibv.EmptyRing
import Ibv.Flags
import Ibv.Work

set_option autoImplicit false

namespace Ibv

open RingFifo
open Direction (sampleMr)

namespace Endpoint

/-- As long as no post fails, every region granted is that of a message posted or on its
way to its post, and every message counted is posted or held by the lock. -/
structure Faultless (endpoint : Endpoint) : Prop where
  granted : endpoint.sendRing.granted.length =
    endpoint.posted.length + endpoint.copying.length + endpoint.lock.toList.length
  counted : endpoint.counted = endpoint.posted.length + endpoint.charged

variable {endpoint after : Endpoint}

theorem Faultless.locked {msg : Msg} {buf : LocalBuf} {wrId : Nat} {before stage : Stage}
    {allocator : RemoteBufManager} {release : List Nat} (faultless : Faultless endpoint)
    (holder : endpoint.lock = some ⟨msg, buf, wrId, before⟩)
    (charged : stage.charged = before.charged) :
    Faultless { endpoint with
      lock := some ⟨msg, buf, wrId, stage⟩
      allocator := allocator
      release := release } where
  granted := by
    have granted := faultless.granted
    rw [holder] at granted
    exact granted
  counted := by
    have counted := faultless.counted
    rw [charged_eq holder] at counted
    rw [charged_eq rfl, charged]
    exact counted

theorem step_faultless (action : Action) (faultless : Faultless endpoint)
    (regular : endpoint.Regular action) (taken : endpoint.step action = some after) :
    Faultless after := by
  obtain ⟨granted, counted⟩ := faultless
  cases action with
  | postFail errno => exact absurd regular not_false
  | allocLocal =>
      obtain ⟨msg, -, -, rfl⟩ := allocLocal_cases taken
      refine ⟨?_, counted⟩
      dsimp only [LocalRing.take]
      rw [List.length_append, List.length_append, List.length_singleton, List.length_singleton]
      omega
  | copy i =>
      obtain ⟨msg, buf, wrId, slice, rest, addr, -, rfl⟩ := copy_cases taken
      refine ⟨?_, counted⟩
      dsimp only
      rw [List.length_set]
      exact granted
  | takeLock i =>
      obtain ⟨msg, buf, wrId, addr, free, entry, rfl⟩ := takeLock_cases taken
      have below := (List.getElem?_eq_some_iff.mp entry).1
      rw [free] at granted
      unfold charged at counted
      rw [free] at counted
      refine ⟨?_, counted⟩
      dsimp only [Option.toList_some, Option.toList_none, List.length_singleton,
        List.length_nil] at granted ⊢
      rw [List.length_eraseIdx_of_lt below]
      omega
  | load =>
      obtain ⟨msg, buf, wrId, holder, -, rfl⟩ := load_cases taken
      exact Faultless.locked ⟨granted, counted⟩ holder rfl
  | count =>
      obtain ⟨msg, buf, wrId, holder, rfl⟩ := count_cases taken
      rw [holder] at granted
      rw [charged_eq holder] at counted
      refine ⟨granted, ?_⟩
      rw [charged_eq rfl]
      dsimp only [Stage.charged] at counted ⊢
      omega
  | popNotice =>
      obtain ⟨msg, buf, wrId, holder, rfl⟩ := popNotice_cases taken
      exact Faultless.locked ⟨granted, counted⟩ holder rfl
  | remoteFirst =>
      obtain ⟨msg, buf, wrId, imm, holder, rfl⟩ := remoteFirst_cases taken
      exact Faultless.locked ⟨granted, counted⟩ holder rfl
  | remoteSecond =>
      obtain ⟨msg, buf, wrId, imm, first, holder, rfl⟩ := remoteSecond_cases taken
      exact Faultless.locked ⟨granted, counted⟩ holder rfl
  | allocRemote =>
      obtain ⟨msg, buf, wrId, imm, holder, rfl⟩ := allocRemote_cases taken
      exact Faultless.locked ⟨granted, counted⟩ holder rfl
  | post =>
      obtain ⟨msg, buf, wrId, imm, remote, holder, -, rfl⟩ := post_cases taken
      rw [holder] at granted
      rw [charged_eq holder] at counted
      refine ⟨?_, ?_⟩
      · dsimp only [Option.toList_some, Option.toList_none, List.length_singleton,
          List.length_nil] at granted ⊢
        rw [List.length_append, List.length_singleton]
        omega
      · dsimp only [charged]
        rw [List.length_append, List.length_singleton]
        exact counted
  | call msg =>
      cases taken
      exact ⟨granted, counted⟩
  | lockIndex i =>
      obtain ⟨msg, -, -, rfl⟩ := lockIndex_cases taken
      exact ⟨granted, counted⟩
  | localFirst =>
      obtain ⟨msg, -, rfl⟩ := localFirst_cases taken
      exact ⟨granted, counted⟩
  | localSecond =>
      obtain ⟨msg, first, -, rfl⟩ := localSecond_cases taken
      exact ⟨granted, counted⟩
  | fetch i =>
      obtain ⟨request, -, -, rfl⟩ := fetch_cases taken
      exact ⟨granted, counted⟩
  | ack =>
      obtain ⟨request, data, -, -, rfl⟩ := ack_cases taken
      exact ⟨granted, counted⟩
  | poll n =>
      obtain ⟨-, -, -, -, rfl⟩ := poll_cases taken
      exact ⟨granted, counted⟩
  | dispatch =>
      obtain ⟨wc, rest, -, -, ⟨-, rfl⟩ | ⟨-, rfl⟩ | ⟨-, -, rfl⟩⟩ := dispatch_cases taken
      · unfold postNullRecv
        split <;> exact ⟨granted, counted⟩
      · exact ⟨granted, counted⟩
      · exact ⟨granted, counted⟩
  | sendPair =>
      obtain ⟨pair, -, -, rfl⟩ := sendPair_cases taken
      exact ⟨granted, counted⟩
  | recv =>
      obtain ⟨pair, rest, -, -, rfl⟩ := recv_cases taken
      exact ⟨granted, counted⟩
  | finish =>
      obtain ⟨pair, recvBuf, slice, -, -, rfl⟩ := finish_cases taken
      exact ⟨granted, counted⟩
  | release =>
      obtain ⟨slice, rest, -, rfl⟩ := releaseSlice_cases taken
      exact ⟨granted, counted⟩
  | popRelease =>
      obtain ⟨buffer, -, rfl⟩ := popRelease_cases taken
      exact ⟨granted, counted⟩
  | releaseDone =>
      obtain ⟨buffer, -, rfl⟩ := releaseDone_cases taken
      exact ⟨granted, counted⟩

/-- An endpoint that can only be called, poll in vain or go round in wait loops. -/
def Still (endpoint : Endpoint) : Prop :=
  ∀ action : Action, ¬ endpoint.Idle action → action.cost = 0 →
    (∀ errno, action ≠ .postFail errno) → endpoint.step action = none

/-- In the wait of `send_msg` for `sending` to fall below its limit. -/
def AwaitsMessage (endpoint : Endpoint) : Prop :=
  ∃ msg buf wrId, endpoint.lock = some ⟨msg, buf, wrId, .locked⟩ ∧ endpoint.sending ≥ maxSending

/-- In the wait of `RemoteBufManager::alloc`, its condition true. -/
def AwaitsNotice (endpoint : Endpoint) : Prop :=
  ∃ msg buf wrId imm loop, endpoint.lock = some ⟨msg, buf, wrId, .placing imm loop⟩ ∧
    loop ≠ .exited ∧ endpoint.allocator.waits msg.wireLen = true

namespace Still

theorem fetched (still : Still endpoint) {i : Nat} (below : i < endpoint.posted.length) :
    ∃ data, endpoint.fetched i = some data := by
  cases fetched : endpoint.fetched i with
  | some data => exact ⟨data, rfl⟩
  | none =>
      have stuck : endpoint.fetch i = none := still (.fetch i) id rfl (fun _ same => nomatch same)
      unfold fetch at stuck
      rw [List.getElem?_eq_getElem below, fetched] at stuck
      cases stuck

theorem acked (still : Still endpoint) (queues : Queues endpoint) :
    endpoint.acked = endpoint.posted.length := by
  by_contra short
  have acked := queues.acked
  have below : endpoint.acked < endpoint.posted.length := by omega
  obtain ⟨data, fetched⟩ := still.fetched below
  have stuck : endpoint.ack = none := still .ack id rfl (fun _ same => nomatch same)
  unfold ack at stuck
  rw [List.getElem?_eq_getElem below, fetched] at stuck
  cases stuck

theorem queues_empty (still : Still endpoint)
    (finishes : endpoint.receiving.isSome → endpoint.finish.isSome) :
    endpoint.receiving = none ∧ endpoint.rx = [] ∧ endpoint.forward = none ∧
      endpoint.polled = [] ∧ endpoint.cq = [] := by
  have receiving : endpoint.receiving = none := by
    cases receiving : endpoint.receiving with
    | none => rfl
    | some pair =>
        rw [receiving] at finishes
        have stuck : endpoint.finish = none := still .finish id rfl (fun _ same => nomatch same)
        rw [stuck] at finishes
        exact absurd (finishes rfl) Bool.false_ne_true
  have rx : endpoint.rx = [] := by
    cases rx : endpoint.rx with
    | nil => rfl
    | cons pair rest =>
        have stuck : endpoint.recv = none := still .recv id rfl (fun _ same => nomatch same)
        unfold recv at stuck
        rw [receiving, rx] at stuck
        cases stuck
  have forward : endpoint.forward = none := by
    cases forward : endpoint.forward with
    | none => rfl
    | some pair =>
        have stuck : endpoint.sendPair = none := still .sendPair id rfl (fun _ same => nomatch same)
        unfold sendPair at stuck
        rw [forward, rx] at stuck
        cases stuck
  have polled : endpoint.polled = [] := by
    cases polled : endpoint.polled with
    | nil => rfl
    | cons wc rest =>
        have stuck : endpoint.dispatch = none := still .dispatch id rfl (fun _ same => nomatch same)
        unfold dispatch at stuck
        rw [forward, polled] at stuck
        dsimp only at stuck
        split at stuck <;> cases stuck
  refine ⟨receiving, rx, forward, polled, ?_⟩
  cases cq : endpoint.cq with
  | nil => rfl
  | cons wc rest =>
      have stuck : endpoint.poll 1 = none := still (.poll 1) Nat.one_ne_zero rfl
        (fun _ same => nomatch same)
      unfold poll at stuck
      rw [polled, forward, cq] at stuck
      dsimp only at stuck
      rw [if_pos ⟨by omega, Nat.le_add_left 1 _⟩] at stuck
      cases stuck

/-- The application has released all it has received, or its notices are stuck. -/
theorem released (still : Still endpoint) :
    endpoint.held = [] ∨ defaultRqeCount ≤ endpoint.release.length := by
  cases held : endpoint.held with
  | nil => exact .inl rfl
  | cons slice rest =>
      refine .inr ?_
      have stuck : endpoint.releaseSlice = none :=
        still .release id rfl (fun _ same => nomatch same)
      have one : (endpoint.recvBuf.notifyRelease slice.length).2.toList.length ≤ 1 := by
        cases (endpoint.recvBuf.notifyRelease slice.length).2 with
        | none => exact Nat.zero_le _
        | some notice => exact Nat.le_refl _
      unfold releaseSlice at stuck
      rw [held] at stuck
      dsimp only at stuck
      split at stuck
      · cases stuck
      · omega

/-- The call that holds the lock waits for a message of the peer, or for a notice. -/
theorem holder (still : Still endpoint) (slot : endpoint.sqUsed < maxQpWr) :
    endpoint.lock = none ∨ endpoint.AwaitsMessage ∨ endpoint.AwaitsNotice := by
  rcases holder : endpoint.lock with _ | ⟨msg, buf, wrId, stage⟩
  · exact .inl rfl
  refine .inr ?_
  cases stage with
  | locked =>
      have stuck : endpoint.load = none := still .load id rfl (fun _ same => nomatch same)
      unfold load at stuck
      rw [holder] at stuck
      dsimp only at stuck
      split at stuck
      · rename_i full
        exact .inl ⟨msg, buf, wrId, holder, full⟩
      · cases stuck
  | admitted =>
      have stuck : endpoint.count = none := still .count id rfl (fun _ same => nomatch same)
      unfold count at stuck
      rw [holder] at stuck
      cases stuck
  | counted =>
      have stuck : endpoint.popNotice = none :=
        still .popNotice id rfl (fun _ same => nomatch same)
      unfold popNotice at stuck
      rw [holder] at stuck
      cases stuck
  | placing imm loop =>
      refine .inr ⟨msg, buf, wrId, imm, loop, holder, ?_, ?_⟩
      · rintro rfl
        have stuck : endpoint.allocRemote = none :=
          still .allocRemote id rfl (fun _ same => nomatch same)
        unfold allocRemote at stuck
        rw [holder] at stuck
        cases stuck
      · by_contra exits
        have busy (idle : ∃ msg buf wrId imm loop,
            endpoint.lock = some ⟨msg, buf, wrId, .placing imm loop⟩ ∧
              endpoint.allocator.waits msg.wireLen = true) : False := by
          obtain ⟨msg', buf', wrId', imm', loop', same, waits⟩ := idle
          rw [holder] at same
          cases same
          exact exits waits
        cases loop with
        | head =>
            have stuck : endpoint.remoteFirst = none :=
              still .remoteFirst busy rfl (fun _ same => nomatch same)
            unfold remoteFirst at stuck
            rw [holder] at stuck
            cases stuck
        | tested first =>
            have stuck : endpoint.remoteSecond = none :=
              still .remoteSecond busy rfl (fun _ same => nomatch same)
            unfold remoteSecond at stuck
            rw [holder] at stuck
            cases stuck
        | exited =>
            have stuck : endpoint.allocRemote = none :=
              still .allocRemote id rfl (fun _ same => nomatch same)
            unfold allocRemote at stuck
            rw [holder] at stuck
            cases stuck
  | placed imm remote =>
      have stuck : endpoint.post = none := still .post id rfl (fun _ same => nomatch same)
      unfold post at stuck
      rw [holder] at stuck
      dsimp only at stuck
      rw [if_pos slot] at stuck
      cases stuck

theorem copied (still : Still endpoint) (free : endpoint.lock = none) : endpoint.copying = [] := by
  rcases copying : endpoint.copying with _ | ⟨⟨msg, buf, wrId, rest, addr⟩, others⟩
  · rfl
  cases rest with
  | nil =>
      have stuck : endpoint.takeLock 0 = none :=
        still (.takeLock 0) id rfl (fun _ same => nomatch same)
      unfold takeLock at stuck
      rw [free, copying] at stuck
      cases stuck
  | cons slice rest =>
      have stuck : endpoint.copy 0 = none := still (.copy 0) id rfl (fun _ same => nomatch same)
      unfold copy at stuck
      rw [copying] at stuck
      cases stuck

/-- A call is only kept from its region by the one that waits for a region. -/
theorem calls (still : Still endpoint) (free : endpoint.allocating = none) :
    endpoint.calls = [] := by
  rcases calls : endpoint.calls with _ | ⟨msg, others⟩
  · rfl
  have stuck : endpoint.lockIndex 0 = none :=
    still (.lockIndex 0) id rfl (fun _ same => nomatch same)
  unfold lockIndex at stuck
  rw [free, calls] at stuck
  cases stuck

theorem allocating (still : Still endpoint) {msg : Msg} {loop : Loop}
    (holder : endpoint.allocating = some (msg, loop))
    (room : endpoint.sendRing.buffer.toRelease.length < 2 * defaultRqeCount) :
    loop ≠ .exited ∧ endpoint.sendRing.buffer.waits msg.wireLen = true := by
  have inside : loop ≠ .exited := by
    rintro rfl
    have stuck : endpoint.allocLocal = none :=
      still .allocLocal id rfl (fun _ same => nomatch same)
    unfold allocLocal at stuck
    rw [holder] at stuck
    dsimp only at stuck
    rw [if_pos room] at stuck
    cases stuck
  refine ⟨inside, ?_⟩
  by_contra exits
  have busy (idle : ∃ msg loop, endpoint.allocating = some (msg, loop) ∧
      endpoint.sendRing.buffer.waits msg.wireLen = true) : False := by
    obtain ⟨msg', loop', same, waits⟩ := idle
    rw [holder] at same
    cases same
    exact exits waits
  cases loop with
  | head =>
      have stuck : endpoint.localFirst = none :=
        still .localFirst busy rfl (fun _ same => nomatch same)
      unfold localFirst at stuck
      rw [holder] at stuck
      cases stuck
  | tested first =>
      have stuck : endpoint.localSecond = none :=
        still .localSecond busy rfl (fun _ same => nomatch same)
      unfold localSecond at stuck
      rw [holder] at stuck
      cases stuck
  | exited => exact inside rfl

theorem retired (still : Still endpoint)
    (cleared : ∀ flag, endpoint.sendRing.buffer.inUse flag = false) :
    endpoint.sendRing.buffer.queue = [] := by
  have releasing : endpoint.sendRing.buffer.releasing = none := by
    rcases releasing : endpoint.sendRing.buffer.releasing with _ | ⟨flag, length⟩
    · rfl
    have stuck : endpoint.releaseDone = none :=
      still .releaseDone id rfl (fun _ same => nomatch same)
    unfold releaseDone SendBuffer.releaseDone at stuck
    rw [releasing] at stuck
    dsimp only at stuck
    rw [cleared flag, if_neg Bool.false_ne_true] at stuck
    cases stuck
  rcases waiting : endpoint.sendRing.buffer.toRelease with _ | ⟨pair, rest⟩
  · unfold SendBuffer.queue
    rw [releasing, waiting]
    rfl
  have stuck : endpoint.popRelease = none :=
    still .popRelease id rfl (fun _ same => nomatch same)
  unfold popRelease SendBuffer.popRelease at stuck
  rw [releasing, waiting] at stuck
  cases stuck

end Still

end Endpoint

theorem Linked.finishes {mine peer : Endpoint} (linked : Linked mine peer)
    (back : Linked peer mine) (waiting : mine.receiving.isSome) : mine.finish.isSome := by
  obtain ⟨pair, receiving⟩ := Option.isSome_iff_exists.mp waiting
  obtain ⟨-, request, next, same⟩ := linked.transport.next receiving
  obtain ⟨orphans, tickets, -⟩ := back.sending
  have sized := (tickets.bought request.job (List.mem_append_right _
    (List.mem_map_of_mem (List.mem_of_getElem? next)))).2
  obtain ⟨recvBuf, read⟩ := back.flow.read_succeeds next sized
  unfold Endpoint.finish
  rw [receiving, ← same]
  dsimp only [Option.bind_eq_bind, Option.bind_some]
  rw [read]
  rfl

theorem LocalRing.Accounts.empty {ring : LocalRing} (accounts : ring.Accounts)
    (queue : ring.buffer.queue = []) : ring.buffer.done = ring.buffer.index := by
  have holds := accounts.holds
  rw [queue, List.map_nil] at holds
  have reached := holds.cursor
  rwa [Ring.cursor_nil] at reached

/-- Why a call of `send_msg` may be pending at rest. Either the local ring is empty and will
never admit it, or the reason is with the peer: it has sent `DEFAULT_RQE_COUNT` messages
less, or space of its ring has not been reported. -/
inductive Excused (mine peer : Endpoint) : Prop where
  | ownRing (msg : Msg) (loop : Loop) (waiting : mine.allocating = some (msg, loop))
      (alone : mine.copying = [] ∧ mine.lock = none)
      (done : mine.sendRing.buffer.done = mine.sendRing.buffer.index)
      (high : mine.sendRing.buffer.right < mine.sendRing.buffer.index + msg.wireLen)
      (low : mine.sendRing.buffer.index ≤ mine.sendRing.buffer.left + msg.wireLen)
  | silence (waiting : mine.AwaitsMessage)
      (ahead : mine.posted.length = peer.posted.length + defaultRqeCount)
  | notice (waiting : mine.AwaitsNotice) (outstanding : List Nat)
      (holds : mine.allocator.ring.Holds mine.allocator.done outstanding mine.allocator.index)
      (places : outstanding.sum = peer.carriedImm.sum + peer.release.sum +
        peer.recvBuf.released + peer.heldBytes)

/-- What rest means on one side. The release channel may still hold notices, which leave with
the next message, and the queue of the release task regions, from that of the first call on
that is between its two allocations. -/
structure Settled (mine peer : Endpoint) : Prop where
  delivered : mine.delivered = mine.posted.length
  returned : peer.returned = mine.posted.map fun request => request.msg.bytes
  acked : mine.acked = mine.posted.length
  flags : ∀ request ∈ mine.posted, mine.sendRing.buffer.inUse request.wrId = false
  queues : mine.receiving = none ∧ mine.rx = [] ∧ mine.forward = none ∧ mine.polled = [] ∧
    mine.cq = []
  released : mine.held = [] ∨ defaultRqeCount ≤ mine.release.length
  retired : mine.copying = [] → mine.lock = none → mine.sendRing.buffer.queue = [] ∧
    mine.sendRing.buffer.done = mine.sendRing.buffer.index
  excused : mine.pending ≠ [] → Excused mine peer

namespace System

variable {recvMr sendMr : Side → MR} {system : System}

theorem run_faultless (run : Runs.Run step Regular (new recvMr sendMr) system) (side : Side) :
    (system side).Faultless := by
  refine alone (fun _ mine => mine.Faultless) run ?_ ?_ ?_ side
  · intro side
    exact ⟨rfl, rfl⟩
  · intro side mine peer action after faultless regular taken
    exact Endpoint.step_faultless action faultless regular taken
  · intro side mine written delivered receives cq recvMem faultless
    exact ⟨faultless.granted, faultless.counted⟩

theorem resting_still (rests : Runs.Resting step Productive system) (side : Side) :
    (system side).Still := by
  intro action busy uncalled succeeds
  have stuck := rests (.own side action) ⟨busy, uncalled, fun side' errno same => by
    cases same
    exact succeeds errno rfl⟩
  exact Option.map_eq_none_iff.mp stuck

theorem resting_delivered (rests : Runs.Resting step Productive system) (side : Side)
    (sent : (system side).delivered ≤ (system side).posted.length)
    (receives : 0 < (system side.other).receives) :
    (system side).delivered = (system side).posted.length := by
  by_contra short
  have below : (system side).delivered < (system side).posted.length := by omega
  have entry := List.getElem?_eq_getElem below
  obtain ⟨data, fetched⟩ := (resting_still rests side).fetched below
  have stuck := rests (.write side (system side).delivered)
    ⟨trivial, rfl, fun _ _ same => nomatch same⟩
  have stuck' := rests (.deliver side) ⟨trivial, rfl, fun _ _ same => nomatch same⟩
  have unwritten := Option.map_eq_none_iff.mp stuck
  have undelivered := Option.map_eq_none_iff.mp stuck'
  unfold writeData at unwritten
  rw [entry, fetched] at unwritten
  unfold deliverNext at undelivered
  rw [entry] at undelivered
  dsimp only at unwritten undelivered
  split at unwritten
  · rename_i written
    rw [if_pos ⟨written, receives⟩] at undelivered
    cases undelivered
  · cases unwritten

/-- All messages posted are in the hands of the peer's application. -/
theorem resting_returned (run : Runs.Run step Regular (new recvMr sendMr) system)
    (rests : Runs.Resting step Productive system) (side : Side) :
    (system side).delivered = (system side).posted.length ∧
      (system side.other).returned.length = (system side).posted.length := by
  have forth := regular_linked run side
  have back := regular_linked run side.other
  rw [Side.other_other] at back
  obtain ⟨receiving, rx, forward, polled, cq⟩ :=
    (resting_still rests side.other).queues_empty (back.finishes forth)
  have credits := back.counts.queues.credits
  unfold Endpoint.unhandled at credits
  rw [polled, cq, List.countP_nil] at credits
  have receives : 0 < (system side.other).receives := by
    unfold defaultRqeCount maxQpWr at credits
    omega
  have delivered := resting_delivered rests side forth.counts.sent receives
  have pairs := congrArg List.length back.transport.pairs
  unfold Endpoint.inbox at pairs
  rw [receiving, rx, forward, polled, cq, delivered, List.take_length, List.length_map,
    List.length_drop] at pairs
  dsimp only [Option.toList_none, List.nil_append, List.filter_nil, List.map_nil,
    List.length_nil] at pairs
  have count := back.transport.count
  rw [delivered] at count
  exact ⟨delivered, Nat.le_antisymm count (Nat.sub_eq_zero_iff_le.mp pairs.symm)⟩

theorem resting_handed (run : Runs.Run step Regular (new recvMr sendMr) system)
    (rests : Runs.Resting step Productive system) (side : Side) : ∃ seen,
    ((system side).outgoing []).Handing seen ∧ seen = (system side).posted.map Request.wrId := by
  have forth := regular_linked run side
  have back := regular_linked run side.other
  rw [Side.other_other] at back
  have still := resting_still rests side
  obtain ⟨-, -, -, polled, cq⟩ := still.queues_empty (forth.finishes back)
  obtain ⟨seen, observed⟩ := run.observed (pointers side)
  have handing := run_handing observed
  refine ⟨seen, handing, ?_⟩
  have order := handing.order
  unfold Outgoing.announced Endpoint.outgoing at order
  rw [polled, cq, List.append_nil, List.filter_nil, List.map_nil, List.append_nil,
    still.acked forth.counts.queues, List.take_length] at order
  exact order

theorem resting_retired (run : Runs.Run step Regular (new recvMr sendMr) system)
    (rests : Runs.Resting step Productive system) {side : Side}
    (copied : (system side).copying = []) (free : (system side).lock = none) :
    (system side).sendRing.buffer.queue = [] ∧
      (system side).sendRing.buffer.done = (system side).sendRing.buffer.index := by
  obtain ⟨seen, handing, order⟩ := resting_handed run rests side
  obtain ⟨orphans, tickets, intact⟩ := (regular_linked run side).sending
  have granted := (run_faultless run side).granted
  rw [copied, free, Option.toList_none, List.length_nil, Nat.add_zero] at granted
  have once : seen.Nodup := by
    have jobs := tickets.once
    unfold Outgoing.jobs at jobs
    rw [List.map_append, List.map_map] at jobs
    rw [order]
    exact (List.nodup_append.mp jobs).2.1
  have within : seen ⊆ List.range (system side).sendRing.granted.length := by
    intro flag member
    have handing' : ((system side).outgoing orphans).Handing seen := { handing with }
    exact List.mem_range.mpr (handing'.below tickets member)
  have all : seen.Perm (List.range (system side).sendRing.granted.length) := by
    refine (List.subperm_of_subset once within).perm_of_length_le ?_
    rw [List.length_range, order, List.length_map, granted]
    exact Nat.le_refl _
  have queue : (system side).sendRing.buffer.queue = [] := by
    apply (resting_still rests side).retired
    intro flag
    rw [← Bool.not_eq_true]
    intro set
    obtain ⟨below, unseen⟩ := (handing.inUse flag).mp set
    exact unseen (all.mem_iff.mpr (List.mem_range.mpr below))
  exact ⟨queue, intact.sound.accounts.empty queue⟩

theorem resting_excused (run : Runs.Run step Regular (new recvMr sendMr) system)
    (rests : Runs.Resting step Productive system) (side : Side)
    (pending : (system side).pending ≠ []) : Excused (system side) (system side.other) := by
  have forth := regular_linked run side
  have back := regular_linked run side.other
  rw [Side.other_other] at back
  have still := resting_still rests side
  obtain ⟨-, -, forward, polled, cq⟩ := still.queues_empty (forth.finishes back)
  have acked := still.acked forth.counts.queues
  have slot : (system side).sqUsed < maxQpWr := by
    unfold Endpoint.sqUsed
    rw [acked, cq, Nat.sub_self]
    decide
  have returned := (resting_returned run rests side).2
  obtain ⟨delivered', returned'⟩ := resting_returned run rests side.other
  rw [Side.other_other] at returned'
  rcases still.holder slot with free | message | notice
  · have copied := still.copied free
    obtain ⟨queue, done⟩ := resting_retired run rests copied free
    rcases waiting : (system side).allocating with _ | ⟨msg, loop⟩
    · refine absurd ?_ pending
      unfold Endpoint.pending
      rw [still.calls waiting, waiting, copied, free]
      rfl
    · have room : (system side).sendRing.buffer.toRelease = [] :=
        (List.append_eq_nil_iff.mp queue).2
      obtain ⟨-, waits⟩ := still.allocating waiting (by rw [room]; decide)
      have never : ¬ ((system side).sendRing.buffer.index + msg.wireLen ≤
          (system side).sendRing.buffer.right ∨
          (system side).sendRing.buffer.left + msg.wireLen <
            (system side).sendRing.buffer.index) := by
        rw [← Cursors.empty_waits_iff done, waits]
        exact fun same => nomatch same
      exact .ownRing msg loop waiting ⟨copied, free⟩ done (by omega) (by omega)
  · refine .silence message ?_
    obtain ⟨msg, buf, wrId, holder, full⟩ := message
    have counted := (run_faultless run side).counted
    rw [Endpoint.charged_eq holder] at counted
    have balance := forth.counts.counting.balance
    have upper := forth.counts.counting.upper
    have handled := forth.counts.queues.handled
    have arrived := forth.counts.arrived
    obtain ⟨-, rx, -, -, -⟩ := still.queues_empty (forth.finishes back)
    unfold Endpoint.unhandled at arrived
    rw [polled, cq, List.countP_nil] at arrived
    rw [rx, forward, Option.toList_none, List.length_nil] at handled
    unfold maxSending at full upper
    dsimp only [Stage.charged] at counted
    omega
  · obtain ⟨outstanding, holds, -, places⟩ := forth.flow.credits
    refine .notice notice outstanding holds ?_
    obtain ⟨msg, buf, wrId, imm, loop, holder, -, -⟩ := notice
    have riding : (system side).ridingBytes (system side.other) =
        (system side.other).carriedImm.sum := by
      unfold Endpoint.ridingBytes Endpoint.carriedImms
      rw [List.drop_append_of_le_length (by rw [List.length_map]; omega),
        List.drop_eq_nil_of_le (by rw [List.length_map]; omega), List.nil_append]
    have unread : (system side).unreadBytes (system side.other) = 0 := by
      unfold Endpoint.unreadBytes Endpoint.grantedBufs Endpoint.placedBuf
      rw [holder, returned, List.append_nil, List.drop_eq_nil_of_le (by rw [List.length_map])]
      rfl
    omega

theorem resting_settled (recvMr sendMr : Side → MR) (system : System)
    (run : Runs.Run step Regular (new recvMr sendMr) system)
    (rests : Runs.Resting step Productive system) (side : Side) :
    Settled (system side) (system side.other) := by
  have forth := regular_linked run side
  have back := regular_linked run side.other
  rw [Side.other_other] at back
  have still := resting_still rests side
  obtain ⟨delivered, returned⟩ := resting_returned run rests side
  refine
    { delivered := delivered
      returned := ?_
      acked := still.acked forth.counts.queues
      flags := ?_
      queues := still.queues_empty (forth.finishes back)
      released := still.released
      retired := resting_retired run rests
      excused := resting_excused run rests side }
  · have arrived := forth.arrived.returned
    rw [returned, List.take_length] at arrived
    exact arrived
  · obtain ⟨seen, handing, order⟩ := resting_handed run rests side
    intro request posted
    rw [← Bool.not_eq_true]
    intro set
    obtain ⟨-, unseen⟩ := (handing.inUse request.wrId).mp set
    rw [order] at unseen
    exact unseen (List.mem_map_of_mem posted)

theorem Productive.run {later : System} (run : Runs.Run step Regular (new recvMr sendMr) system)
    (onward : Runs.Run step Productive system later) :
    Runs.Run step Regular (new recvMr sendMr) later :=
  run.trans (onward.mono fun _ _ => Productive.regular)

/-- Over a transport that waits for a receive to be posted, and while all completions are
successful, nothing is lost on the way: from every state of a regular run, whatever is done
next, both sides are settled within a bounded number of steps. -/
theorem comes_to_rest (recvMr sendMr : Side → MR) (system : System)
    (run : Runs.Run step Regular (new recvMr sendMr) system) :
    (∀ actions later, Runs.Trail step Productive system actions later →
      actions.length ≤ system.work) ∧
    (∃ later, Runs.Run step Productive system later ∧ Runs.Resting step Productive later) ∧
    ∀ later, Runs.Run step Productive system later → Runs.Resting step Productive later →
      ∀ side, Settled (later side) (later side.other) := by
  refine ⟨?_, ?_, ?_⟩
  · intro actions later onward
    have spent := onward.bounded work fun before action after => productive_work action
    omega
  · exact Runs.exists_resting work (fun before action after => productive_work action) system
  · intro later onward rests side
    exact resting_settled _ _ _ (Productive.run run onward) rests side

theorem comes_to_rest_two_slices : ∃ system later,
    Runs.Run step Regular (new (fun _ => sampleMr) (fun _ => sampleMr)) system ∧
      (system .server).held.length = 1 ∧ Runs.Run step Productive system later ∧
      Settled (later .client) (later .server) := by
  obtain ⟨system, run, reached⟩ : ∃ system,
      Runs.Run step (Allowed fun mine _ action => mine.Assumed action)
        (new (fun _ => sampleMr) (fun _ => sampleMr)) system ∧
        decide ((system .server).held.length = 1) = true :=
    Runs.Run.exists_of_execChecked assumes _ assumes_sound twoSlices (by decide +kernel)
  have regular := run_regular run
  obtain ⟨-, ⟨later, onward, rests⟩, settled⟩ := comes_to_rest _ _ system regular
  exact ⟨system, later, regular, of_decide_eq_true reached, onward,
    settled later onward rests .client⟩

end System

end Ibv
