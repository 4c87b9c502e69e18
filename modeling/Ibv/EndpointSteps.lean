import Ibv.Endpoint

set_option autoImplicit false

namespace Ibv

open RingFifo

namespace Endpoint

variable {endpoint after : Endpoint}

theorem lockIndex_cases {i : Nat} (taken : endpoint.lockIndex i = some after) :
    ∃ msg, endpoint.allocating = none ∧ endpoint.calls[i]? = some msg ∧
      after = { endpoint with
        calls := endpoint.calls.eraseIdx i
        allocating := some (msg, .head) } := by
  unfold lockIndex at taken
  split at taken
  · rename_i msg free entry
    exact ⟨msg, free, entry, (Option.some.inj taken).symm⟩
  · cases taken

theorem localFirst_cases (taken : endpoint.localFirst = some after) :
    ∃ msg, endpoint.allocating = some (msg, .head) ∧ after = { endpoint with
      allocating := some (msg, endpoint.sendRing.buffer.firstLoad msg.wireLen) } := by
  unfold localFirst at taken
  split at taken
  · rename_i msg holder
    exact ⟨msg, holder, (Option.some.inj taken).symm⟩
  · cases taken

theorem localSecond_cases (taken : endpoint.localSecond = some after) :
    ∃ msg first, endpoint.allocating = some (msg, .tested first) ∧ after = { endpoint with
      allocating := some (msg, endpoint.sendRing.buffer.secondLoad) } := by
  unfold localSecond at taken
  split at taken
  · rename_i msg first holder
    exact ⟨msg, first, holder, (Option.some.inj taken).symm⟩
  · cases taken

theorem allocLocal_cases (taken : endpoint.allocLocal = some after) :
    ∃ msg, endpoint.allocating = some (msg, .exited) ∧
      endpoint.sendRing.buffer.toRelease.length < 2 * defaultRqeCount ∧ after = { endpoint with
        sendRing := endpoint.sendRing.take msg.wireLen
        allocating := none
        copying := endpoint.copying ++ [⟨msg,
          ⟨endpoint.sendRing.addresses.place endpoint.sendRing.buffer.index msg.wireLen,
            msg.wireLen, endpoint.sendRing.buffer.mr.lkey⟩,
          endpoint.sendRing.buffer.fresh, msg,
          endpoint.sendRing.addresses.place endpoint.sendRing.buffer.index msg.wireLen⟩] } := by
  unfold allocLocal at taken
  split at taken
  · rename_i msg holder
    split at taken
    · rename_i room
      refine ⟨msg, holder, room, ?_⟩
      rw [← Option.some.inj taken]
      rw [SendBuffer.take_eq]
      rfl
    · cases taken
  · cases taken

theorem copy_cases {i : Nat} (taken : endpoint.copy i = some after) :
    ∃ msg buf wrId slice rest addr,
      endpoint.copying[i]? = some ⟨msg, buf, wrId, slice :: rest, addr⟩ ∧ after = { endpoint with
        sendMem := ByteMemory.write endpoint.sendMem addr slice.bytes
        copying := endpoint.copying.set i ⟨msg, buf, wrId, rest, addr + slice.len⟩ } := by
  unfold copy at taken
  split at taken
  · rename_i msg buf wrId slice rest addr entry
    exact ⟨msg, buf, wrId, slice, rest, addr, entry, (Option.some.inj taken).symm⟩
  · cases taken

theorem takeLock_cases {i : Nat} (taken : endpoint.takeLock i = some after) :
    ∃ msg buf wrId addr, endpoint.lock = none ∧
      endpoint.copying[i]? = some ⟨msg, buf, wrId, [], addr⟩ ∧ after = { endpoint with
        copying := endpoint.copying.eraseIdx i
        lock := some ⟨msg, buf, wrId, .locked⟩ } := by
  unfold takeLock at taken
  split at taken
  · rename_i msg buf wrId addr free entry
    exact ⟨msg, buf, wrId, addr, free, entry, (Option.some.inj taken).symm⟩
  · cases taken

theorem load_cases (taken : endpoint.load = some after) :
    ∃ msg buf wrId, endpoint.lock = some ⟨msg, buf, wrId, .locked⟩ ∧
      endpoint.sending < maxSending ∧
      after = { endpoint with lock := some ⟨msg, buf, wrId, .admitted⟩ } := by
  unfold load at taken
  split at taken
  · rename_i msg buf wrId holder
    split at taken
    · cases taken
    · rename_i below
      exact ⟨msg, buf, wrId, holder, Int.not_le.mp below, (Option.some.inj taken).symm⟩
  · cases taken

theorem count_cases (taken : endpoint.count = some after) :
    ∃ msg buf wrId, endpoint.lock = some ⟨msg, buf, wrId, .admitted⟩ ∧ after = { endpoint with
      sending := fetchAddI32 endpoint.sending 1
      lock := some ⟨msg, buf, wrId, .counted⟩
      counted := endpoint.counted + 1 } := by
  unfold count at taken
  split at taken
  · rename_i msg buf wrId holder
    exact ⟨msg, buf, wrId, holder, (Option.some.inj taken).symm⟩
  · cases taken

theorem popNotice_cases (taken : endpoint.popNotice = some after) :
    ∃ msg buf wrId, endpoint.lock = some ⟨msg, buf, wrId, .counted⟩ ∧ after = { endpoint with
      release := endpoint.release.tail
      lock := some ⟨msg, buf, wrId, .placing (endpoint.release.headD 0) .head⟩ } := by
  unfold popNotice at taken
  split at taken
  · rename_i msg buf wrId holder
    exact ⟨msg, buf, wrId, holder, (Option.some.inj taken).symm⟩
  · cases taken

theorem remoteFirst_cases (taken : endpoint.remoteFirst = some after) :
    ∃ msg buf wrId imm, endpoint.lock = some ⟨msg, buf, wrId, .placing imm .head⟩ ∧
      after = { endpoint with
        lock := some ⟨msg, buf, wrId,
          .placing imm (endpoint.allocator.firstLoad msg.wireLen)⟩ } := by
  unfold remoteFirst at taken
  split at taken
  · rename_i msg buf wrId imm holder
    exact ⟨msg, buf, wrId, imm, holder, (Option.some.inj taken).symm⟩
  · cases taken

theorem remoteSecond_cases (taken : endpoint.remoteSecond = some after) :
    ∃ msg buf wrId imm first,
      endpoint.lock = some ⟨msg, buf, wrId, .placing imm (.tested first)⟩ ∧
      after = { endpoint with
        lock := some ⟨msg, buf, wrId, .placing imm endpoint.allocator.secondLoad⟩ } := by
  unfold remoteSecond at taken
  split at taken
  · rename_i msg buf wrId imm first holder
    exact ⟨msg, buf, wrId, imm, first, holder, (Option.some.inj taken).symm⟩
  · cases taken

theorem allocRemote_cases (taken : endpoint.allocRemote = some after) :
    ∃ msg buf wrId imm, endpoint.lock = some ⟨msg, buf, wrId, .placing imm .exited⟩ ∧
      after = { endpoint with
        allocator := (endpoint.allocator.take msg.wireLen).1
        lock := some ⟨msg, buf, wrId,
          .placed imm (endpoint.allocator.take msg.wireLen).2⟩ } := by
  unfold allocRemote at taken
  split at taken
  · rename_i msg buf wrId imm holder
    exact ⟨msg, buf, wrId, imm, holder, (Option.some.inj taken).symm⟩
  · cases taken

theorem post_cases (taken : endpoint.post = some after) :
    ∃ msg buf wrId imm remote, endpoint.lock = some ⟨msg, buf, wrId, .placed imm remote⟩ ∧
      endpoint.sqUsed < maxQpWr ∧ after = { endpoint with
        posted := endpoint.posted ++ [⟨msg, wrId, buf, remote, imm⟩]
        lock := none
        results := endpoint.results ++ [.ok ()] } := by
  unfold post at taken
  split at taken
  · rename_i msg buf wrId imm remote holder
    split at taken
    · rename_i room
      exact ⟨msg, buf, wrId, imm, remote, holder, room, (Option.some.inj taken).symm⟩
    · cases taken
  · cases taken

theorem postFail_cases {errno : Int} (taken : endpoint.postFail errno = some after) :
    ∃ msg buf wrId imm remote, endpoint.lock = some ⟨msg, buf, wrId, .placed imm remote⟩ ∧
      after = { endpoint with
        lock := none
        results := endpoint.results ++ [.ok ()] } := by
  unfold postFail at taken
  split at taken
  · rename_i msg buf wrId imm remote holder
    exact ⟨msg, buf, wrId, imm, remote, holder, (Option.some.inj taken).symm⟩
  · cases taken

theorem fetch_cases {i : Nat} (taken : endpoint.fetch i = some after) :
    ∃ request, endpoint.posted[i]? = some request ∧ endpoint.fetched i = none ∧
      after = { endpoint with
        fetched := Function.update endpoint.fetched i (some (ByteMemory.read endpoint.sendMem
          request.localBuf.addr request.localBuf.length)) } := by
  unfold fetch at taken
  split at taken
  · rename_i request entry unread
    exact ⟨request, entry, unread, (Option.some.inj taken).symm⟩
  · cases taken

theorem ack_cases (taken : endpoint.ack = some after) :
    ∃ request data, endpoint.posted[endpoint.acked]? = some request ∧
      endpoint.fetched endpoint.acked = some data ∧ after = { endpoint with
        acked := endpoint.acked + 1
        cq := endpoint.cq ++ [request.sendWc] } := by
  unfold ack at taken
  split at taken
  · rename_i request data entry fetched
    exact ⟨request, data, entry, fetched, (Option.some.inj taken).symm⟩
  · cases taken

theorem poll_cases {n : Nat} (taken : endpoint.poll n = some after) :
    endpoint.polled = [] ∧ endpoint.forward = none ∧ n ≤ 100 ∧ n ≤ endpoint.cq.length ∧
      after = { endpoint with
        polled := endpoint.cq.take n
        cq := endpoint.cq.drop n } := by
  unfold poll at taken
  split at taken
  · rename_i idle free
    split at taken
    · rename_i bounds
      exact ⟨idle, free, bounds.1, bounds.2, (Option.some.inj taken).symm⟩
    · cases taken
  · cases taken

theorem dispatch_cases (taken : endpoint.dispatch = some after) :
    ∃ wc rest, endpoint.forward = none ∧ endpoint.polled = wc :: rest ∧
      ((wc.opcode = .writeWithImm ∧ after = { endpoint.postNullRecv with
          polled := rest
          forward := some wc.pair
          handled := endpoint.handled + 1 }) ∨
        (wc.opcode = .write ∧ after = { endpoint with
          polled := rest
          sendRing := { endpoint.sendRing with
            buffer := endpoint.sendRing.buffer.clear wc.wrId } }) ∨
        (wc.opcode ≠ .writeWithImm ∧ wc.opcode ≠ .write ∧
          after = { endpoint with polled := rest })) := by
  unfold dispatch at taken
  split at taken
  · rename_i wc rest free batch
    refine ⟨wc, rest, free, batch, ?_⟩
    split at taken
    · rename_i code
      exact .inl ⟨code, (Option.some.inj taken).symm⟩
    · rename_i code
      exact .inr (.inl ⟨code, (Option.some.inj taken).symm⟩)
    · rename_i other other'
      exact .inr (.inr ⟨other, other', (Option.some.inj taken).symm⟩)
  · cases taken

theorem sendPair_cases (taken : endpoint.sendPair = some after) :
    ∃ pair, endpoint.forward = some pair ∧ endpoint.rx.length < defaultRqeCount ∧
      after = { endpoint with
        forward := none
        rx := endpoint.rx ++ [pair] } := by
  unfold sendPair at taken
  split at taken
  · rename_i pair sending
    split at taken
    · rename_i room
      exact ⟨pair, sending, room, (Option.some.inj taken).symm⟩
    · cases taken
  · cases taken

theorem recv_cases (taken : endpoint.recv = some after) :
    ∃ pair rest, endpoint.receiving = none ∧ endpoint.rx = pair :: rest ∧
      after = { endpoint with
        rx := rest
        receiving := some pair
        sending := fetchAddI32 endpoint.sending (-1)
        received := endpoint.received + 1 } := by
  unfold recv at taken
  split at taken
  · rename_i pair rest idle queue
    exact ⟨pair, rest, idle, queue, (Option.some.inj taken).symm⟩
  · cases taken

theorem finish_cases (taken : endpoint.finish = some after) :
    ∃ pair recvBuf slice, endpoint.receiving = some pair ∧
      endpoint.recvBuf.read pair.1 = some (recvBuf, slice) ∧ after = { endpoint with
        receiving := none
        allocator :=
          if pair.2 ≠ 0 then endpoint.allocator.update pair.2 else endpoint.allocator
        recvBuf := recvBuf
        held := endpoint.held ++ [slice]
        returned := endpoint.returned ++
          [ByteMemory.read endpoint.recvMem slice.start slice.length] } := by
  unfold finish at taken
  obtain ⟨pair, receiving, rest⟩ := Option.bind_eq_some_iff.mp taken
  obtain ⟨result, slice, same⟩ := Option.bind_eq_some_iff.mp rest
  exact ⟨pair, result.1, result.2, receiving, slice, (Option.some.inj same).symm⟩

theorem releaseSlice_cases (taken : endpoint.releaseSlice = some after) :
    ∃ slice rest, endpoint.held = slice :: rest ∧ after = { endpoint with
      recvBuf := (endpoint.recvBuf.notifyRelease slice.length).1
      held := rest
      release := endpoint.release ++
        (endpoint.recvBuf.notifyRelease slice.length).2.toList } := by
  unfold releaseSlice at taken
  split at taken
  · rename_i slice rest held
    dsimp only at taken
    split at taken
    · exact ⟨slice, rest, held, (Option.some.inj taken).symm⟩
    · cases taken
  · cases taken

theorem popRelease_cases (taken : endpoint.popRelease = some after) :
    ∃ buffer, endpoint.sendRing.buffer.popRelease = some buffer ∧
      after = { endpoint with sendRing := { endpoint.sendRing with buffer := buffer } } := by
  obtain ⟨buffer, popped, same⟩ := Option.map_eq_some_iff.mp taken
  exact ⟨buffer, popped, same.symm⟩

theorem releaseDone_cases (taken : endpoint.releaseDone = some after) :
    ∃ buffer, endpoint.sendRing.buffer.releaseDone = some buffer ∧
      after = { endpoint with
        sendRing := { endpoint.sendRing with
          buffer := buffer
          retired := endpoint.sendRing.retired + 1 } } := by
  obtain ⟨buffer, done, same⟩ := Option.map_eq_some_iff.mp taken
  exact ⟨buffer, done, same.symm⟩

/-- The steps that touch the queue pair, the completion queue or what `polling` does. -/
def Action.queueing : Action → Bool
  | .post | .ack | .poll _ | .dispatch | .sendPair | .recv => true
  | _ => false

/-- The steps of the call that holds `Conn.lock`, from taking to leaving it. -/
def Action.critical : Action → Bool
  | .takeLock _ | .load | .count | .popNotice | .remoteFirst | .remoteSecond | .allocRemote
  | .post | .postFail _ => true
  | _ => false

/-- The steps of the receiving application on its ring. -/
def Action.reading : Action → Bool
  | .finish | .release => true
  | _ => false

inductive Footprint (endpoint : Endpoint) (action : Action) : Endpoint → Prop where
  | sends (calls : List Msg) (allocating : Option (Msg × Loop)) (copying : List Copying)
      (sendRing : LocalRing) (sendMem : Nat → UInt8) (fetched : Nat → Option (List UInt8)) :
      Footprint endpoint action { endpoint with
        calls := calls
        allocating := allocating
        copying := copying
        sendRing := sendRing
        sendMem := sendMem
        fetched := fetched }
  | critical (isCritical : action.critical = true) (copying : List Copying)
      (lock : Option Critical) (sending : Int) (counted : Nat) (allocator : RemoteBufManager)
      (release : List Nat) (posted : List Request) (results : List (Except Int Unit))
      (keepsRelease : action ≠ .popNotice → release = endpoint.release)
      (keepsPosted : action ≠ .post → posted = endpoint.posted) :
      Footprint endpoint action { endpoint with
        copying := copying
        lock := lock
        sending := sending
        counted := counted
        allocator := allocator
        release := release
        posted := posted
        results := results }
  | queues (isQueueing : action.queueing = true) (sendRing : LocalRing) (acked receives : Nat)
      (cq polled : List WC) (forward : Option (Nat × Nat)) (rx : List (Nat × Nat))
      (handled : Nat) :
      Footprint endpoint action { endpoint with
        sendRing := sendRing
        acked := acked
        receives := receives
        cq := cq
        polled := polled
        forward := forward
        rx := rx
        handled := handled }
  | recv (isRecv : action = .recv) (rx : List (Nat × Nat)) (receiving : Option (Nat × Nat))
      (sending : Int) (received : Nat) :
      Footprint endpoint action { endpoint with
        rx := rx
        receiving := receiving
        sending := sending
        received := received }
  | reads (isReading : action.reading = true) (recvBuf : RecvBuffer) (held : List Region)
      (returned : List (List UInt8)) (release : List Nat) (allocator : RemoteBufManager)
      (receiving : Option (Nat × Nat))
      (finishes : action ≠ .finish →
        allocator = endpoint.allocator ∧ receiving = endpoint.receiving) :
      Footprint endpoint action { endpoint with
        recvBuf := recvBuf
        held := held
        returned := returned
        release := release
        allocator := allocator
        receiving := receiving }

theorem step_footprint (action : Action) (taken : endpoint.step action = some after) :
    Footprint endpoint action after := by
  cases action with
  | call msg =>
      cases taken
      apply Footprint.sends
  | lockIndex i =>
      obtain ⟨msg, -, -, rfl⟩ := lockIndex_cases taken
      apply Footprint.sends
  | localFirst =>
      obtain ⟨msg, -, rfl⟩ := localFirst_cases taken
      apply Footprint.sends
  | localSecond =>
      obtain ⟨msg, first, -, rfl⟩ := localSecond_cases taken
      apply Footprint.sends
  | allocLocal =>
      obtain ⟨msg, -, -, rfl⟩ := allocLocal_cases taken
      apply Footprint.sends
  | copy i =>
      obtain ⟨msg, buf, wrId, slice, rest, addr, -, rfl⟩ := copy_cases taken
      apply Footprint.sends
  | fetch i =>
      obtain ⟨request, -, -, rfl⟩ := fetch_cases taken
      apply Footprint.sends
  | popRelease =>
      obtain ⟨buffer, -, rfl⟩ := popRelease_cases taken
      apply Footprint.sends
  | releaseDone =>
      obtain ⟨buffer, -, rfl⟩ := releaseDone_cases taken
      apply Footprint.sends
  | takeLock i =>
      obtain ⟨msg, buf, wrId, addr, -, -, rfl⟩ := takeLock_cases taken
      exact .critical rfl _ _ _ _ _ _ _ _ (fun _ => rfl) fun _ => rfl
  | load =>
      obtain ⟨msg, buf, wrId, -, -, rfl⟩ := load_cases taken
      exact .critical rfl _ _ _ _ _ _ _ _ (fun _ => rfl) fun _ => rfl
  | count =>
      obtain ⟨msg, buf, wrId, -, rfl⟩ := count_cases taken
      exact .critical rfl _ _ _ _ _ _ _ _ (fun _ => rfl) fun _ => rfl
  | popNotice =>
      obtain ⟨msg, buf, wrId, -, rfl⟩ := popNotice_cases taken
      exact .critical rfl _ _ _ _ _ _ _ _ (fun other => absurd rfl other) fun _ => rfl
  | remoteFirst =>
      obtain ⟨msg, buf, wrId, imm, -, rfl⟩ := remoteFirst_cases taken
      exact .critical rfl _ _ _ _ _ _ _ _ (fun _ => rfl) fun _ => rfl
  | remoteSecond =>
      obtain ⟨msg, buf, wrId, imm, first, -, rfl⟩ := remoteSecond_cases taken
      exact .critical rfl _ _ _ _ _ _ _ _ (fun _ => rfl) fun _ => rfl
  | allocRemote =>
      obtain ⟨msg, buf, wrId, imm, -, rfl⟩ := allocRemote_cases taken
      exact .critical rfl _ _ _ _ _ _ _ _ (fun _ => rfl) fun _ => rfl
  | post =>
      obtain ⟨msg, buf, wrId, imm, remote, -, -, rfl⟩ := post_cases taken
      exact .critical rfl _ _ _ _ _ _ _ _ (fun _ => rfl) fun other => absurd rfl other
  | postFail errno =>
      obtain ⟨msg, buf, wrId, imm, remote, -, rfl⟩ := postFail_cases taken
      exact .critical rfl _ _ _ _ _ _ _ _ (fun _ => rfl) fun _ => rfl
  | ack =>
      obtain ⟨request, data, -, -, rfl⟩ := ack_cases taken
      exact .queues rfl _ _ _ _ _ _ _ _
  | poll n =>
      obtain ⟨-, -, -, -, rfl⟩ := poll_cases taken
      exact .queues rfl _ _ _ _ _ _ _ _
  | dispatch =>
      obtain ⟨wc, rest, -, -, ⟨-, rfl⟩ | ⟨-, rfl⟩ | ⟨-, -, rfl⟩⟩ := dispatch_cases taken
      · unfold postNullRecv
        split
        · exact .queues rfl _ _ _ _ _ _ _ _
        · exact .queues rfl _ _ _ _ _ _ _ _
      · exact .queues rfl _ _ _ _ _ _ _ _
      · exact .queues rfl _ _ _ _ _ _ _ _
  | sendPair =>
      obtain ⟨pair, -, -, rfl⟩ := sendPair_cases taken
      exact .queues rfl _ _ _ _ _ _ _ _
  | recv =>
      obtain ⟨pair, rest, -, -, rfl⟩ := recv_cases taken
      exact .recv rfl _ _ _ _
  | finish =>
      obtain ⟨pair, recvBuf, slice, -, -, rfl⟩ := finish_cases taken
      exact .reads rfl _ _ _ _ _ _ fun other => absurd rfl other
  | release =>
      obtain ⟨slice, rest, -, rfl⟩ := releaseSlice_cases taken
      exact .reads rfl _ _ _ _ _ _ fun _ => ⟨rfl, rfl⟩

theorem Action.not_queueing {action : Action} (other : action.queueing = false) :
    action ≠ .post ∧ action ≠ .recv := by
  refine ⟨?_, ?_⟩
  · rintro rfl
    cases other
  · rintro rfl
    cases other

theorem step_not_queueing (action : Action) (other : action.queueing = false)
    (taken : endpoint.step action = some after) :
    ∃ state : Endpoint, after = { state with
      posted := endpoint.posted
      written := endpoint.written
      delivered := endpoint.delivered
      acked := endpoint.acked
      receives := endpoint.receives
      cq := endpoint.cq
      polled := endpoint.polled
      forward := endpoint.forward
      rx := endpoint.rx
      received := endpoint.received
      handled := endpoint.handled } := by
  obtain ⟨notPost, notRecv⟩ := Action.not_queueing other
  refine ⟨after, ?_⟩
  cases step_footprint action taken with
  | sends => rfl
  | critical _ _ _ _ _ _ _ _ _ _ keepsPosted =>
      rw [keepsPosted notPost]
  | queues isQueueing =>
      rw [other] at isQueueing
      cases isQueueing
  | recv isRecv => exact absurd isRecv notRecv
  | reads => rfl

/-- Only the `critical` steps move the holder of `Conn.lock` on, and only the receiving
application else touches the counter or the allocator. -/
theorem step_not_critical (action : Action) (other : action.critical = false)
    (taken : endpoint.step action = some after) :
    after.lock = endpoint.lock ∧ after.counted = endpoint.counted ∧
      after.posted = endpoint.posted ∧ after.results = endpoint.results ∧
      (action ≠ .recv → after.sending = endpoint.sending ∧ after.received = endpoint.received) ∧
      (action ≠ .finish → after.allocator = endpoint.allocator) ∧
      (action ≠ .recv → action ≠ .finish → after.receiving = endpoint.receiving) := by
  cases step_footprint action taken with
  | sends | queues =>
      exact ⟨rfl, rfl, rfl, rfl, fun _ => ⟨rfl, rfl⟩, fun _ => rfl, fun _ _ => rfl⟩
  | critical isCritical =>
      rw [other] at isCritical
      cases isCritical
  | recv isRecv =>
      exact ⟨rfl, rfl, rfl, rfl, fun notRecv => absurd isRecv notRecv, fun _ => rfl,
        fun notRecv => absurd isRecv notRecv⟩
  | reads _ _ _ _ _ _ _ finishes =>
      exact ⟨rfl, rfl, rfl, rfl, fun _ => ⟨rfl, rfl⟩, fun notFinish => (finishes notFinish).1,
        fun _ notFinish => (finishes notFinish).2⟩

/-- Only the `reading` steps move the read cursor and the slices; of the others only a call
that carries a notice takes from the release channel. -/
theorem step_not_reading (action : Action) (other : action.reading = false)
    (taken : endpoint.step action = some after) :
    after.recvBuf = endpoint.recvBuf ∧ after.held = endpoint.held ∧
      after.returned = endpoint.returned ∧ after.recvMem = endpoint.recvMem ∧
      (action ≠ .recv → after.receiving = endpoint.receiving) ∧
      (action ≠ .popNotice → after.release = endpoint.release) := by
  cases step_footprint action taken with
  | sends | queues => exact ⟨rfl, rfl, rfl, rfl, fun _ => rfl, fun _ => rfl⟩
  | critical _ _ _ _ _ _ _ _ _ keepsRelease =>
      exact ⟨rfl, rfl, rfl, rfl, fun _ => rfl, keepsRelease⟩
  | recv isRecv =>
      exact ⟨rfl, rfl, rfl, rfl, fun notRecv => absurd isRecv notRecv, fun _ => rfl⟩
  | reads isReading =>
      rw [other] at isReading
      cases isReading

end Endpoint

end Ibv
