import Ibv.Counters
import Ibv.RemoteRing

set_option autoImplicit false

namespace Ibv

open Direction (sampleMr)

namespace Endpoint

/-- The steps of one `send_msg` of one slice, from the call to the post, when both rings
have room behind their `index`. -/
def sendSteps (slice : IoSlice) : List Action :=
  [.call [slice], .lockIndex 0, .localFirst, .localSecond, .allocLocal, .copy 0, .takeLock 0,
    .load, .count, .popNotice, .remoteFirst, .remoteSecond, .allocRemote, .post]

/-- No other call is in progress, and nothing keeps one of this slice waiting. -/
structure Ready (endpoint : Endpoint) (slice : IoSlice) : Prop where
  calls : endpoint.calls = []
  allocating : endpoint.allocating = none
  copying : endpoint.copying = []
  lock : endpoint.lock = none
  small : slice.len < 2 ^ 32
  localOrder : endpoint.sendRing.buffer.done ≤ endpoint.sendRing.buffer.index
  localRoom : endpoint.sendRing.buffer.index + slice.len ≤ endpoint.sendRing.buffer.right
  queue : endpoint.sendRing.buffer.toRelease.length < 2 * defaultRqeCount
  remoteOrder : endpoint.allocator.done ≤ endpoint.allocator.index
  remoteRoom : endpoint.allocator.index + slice.len ≤ endpoint.allocator.right
  below : endpoint.sending < maxSending
  slot : endpoint.sqUsed < maxQpWr

def request (endpoint : Endpoint) (slice : IoSlice) : Request where
  msg := [slice]
  wrId := endpoint.sendRing.buffer.fresh
  localBuf := (endpoint.sendRing.buffer.take slice.len).2.1
  remoteBuf := (endpoint.allocator.take slice.len).2
  imm := endpoint.release.headD 0

def sent (endpoint : Endpoint) (slice : IoSlice) : Endpoint :=
  { endpoint with
    sending := fetchAddI32 endpoint.sending 1
    lock := none
    allocator := (endpoint.allocator.take slice.len).1
    sendRing := endpoint.sendRing.take slice.len
    release := endpoint.release.tail
    calls := []
    allocating := none
    copying := []
    posted := endpoint.posted ++ [endpoint.request slice]
    sendMem := ByteMemory.write endpoint.sendMem endpoint.sendRing.buffer.index slice.bytes
    counted := endpoint.counted + 1
    results := endpoint.results ++ [.ok ()] }

/-- The wait loop with room behind `index` and `done` not above it: the first comparison
does not decide, the second leaves the loop. -/
theorem straight_loads (cursors : Cursors) (length : Nat) (order : cursors.done ≤ cursors.index)
    (room : cursors.index + length ≤ cursors.right) :
    cursors.firstLoad length = .tested cursors.done ∧ cursors.secondLoad = .exited := by
  have fits : ¬ cursors.index + length > cursors.right := by omega
  have behind : cursors.index + length ≥ cursors.done := by omega
  have below : ¬ cursors.done > cursors.index := by omega
  simp only [Cursors.firstLoad, Cursors.secondLoad, fits, behind, below, ↓reduceIte, and_self]

theorem exec_send (endpoint : Endpoint) (slice : IoSlice) (ready : endpoint.Ready slice) :
    Runs.exec step endpoint (sendSteps slice) = some (endpoint.sent slice) := by
  have wire : Msg.wireLen [slice] = slice.len := Msg.wireLen_eq (by simpa using ready.small)
  have localLoads := straight_loads endpoint.sendRing.buffer.toCursors slice.len
    ready.localOrder ready.localRoom
  have remoteLoads := straight_loads endpoint.allocator.toCursors slice.len
    ready.remoteOrder ready.remoteRoom
  have admitted : ¬ endpoint.sending ≥ maxSending := Int.not_le.mpr ready.below
  have slot := ready.slot
  unfold sqUsed at slot
  have start : (endpoint.sendRing.buffer.take slice.len).2.1.addr =
      endpoint.sendRing.buffer.index := by
    rw [SendBuffer.take_eq]
    exact RingFifo.Ring.place_fits ready.localRoom
  simp only [sendSteps, Runs.exec_cons, Runs.exec_nil, step, call, Option.bind_some, lockIndex,
    ready.allocating, ready.calls, List.nil_append, List.getElem?_cons_zero, List.eraseIdx_cons_zero,
    localFirst, wire, localLoads.1, localSecond, localLoads.2, allocLocal, ready.queue, ↓reduceIte,
    ready.copying, copy, List.set_cons_zero, takeLock, ready.lock, load, admitted, count, popNotice,
    remoteFirst, remoteLoads.1, remoteSecond, remoteLoads.2, allocRemote, post,
    sqUsed, slot, start]
  rfl

def oneByte : IoSlice := ⟨1, fun _ => 0⟩

/-- Room for `n` more messages of one byte, of which none so far is still in progress. -/
structure Primed (endpoint : Endpoint) (n : Nat) : Prop where
  calls : endpoint.calls = []
  allocating : endpoint.allocating = none
  copying : endpoint.copying = []
  lock : endpoint.lock = none
  localOrder : endpoint.sendRing.buffer.done ≤ endpoint.sendRing.buffer.index
  localRoom : endpoint.sendRing.buffer.index + n ≤ endpoint.sendRing.buffer.right
  queue : endpoint.sendRing.buffer.toRelease.length + n ≤ 2 * defaultRqeCount
  remoteOrder : endpoint.allocator.done ≤ endpoint.allocator.index
  remoteRoom : endpoint.allocator.index + n ≤ endpoint.allocator.right
  lower : -maxSending ≤ endpoint.sending
  upper : endpoint.sending + n ≤ maxSending
  slots : endpoint.sqUsed + n ≤ maxQpWr
  delivered : endpoint.delivered = endpoint.posted.length
  acked : endpoint.acked = endpoint.posted.length
  fetched : ∀ i, endpoint.posted.length ≤ i → endpoint.fetched i = none
  written : ∀ i, endpoint.posted.length ≤ i → endpoint.written i = false

theorem Primed.ready {endpoint : Endpoint} {n : Nat} (primed : endpoint.Primed (n + 1)) :
    endpoint.Ready oneByte where
  calls := primed.calls
  allocating := primed.allocating
  copying := primed.copying
  lock := primed.lock
  small := by decide
  localOrder := primed.localOrder
  localRoom := by
    have room := primed.localRoom
    change endpoint.sendRing.buffer.index + 1 ≤ _
    omega
  queue := by
    have queue := primed.queue
    omega
  remoteOrder := primed.remoteOrder
  remoteRoom := by
    have room := primed.remoteRoom
    change endpoint.allocator.index + 1 ≤ _
    omega
  below := by
    have upper := primed.upper
    omega
  slot := by
    have slots := primed.slots
    omega

theorem Primed.mono {endpoint : Endpoint} {m n : Nat} (primed : endpoint.Primed n) (few : m ≤ n) :
    endpoint.Primed m := by
  have localRoom := primed.localRoom
  have queue := primed.queue
  have remoteRoom := primed.remoteRoom
  have upper := primed.upper
  have slots := primed.slots
  exact { primed with
    localRoom := by omega
    queue := by omega
    remoteRoom := by omega
    upper := by omega
    slots := by omega }

/-- `n` completions of one kind have come in. -/
def Completed (before after : List WC) (opcode : Opcode) (n : Nat) : Prop :=
  ∃ added : List WC, after = before ++ added ∧ added.length = n ∧ ∀ wc ∈ added, wc.opcode = opcode

theorem Completed.refl (wcs : List WC) (opcode : Opcode) : Completed wcs wcs opcode 0 := by
  refine ⟨[], (List.append_nil _).symm, rfl, ?_⟩
  intro wc member
  cases member

theorem Completed.trans {before middle after : List WC} {opcode : Opcode} {m n : Nat}
    (first : Completed before middle opcode m) (second : Completed middle after opcode n) :
    Completed before after opcode (m + n) := by
  obtain ⟨added, rfl, rfl, kinds⟩ := first
  obtain ⟨added', rfl, rfl, kinds'⟩ := second
  refine ⟨added ++ added', List.append_assoc _ _ _, List.length_append, ?_⟩
  intro wc member
  rcases List.mem_append.mp member with old | new
  · exact kinds wc old
  · exact kinds' wc new

theorem Completed.sends {before after : List WC} {n : Nat}
    (completed : Completed before after .write n) :
    after.countP WC.isSend = before.countP WC.isSend + n ∧
      after.countP WC.isRecv = before.countP WC.isRecv := by
  obtain ⟨added, rfl, rfl, kinds⟩ := completed
  have all : added.countP WC.isSend = added.length :=
    List.countP_eq_length.mpr fun wc member => decide_eq_true (kinds wc member)
  have none : added.countP WC.isRecv = 0 := List.countP_eq_zero.mpr fun wc member isRecv => by
    rw [WC.isRecv, kinds wc member] at isRecv
    cases isRecv
  rw [List.countP_append, List.countP_append, all, none]
  exact ⟨rfl, rfl⟩

theorem Completed.recvs {before after : List WC} {n : Nat}
    (completed : Completed before after .writeWithImm n) :
    after.countP WC.isRecv = before.countP WC.isRecv + n ∧
      after.countP WC.isSend = before.countP WC.isSend := by
  obtain ⟨added, rfl, rfl, kinds⟩ := completed
  have all : added.countP WC.isRecv = added.length :=
    List.countP_eq_length.mpr fun wc member => decide_eq_true (kinds wc member)
  have none : added.countP WC.isSend = 0 := List.countP_eq_zero.mpr fun wc member isSend => by
    rw [WC.isSend, kinds wc member] at isSend
    cases isSend
  rw [List.countP_append, List.countP_append, all, none]
  exact ⟨rfl, rfl⟩

/-- What completed sends change on the sender's side, and what they leave. -/
structure Sent (before after : Endpoint) (n : Nat) : Prop where
  posted : after.posted.length = before.posted.length + n
  sending : after.sending = before.sending + n
  completed : Completed before.cq after.cq .write n
  localIndex : after.sendRing.buffer.index = before.sendRing.buffer.index + n
  localDone : after.sendRing.buffer.done = before.sendRing.buffer.done
  localRight : after.sendRing.buffer.right = before.sendRing.buffer.right
  queue : after.sendRing.buffer.toRelease.length = before.sendRing.buffer.toRelease.length + n
  remoteIndex : after.allocator.index = before.allocator.index + n
  remoteDone : after.allocator.done = before.allocator.done
  remoteRight : after.allocator.right = before.allocator.right
  receives : after.receives = before.receives
  polled : after.polled = before.polled
  forward : after.forward = before.forward
  handled : after.handled = before.handled
  received : after.received = before.received

theorem Sent.refl (endpoint : Endpoint) : Sent endpoint endpoint 0 := by
  exact ⟨rfl, (Int.add_zero _).symm, .refl _ _, rfl, rfl, rfl, rfl, rfl, rfl, rfl, rfl, rfl, rfl,
    rfl, rfl⟩

theorem Sent.trans {before middle after : Endpoint} {m n : Nat} (first : Sent before middle m)
    (second : Sent middle after n) : Sent before after (m + n) where
  posted := by rw [second.posted, first.posted, Nat.add_assoc]
  sending := by
    rw [second.sending, first.sending]
    omega
  completed := first.completed.trans second.completed
  localIndex := by rw [second.localIndex, first.localIndex, Nat.add_assoc]
  localDone := second.localDone.trans first.localDone
  localRight := second.localRight.trans first.localRight
  queue := by rw [second.queue, first.queue, Nat.add_assoc]
  remoteIndex := by rw [second.remoteIndex, first.remoteIndex, Nat.add_assoc]
  remoteDone := second.remoteDone.trans first.remoteDone
  remoteRight := second.remoteRight.trans first.remoteRight
  receives := second.receives.trans first.receives
  polled := second.polled.trans first.polled
  forward := second.forward.trans first.forward
  handled := second.handled.trans first.handled
  received := second.received.trans first.received

theorem Sent.primed {before after : Endpoint} {m n : Nat} (sent : Sent before after m)
    (primed : before.Primed (m + n)) (calls : after.calls = [])
    (allocating : after.allocating = none) (copying : after.copying = [])
    (lock : after.lock = none) (delivered : after.delivered = after.posted.length)
    (acked : after.acked = after.posted.length)
    (fetched : ∀ i, after.posted.length ≤ i → after.fetched i = none)
    (written : ∀ i, after.posted.length ≤ i → after.written i = false) : after.Primed n := by
  have localOrder := primed.localOrder
  have localRoom := primed.localRoom
  have queue := primed.queue
  have remoteOrder := primed.remoteOrder
  have remoteRoom := primed.remoteRoom
  have lower := primed.lower
  have upper := primed.upper
  have slots := primed.slots
  refine ⟨calls, allocating, copying, lock, ?_, ?_, ?_, ?_, ?_, ?_, ?_, ?_, delivered, acked,
    fetched, written⟩
  · rw [sent.localDone, sent.localIndex]
    omega
  · rw [sent.localIndex, sent.localRight]
    omega
  · rw [sent.queue]
    omega
  · rw [sent.remoteDone, sent.remoteIndex]
    omega
  · rw [sent.remoteIndex, sent.remoteRight]
    omega
  · rw [sent.sending]
    omega
  · rw [sent.sending]
    omega
  · unfold sqUsed at slots ⊢
    rw [primed.acked] at slots
    rw [acked, sent.completed.sends.1]
    omega

theorem sent_one {before : Endpoint} {n : Nat} {fetched : Nat → Option (List UInt8)}
    {written : Nat → Bool} (primed : before.Primed (n + 1)) : Sent before
      { before.sent oneByte with
        fetched := fetched
        written := written
        delivered := before.posted.length + 1
        acked := before.posted.length + 1
        cq := before.cq ++ [(before.request oneByte).sendWc] } 1 := by
  have localFits : before.sendRing.buffer.index + 1 ≤ before.sendRing.buffer.ring.right :=
    primed.ready.localRoom
  have remoteFits : before.allocator.index + 1 ≤ before.allocator.ring.right :=
    primed.ready.remoteRoom
  have lower := primed.lower
  have below := primed.ready.below
  have placed := before.sendRing.buffer.take_eq 1
  have granted := before.allocator.take_eq 1
  rw [RingFifo.Ring.advance_fits localFits] at placed
  rw [RingFifo.Ring.advance_fits remoteFits] at granted
  refine
    { posted := List.length_append
      sending := fetchAddI32_eq (by omega) (by omega)
      completed := ⟨[_], rfl, rfl, ?_⟩
      localIndex := ?_
      localDone := ?_
      localRight := ?_
      queue := ?_
      remoteIndex := ?_
      remoteDone := ?_
      remoteRight := ?_
      receives := rfl
      polled := rfl
      forward := rfl
      handled := rfl
      received := rfl }
  · intro wc member
    rw [List.mem_singleton.mp member]
    rfl
  · change (before.sendRing.buffer.take 1).1.index = _
    rw [placed]
  · change (before.sendRing.buffer.take 1).1.done = _
    rw [placed]
  · change (before.sendRing.buffer.take 1).1.right = _
    rw [placed]
  · change (before.sendRing.buffer.take 1).1.toRelease.length = _
    rw [placed]
    exact List.length_append
  · change (before.allocator.take 1).1.index = _
    rw [granted]
  · change (before.allocator.take 1).1.done = _
    rw [granted]
  · change (before.allocator.take 1).1.right = _
    rw [granted]

end Endpoint

namespace System

/-- A run of one endpoint alone. -/
theorem run_own (side : Side) (actions : List Endpoint.Action) {mine peer after : Endpoint}
    (executed : Runs.exec Endpoint.step mine actions = some after) :
    Runs.Run step Runs.Any (join side mine peer) (join side after peer) := by
  induction actions generalizing mine with
  | nil =>
      cases executed
      exact .refl
  | cons action actions ih =>
      obtain ⟨next, taken, rest⟩ := Option.bind_eq_some_iff.mp executed
      exact (Runs.Run.single _ trivial (step_own taken)).trans (ih rest)

/-- What the delivery of `n` messages changes on the receiver's side. -/
structure Delivered (before after : Endpoint) (n : Nat) : Prop where
  same : after = { before with
    recvMem := after.recvMem
    receives := after.receives
    cq := after.cq }
  receives : after.receives + n = before.receives
  completed : Endpoint.Completed before.cq after.cq .writeWithImm n

theorem execute_next (side : Side) {sender receiver : Endpoint} {request : Request} {k : Nat}
    (entry : sender.posted[k]? = some request) (unread : sender.fetched k = none)
    (unwritten : sender.written k = false) (delivered : sender.delivered = k)
    (acked : sender.acked = k) (credit : 0 < receiver.receives) :
    ∃ mine peer, Runs.Run step Runs.Any (join side sender receiver) (join side mine peer) ∧
      mine = { sender with
        fetched := mine.fetched
        written := mine.written
        delivered := k + 1
        acked := k + 1
        cq := sender.cq ++ [request.sendWc] } ∧
      (∀ i, k < i → mine.fetched i = sender.fetched i ∧ mine.written i = sender.written i) ∧
      Delivered receiver peer 1 := by
  let data := ByteMemory.read sender.sendMem request.localBuf.addr request.localBuf.length
  let fetched := Function.update sender.fetched k (some data)
  let written := Function.update sender.written k true
  let recvMem := ByteMemory.write receiver.recvMem request.remoteBuf.addr data
  have fetching : sender.step (.fetch k) = some { sender with fetched := fetched } := by
    change sender.fetch k = _
    unfold Endpoint.fetch
    rw [entry, unread]
  have writing : writeData { sender with fetched := fetched } receiver k =
      some ({ sender with fetched := fetched, written := written },
        { receiver with recvMem := recvMem }) := by
    unfold writeData
    dsimp only
    rw [entry, show fetched k = some data from Function.update_self _ _ _]
    dsimp only
    rw [unwritten]
    rfl
  have delivering : deliverNext { sender with fetched := fetched, written := written }
      { receiver with recvMem := recvMem } =
        some ({ sender with fetched := fetched, written := written, delivered := k + 1 },
          { receiver with
            recvMem := recvMem
            receives := receiver.receives - 1
            cq := receiver.cq ++ [request.recvWc] }) := by
    unfold deliverNext
    dsimp only
    rw [delivered, entry]
    dsimp only
    rw [if_pos ⟨Function.update_self _ _ _, credit⟩]
  have acking : Endpoint.step
      { sender with fetched := fetched, written := written, delivered := k + 1 } .ack =
        some { sender with
          fetched := fetched
          written := written
          delivered := k + 1
          acked := k + 1
          cq := sender.cq ++ [request.sendWc] } := by
    unfold Endpoint.step Endpoint.ack
    dsimp only
    rw [acked, entry, show fetched k = some data from Function.update_self _ _ _]
  refine ⟨_, _, ((Runs.Run.single _ trivial (step_own fetching)).next _ trivial
    (step_write writing)).next _ trivial (step_deliver delivering) |>.next _ trivial
    (step_own acking), rfl, ?_, ?_⟩
  · intro i later
    have other : i ≠ k := by omega
    exact ⟨Function.update_of_ne other _ _, Function.update_of_ne other _ _⟩
  · refine ⟨rfl, Nat.sub_add_cancel credit, [_], rfl, rfl, ?_⟩
    intro wc member
    rw [List.mem_singleton.mp member]
    rfl

/-- One message of one byte, sent, executed and completed on both queues. -/
theorem complete_one (side : Side) {before receiver : Endpoint} {n : Nat}
    (primed : before.Primed (n + 1)) (credit : 0 < receiver.receives) :
    ∃ mine peer, Runs.Run step Runs.Any (join side before receiver) (join side mine peer) ∧
      Endpoint.Sent before mine 1 ∧ mine.Primed n ∧ Delivered receiver peer 1 := by
  have sending : Runs.Run step Runs.Any (join side before receiver)
      (join side (before.sent Endpoint.oneByte) receiver) :=
    run_own side _ (Endpoint.exec_send before Endpoint.oneByte primed.ready)
  have entry : (before.sent Endpoint.oneByte).posted[before.posted.length]? =
      some (before.request Endpoint.oneByte) := List.getElem?_concat_length
  obtain ⟨mine, peer, executing, shape, later, delivered⟩ :=
    execute_next side entry (primed.fetched _ (Nat.le_refl _))
      (primed.written _ (Nat.le_refl _)) primed.delivered primed.acked credit
  have sent : Endpoint.Sent before mine 1 := by
    rw [shape]
    exact Endpoint.sent_one primed
  have count : mine.posted.length = before.posted.length + 1 := sent.posted
  refine ⟨mine, peer, sending.trans executing, sent, ?_, delivered⟩
  refine sent.primed (by rw [Nat.add_comm]; exact primed) ?_ ?_ ?_ ?_ ?_ ?_ ?_ ?_
  · rw [shape]
    rfl
  · rw [shape]
    rfl
  · rw [shape]
    rfl
  · rw [shape]
    rfl
  · rw [count, shape]
  · rw [count, shape]
  · intro i above
    rw [(later i (by omega)).1]
    exact primed.fetched i (by omega)
  · intro i above
    rw [(later i (by omega)).2]
    exact primed.written i (by omega)

theorem Delivered.trans {before middle after : Endpoint} {m n : Nat}
    (first : Delivered before middle m) (second : Delivered middle after n) :
    Delivered before after (m + n) where
  same := by
    rw [second.same, first.same]
  receives := by
    have one := first.receives
    have two := second.receives
    omega
  completed := first.completed.trans second.completed

theorem Delivered.primed {before after : Endpoint} {m n : Nat} (delivered : Delivered before after m)
    (primed : before.Primed n) : after.Primed n := by
  have sends := delivered.completed.recvs.2
  have slots := primed.slots
  unfold Endpoint.sqUsed at slots
  rw [← sends] at slots
  rw [delivered.same]
  exact { primed with slots := slots }

/-- Any number of messages for which there is room, one after the other. -/
theorem burst (side : Side) (n : Nat) {before receiver : Endpoint} (primed : before.Primed n)
    (credit : n ≤ receiver.receives) :
    ∃ mine peer, Runs.Run step Runs.Any (join side before receiver) (join side mine peer) ∧
      Endpoint.Sent before mine n ∧ mine.Primed 0 ∧ Delivered receiver peer n := by
  induction n generalizing before receiver with
  | zero =>
      exact ⟨before, receiver, .refl, .refl before, primed, rfl, rfl, .refl _ _⟩
  | succ n ih =>
      have first : 0 < receiver.receives := by omega
      obtain ⟨middle, receiver', run, sent, ready, delivered⟩ := complete_one side primed first
      have spent := delivered.receives
      have left : n ≤ receiver'.receives := by omega
      obtain ⟨mine, peer, rest, sent', done, delivered'⟩ := ih ready left
      refine ⟨mine, peer, run.trans rest, ?_, done, ?_⟩
      · rw [Nat.add_comm]
        exact sent.trans sent'
      · rw [Nat.add_comm]
        exact delivered.trans delivered'

theorem new_primed (side : Side) :
    (new (fun _ => sampleMr) (fun _ => sampleMr) side).Primed maxQpWr where
  calls := rfl
  allocating := rfl
  copying := rfl
  lock := rfl
  localOrder := Nat.le_refl _
  localRoom := by
    change sampleMr.addr.toNat + maxQpWr ≤ sampleMr.addr.toNat + sampleMr.length.toNat
    decide +kernel
  queue := by
    change 0 + maxQpWr ≤ 2 * defaultRqeCount
    decide
  remoteOrder := Nat.le_refl _
  remoteRoom := by
    change sampleMr.addr.toNat + maxQpWr ≤ sampleMr.addr.toNat + sampleMr.length.toNat
    decide +kernel
  lower := by
    change -maxSending ≤ 0
    decide
  upper := by
    change (0 : Int) + maxQpWr ≤ maxSending
    decide
  slots := by
    change 0 + maxQpWr ≤ maxQpWr
    decide
  delivered := rfl
  acked := rfl
  fetched := fun _ _ => rfl
  written := fun _ _ => rfl

end System

end Ibv
