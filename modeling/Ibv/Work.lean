import Ibv.Regular

set_option autoImplicit false

namespace Ibv

theorem countP_range_clear {n i : Nat} {before after : Nat → Bool} (inside : i < n)
    (held : before i = true) (lost : after i = false)
    (kept : ∀ k, k ≠ i → after k = before k) :
    (List.range n).countP after + 1 = (List.range n).countP before := by
  induction n with
  | zero => exact absurd inside (Nat.not_lt_zero i)
  | succ n ih =>
      rw [List.range_succ, List.countP_append, List.countP_append, List.countP_singleton,
        List.countP_singleton]
      rcases Nat.lt_succ_iff_lt_or_eq.mp inside with below | rfl
      · rw [kept n (Nat.ne_of_gt below), Nat.add_right_comm, ih below]
      · have same : (List.range i).countP after = (List.range i).countP before := by
          apply List.countP_congr
          intro k member
          rw [kept k (Nat.ne_of_lt (List.mem_range.mp member))]
        rw [same, held, lost]
        rfl

/-- The steps that a wait loop needs once its condition is false. -/
def Cursors.work (cursors : Cursors) : Loop → Nat
  | .head => 2
  | .tested _ => if cursors.done > cursors.index then 3 else 1
  | .exited => 0

namespace Cursors

variable (cursors : Cursors)

theorem work_tested (first : Nat) :
    cursors.work (.tested first) = if cursors.done > cursors.index then 3 else 1 := rfl

theorem work_le (moved : Cursors) (loop : Loop) : moved.work loop ≤ cursors.work loop + 2 := by
  cases loop with
  | tested first =>
      rw [work_tested, work_tested]
      split <;> split <;> omega
  | _ => exact Nat.le_add_right _ _

/-- Both loads bring a loop with a false condition nearer to its end. -/
theorem firstLoad_work {length : Nat} (exits : cursors.waits length = false) :
    cursors.work (cursors.firstLoad length) + 1 ≤ cursors.work .head := by
  unfold waits at exits
  unfold firstLoad
  split at exits
  · rename_i wraps
    rw [Bool.or_eq_false_iff, decide_eq_false_iff_not, decide_eq_false_iff_not] at exits
    rw [if_pos wraps, if_neg exits.1, work_tested, if_neg exits.2]
    exact Nat.le_refl _
  · rename_i fits
    rw [if_neg fits]
    rw [Bool.and_eq_false_iff, decide_eq_false_iff_not, decide_eq_false_iff_not] at exits
    split
    · rename_i reaches
      have behind := exits.resolve_left (not_not_intro reaches)
      rw [work_tested, if_neg behind]
      exact Nat.le_refl _
    · exact Nat.le_of_ble_eq_true rfl

theorem secondLoad_work (first : Nat) :
    cursors.work cursors.secondLoad + 1 ≤ cursors.work (.tested first) := by
  rw [work_tested]
  unfold secondLoad
  split
  · exact Nat.le_refl _
  · exact Nat.le_refl _

end Cursors

/-- What the call that holds `Conn.lock` brings with it. -/
def Stage.work (allocator : Cursors) : Stage → Nat
  | .locked => 21
  | .admitted => 20
  | .counted => 19
  | .placing _ loop => 16 + allocator.work loop
  | .placed _ _ => 15

/-- `copy_nonoverlapping` for each slice left, and the rest of `send_msg`. -/
def Copying.work (copying : Copying) : Nat := 22 + copying.rest.length

def WC.work (wc : WC) : Nat := if wc.isRecv then 7 else 1

namespace Work

def allocating (cursors : Cursors) : Option (Msg × Loop) → Nat
  | some (msg, loop) => 27 + msg.length + cursors.work loop
  | none => 0

def lock (allocator : Cursors) : Option Critical → Nat
  | some critical => critical.stage.work allocator
  | none => 0

theorem allocating_le (cursors moved : Cursors) (holder : Option (Msg × Loop)) :
    allocating moved holder ≤ allocating cursors holder + 2 := by
  cases holder with
  | none => exact Nat.zero_le _
  | some holder => exact Nat.add_le_add_left (cursors.work_le moved holder.2) _

theorem lock_le (cursors moved : Cursors) (holder : Option Critical) :
    lock moved holder ≤ lock cursors holder + 2 := by
  cases holder with
  | none => exact Nat.zero_le _
  | some critical =>
      obtain ⟨msg, buf, wrId, stage⟩ := critical
      cases stage with
      | placing imm loop => exact Nat.add_le_add_left (cursors.work_le moved loop) 16
      | _ => exact Nat.le_add_right _ _

/-- The requests that the queue pair has still to read, and those still to be written. -/
def unread (posted : List Request) (fetched : Nat → Option (List UInt8)) : Nat :=
  (List.range posted.length).countP fun i => (fetched i).isNone

def unwritten (posted : List Request) (written : Nat → Bool) : Nat :=
  (List.range posted.length).countP fun i => !written i

def completions (cq : List WC) : Nat := (cq.map fun wc => wc.work + 1).sum

end Work

namespace Endpoint

variable (endpoint : Endpoint)

/-- The calls of `send_msg` up to their posts, the requests up to their completions on both
sides, the messages up to their release, and the regions up to their retirement. -/
def work : Nat :=
  (endpoint.calls.map fun msg => 30 + msg.length).sum +
    Work.allocating endpoint.sendRing.buffer.toCursors endpoint.allocating +
    (endpoint.copying.map Copying.work).sum +
    Work.lock endpoint.allocator.toCursors endpoint.lock +
    Work.unread endpoint.posted endpoint.fetched +
    Work.unwritten endpoint.posted endpoint.written +
    9 * (endpoint.posted.length - endpoint.delivered) +
    3 * (endpoint.posted.length - endpoint.acked) +
    Work.completions endpoint.cq + (endpoint.polled.map WC.work).sum +
    6 * endpoint.forward.toList.length + 5 * endpoint.rx.length +
    4 * endpoint.receiving.toList.length + endpoint.held.length +
    4 * endpoint.sendRing.buffer.toRelease.length +
    3 * endpoint.sendRing.buffer.releasing.toList.length

/-- `poll_wc` without a completion, and the loads of a loop whose condition holds. -/
def Idle : Action → Prop
  | .poll n => n = 0
  | .localFirst | .localSecond => ∃ msg loop, endpoint.allocating = some (msg, loop) ∧
      endpoint.sendRing.buffer.waits msg.wireLen = true
  | .remoteFirst | .remoteSecond => ∃ msg buf wrId imm loop,
      endpoint.lock = some ⟨msg, buf, wrId, .placing imm loop⟩ ∧
      endpoint.allocator.waits msg.wireLen = true
  | _ => False

/-- A `send_msg` of k slices costs at most 30 + k further steps, on both sides together. -/
def Action.cost : Action → Nat
  | .call msg => 31 + msg.length
  | _ => 0

variable {endpoint} {after : Endpoint}

theorem lockIndex_work {i : Nat} (taken : endpoint.lockIndex i = some after) :
    after.work + 1 ≤ endpoint.work := by
  obtain ⟨msg, free, entry, rfl⟩ := lockIndex_cases taken
  obtain ⟨below, entry⟩ := List.getElem?_eq_some_iff.mp entry
  have moved := ((List.getElem_cons_eraseIdx_perm below).map fun msg => 30 + msg.length).sum_nat
  rw [entry, List.map_cons, List.sum_cons] at moved
  unfold work
  rw [free]
  dsimp only [Work.allocating, Cursors.work]
  omega

theorem allocLocal_work (taken : endpoint.allocLocal = some after) :
    after.work + 1 ≤ endpoint.work := by
  obtain ⟨msg, waiting, -, rfl⟩ := allocLocal_cases taken
  have shape : (endpoint.sendRing.take msg.wireLen).buffer =
      (endpoint.sendRing.buffer.take msg.wireLen).1 := rfl
  rw [SendBuffer.take_eq] at shape
  unfold work
  dsimp only
  rw [waiting, shape]
  simp only [Work.allocating, Cursors.work, List.map_append, List.map_singleton, List.sum_append,
    List.sum_singleton, Copying.work, List.length_append, List.length_singleton]
  omega

theorem copy_work {i : Nat} (taken : endpoint.copy i = some after) :
    after.work + 1 ≤ endpoint.work := by
  obtain ⟨msg, buf, wrId, slice, rest, addr, entry, rfl⟩ := copy_cases taken
  obtain ⟨below, entry⟩ := List.getElem?_eq_some_iff.mp entry
  have before := ((List.getElem_cons_eraseIdx_perm below).map Copying.work).sum_nat
  have now := ((List.set_perm_cons_eraseIdx below
    ⟨msg, buf, wrId, rest, addr + slice.len⟩).map Copying.work).sum_nat
  rw [entry, List.map_cons, List.sum_cons] at before
  rw [List.map_cons, List.sum_cons] at now
  have spent : Copying.work ⟨msg, buf, wrId, rest, addr + slice.len⟩ + 1 =
      Copying.work ⟨msg, buf, wrId, slice :: rest, addr⟩ := rfl
  unfold work
  dsimp only
  omega

theorem takeLock_work {i : Nat} (taken : endpoint.takeLock i = some after) :
    after.work + 1 ≤ endpoint.work := by
  obtain ⟨msg, buf, wrId, addr, free, entry, rfl⟩ := takeLock_cases taken
  obtain ⟨below, entry⟩ := List.getElem?_eq_some_iff.mp entry
  have moved := ((List.getElem_cons_eraseIdx_perm below).map Copying.work).sum_nat
  rw [entry, List.map_cons, List.sum_cons] at moved
  have freed : Copying.work ⟨msg, buf, wrId, [], addr⟩ = 22 := rfl
  unfold work
  dsimp only
  rw [free]
  dsimp only [Work.lock, Stage.work]
  omega

theorem critical_work {msg : Msg} {buf : LocalBuf} {wrId : Nat} {before stage : Stage}
    (holder : endpoint.lock = some ⟨msg, buf, wrId, before⟩)
    (nearer : stage.work endpoint.allocator.toCursors + 1 ≤
      before.work endpoint.allocator.toCursors) :
    work { endpoint with lock := some ⟨msg, buf, wrId, stage⟩ } + 1 ≤ endpoint.work := by
  unfold work
  rw [holder]
  dsimp only [Work.lock]
  omega

theorem post_work (taken : endpoint.post = some after) : after.work + 1 ≤ endpoint.work := by
  obtain ⟨msg, buf, wrId, imm, remote, holder, -, rfl⟩ := post_cases taken
  have unread : Work.unread (endpoint.posted ++ [⟨msg, wrId, buf, remote, imm⟩])
      endpoint.fetched ≤ Work.unread endpoint.posted endpoint.fetched + 1 := by
    unfold Work.unread
    rw [List.length_append, List.length_singleton, List.range_succ, List.countP_append]
    exact Nat.add_le_add_left List.countP_le_length _
  have unwritten : Work.unwritten (endpoint.posted ++ [⟨msg, wrId, buf, remote, imm⟩])
      endpoint.written ≤ Work.unwritten endpoint.posted endpoint.written + 1 := by
    unfold Work.unwritten
    rw [List.length_append, List.length_singleton, List.range_succ, List.countP_append]
    exact Nat.add_le_add_left List.countP_le_length _
  unfold work
  rw [holder]
  dsimp only [Work.lock, Stage.work]
  rw [List.length_append, List.length_singleton]
  omega

theorem fetch_work {i : Nat} (taken : endpoint.fetch i = some after) :
    after.work + 1 ≤ endpoint.work := by
  obtain ⟨request, entry, fresh, rfl⟩ := fetch_cases taken
  have inside := (List.getElem?_eq_some_iff.mp entry).1
  have read : Work.unread endpoint.posted (Function.update endpoint.fetched i
      (some (ByteMemory.read endpoint.sendMem request.localBuf.addr request.localBuf.length))) +
        1 = Work.unread endpoint.posted endpoint.fetched := by
    refine countP_range_clear inside ?_ ?_ ?_
    · rw [fresh]
      rfl
    · rw [Function.update_self]
      rfl
    · intro k other
      rw [Function.update_of_ne other]
  unfold work
  dsimp only
  omega

theorem ack_work (taken : endpoint.ack = some after) : after.work + 1 ≤ endpoint.work := by
  obtain ⟨request, data, entry, -, rfl⟩ := ack_cases taken
  have below := (List.getElem?_eq_some_iff.mp entry).1
  have arrived : Work.completions (endpoint.cq ++ [request.sendWc]) =
      Work.completions endpoint.cq + 2 := by
    unfold Work.completions
    rw [List.map_append, List.sum_append]
    rfl
  unfold work
  dsimp only
  omega

theorem completions_split (cq : List WC) (n : Nat) :
    Work.completions cq = Work.completions (cq.drop n) + ((cq.take n).map WC.work).sum +
      (cq.take n).length := by
  have whole : Work.completions cq =
      Work.completions (cq.take n) + Work.completions (cq.drop n) := by
    unfold Work.completions
    rw [← List.sum_append, ← List.map_append, List.take_append_drop]
  have each (batch : List WC) :
      Work.completions batch = (batch.map WC.work).sum + batch.length := by
    induction batch with
    | nil => rfl
    | cons wc batch ih =>
        unfold Work.completions at ih ⊢
        rw [List.map_cons, List.sum_cons, List.map_cons, List.sum_cons, List.length_cons, ih]
        omega
  rw [whole, each (cq.take n)]
  omega

theorem poll_work {n : Nat} (some_ : n ≠ 0) (taken : endpoint.poll n = some after) :
    after.work + 1 ≤ endpoint.work := by
  obtain ⟨idle, -, -, enough, rfl⟩ := poll_cases taken
  have split := completions_split endpoint.cq n
  rw [List.length_take_of_le enough] at split
  unfold work
  rw [idle]
  dsimp only [List.map_nil, List.sum_nil]
  omega

theorem dispatch_work (taken : endpoint.dispatch = some after) :
    after.work + 1 ≤ endpoint.work := by
  obtain ⟨wc, rest, free, batch, branches⟩ := dispatch_cases taken
  have popped : (endpoint.polled.map WC.work).sum = wc.work + (rest.map WC.work).sum := by
    rw [batch, List.map_cons, List.sum_cons]
  rcases branches with ⟨code, rfl⟩ | ⟨code, rfl⟩ | ⟨-, -, rfl⟩
  · have isRecv : wc.isRecv = true := decide_eq_true code
    have seven : wc.work = 7 := by rw [WC.work, isRecv, if_pos rfl]
    unfold work postNullRecv
    rw [free]
    split
    · dsimp only [Option.toList_some, Option.toList_none, List.length_singleton, List.length_nil]
      omega
    · dsimp only [Option.toList_some, Option.toList_none, List.length_singleton, List.length_nil]
      omega
  · have positive : 1 ≤ wc.work := by
      unfold WC.work
      split <;> omega
    unfold work SendBuffer.clear
    dsimp only
    omega
  · have positive : 1 ≤ wc.work := by
      unfold WC.work
      split <;> omega
    unfold work
    dsimp only
    omega

theorem sendPair_work (taken : endpoint.sendPair = some after) :
    after.work + 1 ≤ endpoint.work := by
  obtain ⟨pair, sending, -, rfl⟩ := sendPair_cases taken
  unfold work
  rw [sending]
  simp only [Option.toList_some, Option.toList_none, List.length_singleton, List.length_nil,
    List.length_append]
  omega

theorem recv_work (taken : endpoint.recv = some after) : after.work + 1 ≤ endpoint.work := by
  obtain ⟨pair, rest, idle, queue, rfl⟩ := recv_cases taken
  unfold work
  rw [idle, queue]
  simp only [Option.toList_some, Option.toList_none, List.length_nil, List.length_cons]
  omega

/-- The notice may send the holder of the lock round its loop once more. -/
theorem finish_work (taken : endpoint.finish = some after) : after.work + 1 ≤ endpoint.work := by
  obtain ⟨pair, recvBuf, slice, receiving, -, rfl⟩ := finish_cases taken
  have turned := Work.lock_le endpoint.allocator.toCursors (if pair.2 ≠ 0 then
    endpoint.allocator.update pair.2 else endpoint.allocator).toCursors endpoint.lock
  unfold work
  rw [receiving]
  simp only [Option.toList_some, Option.toList_none, List.length_singleton, List.length_nil,
    List.length_append] at turned ⊢
  omega

theorem releaseSlice_work (taken : endpoint.releaseSlice = some after) :
    after.work + 1 ≤ endpoint.work := by
  obtain ⟨slice, rest, held, rfl⟩ := releaseSlice_cases taken
  unfold work
  rw [held]
  dsimp only [List.length_cons]
  omega

theorem popRelease_work (taken : endpoint.popRelease = some after) :
    after.work + 1 ≤ endpoint.work := by
  obtain ⟨buffer, popped, rfl⟩ := popRelease_cases taken
  obtain ⟨pair, rest, idle, queued, rfl⟩ := SendBuffer.popRelease_cases popped
  unfold work
  rw [idle, queued]
  dsimp only [Option.toList_some, Option.toList_none, List.length_singleton, List.length_nil,
    List.length_cons]
  omega

/-- A retirement may send the call at the index lock round its loop once more. -/
theorem releaseDone_work (taken : endpoint.releaseDone = some after) :
    after.work + 1 ≤ endpoint.work := by
  obtain ⟨buffer, done, rfl⟩ := releaseDone_cases taken
  obtain ⟨wrId, length, releasing, -, rfl⟩ := SendBuffer.releaseDone_cases done
  have turned := Work.allocating_le endpoint.sendRing.buffer.toCursors
    ⟨endpoint.sendRing.buffer.ring.advance endpoint.sendRing.buffer.done length,
      endpoint.sendRing.buffer.index, endpoint.sendRing.buffer.left,
      endpoint.sendRing.buffer.right⟩ endpoint.allocating
  unfold work
  rw [releasing]
  dsimp only [Option.toList_some, Option.toList_none, List.length_singleton, List.length_nil]
  omega

theorem call_work (endpoint : Endpoint) (msg : Msg) :
    (endpoint.call msg).work + 1 = endpoint.work + (Action.call msg).cost := by
  unfold work Endpoint.call
  dsimp only [Action.cost]
  rw [List.map_append, List.sum_append, List.map_singleton, List.sum_singleton]
  omega

/-- Whatever else is done, in whatever state, takes work away. -/
theorem step_work (action : Action) (uncalled : action.cost = 0) (busy : ¬ endpoint.Idle action)
    (taken : endpoint.step action = some after) : after.work + 1 ≤ endpoint.work := by
  cases action with
  | call msg =>
      dsimp only [Action.cost] at uncalled
      omega
  | lockIndex i => exact lockIndex_work taken
  | localFirst =>
      obtain ⟨msg, waiting, rfl⟩ := localFirst_cases taken
      have exits : endpoint.sendRing.buffer.waits msg.wireLen = false :=
        Bool.eq_false_iff.mpr fun waits => busy ⟨msg, _, waiting, waits⟩
      have nearer := Cursors.firstLoad_work _ exits
      unfold work
      rw [waiting]
      dsimp only [Work.allocating]
      omega
  | localSecond =>
      obtain ⟨msg, first, waiting, rfl⟩ := localSecond_cases taken
      have nearer := endpoint.sendRing.buffer.toCursors.secondLoad_work first
      unfold work
      rw [waiting]
      dsimp only [Work.allocating]
      omega
  | allocLocal => exact allocLocal_work taken
  | copy i => exact copy_work taken
  | takeLock i => exact takeLock_work taken
  | load =>
      obtain ⟨msg, buf, wrId, holder, -, rfl⟩ := load_cases taken
      exact critical_work holder (Nat.le_refl _)
  | count =>
      obtain ⟨msg, buf, wrId, holder, rfl⟩ := count_cases taken
      exact critical_work holder (Nat.le_refl _)
  | popNotice =>
      obtain ⟨msg, buf, wrId, holder, rfl⟩ := popNotice_cases taken
      exact critical_work holder (Nat.le_refl _)
  | remoteFirst =>
      obtain ⟨msg, buf, wrId, imm, holder, rfl⟩ := remoteFirst_cases taken
      have exits : endpoint.allocator.waits msg.wireLen = false :=
        Bool.eq_false_iff.mpr fun waits => busy ⟨msg, buf, wrId, imm, _, holder, waits⟩
      exact critical_work holder (Nat.add_le_add_left (Cursors.firstLoad_work _ exits) 16)
  | remoteSecond =>
      obtain ⟨msg, buf, wrId, imm, first, holder, rfl⟩ := remoteSecond_cases taken
      exact critical_work holder (Nat.add_le_add_left (Cursors.secondLoad_work _ first) 16)
  | allocRemote =>
      obtain ⟨msg, buf, wrId, imm, holder, rfl⟩ := allocRemote_cases taken
      unfold work
      rw [holder]
      dsimp only [Work.lock, Stage.work, Cursors.work]
      omega
  | post => exact post_work taken
  | postFail errno =>
      obtain ⟨msg, buf, wrId, imm, remote, holder, rfl⟩ := postFail_cases taken
      unfold work
      rw [holder]
      dsimp only [Work.lock, Stage.work]
      omega
  | fetch i => exact fetch_work taken
  | ack => exact ack_work taken
  | poll n => exact poll_work busy taken
  | dispatch => exact dispatch_work taken
  | sendPair => exact sendPair_work taken
  | recv => exact recv_work taken
  | finish => exact finish_work taken
  | release => exact releaseSlice_work taken
  | popRelease => exact popRelease_work taken
  | releaseDone => exact releaseDone_work taken

end Endpoint

namespace System

/-- Both sides together; the steps of the wire belong to it. -/
def work (system : System) : Nat := (system .client).work + (system .server).work

/-- A step that is neither a vain turn of a loop nor a poll without a completion. -/
def Busy (system : System) : Action → Prop
  | .own side action => ¬ (system side).Idle action
  | .write _ _ | .deliver _ => True

def Action.cost : Action → Nat
  | .own _ action => action.cost
  | .write _ _ | .deliver _ => 0

theorem work_join (side : Side) (mine peer : Endpoint) :
    (join side mine peer).work = mine.work + peer.work := by
  cases side
  · rfl
  · exact Nat.add_comm _ _

theorem work_eq (system : System) (side : Side) :
    system.work = (system side).work + (system side.other).work := by
  cases side
  · rfl
  · exact Nat.add_comm _ _

theorem writeData_work {sender receiver : Endpoint} {i : Nat} {both : Endpoint × Endpoint}
    (taken : writeData sender receiver i = some both) :
    both.1.work + both.2.work + 1 ≤ sender.work + receiver.work := by
  obtain ⟨request, data, entry, -, fresh, rfl⟩ := writeData_cases taken
  have inside := (List.getElem?_eq_some_iff.mp entry).1
  have wrote : Work.unwritten sender.posted (Function.update sender.written i true) + 1 =
      Work.unwritten sender.posted sender.written := by
    refine countP_range_clear inside ?_ ?_ ?_
    · rw [fresh]
      rfl
    · rw [Function.update_self]
      rfl
    · intro k other
      rw [Function.update_of_ne other]
  unfold Endpoint.work
  dsimp only
  omega

theorem deliverNext_work {sender receiver : Endpoint} {both : Endpoint × Endpoint}
    (taken : deliverNext sender receiver = some both) :
    both.1.work + both.2.work + 1 ≤ sender.work + receiver.work := by
  obtain ⟨request, entry, -, -, rfl⟩ := deliverNext_cases taken
  have below := (List.getElem?_eq_some_iff.mp entry).1
  have arrived : Work.completions (receiver.cq ++ [request.recvWc]) =
      Work.completions receiver.cq + 8 := by
    unfold Work.completions
    rw [List.map_append, List.sum_append]
    rfl
  unfold Endpoint.work
  dsimp only
  omega

variable {before after : System}

theorem step_work (action : Action) (busy : before.Busy action)
    (taken : step before action = some after) :
    after.work + 1 ≤ before.work + action.cost := by
  cases action with
  | own side action =>
      obtain ⟨mine, acted, rfl⟩ := Option.map_eq_some_iff.mp taken
      rw [work_join, work_eq before side]
      by_cases uncalled : action.cost = 0
      · have spent := Endpoint.step_work action uncalled busy acted
        omega
      · cases action with
        | call msg =>
            cases acted
            have called := (before side).call_work msg
            dsimp only [Action.cost]
            omega
        | _ => exact absurd rfl uncalled
  | write side i =>
      obtain ⟨both, acted, rfl⟩ := Option.map_eq_some_iff.mp taken
      have spent := writeData_work acted
      rw [work_join, work_eq before side]
      exact Nat.le_trans spent (Nat.le_add_right _ _)
  | deliver side =>
      obtain ⟨both, acted, rfl⟩ := Option.map_eq_some_iff.mp taken
      have spent := deliverNext_work acted
      rw [work_join, work_eq before side]
      exact Nat.le_trans spent (Nat.le_add_right _ _)

/-- Steps that finish what was begun: busy, no new call, and no post that fails. -/
def Productive (system : System) (action : Action) : Prop :=
  system.Busy action ∧ action.cost = 0 ∧ ∀ side errno, action ≠ .own side (.postFail errno)

theorem productive_work (action : Action) (productive : before.Productive action)
    (taken : step before action = some after) : after.work < before.work := by
  have spent := step_work action productive.1 taken
  rw [productive.2.1] at spent
  exact spent

/-- A load whose loop goes on or whose condition is false leaves no loop too early. -/
theorem Productive.regular {system : System} {action : Action}
    (productive : system.Productive action) : system.Regular action := by
  obtain ⟨busy, free, succeeds⟩ := productive
  cases action with
  | write side i => trivial
  | deliver side => trivial
  | own side action =>
      cases action with
      | call msg =>
          dsimp only [Action.cost, Endpoint.Action.cost] at free
          omega
      | postFail errno => exact absurd rfl (succeeds side errno)
      | localSecond =>
          intro msg first waiting exits
          exact Bool.eq_false_iff.mpr fun waits => busy ⟨msg, _, waiting, waits⟩
      | remoteSecond =>
          intro msg buf wrId imm first holder exits
          exact Bool.eq_false_iff.mpr fun waits => busy ⟨msg, buf, wrId, imm, _, holder, waits⟩
      | _ => trivial

/-- The work a connection can make of its calls is bounded, from whatever state and in whatever
order: a call of k slices accounts for itself and 30 + k others. -/
theorem steps_bounded (start : System) :
    (∀ actions finish, Runs.Trail step Busy start actions finish →
      actions.length + finish.work ≤ start.work + (actions.map Action.cost).sum) ∧
    (∃ finish, Runs.Run step Productive start finish ∧ Runs.Resting step Productive finish) ∧
    (∀ (systems : Nat → System) (actions : Nat → Action), ¬ ∀ n,
      (systems n).Productive (actions n) ∧
        step (systems n) (actions n) = some (systems (n + 1))) := by
  refine ⟨?_, ?_, ?_⟩
  · intro actions finish run
    exact run.amortized work Action.cost fun before action after => step_work action
  · exact Runs.exists_resting work (fun before action after => productive_work action) start
  · intro systems actions
    exact Runs.not_endless work (fun before action after => productive_work action) systems actions

end System

end Ibv
