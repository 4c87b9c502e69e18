import Ibv.DirectionInvariant
import Ibv.SendMemory
import Ibv.Transport

set_option autoImplicit false

namespace Ibv

open RingFifo

/-- One step of a direction, or none. -/
def Direction.Moves (before after : Direction) : Prop :=
  after = before ∨ ∃ action, before.step action = some after

theorem Direction.Moves.accounts {before after : Direction} (moves : before.Moves after)
    (accounts : ∃ updated batches withheld, before.Accounts updated batches withheld) :
    ∃ updated batches withheld, after.Accounts updated batches withheld := by
  rcases moves with rfl | ⟨action, taken⟩
  · exact accounts
  · exact Direction.step_accounts action accounts taken

namespace Endpoint

/-- The remote region of the call that holds the lock, once it has one. -/
def placedBuf (endpoint : Endpoint) : List RemoteBuf :=
  match endpoint.lock with
  | some ⟨_, _, _, .placed _ buf⟩ => [buf]
  | _ => []

/-- The notice that call carries, once it has popped one. -/
def carriedImm (endpoint : Endpoint) : List Nat :=
  match endpoint.lock with
  | some ⟨_, _, _, .placing imm _⟩ => [imm]
  | some ⟨_, _, _, .placed imm _⟩ => [imm]
  | _ => []

def grantedBufs (endpoint : Endpoint) : List RemoteBuf :=
  endpoint.posted.map Request.remoteBuf ++ endpoint.placedBuf

def carriedImms (endpoint : Endpoint) : List Nat :=
  endpoint.posted.map Request.imm ++ endpoint.carriedImm

def direction (mine peer : Endpoint) : Direction where
  allocator := mine.allocator
  recvBuf := peer.recvBuf
  granted := mine.grantedBufs
  held := peer.held
  released := peer.returned.length - peer.held.length
  queued := peer.release
  riding := peer.carriedImms.drop mine.returned.length
  reported := (peer.carriedImms.take mine.returned.length).sum

variable {mine after : Endpoint}

theorem quiet_directions (peer : Endpoint) (action : Action) (other : action.critical = false)
    (other' : action.reading = false) (taken : mine.step action = some after) :
    direction after peer = direction mine peer ∧ direction peer after = direction peer mine := by
  obtain ⟨lock, -, posted, -, -, allocator, -⟩ := step_not_critical action other taken
  obtain ⟨recvBuf, held, returned, -, -, release⟩ := step_not_reading action other' taken
  have allocator := allocator (by rintro rfl; cases other')
  have release := release (by rintro rfl; cases other)
  unfold direction grantedBufs carriedImms placedBuf carriedImm
  rw [lock, posted, allocator, recvBuf, held, returned, release]
  exact ⟨rfl, rfl⟩

theorem locked_directions (peer : Endpoint) {lock : Option Critical}
    (placed : ({ mine with lock := lock } : Endpoint).placedBuf = mine.placedBuf)
    (carried : ({ mine with lock := lock } : Endpoint).carriedImm = mine.carriedImm) :
    direction { mine with lock := lock } peer = direction mine peer ∧
      direction peer { mine with lock := lock } = direction peer mine := by
  unfold direction grantedBufs carriedImms
  rw [placed, carried]
  exact ⟨rfl, rfl⟩

end Endpoint

/-- Both endpoints' bookkeeping behind one direction: the accounts of the direction, and
the wait loop of the sender's allocator. -/
structure Flow (mine peer : Endpoint) : Prop where
  accounts : ∃ updated batches withheld,
    (Endpoint.direction mine peer).Accounts updated batches withheld
  held : peer.held.length ≤ peer.returned.length
  room : ∀ msg buf wrId imm, mine.lock = some ⟨msg, buf, wrId, .placing imm .exited⟩ →
    mine.allocator.ring.Admits mine.allocator.done mine.allocator.index msg.wireLen
  tested : ∀ msg buf wrId imm first,
    mine.lock = some ⟨msg, buf, wrId, .placing imm (.tested first)⟩ →
    mine.allocator.right < mine.allocator.index + msg.wireLen →
    mine.allocator.left + msg.wireLen < first
  posted : ∀ request ∈ mine.posted, request.remoteBuf.length = request.msg.wireLen
  placed : ∀ msg buf wrId imm remote,
    mine.lock = some ⟨msg, buf, wrId, .placed imm remote⟩ → remote.length = msg.wireLen

namespace Flow

open Endpoint (direction)

variable {mine peer after : Endpoint}

theorem receiver (flow : Flow mine peer) (moves : (direction mine peer).Moves (direction mine after))
    (held : after.held.length ≤ after.returned.length) : Flow mine after :=
  { flow with
    accounts := moves.accounts flow.accounts
    held := held }

theorem locked {lock : Option Critical} (flow : Flow mine peer) (back : Flow peer mine)
    (placed : ({ mine with lock := lock } : Endpoint).placedBuf = mine.placedBuf)
    (carried : ({ mine with lock := lock } : Endpoint).carriedImm = mine.carriedImm)
    (room : ∀ msg buf wrId imm, lock = some ⟨msg, buf, wrId, .placing imm .exited⟩ →
      mine.allocator.ring.Admits mine.allocator.done mine.allocator.index msg.wireLen)
    (tested : ∀ msg buf wrId imm first, lock = some ⟨msg, buf, wrId, .placing imm (.tested first)⟩ →
      mine.allocator.right < mine.allocator.index + msg.wireLen →
      mine.allocator.left + msg.wireLen < first)
    (length : ∀ msg buf wrId imm remote,
      lock = some ⟨msg, buf, wrId, .placed imm remote⟩ → remote.length = msg.wireLen) :
    Flow { mine with lock := lock } peer ∧ Flow peer { mine with lock := lock } := by
  obtain ⟨forth, same⟩ := Endpoint.locked_directions peer placed carried
  refine ⟨{ flow with accounts := ?_, room := room, tested := tested, placed := length },
    back.receiver (.inl same) back.held⟩
  rw [forth]
  exact flow.accounts

theorem early {msg : Msg} {buf : LocalBuf} {wrId : Nat} {stage : Stage} (flow : Flow mine peer)
    (back : Flow peer mine) (idle : mine.placedBuf = [] ∧ mine.carriedImm = [])
    (quiet : stage = .locked ∨ stage = .admitted ∨ stage = .counted) :
    Flow { mine with lock := some ⟨msg, buf, wrId, stage⟩ } peer ∧
      Flow peer { mine with lock := some ⟨msg, buf, wrId, stage⟩ } := by
  apply flow.locked back
  · rw [idle.1]
    unfold Endpoint.placedBuf
    rcases quiet with rfl | rfl | rfl <;> rfl
  · rw [idle.2]
    unfold Endpoint.carriedImm
    rcases quiet with rfl | rfl | rfl <;> rfl
  · intro msg' buf' wrId' imm holder
    rcases quiet with rfl | rfl | rfl <;> cases holder
  · intro msg' buf' wrId' imm first holder
    rcases quiet with rfl | rfl | rfl <;> cases holder
  · intro msg' buf' wrId' imm remote holder
    rcases quiet with rfl | rfl | rfl <;> cases holder

theorem load {msg : Msg} {buf : LocalBuf} {wrId imm : Nat} {before loop : Loop}
    (flow : Flow mine peer) (back : Flow peer mine)
    (holder : mine.lock = some ⟨msg, buf, wrId, .placing imm before⟩)
    (room : loop = .exited →
      mine.allocator.ring.Admits mine.allocator.done mine.allocator.index msg.wireLen)
    (tested : ∀ first, loop = .tested first →
      mine.allocator.right < mine.allocator.index + msg.wireLen →
      mine.allocator.left + msg.wireLen < first) :
    Flow { mine with lock := some ⟨msg, buf, wrId, .placing imm loop⟩ } peer ∧
      Flow peer { mine with lock := some ⟨msg, buf, wrId, .placing imm loop⟩ } := by
  apply flow.locked back
  · unfold Endpoint.placedBuf
    rw [holder]
  · unfold Endpoint.carriedImm
    rw [holder]
  · intro msg' buf' wrId' imm' holder'
    cases holder'
    exact room rfl
  · intro msg' buf' wrId' imm' first holder'
    cases holder'
    exact tested first rfl
  · intro msg' buf' wrId' imm' remote holder'
    cases holder'

/-- `get_release_length`: the peer's direction hands over a notice. -/
theorem popNotice (flow : Flow mine peer) (back : Flow peer mine)
    (returned : peer.returned.length ≤ mine.posted.length)
    (taken : mine.popNotice = some after) : Flow after peer ∧ Flow peer after := by
  obtain ⟨msg, buf, wrId, holder, rfl⟩ := Endpoint.popNotice_cases taken
  have unplaced : mine.placedBuf = [] := by
    unfold Endpoint.placedBuf
    rw [holder]
  have uncarried : mine.carriedImm = [] := by
    unfold Endpoint.carriedImm
    rw [holder]
  refine ⟨{ flow with accounts := ?_, room := ?_, tested := ?_, placed := ?_ }, ?_⟩
  · have accounts := flow.accounts
    unfold direction Endpoint.grantedBufs at accounts ⊢
    rw [unplaced] at accounts
    exact accounts
  · intro msg' buf' wrId' imm' holder'
    cases holder'
  · intro msg' buf' wrId' imm' first holder'
    cases holder'
  · intro msg' buf' wrId' imm' remote holder'
    cases holder'
  · refine back.receiver (.inr ⟨.carry, ?_⟩) back.held
    have within : peer.returned.length ≤ (mine.posted.map Request.imm).length := by
      rw [List.length_map]
      exact returned
    unfold direction Endpoint.carriedImms Direction.step Direction.carry
    rw [uncarried]
    simp only [Endpoint.carriedImm, List.append_nil, List.drop_append_of_le_length within,
      List.take_append_of_le_length within]
    cases mine.release <;> rfl

theorem allocRemote (flow : Flow mine peer) (back : Flow peer mine)
    (taken : mine.allocRemote = some after) : Flow after peer ∧ Flow peer after := by
  obtain ⟨msg, buf, wrId, imm, holder, rfl⟩ := Endpoint.allocRemote_cases taken
  have unplaced : mine.placedBuf = [] := by
    unfold Endpoint.placedBuf
    rw [holder]
  have carried : mine.carriedImm = [imm] := by
    unfold Endpoint.carriedImm
    rw [holder]
  have room := flow.room msg buf wrId imm holder
  refine ⟨{ flow with accounts := ?_, room := ?_, tested := ?_, placed := ?_ }, ?_⟩
  · refine Direction.Moves.accounts (.inr ⟨.grant msg.wireLen, ?_⟩) flow.accounts
    refine Direction.grant_eq_some_iff.mpr ⟨room, ?_⟩
    unfold direction Endpoint.grantedBufs
    rw [unplaced, List.append_nil]
    rfl
  · intro msg' buf' wrId' imm' holder'
    cases holder'
  · intro msg' buf' wrId' imm' first holder'
    cases holder'
  · intro msg' buf' wrId' imm' remote holder'
    cases holder'
    rw [RemoteBufManager.take_eq]
  · refine back.receiver (.inl ?_) back.held
    unfold direction Endpoint.carriedImms
    rw [carried]
    rfl

/-- The post turns the holder's region and notice into those of a request. -/
theorem post (flow : Flow mine peer) (back : Flow peer mine)
    (taken : mine.post = some after) : Flow after peer ∧ Flow peer after := by
  obtain ⟨msg, buf, wrId, imm, remote, holder, -, rfl⟩ := Endpoint.post_cases taken
  have placed : mine.placedBuf = [remote] := by
    unfold Endpoint.placedBuf
    rw [holder]
  have carried : mine.carriedImm = [imm] := by
    unfold Endpoint.carriedImm
    rw [holder]
  refine ⟨{ flow with accounts := ?_, room := ?_, tested := ?_, posted := ?_, placed := ?_ }, ?_⟩
  · have accounts := flow.accounts
    unfold direction Endpoint.grantedBufs Endpoint.placedBuf at accounts ⊢
    unfold Endpoint.placedBuf at placed
    rw [placed] at accounts
    rw [List.map_append, List.append_nil]
    exact accounts
  · intro msg' buf' wrId' imm' holder'
    cases holder'
  · intro msg' buf' wrId' imm' first holder'
    cases holder'
  · intro request member
    rcases List.mem_append.mp member with old | new
    · exact flow.posted request old
    · rw [List.mem_singleton.mp new]
      exact flow.placed msg buf wrId imm remote holder
  · intro msg' buf' wrId' imm' remote' holder'
    cases holder'
  · refine back.receiver (.inl ?_) back.held
    unfold direction Endpoint.carriedImms
    rw [carried]
    simp only [Endpoint.carriedImm, List.map_append, List.map_singleton, List.append_nil]

/-- `recv_msg` of a request whose notice goes to the allocator and whose slice is that of
the next region granted by the peer. -/
theorem finish {request : Request} (flow : Flow mine peer) (back : Flow peer mine)
    (next : peer.posted[mine.returned.length]? = some request)
    (sized : request.localBuf.length = request.msg.wireLen)
    (receiving : mine.receiving = some request.pair)
    (taken : mine.finish = some after) : Flow after peer ∧ Flow peer after := by
  obtain ⟨pair, recvBuf, slice, same, read, rfl⟩ := Endpoint.finish_cases taken
  rw [receiving] at same
  cases same
  have notice : peer.carriedImms[mine.returned.length]? = some request.imm := by
    unfold Endpoint.carriedImms
    rw [List.getElem?_append_left, List.getElem?_map, next, Option.map_some]
    rw [List.length_map]
    exact (List.getElem?_eq_some_iff.mp next).1
  have granted : peer.grantedBufs[mine.returned.length]? = some request.remoteBuf := by
    unfold Endpoint.grantedBufs
    rw [List.getElem?_append_left, List.getElem?_map, next, Option.map_some]
    rw [List.length_map]
    exact (List.getElem?_eq_some_iff.mp next).1
  have updates : (direction mine peer).update = some (direction { mine with
      receiving := none
      allocator := if request.imm ≠ 0 then mine.allocator.update request.imm else mine.allocator
      recvBuf := recvBuf
      held := mine.held ++ [slice]
      returned := mine.returned ++
        [ByteMemory.read mine.recvMem slice.start slice.length] } peer) := by
    obtain ⟨inside, value⟩ := List.getElem?_eq_some_iff.mp notice
    have riding : (direction mine peer).riding =
        request.imm :: peer.carriedImms.drop (mine.returned.length + 1) := by
      unfold direction
      dsimp only
      rw [List.drop_eq_getElem_cons inside, value]
    unfold Direction.update
    rw [riding]
    unfold direction
    dsimp only
    rw [List.length_append, List.length_singleton, List.take_add_one, notice, Option.toList_some,
      List.sum_append, List.sum_singleton]
    rfl
  have reads : (direction peer mine).read = some (direction peer { mine with
      receiving := none
      allocator := if request.imm ≠ 0 then mine.allocator.update request.imm else mine.allocator
      recvBuf := recvBuf
      held := mine.held ++ [slice]
      returned := mine.returned ++
        [ByteMemory.read mine.recvMem slice.start slice.length] }) := by
    have length : request.remoteBuf.length = request.pair.1 :=
      (back.posted request (List.mem_of_getElem? next)).trans sized.symm
    have place : (direction peer mine).released + (direction peer mine).held.length =
        mine.returned.length := Nat.sub_add_cancel back.held
    unfold Direction.read
    rw [place]
    refine Option.bind_eq_some_iff.mpr ⟨request.remoteBuf, granted, ?_⟩
    rw [length]
    refine Option.bind_eq_some_iff.mpr ⟨(recvBuf, slice), read, ?_⟩
    unfold direction
    simp only [List.length_append, List.length_singleton, Nat.add_sub_add_right]
    rfl
  refine ⟨{ flow with accounts := ?_, room := ?_, tested := ?_ }, ?_⟩
  · exact Direction.Moves.accounts (.inr ⟨.update, updates⟩) flow.accounts
  · intro msg buf wrId imm holder
    obtain ⟨updated, batches, withheld, accounts⟩ := flow.accounts
    exact Direction.update_admits accounts updates (flow.room msg buf wrId imm holder)
  · intro msg buf wrId imm first holder
    obtain ⟨index, left, right⟩ := mine.allocator.update_kept request.pair.2
    dsimp only
    rw [index, left, right]
    exact flow.tested msg buf wrId imm first holder
  · refine back.receiver (.inr ⟨.read, reads⟩) ?_
    dsimp only
    rw [List.length_append, List.length_append]
    exact Nat.add_le_add_right back.held 1

theorem release (flow : Flow mine peer) (back : Flow peer mine)
    (taken : mine.releaseSlice = some after) : Flow after peer ∧ Flow peer after := by
  obtain ⟨slice, rest, held, rfl⟩ := Endpoint.releaseSlice_cases taken
  have within := back.held
  rw [held, List.length_cons] at within
  refine ⟨{ flow with }, back.receiver (.inr ⟨.release, ?_⟩) (Nat.le_of_succ_le within)⟩
  have count : mine.returned.length - rest.length =
      mine.returned.length - mine.held.length + 1 := by
    rw [held, List.length_cons]
    omega
  unfold Direction.step Direction.release direction
  simp only [held, count]
  rfl

theorem own_step (action : Endpoint.Action) {orphans : List Job} (flow : Flow mine peer)
    (back : Flow peer mine) (transport : Transport mine peer) (transport' : Transport peer mine)
    (sent : mine.delivered ≤ mine.posted.length)
    (tickets : (peer.outgoing orphans).Tickets) (assumed : mine.Assumed action)
    (taken : mine.step action = some after) : Flow after peer ∧ Flow peer after := by
  by_cases reading : action.reading = true
  · cases action with
    | finish =>
        obtain ⟨pair, recvBuf, slice, receiving, -, -⟩ := Endpoint.finish_cases taken
        obtain ⟨-, request, next, same⟩ := transport.next receiving
        rw [← same] at receiving
        refine flow.finish back next ?_ receiving taken
        refine (tickets.bought request.job ?_).2
        exact List.mem_append_right _ (List.mem_map_of_mem (List.mem_of_getElem? next))
    | release => exact flow.release back taken
    | _ => cases reading
  have reading := Bool.eq_false_iff.mpr reading
  cases critical : action.critical with
  | false =>
      obtain ⟨forth, back'⟩ := Endpoint.quiet_directions peer action critical reading taken
      obtain ⟨lock, -, posted, -, -, allocator, -⟩ := Endpoint.step_not_critical action critical taken
      have allocator := allocator (by rintro rfl; cases reading)
      obtain ⟨-, held, returned, -, -, -⟩ := Endpoint.step_not_reading action reading taken
      refine ⟨⟨?_, flow.held, ?_, ?_, ?_, ?_⟩, back.receiver (.inl back') ?_⟩
      · rw [forth]
        exact flow.accounts
      · rw [lock, allocator]
        exact flow.room
      · rw [lock, allocator]
        exact flow.tested
      · rw [posted]
        exact flow.posted
      · rw [lock]
        exact flow.placed
      · rw [held, returned]
        exact back.held
  | true =>
      cases action with
      | takeLock i =>
          obtain ⟨msg, buf, wrId, addr, free, -, rfl⟩ := Endpoint.takeLock_cases taken
          have idle : mine.placedBuf = [] ∧ mine.carriedImm = [] := by
            unfold Endpoint.placedBuf Endpoint.carriedImm
            rw [free]
            exact ⟨rfl, rfl⟩
          have moved : Flow { mine with lock := some ⟨msg, buf, wrId, .locked⟩ } peer ∧
              Flow peer { mine with lock := some ⟨msg, buf, wrId, .locked⟩ } :=
            flow.early back idle (.inl rfl)
          obtain ⟨forth, back'⟩ := moved
          exact ⟨{ forth with }, { back' with }⟩
      | load =>
          obtain ⟨msg, buf, wrId, holder, -, rfl⟩ := Endpoint.load_cases taken
          refine flow.early back ?_ (.inr (.inl rfl))
          unfold Endpoint.placedBuf Endpoint.carriedImm
          rw [holder]
          exact ⟨rfl, rfl⟩
      | count =>
          obtain ⟨msg, buf, wrId, holder, rfl⟩ := Endpoint.count_cases taken
          have idle : mine.placedBuf = [] ∧ mine.carriedImm = [] := by
            unfold Endpoint.placedBuf Endpoint.carriedImm
            rw [holder]
            exact ⟨rfl, rfl⟩
          have moved : Flow { mine with lock := some ⟨msg, buf, wrId, .counted⟩ } peer ∧
              Flow peer { mine with lock := some ⟨msg, buf, wrId, .counted⟩ } :=
            flow.early back idle (.inr (.inr rfl))
          obtain ⟨forth, back'⟩ := moved
          exact ⟨{ forth with }, { back' with }⟩
      | popNotice =>
          have count := transport'.count
          exact flow.popNotice back (by omega) taken
      | remoteFirst =>
          obtain ⟨msg, buf, wrId, imm, holder, rfl⟩ := Endpoint.remoteFirst_cases taken
          refine flow.load back holder ?_ ?_
          · exact Cursors.firstLoad_exits _ _
          · exact fun first tested wraps => Cursors.firstLoad_tested _ _ tested wraps
      | remoteSecond =>
          obtain ⟨msg, buf, wrId, imm, first, holder, rfl⟩ := Endpoint.remoteSecond_cases taken
          refine flow.load back holder ?_ ?_
          · intro exits
            refine Cursors.secondLoad_exits _ _ exits fun wraps => ?_
            rw [assumed msg buf wrId imm first holder]
            exact flow.tested msg buf wrId imm first holder wraps
          · exact fun first' tested => absurd tested (Cursors.secondLoad_decides _ first')
      | allocRemote => exact flow.allocRemote back taken
      | post => exact flow.post back taken
      | postFail errno => exact absurd assumed not_false
      | _ => cases critical

/-- The wire carries bytes and completions, which no direction keeps. -/
theorem write_step {i : Nat} {both : Endpoint × Endpoint} (flow : Flow mine peer)
    (back : Flow peer mine) (taken : System.writeData mine peer i = some both) :
    Flow both.1 both.2 ∧ Flow both.2 both.1 := by
  obtain ⟨request, data, -, -, -, rfl⟩ := System.writeData_cases taken
  exact ⟨{ flow with }, { back with }⟩

theorem deliver_step {both : Endpoint × Endpoint} (flow : Flow mine peer)
    (back : Flow peer mine) (taken : System.deliverNext mine peer = some both) :
    Flow both.1 both.2 ∧ Flow both.2 both.1 := by
  obtain ⟨request, -, -, -, rfl⟩ := System.deliverNext_cases taken
  exact ⟨{ flow with }, { back with }⟩

theorem new_flow (recvMr sendMr : Side → MR) (side : Side) :
    Flow (System.new recvMr sendMr side) (System.new recvMr sendMr side.other) where
  accounts := ⟨0, [], [], Direction.new_accounts (recvMr side.other)⟩
  held := Nat.le_refl _
  room := by
    intro msg buf wrId imm holder
    cases holder
  tested := by
    intro msg buf wrId imm first holder
    cases holder
  posted := by
    intro request member
    cases member
  placed := by
    intro msg buf wrId imm remote holder
    cases holder

end Flow

end Ibv
