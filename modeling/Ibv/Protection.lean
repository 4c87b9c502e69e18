import Ibv.FailedPost
import Ibv.Flags
import Ibv.RingWords

set_option autoImplicit false

namespace Ibv

open RingFifo
open Direction (sampleMr)

def MR.region (mr : MR) : Region := ⟨mr.addr.toNat, mr.length.toNat⟩

def MR.Covers (mr : MR) (region : Region) : Prop :=
  region.Within mr.addr.toNat (mr.addr.toNat + mr.length.toNat)

/-- What the two adapters check of a request when they carry it out: that its keys are those
of the two registered regions and its addresses lie in them. -/
structure Request.Permitted (request : Request) (sendMr recvMr : MR) : Prop where
  lkey : request.localBuf.lkey = sendMr.lkey
  source : sendMr.Covers request.localBuf.region
  rkey : request.remoteBuf.rkey = recvMr.rkey
  target : recvMr.Covers request.remoteBuf.region
  length : request.remoteBuf.length = request.localBuf.length

/-- Both cursors stand in the region, in whatever order. -/
structure Cursors.Inside (cursors : Cursors) (mr : MR) : Prop where
  left : cursors.left = mr.addr.toNat
  right : cursors.right = mr.addr.toNat + mr.length.toNat
  done : cursors.left ≤ cursors.done ∧ cursors.done ≤ cursors.right
  index : cursors.left ≤ cursors.index ∧ cursors.index ≤ cursors.right

namespace Cursors

variable {cursors : Cursors} {mr : MR} {length : Nat}

theorem new_inside (mr : MR) : (RemoteBufManager.new (.fromMr mr)).Inside mr :=
  ⟨rfl, rfl, ⟨Nat.le_refl _, Nat.le_add_right _ _⟩, ⟨Nat.le_refl _, Nat.le_add_right _ _⟩⟩

/-- The first comparison of the wait loop stops every length that the ring is too small for,
even where the second reads a `done` that has moved on. -/
theorem Inside.firstLoad (inside : cursors.Inside mr) (past : cursors.firstLoad length ≠ .head) :
    length ≤ mr.length.toNat := by
  obtain ⟨left, right, done, index⟩ := inside
  unfold Cursors.firstLoad at past
  split at past
  · split at past
    · exact absurd rfl past
    · omega
  · omega

theorem Inside.room (inside : cursors.Inside mr) (fits : length ≤ mr.length.toNat) :
    cursors.ring.left + length ≤ cursors.ring.right := by
  obtain ⟨left, right, done, index⟩ := inside
  change cursors.left + length ≤ cursors.right
  omega

theorem Inside.place (inside : cursors.Inside mr) (fits : length ≤ mr.length.toNat) :
    mr.Covers ⟨cursors.ring.place cursors.index length, length⟩ := by
  rw [MR.Covers, ← inside.right, ← inside.left]
  exact Ring.place_inside (inside.index.1 : cursors.ring.left ≤ _) (inside.room fits)

theorem Inside.advance (inside : cursors.Inside mr) (fits : length ≤ mr.length.toNat) :
    Inside { cursors with index := cursors.ring.advance cursors.index length } mr := by
  have moved := Ring.advance_inside (inside.index.1 : cursors.ring.left ≤ _) (inside.room fits)
  exact ⟨inside.left, inside.right, inside.done, moved⟩

theorem Inside.retire (inside : cursors.Inside mr) (fits : length ≤ mr.length.toNat) :
    (cursors.retire length).Inside mr := by
  have moved := Ring.advance_inside (inside.done.1 : cursors.ring.left ≤ _) (inside.room fits)
  rw [retire_eq]
  exact ⟨inside.left, inside.right, moved, inside.index⟩

end Cursors

namespace RecvBuffer

variable {buffer : RecvBuffer} {length : Nat}

theorem new_placed (mr : MR) : (new mr).Placed :=
  ⟨rfl, rfl, ⟨Nat.le_refl _, Nat.le_add_right _ _⟩, ⟨Nat.le_refl _, Nat.le_add_right _ _⟩⟩

theorem Placed.read (placed : buffer.Placed) (fits : length ≤ buffer.mr.length.toNat) :
    ∃ after slice, buffer.read length = some (after, slice) ∧ after.Placed ∧
      after.mr = buffer.mr ∧ buffer.mr.Covers slice := by
  obtain ⟨left, right, index, done⟩ := placed
  have room : buffer.ring.left + length ≤ buffer.ring.right := by
    change buffer.left + length ≤ buffer.right
    omega
  have ends := Ring.advance_inside (index.1 : buffer.ring.left ≤ _) room
  have last : buffer.ring.advance buffer.index length ≤ buffer.right := ends.2
  refine ⟨{ buffer with index := buffer.ring.advance buffer.index length },
    ⟨buffer.ring.place buffer.index length, length⟩, ?_, ⟨left, right, ends, done⟩, rfl, ?_⟩
  · rw [read_eq, if_pos (by omega)]
  · rw [MR.Covers, ← right, ← left]
    exact Ring.place_inside (index.1 : buffer.ring.left ≤ _) room

theorem Placed.notifyRelease (placed : buffer.Placed) (fits : length ≤ buffer.mr.length.toNat) :
    (buffer.notifyRelease length).1.Placed ∧ (buffer.notifyRelease length).1.mr = buffer.mr ∧
      ∀ notice ∈ (buffer.notifyRelease length).2, notice ≤ buffer.mr.length.toNat := by
  obtain ⟨left, right, index, done⟩ := placed
  by_cases wraps : buffer.right < buffer.done + buffer.released + length
  · rw [notifyRelease_wraps wraps]
    refine ⟨⟨left, right, index, Nat.le_refl _, ?_⟩, rfl, ?_⟩
    · dsimp only
      omega
    · rintro notice ⟨⟩
      omega
  · by_cases enough : minLengthToNotifyRelease ≤ buffer.released + length
    · rw [notifyRelease_reports wraps enough]
      refine ⟨⟨left, right, index, ?_, ?_⟩, rfl, ?_⟩
      · dsimp only
        omega
      · dsimp only
        omega
      · rintro notice ⟨⟩
        omega
    · rw [notifyRelease_gathers wraps enough]
      refine ⟨⟨left, right, index, done.1, ?_⟩, rfl, ?_⟩
      · dsimp only
        omega
      · rintro notice ⟨⟩

end RecvBuffer

/-- All that a `SendBuffer` has granted lies in its region, and so does what it is about to
grant; and the queue pair has read as many bytes as a request is long. -/
structure Outgoing.Inside (out : Outgoing) (mr : MR) : Prop where
  cursors : out.ring.buffer.Inside mr
  key : out.ring.buffer.mr.lkey = mr.lkey
  queued : ∀ pair ∈ out.ring.buffer.queue, pair.2 ≤ mr.length.toNat
  granted : ∀ buf ∈ out.ring.granted, mr.Covers buf.region ∧ buf.lkey = mr.lkey
  chosen : ∀ msg loop, out.allocating = some (msg, loop) → loop ≠ .head →
    msg.wireLen ≤ mr.length.toNat
  read : ∀ i data, out.fetched i = some data → ∃ request, out.posted[i]? = some request ∧
    data.length = request.localBuf.length

namespace Outgoing

variable {out : Outgoing} {mr : MR}

theorem Inside.alloc {msg : Msg} (inside : Inside out mr) (fits : msg.wireLen ≤ mr.length.toNat) :
    Inside { out with allocating := none, ring := out.ring.take msg.wireLen } mr := by
  have shape : out.ring.take msg.wireLen = { out.ring with
      buffer := (out.ring.buffer.take msg.wireLen).1
      granted := out.ring.granted ++ [(out.ring.buffer.take msg.wireLen).2.1] } := rfl
  rw [SendBuffer.take_eq] at shape
  rw [shape]
  refine
    { cursors := inside.cursors.advance fits
      key := inside.key
      queued := ?_
      granted := ?_
      chosen := nofun
      read := inside.read }
  · intro pair member
    change pair ∈ out.ring.buffer.releasing.toList ++ (out.ring.buffer.toRelease ++ [_]) at member
    rw [← List.append_assoc] at member
    rcases List.mem_append.mp member with old | new
    · exact inside.queued pair old
    · rw [List.mem_singleton.mp new]
      exact fits
  · intro buf member
    rcases List.mem_append.mp member with old | new
    · exact inside.granted buf old
    · rw [List.mem_singleton.mp new]
      exact ⟨inside.cursors.place fits, inside.key⟩

theorem Inside.popRelease {buffer : SendBuffer} (inside : Inside out mr)
    (taken : out.ring.buffer.popRelease = some buffer) :
    Inside { out with ring := { out.ring with buffer := buffer } } mr := by
  obtain ⟨pair, rest, idle, queued, rfl⟩ := SendBuffer.popRelease_cases taken
  refine { inside with cursors := { inside.cursors with }, queued := ?_ }
  have old := inside.queued
  unfold SendBuffer.queue at old
  rw [idle, queued] at old
  exact old

theorem Inside.releaseDone {buffer : SendBuffer} {retired : Nat} (inside : Inside out mr)
    (taken : out.ring.buffer.releaseDone = some buffer) :
    Inside { out with ring := { out.ring with buffer := buffer, retired := retired } } mr := by
  obtain ⟨wrId, length, waiting, -, rfl⟩ := SendBuffer.releaseDone_cases taken
  have old := inside.queued
  unfold SendBuffer.queue at old
  rw [waiting, Option.toList_some, List.singleton_append, List.forall_mem_cons] at old
  have moved := inside.cursors.retire old.1
  rw [Cursors.retire_eq] at moved
  exact { inside with cursors := { moved with }, queued := old.2 }

end Outgoing

namespace Endpoint

variable {endpoint after : Endpoint} {mr : MR}

theorem step_inside (action : Action) (inside : (endpoint.outgoing []).Inside mr)
    (taken : endpoint.step action = some after) : (after.outgoing []).Inside mr := by
  cases sends : action.sends with
  | false =>
      rw [step_not_sends action sends [] taken]
      exact inside
  | true =>
      cases action with
      | call msg =>
          cases taken
          exact { inside with }
      | lockIndex i =>
          obtain ⟨msg, -, -, rfl⟩ := lockIndex_cases taken
          refine { inside with chosen := ?_ }
          rintro msg loop ⟨⟩ past
          exact absurd rfl past
      | localFirst =>
          obtain ⟨msg, -, rfl⟩ := localFirst_cases taken
          refine { inside with chosen := ?_ }
          rintro msg loop ⟨⟩ past
          exact inside.cursors.firstLoad past
      | localSecond =>
          obtain ⟨msg, first, holder, rfl⟩ := localSecond_cases taken
          refine { inside with chosen := ?_ }
          rintro msg loop ⟨⟩ past
          exact inside.chosen _ _ holder nofun
      | allocLocal =>
          obtain ⟨msg, holder, -, rfl⟩ := allocLocal_cases taken
          exact { inside.alloc (inside.chosen _ _ holder nofun) with }
      | copy i =>
          obtain ⟨msg, buf, wrId, slice, rest, addr, -, rfl⟩ := copy_cases taken
          exact { inside with }
      | takeLock i =>
          obtain ⟨msg, buf, wrId, addr, -, -, rfl⟩ := takeLock_cases taken
          exact { inside with }
      | post =>
          obtain ⟨msg, buf, wrId, imm, remote, -, -, rfl⟩ := post_cases taken
          refine { inside with read := ?_ }
          intro i data fetched
          obtain ⟨request, entry, length⟩ := inside.read i data fetched
          exact ⟨request, (List.getElem?_append_left
            (List.getElem?_eq_some_iff.mp entry).1).trans entry, length⟩
      | postFail errno =>
          obtain ⟨msg, buf, wrId, imm, remote, -, rfl⟩ := postFail_cases taken
          exact { inside with }
      | fetch i =>
          obtain ⟨request, entry, -, rfl⟩ := fetch_cases taken
          refine { inside with read := ?_ }
          intro j data fetched
          change Function.update endpoint.fetched i _ j = some data at fetched
          by_cases same : j = i
          · subst same
            rw [Function.update_self] at fetched
            cases fetched
            exact ⟨request, entry, ByteMemory.read_length _ _ _⟩
          · rw [Function.update_of_ne same] at fetched
            exact inside.read j data fetched
      | ack =>
          obtain ⟨request, data, -, -, rfl⟩ := ack_cases taken
          exact { inside with }
      | dispatch =>
          obtain ⟨wc, rest, -, -, ⟨-, rfl⟩ | ⟨-, rfl⟩ | ⟨-, -, rfl⟩⟩ := dispatch_cases taken
          · unfold postNullRecv
            split <;> exact { inside with }
          · exact { inside with cursors := { inside.cursors with } }
          · exact { inside with }
      | popRelease =>
          obtain ⟨buffer, popped, rfl⟩ := popRelease_cases taken
          exact { inside.popRelease popped with }
      | releaseDone =>
          obtain ⟨buffer, done, rfl⟩ := releaseDone_cases taken
          exact { inside.releaseDone done with }
      | _ => cases sends

/-- The same of the peer's region, as far as the `RemoteBufManager` has granted it. -/
structure GrantsInside (endpoint : Endpoint) (mr : MR) : Prop where
  cursors : endpoint.allocator.Inside mr
  key : endpoint.allocator.mr.rkey = mr.rkey
  granted : ∀ buf ∈ endpoint.grantedBufs, mr.Covers buf.region ∧ buf.rkey = mr.rkey
  chosen : ∀ msg buf wrId imm loop, endpoint.lock = some ⟨msg, buf, wrId, .placing imm loop⟩ →
    loop ≠ .head → msg.wireLen ≤ mr.length.toNat
  placed : ∀ msg buf wrId imm remote, endpoint.lock = some ⟨msg, buf, wrId, .placed imm remote⟩ →
    remote.length = msg.wireLen
  posted : ∀ request ∈ endpoint.posted, request.remoteBuf.length = request.msg.wireLen

/-- The lock changes hands, or its holder moves on to a stage without a remote region. -/
theorem GrantsInside.locked (inside : endpoint.GrantsInside mr)
    (allocator : after.allocator = endpoint.allocator) (posted : after.posted = endpoint.posted)
    (unplaced : after.placedBuf = [])
    (chosen : ∀ msg buf wrId imm loop, after.lock = some ⟨msg, buf, wrId, .placing imm loop⟩ →
      loop ≠ .head → msg.wireLen ≤ mr.length.toNat) : after.GrantsInside mr where
  cursors := by
    rw [allocator]
    exact inside.cursors
  key := by
    rw [allocator]
    exact inside.key
  granted := by
    intro buf member
    rw [grantedBufs, unplaced, List.append_nil, posted] at member
    exact inside.granted buf (List.mem_append_left _ member)
  chosen := chosen
  placed := by
    intro msg buf wrId imm remote holder
    rw [placedBuf, holder] at unplaced
    cases unplaced
  posted := by
    rw [posted]
    exact inside.posted

theorem step_grants (action : Action) (inside : endpoint.GrantsInside mr)
    (notice : ∀ pair, endpoint.receiving = some pair → pair.2 ≤ mr.length.toNat)
    (taken : endpoint.step action = some after) : after.GrantsInside mr := by
  cases critical : action.critical with
  | false =>
      obtain ⟨lock, -, posted, -, -, kept, -⟩ := step_not_critical action critical taken
      have moved : after.allocator.Inside mr ∧ after.allocator.mr = endpoint.allocator.mr := by
        by_cases finishes : action = .finish
        · subst finishes
          obtain ⟨pair, recvBuf, slice, receiving, -, rfl⟩ := finish_cases taken
          dsimp only
          split
          · exact ⟨inside.cursors.retire (notice pair receiving), rfl⟩
          · exact ⟨inside.cursors, rfl⟩
        · rw [kept finishes]
          exact ⟨inside.cursors, rfl⟩
      refine ⟨moved.1, ?_, ?_, ?_, ?_, ?_⟩
      · rw [moved.2]
        exact inside.key
      · rw [grantedBufs, placedBuf, lock, posted]
        exact inside.granted
      · rw [lock]
        exact inside.chosen
      · rw [lock]
        exact inside.placed
      · rw [posted]
        exact inside.posted
  | true =>
      cases action with
      | takeLock i =>
          obtain ⟨msg, buf, wrId, addr, -, -, rfl⟩ := takeLock_cases taken
          exact inside.locked rfl rfl rfl nofun
      | load =>
          obtain ⟨msg, buf, wrId, -, -, rfl⟩ := load_cases taken
          exact inside.locked rfl rfl rfl nofun
      | count =>
          obtain ⟨msg, buf, wrId, -, rfl⟩ := count_cases taken
          exact inside.locked rfl rfl rfl nofun
      | popNotice =>
          obtain ⟨msg, buf, wrId, -, rfl⟩ := popNotice_cases taken
          refine inside.locked rfl rfl rfl ?_
          rintro msg buf wrId imm loop ⟨⟩ past
          exact absurd rfl past
      | remoteFirst =>
          obtain ⟨msg, buf, wrId, imm, -, rfl⟩ := remoteFirst_cases taken
          refine inside.locked rfl rfl rfl ?_
          rintro msg buf wrId imm loop ⟨⟩ past
          exact inside.cursors.firstLoad past
      | remoteSecond =>
          obtain ⟨msg, buf, wrId, imm, first, holder, rfl⟩ := remoteSecond_cases taken
          refine inside.locked rfl rfl rfl ?_
          rintro msg buf wrId imm loop ⟨⟩ past
          exact inside.chosen _ _ _ _ _ holder nofun
      | allocRemote =>
          obtain ⟨msg, buf, wrId, imm, holder, rfl⟩ := allocRemote_cases taken
          have fits := inside.chosen _ _ _ _ _ holder nofun
          rw [RemoteBufManager.take_eq]
          refine ⟨inside.cursors.advance fits, inside.key, ?_, nofun, ?_, inside.posted⟩
          · intro buf member
            rcases List.mem_append.mp member with old | new
            · exact inside.granted buf (List.mem_append_left _ old)
            · rw [List.mem_singleton.mp new]
              exact ⟨inside.cursors.place fits, inside.key⟩
          · rintro msg buf wrId imm remote ⟨⟩
            rfl
      | post =>
          obtain ⟨msg, buf, wrId, imm, remote, holder, -, rfl⟩ := post_cases taken
          refine ⟨inside.cursors, inside.key, ?_, nofun, nofun, ?_⟩
          · intro buf member
            apply inside.granted
            rw [grantedBufs, placedBuf, List.append_nil, List.map_append] at member
            rw [grantedBufs, placedBuf, holder]
            exact member
          · intro request member
            rcases List.mem_append.mp member with old | new
            · exact inside.posted request old
            · rw [List.mem_singleton.mp new]
              exact inside.placed _ _ _ _ _ holder
      | postFail errno =>
          obtain ⟨msg, buf, wrId, imm, remote, -, rfl⟩ := postFail_cases taken
          exact inside.locked rfl rfl rfl nofun
      | _ => cases critical

/-- The slices lie in the receive buffer, and no notice reports more than all of it. -/
structure ReadsInside (endpoint : Endpoint) (mr : MR) : Prop where
  placed : endpoint.recvBuf.Placed
  same : endpoint.recvBuf.mr = mr
  held : ∀ slice ∈ endpoint.held, mr.Covers slice
  queued : ∀ notice ∈ endpoint.release, notice ≤ mr.length.toNat
  carried : ∀ notice ∈ endpoint.carriedImms, notice ≤ mr.length.toNat

/-- What a call carries it carried before, or it was the first notice of the channel, or
there was none. -/
theorem step_carries (action : Action) (taken : endpoint.step action = some after) :
    ∀ notice ∈ after.carriedImms,
      notice ∈ endpoint.carriedImms ∨ notice ∈ endpoint.release ∨ notice = 0 := by
  intro notice member
  rw [carriedImms, List.mem_append] at member ⊢
  cases critical : action.critical with
  | false =>
      obtain ⟨lock, -, posted, -⟩ := step_not_critical action critical taken
      rw [carriedImm, lock, posted] at member
      exact .inl member
  | true =>
      cases action with
      | takeLock i =>
          obtain ⟨msg, buf, wrId, addr, -, -, rfl⟩ := takeLock_cases taken
          exact .inl (.inl (member.resolve_right List.not_mem_nil))
      | load =>
          obtain ⟨msg, buf, wrId, -, -, rfl⟩ := load_cases taken
          exact .inl (.inl (member.resolve_right List.not_mem_nil))
      | count =>
          obtain ⟨msg, buf, wrId, -, rfl⟩ := count_cases taken
          exact .inl (.inl (member.resolve_right List.not_mem_nil))
      | popNotice =>
          obtain ⟨msg, buf, wrId, -, rfl⟩ := popNotice_cases taken
          rcases member with old | new
          · exact .inl (.inl old)
          · right
            rw [List.mem_singleton.mp new]
            cases endpoint.release with
            | nil => exact .inr rfl
            | cons first rest => exact .inl List.mem_cons_self
      | remoteFirst =>
          obtain ⟨msg, buf, wrId, imm, holder, rfl⟩ := remoteFirst_cases taken
          rw [carriedImm, holder]
          exact .inl member
      | remoteSecond =>
          obtain ⟨msg, buf, wrId, imm, first, holder, rfl⟩ := remoteSecond_cases taken
          rw [carriedImm, holder]
          exact .inl member
      | allocRemote =>
          obtain ⟨msg, buf, wrId, imm, holder, rfl⟩ := allocRemote_cases taken
          rw [carriedImm, holder]
          exact .inl member
      | post =>
          obtain ⟨msg, buf, wrId, imm, remote, holder, -, rfl⟩ := post_cases taken
          rw [carriedImm, holder, ← List.mem_append]
          rw [List.map_append] at member
          exact .inl (member.resolve_right List.not_mem_nil)
      | postFail errno =>
          obtain ⟨msg, buf, wrId, imm, remote, -, rfl⟩ := postFail_cases taken
          exact .inl (.inl (member.resolve_right List.not_mem_nil))
      | _ => cases critical

theorem step_recvMem (action : Action) (taken : endpoint.step action = some after) :
    after.recvMem = endpoint.recvMem := by
  by_cases reading : action.reading = true
  · cases action with
    | finish =>
        obtain ⟨pair, recvBuf, slice, -, -, rfl⟩ := finish_cases taken
        rfl
    | release =>
        obtain ⟨slice, rest, -, rfl⟩ := releaseSlice_cases taken
        rfl
    | _ => cases reading
  · exact (step_not_reading action (Bool.eq_false_iff.mpr reading) taken).2.2.2.1

theorem step_reads (action : Action) (inside : endpoint.ReadsInside mr)
    (arriving : ∀ pair, endpoint.receiving = some pair → pair.1 ≤ mr.length.toNat)
    (taken : endpoint.step action = some after) : after.ReadsInside mr := by
  have carried : ∀ notice ∈ after.carriedImms, notice ≤ mr.length.toNat := by
    intro notice member
    rcases step_carries action taken notice member with old | queued | rfl
    · exact inside.carried notice old
    · exact inside.queued notice queued
    · exact Nat.zero_le _
  have same := inside.same
  by_cases reading : action.reading = true
  · cases action with
    | finish =>
        obtain ⟨pair, recvBuf, slice, receiving, read, rfl⟩ := finish_cases taken
        obtain ⟨_, _, read', placed, kept, covers⟩ :=
          inside.placed.read (same ▸ arriving pair receiving)
        cases read.symm.trans read'
        refine ⟨placed, kept.trans same, ?_, inside.queued, carried⟩
        intro held member
        rcases List.mem_append.mp member with old | new
        · exact inside.held held old
        · rw [List.mem_singleton.mp new, ← same]
          exact covers
    | release =>
        obtain ⟨slice, rest, holds, rfl⟩ := releaseSlice_cases taken
        have covers := inside.held slice (holds ▸ List.mem_cons_self)
        unfold MR.Covers Region.Within at covers
        obtain ⟨placed, kept, notified⟩ :=
          inside.placed.notifyRelease (show slice.length ≤ endpoint.recvBuf.mr.length.toNat by
            rw [same]
            omega)
        refine ⟨placed, kept.trans same, ?_, ?_, carried⟩
        · intro held member
          exact inside.held held (holds ▸ List.mem_cons_of_mem _ member)
        · intro notice member
          rcases List.mem_append.mp member with old | new
          · exact inside.queued notice old
          · rw [← same]
            exact notified notice (Option.mem_toList.mp new)
    | _ => cases reading
  · obtain ⟨recvBuf, held, -, -, -, release⟩ :=
      step_not_reading action (Bool.eq_false_iff.mpr reading) taken
    refine ⟨?_, ?_, ?_, ?_, carried⟩
    · rw [recvBuf]
      exact inside.placed
    · rw [recvBuf]
      exact same
    · rw [held]
      exact inside.held
    · by_cases pops : action = .popNotice
      · subst pops
        obtain ⟨msg, buf, wrId, -, rfl⟩ := popNotice_cases taken
        intro notice member
        exact inside.queued notice (List.mem_of_mem_tail member)
      · rw [release pops]
        exact inside.queued

/-- What `recv_msg` has in its hand is as long as the region it was posted to, and its notice
at most as long as that of the peer. -/
theorem GrantsInside.arriving {peer : Endpoint} {peerMr : MR} {orphans : List Job}
    (grants : peer.GrantsInside mr) (reads : peer.ReadsInside peerMr)
    (tickets : (peer.outgoing orphans).Tickets) (transport : Transport endpoint peer)
    {pair : Nat × Nat} (receiving : endpoint.receiving = some pair) :
    pair.1 ≤ mr.length.toNat ∧ pair.2 ≤ peerMr.length.toNat := by
  obtain ⟨-, request, entry, rfl⟩ := transport.next receiving
  have member := List.mem_of_getElem? entry
  have sized := (tickets.bought request.job (List.mem_append_right _
    (List.mem_map_of_mem member))).2
  have granted := (grants.granted request.remoteBuf (List.mem_append_left _
    (List.mem_map_of_mem member))).1
  have placed := grants.posted request member
  have carried := reads.carried request.imm (List.mem_append_left _ (List.mem_map_of_mem member))
  unfold MR.Covers Region.Within RemoteBuf.region at granted
  change request.localBuf.length = request.msg.wireLen at sized
  change request.localBuf.length ≤ _ ∧ request.imm ≤ _
  dsimp only at granted
  omega

end Endpoint

namespace System

variable {recvMr sendMr : Side → MR} {ok : System → Action → Prop} {system : System}

theorem run_inside (run : Runs.Run step ok (new recvMr sendMr) system) : ∀ side,
    ((system side).outgoing []).Inside (sendMr side) ∧
      (system side).GrantsInside (recvMr side.other) ∧ (system side).ReadsInside (recvMr side) := by
  induction run with
  | refl =>
      intro side
      exact ⟨⟨{ Cursors.new_inside (sendMr side) with }, rfl, nofun, nofun, nofun, nofun⟩,
        ⟨Cursors.new_inside _, rfl, nofun, nofun, nofun, nofun⟩,
        ⟨RecvBuffer.new_placed _, rfl, nofun, nofun, nofun⟩⟩
  | @next before after run label allowed taken ih =>
      intro side
      obtain ⟨sends, grants, reads⟩ := ih side
      obtain ⟨-, grants', reads'⟩ := ih side.other
      obtain ⟨orphans, tickets⟩ := run_orphans run side.other
      rw [Side.other_other] at grants'
      have arriving {pair : Nat × Nat} (receiving : (before side).receiving = some pair) :=
        grants'.arriving reads' tickets (run_transport run side) receiving
      rcases step_side side taken with ⟨own, rfl, acted⟩ | ⟨-, _, _, _, _, _, same⟩
      · exact ⟨Endpoint.step_inside own sends acted,
          Endpoint.step_grants own grants (fun pair taken => (arriving taken).2) acted,
          Endpoint.step_reads own reads (fun pair taken => (arriving taken).1) acted⟩
      · rw [same]
        exact ⟨{ sends with }, { grants with }, { reads with }⟩

theorem run_permitted (run : Runs.Run step ok (new recvMr sendMr) system) (side : Side) :
    ∀ request ∈ (system side).posted, request.Permitted (sendMr side) (recvMr side.other) := by
  obtain ⟨sends, grants, -⟩ := run_inside run side
  obtain ⟨orphans, tickets⟩ := run_orphans run side
  intro request posted
  obtain ⟨entry, sized⟩ := tickets.bought request.job
    (List.mem_append_right _ (List.mem_map_of_mem posted))
  obtain ⟨source, lkey⟩ := sends.granted request.localBuf (List.mem_of_getElem? entry)
  obtain ⟨target, rkey⟩ := grants.granted request.remoteBuf
    (List.mem_append_left _ (List.mem_map_of_mem posted))
  exact ⟨lkey, source, rkey, target, (grants.posted request posted).trans sized.symm⟩

theorem run_untouched (run : Runs.Run step ok (new recvMr sendMr) system) (side : Side)
    {address : Nat} (outside : ¬ (recvMr side).region.Contains address) :
    (system side).recvMem address = (new recvMr sendMr side).recvMem address := by
  induction run with
  | refl => rfl
  | @next before after run label allowed taken ih =>
      rw [← ih]
      cases label with
      | own chosen action =>
          obtain ⟨mine, acted, rfl⟩ := Option.map_eq_some_iff.mp taken
          rcases side.eq_or_other chosen with rfl | rfl
          · rw [join_self, Endpoint.step_recvMem action acted]
          · rw [join_other]
      | deliver chosen =>
          obtain ⟨both, acted, rfl⟩ := Option.map_eq_some_iff.mp taken
          obtain ⟨request, -, -, -, rfl⟩ := deliverNext_cases acted
          rcases side.eq_or_other chosen with rfl | rfl
          · rw [join_self]
          · rw [join_other]
      | write chosen i =>
          obtain ⟨both, acted, rfl⟩ := Option.map_eq_some_iff.mp taken
          obtain ⟨request, data, entry, fetched, -, rfl⟩ := writeData_cases acted
          rcases side.eq_or_other chosen with rfl | rfl
          · rw [join_self]
          rw [join_other]
          obtain ⟨sends, -, -⟩ := run_inside run chosen
          obtain ⟨request', entry', length⟩ := sends.read i data fetched
          cases entry.symm.trans entry'
          have permitted := run_permitted run chosen request (List.mem_of_getElem? entry)
          have target := permitted.target
          rw [MR.Covers, Region.Within, RemoteBuf.region, permitted.length, ← length] at target
          apply ByteMemory.write_outside
          rintro ⟨lower, upper⟩
          apply outside
          unfold Region.Contains MR.region
          dsimp only at target lower upper ⊢
          omega

/-- Whichever posts fail, however long the messages are and in whatever order the wait loops
read their cursors, while all completions are successful. As the cursors stay in their
regions, the sums are the u64 sums of the source where these end 4 GiB below the top of the
address space. -/
theorem nothing_outside (recvMr sendMr : Side → MR) (system : System)
    (run : Runs.Run step ok (new recvMr sendMr) system) (side : Side) :
    (∀ request ∈ (system side).posted, request.Permitted (sendMr side) (recvMr side.other)) ∧
      (∀ address, ¬ (recvMr side).region.Contains address →
        (system side).recvMem address = (new recvMr sendMr side).recvMem address) ∧
      (∀ slice ∈ (system side).held, (recvMr side).Covers slice) ∧
      ((system side).receiving.isSome → (system side).finish.isSome) ∧
      (system side).sendRing.buffer.Inside (sendMr side) ∧
      (system side).allocator.Inside (recvMr side.other) := by
  obtain ⟨sends, own, reads⟩ := run_inside run side
  refine ⟨run_permitted run side, fun _ => run_untouched run side, reads.held, ?_,
    sends.cursors, own.cursors⟩
  intro waiting
  obtain ⟨pair, receiving⟩ := Option.isSome_iff_exists.mp waiting
  obtain ⟨-, grants, reads'⟩ := run_inside run side.other
  obtain ⟨orphans, tickets⟩ := run_orphans run side.other
  rw [Side.other_other] at grants
  have arriving := (grants.arriving reads' tickets (run_transport run side) receiving).1
  rw [← reads.same] at arriving
  obtain ⟨recvBuf, slice, read, -⟩ := reads.placed.read arriving
  unfold Endpoint.finish
  rw [receiving]
  dsimp only [Option.bind_eq_bind, Option.bind_some]
  rw [read]
  rfl

/-- The post of one byte fails, so that the next is read one byte off, but inside the buffer. -/
theorem nothing_outside_failed_post : ∃ system,
    Runs.Run step Runs.Any (new (fun _ => sampleMr) (fun _ => sampleMr)) system ∧
      (∃ request ∈ (system .client).posted, request.remoteBuf.addr = 0x10000001 ∧
        request.Permitted sampleMr sampleMr) ∧
      ∃ slice ∈ (system .server).held, slice.start = 0x10000000 ∧ sampleMr.Covers slice := by
  obtain ⟨system, run, reached⟩ : ∃ system,
      Runs.Run step Runs.Any (new (fun _ => sampleMr) (fun _ => sampleMr)) system ∧
        decide ((∃ request ∈ (system .client).posted, request.remoteBuf.addr = 0x10000001) ∧
          ∃ slice ∈ (system .server).held, slice.start = 0x10000000) = true :=
    Runs.Run.exists_of_exec
      (fun system : System =>
        decide ((∃ request ∈ (system .client).posted, request.remoteBuf.addr = 0x10000001) ∧
          ∃ slice ∈ (system .server).held, slice.start = 0x10000000))
      ((Endpoint.sendSteps Endpoint.oneByte).dropLast.map (Action.own .client) ++
        .own .client (.postFail 12) :: nextByte) (by decide +kernel)
  obtain ⟨⟨request, posted, target⟩, slice, held, start⟩ := of_decide_eq_true reached
  have client := (nothing_outside _ _ system run .client).1 request posted
  have server := (nothing_outside _ _ system run .server).2.2.1 slice held
  exact ⟨system, run, ⟨request, posted, target, client⟩, slice, held, start, server⟩

end System

end Ibv
