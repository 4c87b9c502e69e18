import Mathlib.Data.List.Perm.Basic
import Ibv.Counters

set_option autoImplicit false

namespace Ibv

/-- A message with its region and the pointer of its flag. -/
structure Job where
  msg : Msg
  buf : LocalBuf
  wrId : Nat

def Copying.job (copying : Copying) : Job := ⟨copying.msg, copying.buf, copying.wrId⟩

def Critical.job (critical : Critical) : Job := ⟨critical.msg, critical.buf, critical.wrId⟩

def Request.job (request : Request) : Job := ⟨request.msg, request.localBuf, request.wrId⟩

/-- `orphans` are the calls whose post failed. -/
structure Outgoing where
  orphans : List Job
  calls : List Msg
  allocating : Option (Msg × Loop)
  copying : List Copying
  holder : Option Job
  posted : List Request
  acked : Nat
  fetched : Nat → Option (List UInt8)
  completions : List WC
  ring : LocalRing
  memory : Nat → UInt8

def Endpoint.outgoing (endpoint : Endpoint) (orphans : List Job) : Outgoing where
  orphans := orphans
  calls := endpoint.calls
  allocating := endpoint.allocating
  copying := endpoint.copying
  holder := endpoint.lock.map Critical.job
  posted := endpoint.posted
  acked := endpoint.acked
  fetched := endpoint.fetched
  completions := endpoint.polled ++ endpoint.cq
  ring := endpoint.sendRing
  memory := endpoint.sendMem

namespace Outgoing

def unposted (out : Outgoing) : List Job :=
  out.orphans ++ (out.copying.map Copying.job ++ out.holder.toList)

/-- The messages whose send completion is still to come, if ever. -/
def unfinished (out : Outgoing) : List Job :=
  out.unposted ++ (out.posted.drop out.acked).map Request.job

def jobs (out : Outgoing) : List Job := out.unposted ++ out.posted.map Request.job

theorem jobs_split (out : Outgoing) :
    out.jobs.Perm (out.unfinished ++ (out.posted.take out.acked).map Request.job) := by
  unfold jobs unfinished
  rw [List.append_assoc]
  refine List.Perm.append_left _ ?_
  have whole : out.posted.map Request.job = (out.posted.take out.acked).map Request.job ++
      (out.posted.drop out.acked).map Request.job := by
    rw [← List.map_append, List.take_append_drop]
  rw [whole]
  exact List.perm_append_comm

theorem mem_jobs_of_unfinished {out : Outgoing} {job : Job} (member : job ∈ out.unfinished) :
    job ∈ out.jobs :=
  out.jobs_split.mem_iff.mpr (List.mem_append_left _ member)

/-- A flag is set from `SendBuffer::alloc` until `polling` sees the completion of the one
message it was made for; that of an orphan stays set. -/
structure Tickets (out : Outgoing) : Prop where
  numbered : out.ring.buffer.fresh = out.ring.granted.length
  bought : ∀ job ∈ out.jobs,
    out.ring.granted[job.wrId]? = some job.buf ∧ job.buf.length = job.msg.wireLen
  once : (out.jobs.map Job.wrId).Nodup
  kept : ∀ job ∈ out.unfinished, out.ring.buffer.inUse job.wrId = true ∧
    job.wrId ∈ out.ring.buffer.queue.map Prod.fst
  completed : ∀ wc ∈ out.completions, wc.opcode = .write →
    wc.wrId ∈ (out.posted.take out.acked).map Request.wrId

variable {out after : Outgoing}

theorem Tickets.fresh {job : Job} (tickets : Tickets out) (member : job ∈ out.jobs) :
    job.wrId < out.ring.buffer.fresh := by
  rw [tickets.numbered]
  exact (List.getElem?_eq_some_iff.mp (tickets.bought job member).1).1

theorem Tickets.move (tickets : Tickets out) (ring : after.ring = out.ring)
    (jobs : after.jobs.Subperm out.jobs) (unfinished : after.unfinished ⊆ out.unfinished)
    (completed : ∀ wc ∈ after.completions, wc.opcode = .write →
      wc.wrId ∈ (after.posted.take after.acked).map Request.wrId) : Tickets after where
  numbered := by
    rw [ring]
    exact tickets.numbered
  bought := by
    intro job member
    rw [ring]
    exact tickets.bought job (jobs.subset member)
  once := by
    obtain ⟨part, perm, sublist⟩ := jobs
    exact (perm.map Job.wrId).nodup_iff.mp (tickets.once.sublist (sublist.map Job.wrId))
  kept := by
    intro job member
    rw [ring]
    exact tickets.kept job (unfinished member)
  completed := completed

theorem Tickets.unfinished_ne {job : Job} {wrId : Nat} (tickets : Tickets out)
    (member : job ∈ out.unfinished)
    (completed : wrId ∈ (out.posted.take out.acked).map Request.wrId) : job.wrId ≠ wrId := by
  have once := (out.jobs_split.map Job.wrId).nodup_iff.mp tickets.once
  rw [List.map_append, List.map_map] at once
  exact (List.nodup_append.mp once).2.2 _ (List.mem_map_of_mem member) _ completed

theorem Tickets.alloc {msg : Msg} {copying : Copying} (tickets : Tickets out)
    (same : copying.job = ⟨msg, (out.ring.buffer.take msg.wireLen).2.1, out.ring.buffer.fresh⟩) :
    Tickets { out with
      allocating := none
      copying := out.copying ++ [copying]
      ring := out.ring.take msg.wireLen } := by
  have numbered := tickets.numbered
  have unposted : ∀ rest : List Job, (out.orphans ++ ((out.copying ++ [copying]).map Copying.job ++
      out.holder.toList) ++ rest).Perm (copying.job :: (out.unposted ++ rest)) := by
    intro rest
    rw [List.map_append, List.map_singleton, ← List.cons_append]
    refine List.Perm.append_right rest ?_
    rw [List.append_assoc]
    refine (List.Perm.append_left _ List.perm_middle).trans ?_
    exact List.perm_middle
  have shape : (out.ring.take msg.wireLen).buffer = (out.ring.buffer.take msg.wireLen).1 := rfl
  have granted : (out.ring.take msg.wireLen).granted =
      out.ring.granted ++ [(out.ring.buffer.take msg.wireLen).2.1] := rfl
  rw [SendBuffer.take_eq] at shape granted same
  have queue : (out.ring.take msg.wireLen).buffer.queue =
      out.ring.buffer.queue ++ [(out.ring.buffer.fresh, msg.wireLen)] := by
    rw [shape, SendBuffer.queue, SendBuffer.queue, List.append_assoc]
  refine
    { numbered := ?_
      bought := ?_
      once := ?_
      kept := ?_
      completed := tickets.completed }
  · rw [granted, shape, List.length_append, List.length_singleton]
    exact congrArg (· + 1) numbered
  · intro job member
    change (out.ring.take msg.wireLen).granted[job.wrId]? = some job.buf ∧ _
    rw [granted]
    rcases List.mem_cons.mp ((unposted _).mem_iff.mp member) with rfl | old
    · rw [same]
      refine ⟨?_, rfl⟩
      rw [numbered]
      exact List.getElem?_concat_length
    · obtain ⟨entry, length⟩ := tickets.bought job old
      exact ⟨(List.getElem?_append_left (List.getElem?_eq_some_iff.mp entry).1).trans entry, length⟩
  · refine ((unposted _).map Job.wrId).nodup_iff.mpr (List.nodup_cons.mpr ⟨?_, tickets.once⟩)
    intro member
    obtain ⟨job, old, number⟩ := List.mem_map.mp member
    have below := tickets.fresh old
    rw [number, same] at below
    exact Nat.lt_irrefl _ below
  · intro job member
    change (out.ring.take msg.wireLen).buffer.inUse job.wrId = true ∧
      job.wrId ∈ (out.ring.take msg.wireLen).buffer.queue.map Prod.fst
    rw [queue, shape, List.map_append, List.mem_append]
    rcases List.mem_cons.mp ((unposted _).mem_iff.mp member) with rfl | old
    · rw [same]
      exact ⟨Function.update_self _ _ _, .inr (List.mem_singleton.mpr rfl)⟩
    · obtain ⟨inUse, queued⟩ := tickets.kept job old
      have below := tickets.fresh (mem_jobs_of_unfinished old)
      refine ⟨?_, .inl queued⟩
      dsimp only
      rw [Function.update_of_ne (Nat.ne_of_lt below)]
      exact inUse

/-- The flag of a completed message is cleared. -/
theorem Tickets.clear {wrId : Nat} {completions : List WC} (tickets : Tickets out)
    (completed : wrId ∈ (out.posted.take out.acked).map Request.wrId)
    (fewer : completions ⊆ out.completions) :
    Tickets { out with
      completions := completions
      ring := { out.ring with buffer := out.ring.buffer.clear wrId } } where
  numbered := tickets.numbered
  bought := tickets.bought
  once := tickets.once
  kept := by
    intro job member
    obtain ⟨inUse, queued⟩ := tickets.kept job member
    refine ⟨?_, queued⟩
    change Function.update out.ring.buffer.inUse wrId false job.wrId = true
    rw [Function.update_of_ne (tickets.unfinished_ne member completed)]
    exact inUse
  completed := fun wc member => tickets.completed wc (fewer member)

theorem Tickets.copy {i : Nat} {old new : Copying} {memory : Nat → UInt8} (tickets : Tickets out)
    (entry : out.copying[i]? = some old) (same : new.job = old.job) :
    Tickets { out with
      copying := out.copying.set i new
      memory := memory } := by
  have kept : (out.copying.set i new).map Copying.job = out.copying.map Copying.job := by
    rw [List.map_set]
    obtain ⟨below, entry⟩ := List.getElem?_eq_some_iff.mp entry
    have inside : i < (out.copying.map Copying.job).length := by
      rw [List.length_map]
      exact below
    have place : new.job = (out.copying.map Copying.job)[i] := by
      rw [List.getElem_map, entry, same]
    rw [place]
    exact List.set_getElem_self _
  have unposted : Outgoing.unposted { out with
      copying := out.copying.set i new
      memory := memory } = out.unposted :=
    congrArg (fun jobs => out.orphans ++ (jobs ++ out.holder.toList)) kept
  refine tickets.move rfl ?_ ?_ tickets.completed
  · unfold jobs
    rw [unposted]
  · unfold unfinished
    rw [unposted]
    exact List.Subset.refl _

theorem Tickets.takeLock {i : Nat} {copying : Copying} (tickets : Tickets out)
    (free : out.holder = none) (entry : out.copying[i]? = some copying) :
    Tickets { out with
      copying := out.copying.eraseIdx i
      holder := some copying.job } := by
  obtain ⟨below, entry⟩ := List.getElem?_eq_some_iff.mp entry
  have unposted : (out.orphans ++ ((out.copying.eraseIdx i).map Copying.job ++
      [copying.job])).Perm out.unposted := by
    have moved := (List.getElem_cons_eraseIdx_perm below).map Copying.job
    rw [entry] at moved
    unfold Outgoing.unposted
    rw [free, Option.toList_none, List.append_nil]
    exact List.Perm.append_left _ ((List.perm_append_singleton _ _).trans moved)
  refine tickets.move rfl ?_ ?_ tickets.completed
  · exact (List.Perm.append_right _ unposted).subperm
  · exact (List.Perm.append_right _ unposted).subset

theorem Tickets.post {request : Request} (tickets : Tickets out)
    (holder : out.holder = some request.job) (acked : out.acked ≤ out.posted.length) :
    Tickets { out with
      holder := none
      posted := out.posted ++ [request] } := by
  have moved (front : List Request) : (out.orphans ++ (out.copying.map Copying.job ++ []) ++
      (front ++ [request]).map Request.job).Perm (out.unposted ++ front.map Request.job) := by
    unfold Outgoing.unposted
    simp only [holder, List.append_nil, List.map_append, List.append_assoc]
    exact List.Perm.append_left _ (List.Perm.append_left _ List.perm_append_comm)
  refine tickets.move rfl (moved out.posted).subperm ?_ ?_
  · unfold unfinished
    dsimp only
    rw [List.drop_append_of_le_length acked]
    exact (moved (out.posted.drop out.acked)).subset
  · intro wc member code
    dsimp only
    rw [List.take_append_of_le_length acked]
    exact tickets.completed wc member code

/-- A call whose post failed is an orphan: its flag is forgotten and stays set. -/
theorem Tickets.postFail (tickets : Tickets out) :
    Tickets { out with
      orphans := out.orphans ++ out.holder.toList
      holder := none } := by
  have moved : (out.orphans ++ out.holder.toList ++
      (out.copying.map Copying.job ++ [])).Perm out.unposted := by
    unfold Outgoing.unposted
    rw [List.append_nil, List.append_assoc]
    exact List.Perm.append_left _ List.perm_append_comm
  exact tickets.move rfl (List.Perm.append_right _ moved).subperm
    (List.Perm.append_right _ moved).subset tickets.completed

theorem Tickets.ack {request : Request} {completions : List WC} (tickets : Tickets out)
    (entry : out.posted[out.acked]? = some request)
    (arrived : ∀ wc ∈ completions, wc ∈ out.completions ∨ wc = request.sendWc) :
    Tickets { out with
      acked := out.acked + 1
      completions := completions } := by
  have grown : out.posted.take (out.acked + 1) = out.posted.take out.acked ++ [request] := by
    rw [List.take_add_one, entry, Option.toList_some]
  refine tickets.move rfl (List.Subperm.refl _) ?_ ?_
  · refine List.append_subset.mpr ⟨List.subset_append_left _ _, ?_⟩
    refine List.Subset.trans (List.map_subset _ ?_) (List.subset_append_right _ _)
    exact List.drop_subset_drop_left _ (Nat.le_succ _)
  · intro wc member code
    dsimp only
    rw [grown, List.map_append, List.mem_append]
    rcases arrived wc member with old | rfl
    · exact .inl (tickets.completed wc old code)
    · exact .inr (List.mem_singleton.mpr rfl)

theorem Tickets.others {completions : List WC} (tickets : Tickets out)
    (others : ∀ wc ∈ completions, wc ∈ out.completions ∨ wc.opcode ≠ .write) :
    Tickets { out with completions := completions } := by
  refine { tickets with completed := ?_ }
  intro wc member code
  rcases others wc member with old | other
  · exact tickets.completed wc old code
  · exact absurd code other

theorem Tickets.popRelease {buffer : SendBuffer} (tickets : Tickets out)
    (taken : out.ring.buffer.popRelease = some buffer) :
    Tickets { out with ring := { out.ring with buffer := buffer } } := by
  obtain ⟨pair, rest, idle, queued, rfl⟩ := SendBuffer.popRelease_cases taken
  refine { tickets with kept := ?_ }
  intro job member
  have kept := tickets.kept job member
  unfold SendBuffer.queue at kept
  rw [idle, queued] at kept
  exact kept

theorem Tickets.releaseDone {buffer : SendBuffer} (tickets : Tickets out)
    (taken : out.ring.buffer.releaseDone = some buffer) :
    Tickets { out with ring := { out.ring with
      buffer := buffer
      retired := out.ring.retired + 1 } } := by
  obtain ⟨wrId, length, waiting, cleared, rfl⟩ := SendBuffer.releaseDone_cases taken
  refine { tickets with kept := ?_ }
  intro job member
  obtain ⟨inUse, queued⟩ := tickets.kept job member
  unfold SendBuffer.queue at queued
  rw [waiting, Option.toList_some, List.singleton_append, List.map_cons] at queued
  rcases List.mem_cons.mp queued with head | tail
  · rw [head, cleared] at inUse
    cases inUse
  · exact ⟨inUse, tail⟩

end Outgoing

namespace Endpoint

open Outgoing (Tickets)

variable {endpoint after : Endpoint}

/-- The steps that change the sending half. -/
def Action.sends : Action → Bool
  | .call _ | .lockIndex _ | .localFirst | .localSecond | .allocLocal | .copy _ | .takeLock _
  | .post | .postFail _ | .fetch _ | .ack | .dispatch | .popRelease | .releaseDone => true
  | _ => false

theorem step_not_sends (action : Action) (other : action.sends = false)
    (orphans : List Job) (taken : endpoint.step action = some after) :
    after.outgoing orphans = endpoint.outgoing orphans := by
  cases action with
  | load =>
      obtain ⟨msg, buf, wrId, holder, -, rfl⟩ := load_cases taken
      simp only [outgoing, holder, Option.map_some, Critical.job]
  | count =>
      obtain ⟨msg, buf, wrId, holder, rfl⟩ := count_cases taken
      simp only [outgoing, holder, Option.map_some, Critical.job]
  | popNotice =>
      obtain ⟨msg, buf, wrId, holder, rfl⟩ := popNotice_cases taken
      simp only [outgoing, holder, Option.map_some, Critical.job]
  | remoteFirst =>
      obtain ⟨msg, buf, wrId, imm, holder, rfl⟩ := remoteFirst_cases taken
      simp only [outgoing, holder, Option.map_some, Critical.job]
  | remoteSecond =>
      obtain ⟨msg, buf, wrId, imm, first, holder, rfl⟩ := remoteSecond_cases taken
      simp only [outgoing, holder, Option.map_some, Critical.job]
  | allocRemote =>
      obtain ⟨msg, buf, wrId, imm, holder, rfl⟩ := allocRemote_cases taken
      simp only [outgoing, holder, Option.map_some, Critical.job]
  | poll n =>
      obtain ⟨idle, -, -, -, rfl⟩ := poll_cases taken
      simp only [outgoing, idle, List.take_append_drop, List.nil_append]
  | sendPair =>
      obtain ⟨pair, -, -, rfl⟩ := sendPair_cases taken
      rfl
  | recv =>
      obtain ⟨pair, rest, -, -, rfl⟩ := recv_cases taken
      rfl
  | finish =>
      obtain ⟨pair, recvBuf, slice, -, -, rfl⟩ := finish_cases taken
      rfl
  | release =>
      obtain ⟨slice, rest, -, rfl⟩ := releaseSlice_cases taken
      rfl
  | call msg | lockIndex i | localFirst | localSecond | allocLocal | copy i | takeLock i | post
  | postFail errno | fetch i | ack | dispatch | popRelease | releaseDone => cases other

theorem step_tickets (action : Action) {orphans : List Job}
    (tickets : Tickets (endpoint.outgoing orphans))
    (acked : endpoint.acked ≤ endpoint.posted.length)
    (taken : endpoint.step action = some after) :
    ∃ more, Tickets (after.outgoing (orphans ++ more)) := by
  have none_more (same : Tickets (after.outgoing orphans)) :
      ∃ more, Tickets (after.outgoing (orphans ++ more)) := by
    refine ⟨[], ?_⟩
    rw [List.append_nil]
    exact same
  cases sends : action.sends with
  | false =>
      apply none_more
      rw [step_not_sends action sends orphans taken]
      exact tickets
  | true =>
      cases action with
      | call msg =>
          cases taken
          exact none_more { tickets with }
      | lockIndex i =>
          obtain ⟨msg, -, -, rfl⟩ := lockIndex_cases taken
          exact none_more { tickets with }
      | localFirst =>
          obtain ⟨msg, -, rfl⟩ := localFirst_cases taken
          exact none_more { tickets with }
      | localSecond =>
          obtain ⟨msg, first, -, rfl⟩ := localSecond_cases taken
          exact none_more { tickets with }
      | allocLocal =>
          obtain ⟨msg, -, -, rfl⟩ := allocLocal_cases taken
          apply none_more
          apply tickets.alloc
          rw [SendBuffer.take_eq]
          rfl
      | copy i =>
          obtain ⟨msg, buf, wrId, slice, rest, addr, entry, rfl⟩ := copy_cases taken
          exact none_more (tickets.copy entry rfl)
      | takeLock i =>
          obtain ⟨msg, buf, wrId, addr, free, entry, rfl⟩ := takeLock_cases taken
          exact none_more (tickets.takeLock (Option.map_eq_none_iff.mpr free) entry)
      | post =>
          obtain ⟨msg, buf, wrId, imm, remote, holder, -, rfl⟩ := post_cases taken
          exact none_more (tickets.post (Option.map_eq_some_iff.mpr ⟨_, holder, rfl⟩) acked)
      | postFail errno =>
          obtain ⟨msg, buf, wrId, imm, remote, -, rfl⟩ := postFail_cases taken
          exact ⟨_, tickets.postFail⟩
      | fetch i =>
          obtain ⟨request, -, -, rfl⟩ := fetch_cases taken
          exact none_more { tickets with }
      | ack =>
          obtain ⟨request, data, entry, -, rfl⟩ := ack_cases taken
          refine none_more (tickets.ack entry ?_)
          intro wc member
          rw [← List.append_assoc, List.mem_append] at member
          exact member.imp id List.mem_singleton.mp
      | dispatch =>
          obtain ⟨wc, rest, -, batch, branches⟩ := dispatch_cases taken
          have fewer : rest ++ endpoint.cq ⊆ (endpoint.outgoing orphans).completions := by
            unfold outgoing
            rw [batch]
            exact List.subset_cons_self _ _
          rcases branches with ⟨-, rfl⟩ | ⟨code, rfl⟩ | ⟨-, -, rfl⟩
          · apply none_more
            unfold postNullRecv
            split <;> exact tickets.others fun wc member => .inl (fewer member)
          · refine none_more (tickets.clear (tickets.completed wc ?_ code) fewer)
            unfold outgoing
            rw [batch]
            exact List.mem_cons_self
          · exact none_more (tickets.others fun wc member => .inl (fewer member))
      | popRelease =>
          obtain ⟨buffer, popped, rfl⟩ := popRelease_cases taken
          exact none_more (tickets.popRelease popped)
      | releaseDone =>
          obtain ⟨buffer, done, rfl⟩ := releaseDone_cases taken
          exact none_more (tickets.releaseDone done)
      | _ => cases sends

theorem new_tickets (recvMr sendMr : MR) (remoteMr : RemoteMR) :
    Tickets ((new recvMr sendMr remoteMr).outgoing []) where
  numbered := rfl
  bought := by
    intro job member
    cases member
  once := List.nodup_nil
  kept := by
    intro job member
    cases member
  completed := by
    intro wc member
    cases member

end Endpoint

namespace System

theorem new_tickets {recvMr sendMr : Side → MR} (side : Side) :
    ((new recvMr sendMr side).outgoing []).Tickets := Endpoint.new_tickets _ _ _

theorem deliver_tickets {sender receiver : Endpoint} {both : Endpoint × Endpoint}
    {orphans : List Job} (tickets : (receiver.outgoing orphans).Tickets)
    (taken : deliverNext sender receiver = some both) : (both.2.outgoing orphans).Tickets := by
  obtain ⟨request, entry, -, -, rfl⟩ := deliverNext_cases taken
  refine tickets.others ?_
  intro wc member
  rw [← List.append_assoc, List.mem_append] at member
  rcases member with old | new
  · exact .inl old
  · rw [List.mem_singleton.mp new]
    exact .inr (fun same => nomatch same)

/-- Orphans are never adopted. -/
theorem run_tickets {start later : System} {ok : System → Action → Prop} (orphans : Side → List Job)
    (counts : ∀ side, Counts (start side) (start side.other))
    (tickets : ∀ side, ((start side).outgoing (orphans side)).Tickets)
    (run : Runs.Run step ok start later) (side : Side) :
    ∃ more, ((later side).outgoing (orphans side ++ more)).Tickets := by
  refine (pairwise (fun side mine peer => Counts mine peer ∧
    ∃ more, (mine.outgoing (orphans side ++ more)).Tickets) (unrestricted run) ?_ ?_ ?_ ?_ side).2
  · intro side
    refine ⟨counts side, [], ?_⟩
    rw [List.append_nil]
    exact tickets side
  · intro side mine peer action after ⟨forth, more, tickets⟩ back _ taken
    obtain ⟨counts, counts'⟩ := forth.own_step action back.1 taken
    obtain ⟨added, tickets'⟩ := Endpoint.step_tickets action tickets forth.queues.acked taken
    rw [List.append_assoc] at tickets'
    exact ⟨⟨counts, _, tickets'⟩, ⟨counts', back.2⟩⟩
  · intro side sender receiver i both ⟨forth, more, tickets⟩ ⟨back, more', tickets'⟩ taken
    obtain ⟨counts, counts'⟩ := forth.write_step back taken
    obtain ⟨request, data, -, -, -, rfl⟩ := writeData_cases taken
    exact ⟨⟨counts, more, { tickets with }⟩, ⟨counts', more', { tickets' with }⟩⟩
  · intro side sender receiver both ⟨forth, more, tickets⟩ ⟨back, more', tickets'⟩ taken
    obtain ⟨counts, counts'⟩ := forth.deliver_step back taken
    have kept := deliver_tickets tickets' taken
    obtain ⟨request, entry, -, -, rfl⟩ := deliverNext_cases taken
    exact ⟨⟨counts, more, { tickets with }⟩, ⟨counts', more', kept⟩⟩

end System

end Ibv
