import Ibv.Burst
import Ibv.Outgoing

set_option autoImplicit false

namespace Ibv

open Direction (sampleMr)

namespace Endpoint

def Reported (before after : Endpoint) : Prop :=
  ∃ errno, after.results = before.results ++ [.error errno]

def Uncounted (before after : Endpoint) : Prop := after.sending = before.sending - 1

/-- The notice the call has popped is in the release channel again. -/
def Requeued (imm : Nat) (before after : Endpoint) : Prop :=
  imm ≠ 0 → after.release.count imm = before.release.count imm + 1

/-- After all the posted messages the peer reads where the allocator places the next. -/
def Agrees (mine peer : Endpoint) : Prop :=
  peer.recvBuf.ring.cursor peer.recvBuf.index
    ((mine.posted.drop peer.returned.length).map fun request => request.remoteBuf.length) =
      mine.allocator.index

instance (mine peer : Endpoint) : Decidable (Agrees mine peer) := by
  unfold Agrees
  infer_instance

def Retired (endpoint : Endpoint) (wrId : Nat) : Prop :=
  wrId ∉ endpoint.sendRing.buffer.queue.map Prod.fst

end Endpoint

namespace System

open Endpoint (Reported Uncounted Requeued Agrees postFail_cases)

/-- The call can get its region retired. -/
def Retirable (system : System) (side : Side) (wrId : Nat) : Prop :=
  ∃ later, Runs.Run step Runs.Any system later ∧ (later side).Retired wrId

structure FailureAtomic (side : Side) (wrId imm : Nat) (before after : System) : Prop where
  reported : Reported (before side) (after side)
  uncounted : Uncounted (before side) (after side)
  requeued : Requeued imm (before side) (after side)
  agrees : Agrees (after side) (after side.other)
  retirable : after.Retirable side wrId

variable {before after : System} {side : Side} {errno : Int}

/-- `write_with_imm` drops the error, and the rest of `send_msg` has no other path. -/
theorem postFail_unreported (failed : step before (.own side (.postFail errno)) = some after) :
    ¬ Reported (before side) (after side) := by
  obtain ⟨mine, taken, rfl⟩ := Option.map_eq_some_iff.mp failed
  obtain ⟨msg, buf, wrId, imm, remote, -, rfl⟩ := postFail_cases taken
  rintro ⟨errno', reported⟩
  rw [join_self] at reported
  have same := List.append_cancel_left reported
  cases same

theorem postFail_counted (failed : step before (.own side (.postFail errno)) = some after) :
    ¬ Uncounted (before side) (after side) := by
  obtain ⟨mine, taken, rfl⟩ := Option.map_eq_some_iff.mp failed
  obtain ⟨msg, buf, wrId, imm, remote, -, rfl⟩ := postFail_cases taken
  intro uncounted
  unfold Uncounted at uncounted
  rw [join_self] at uncounted
  dsimp only at uncounted
  omega

theorem postFail_notice_lost {imm : Nat} (carried : imm ≠ 0)
    (failed : step before (.own side (.postFail errno)) = some after) :
    ¬ Requeued imm (before side) (after side) := by
  obtain ⟨mine, taken, rfl⟩ := Option.map_eq_some_iff.mp failed
  obtain ⟨msg, buf, wrId, imm, remote, -, rfl⟩ := postFail_cases taken
  intro requeued
  have count := requeued carried
  rw [join_self] at count
  dsimp only at count
  omega

theorem postFail_tickets {orphans : Side → List Job} {call : Critical}
    (tickets : ∀ chosen, ((before chosen).outgoing (orphans chosen)).Tickets)
    (holder : (before side).lock = some call)
    (failed : step before (.own side (.postFail errno)) = some after) (chosen : Side) :
    ((after chosen).outgoing
      (Function.update orphans side (orphans side ++ [call.job]) chosen)).Tickets := by
  obtain ⟨mine, taken, rfl⟩ := Option.map_eq_some_iff.mp failed
  obtain ⟨msg, buf, wrId, imm, remote, -, rfl⟩ := postFail_cases taken
  rcases chosen.eq_or_other side with rfl | rfl
  · have kept := (tickets chosen).postFail
    unfold Endpoint.outgoing at kept
    rw [holder] at kept
    rw [Function.update_self, join_self]
    exact kept
  · rw [Function.update_of_ne side.other_ne, join_other]
    exact tickets side.other

/-- Nobody will clear the flag of the failed call, and the release task stops at its
region. -/
theorem postFail_unretirable {recvMr sendMr : Side → MR} {call : Critical}
    (run : Runs.Run step Runs.Any (new recvMr sendMr) before)
    (holder : (before side).lock = some call)
    (failed : step before (.own side (.postFail errno)) = some after) :
    ¬ after.Retirable side call.wrId := by
  rintro ⟨later, onward, retired⟩
  have start : Runs.Run step Runs.Any (new recvMr sendMr) (new recvMr sendMr) := .refl
  have whole := run.trans (.single _ trivial failed)
  choose lost tickets using run_tickets (fun _ => []) (run_counts start) new_tickets run
  obtain ⟨more, kept⟩ := run_tickets _ (run_counts whole)
    (postFail_tickets tickets holder failed) onward side
  apply retired
  refine (kept.kept call.job ?_).2
  refine List.mem_append_left _ (List.mem_append_left _ (List.mem_append_left _ ?_))
  rw [Function.update_self]
  exact List.mem_append_right _ (List.mem_singleton.mpr rfl)

/-- A failed post is never atomic, in whatever state it happens. -/
theorem failed_post_not_atomic (recvMr sendMr : Side → MR) (before after : System)
    (run : Runs.Run step Runs.Any (new recvMr sendMr) before) (side : Side)
    (msg : Msg) (buf : LocalBuf) (wrId imm : Nat) (remote : RemoteBuf)
    (holder : (before side).lock = some ⟨msg, buf, wrId, .placed imm remote⟩) (errno : Int)
    (failed : step before (.own side (.postFail errno)) = some after) :
    ¬ FailureAtomic side wrId imm before after ∧
      ¬ Reported (before side) (after side) ∧ ¬ Uncounted (before side) (after side) ∧
        (imm ≠ 0 → ¬ Requeued imm (before side) (after side)) ∧
          ¬ after.Retirable side wrId :=
  ⟨fun atomic => postFail_unreported failed atomic.reported, postFail_unreported failed,
    postFail_counted failed, fun carried => postFail_notice_lost carried failed,
    postFail_unretirable run holder failed⟩

/-- The client returns and releases a message of 8 KiB, which queues a notice, and calls
`send_msg` for one byte, up to its post. -/
def beforePost : List Action :=
  (Endpoint.sendSteps ⟨0x2000, fun _ => 0⟩).map (Action.own .server) ++
    [.own .server (.fetch 0), .write .server 0, .deliver .server] ++
    [Endpoint.Action.poll 1, .dispatch, .sendPair, .recv, .finish, .release].map
      (Action.own .client) ++
    (Endpoint.sendSteps Endpoint.oneByte).dropLast.map (Action.own .client)

def placedImm (endpoint : Endpoint) : Option (Nat × Nat) :=
  match endpoint.lock with
  | some ⟨_, _, wrId, .placed imm _⟩ => some (wrId, imm)
  | _ => none

theorem placedImm_eq_some {endpoint : Endpoint} {wrId imm : Nat}
    (placed : placedImm endpoint = some (wrId, imm)) :
    ∃ msg buf remote, endpoint.lock = some ⟨msg, buf, wrId, .placed imm remote⟩ := by
  unfold placedImm at placed
  split at placed
  · rename_i msg buf wrId' imm' remote holder
    cases placed
    exact ⟨msg, buf, remote, holder⟩
  · cases placed

theorem failed_post_enomem : ∃ before after : System,
    Runs.Run step Runs.Any (new (fun _ => sampleMr) (fun _ => sampleMr)) before ∧
      step before (.own .client (.postFail 12)) = some after ∧
        ¬ FailureAtomic .client 0 0x2000 before after ∧ ¬ after.Retirable .client 0 := by
  obtain ⟨before, run, reached⟩ : ∃ before,
      Runs.Run step Runs.Any (new (fun _ => sampleMr) (fun _ => sampleMr)) before ∧
        decide (placedImm (before .client) = some (0, 0x2000) ∧
          (step before (.own .client (.postFail 12))).isSome) = true :=
    Runs.Run.exists_of_exec _ beforePost (by decide +kernel)
  obtain ⟨placed, enabled⟩ := of_decide_eq_true reached
  obtain ⟨msg, buf, remote, holder⟩ := placedImm_eq_some placed
  obtain ⟨after, failed⟩ := Option.isSome_iff_exists.mp enabled
  obtain ⟨broken, -, -, -, stuck⟩ := failed_post_not_atomic _ _ before after run .client msg buf 0
    0x2000 remote holder 12 failed
  exact ⟨before, after, run, failed, broken, stuck⟩

def nextByte : List Action :=
  (Endpoint.sendSteps ⟨1, fun _ => 5⟩).map (Action.own .client) ++
    [.own .client (.fetch 0), .write .client 0, .deliver .client] ++
    [Endpoint.Action.poll 1, .dispatch, .sendPair, .recv, .finish].map (Action.own .server)

/-- The notice of 8 KiB is in no queue, the client's allocator is one byte ahead of the
server's cursor, and the next byte the client sends is returned as the byte before it. -/
theorem failed_post_leaves_traces : ∃ before after later : System,
    Runs.Run step Runs.Any (new (fun _ => sampleMr) (fun _ => sampleMr)) before ∧
      step before (.own .client (.postFail 12)) = some after ∧
      Runs.Run step Runs.Any after later ∧ ¬ FailureAtomic .client 0 0x2000 before after ∧
        (after .client).release = [] ∧ ¬ Agrees (after .client) (after .server) ∧
          (later .client).posted.map (fun request => request.msg.bytes) = [[5]] ∧
            (later .server).returned = [[0]] := by
  obtain ⟨before, run, reached⟩ : ∃ before,
      Runs.Run step Runs.Any (new (fun _ => sampleMr) (fun _ => sampleMr)) before ∧
        (step before (.own .client (.postFail 12))).any (fun after =>
          decide ((after .client).release = [] ∧ ¬ Agrees (after .client) (after .server)) &&
            (Runs.exec step after nextByte).any fun later =>
              decide ((later .client).posted.map (fun request => request.msg.bytes) = [[5]] ∧
                (later .server).returned = [[0]])) = true :=
    Runs.Run.exists_of_exec _ beforePost (by decide +kernel)
  obtain ⟨after, failed, holds⟩ := (Option.any_eq_true _ _).mp reached
  obtain ⟨traces, delivered⟩ := Bool.and_eq_true_iff.mp holds
  obtain ⟨notice, moved⟩ := of_decide_eq_true traces
  obtain ⟨later, executed, shifted⟩ := (Option.any_eq_true _ _).mp delivered
  obtain ⟨sent, returned⟩ := of_decide_eq_true shifted
  exact ⟨before, after, later, run, failed, .of_exec nextByte executed,
    fun atomic => postFail_unreported failed atomic.reported, notice, moved, sent, returned⟩

end System

end Ibv
