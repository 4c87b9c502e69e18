import Ibv.Quiescence

set_option autoImplicit false

namespace Ibv

open Direction (sampleMr)

namespace Endpoint

/-- The message of a call of `send_msg`. -/
def Action.called : Action → List Msg
  | .call msg => [msg]
  | _ => []

/-- The message of a call whose post fails. -/
def failing (endpoint : Endpoint) : Action → List Msg
  | .postFail _ => endpoint.lock.toList.map Critical.msg
  | _ => []

/-- The messages posted, and those of the calls that have not returned. -/
def submitted (endpoint : Endpoint) : List Msg :=
  endpoint.posted.map Request.msg ++ endpoint.pending

variable {endpoint after : Endpoint}

theorem step_submitted (action : Action) (taken : endpoint.step action = some after) :
    (after.submitted ++ endpoint.failing action).Perm (endpoint.submitted ++ action.called) := by
  classical
  refine List.perm_iff_count.mpr fun msg => ?_
  unfold submitted pending
  cases action with
  | call msg' =>
      cases taken
      simp only [Endpoint.call, failing, Action.called, List.count_append, List.count_nil]
      omega
  | lockIndex i =>
      obtain ⟨msg', free, entry, rfl⟩ := lockIndex_cases taken
      obtain ⟨below, entry⟩ := List.getElem?_eq_some_iff.mp entry
      have moved := (List.getElem_cons_eraseIdx_perm below).count_eq msg
      rw [entry, List.count_cons] at moved
      simp only [free, failing, Action.called, Option.toList_some, Option.toList_none,
        List.map_cons, List.map_nil, List.count_append, List.count_cons, List.count_nil]
      omega
  | localFirst =>
      obtain ⟨msg', waiting, rfl⟩ := localFirst_cases taken
      simp only [waiting, failing, Action.called, Option.toList_some, List.map_cons, List.map_nil]
  | localSecond =>
      obtain ⟨msg', first, waiting, rfl⟩ := localSecond_cases taken
      simp only [waiting, failing, Action.called, Option.toList_some, List.map_cons, List.map_nil]
  | allocLocal =>
      obtain ⟨msg', waiting, -, rfl⟩ := allocLocal_cases taken
      simp only [waiting, failing, Action.called, Option.toList_some, Option.toList_none,
        List.map_append, List.map_cons, List.map_nil, List.count_append, List.count_nil]
      omega
  | copy i =>
      obtain ⟨msg', buf, wrId, slice, rest, addr, entry, rfl⟩ := copy_cases taken
      obtain ⟨below, entry⟩ := List.getElem?_eq_some_iff.mp entry
      have same : (endpoint.copying.set i ⟨msg', buf, wrId, rest, addr + slice.len⟩).map
          Copying.msg = endpoint.copying.map Copying.msg := by
        rw [List.map_set]
        have inside : i < (endpoint.copying.map Copying.msg).length := by
          rw [List.length_map]
          exact below
        have place : msg' = (endpoint.copying.map Copying.msg)[i] := by
          rw [List.getElem_map, entry]
        rw [place]
        exact List.set_getElem_self _
      simp only [same, failing, Action.called]
  | takeLock i =>
      obtain ⟨msg', buf, wrId, addr, free, entry, rfl⟩ := takeLock_cases taken
      obtain ⟨below, entry⟩ := List.getElem?_eq_some_iff.mp entry
      have moved := ((List.getElem_cons_eraseIdx_perm below).map Copying.msg).count_eq msg
      rw [entry, List.map_cons, List.count_cons] at moved
      dsimp only at moved
      simp only [free, failing, Action.called, Option.toList_some, Option.toList_none,
        List.map_cons, List.map_nil, List.count_append, List.count_cons, List.count_nil]
      omega
  | load =>
      obtain ⟨msg', buf, wrId, holder, -, rfl⟩ := load_cases taken
      simp only [holder, failing, Action.called, Option.toList_some, List.map_cons, List.map_nil]
  | count =>
      obtain ⟨msg', buf, wrId, holder, rfl⟩ := count_cases taken
      simp only [holder, failing, Action.called, Option.toList_some, List.map_cons, List.map_nil]
  | popNotice =>
      obtain ⟨msg', buf, wrId, holder, rfl⟩ := popNotice_cases taken
      simp only [holder, failing, Action.called, Option.toList_some, List.map_cons, List.map_nil]
  | remoteFirst =>
      obtain ⟨msg', buf, wrId, imm, holder, rfl⟩ := remoteFirst_cases taken
      simp only [holder, failing, Action.called, Option.toList_some, List.map_cons, List.map_nil]
  | remoteSecond =>
      obtain ⟨msg', buf, wrId, imm, first, holder, rfl⟩ := remoteSecond_cases taken
      simp only [holder, failing, Action.called, Option.toList_some, List.map_cons, List.map_nil]
  | allocRemote =>
      obtain ⟨msg', buf, wrId, imm, holder, rfl⟩ := allocRemote_cases taken
      simp only [holder, failing, Action.called, Option.toList_some, List.map_cons, List.map_nil]
  | post =>
      obtain ⟨msg', buf, wrId, imm, remote, holder, -, rfl⟩ := post_cases taken
      simp only [holder, failing, Action.called, Option.toList_some, Option.toList_none,
        List.map_append, List.map_cons, List.map_nil, List.count_append, List.count_nil]
      omega
  | postFail errno =>
      obtain ⟨msg', buf, wrId, imm, remote, holder, rfl⟩ := postFail_cases taken
      simp only [holder, failing, Action.called, Option.toList_some, Option.toList_none,
        List.map_cons, List.map_nil, List.count_append, List.count_nil]
      omega
  | dispatch =>
      obtain ⟨wc, rest, -, -, ⟨-, rfl⟩ | ⟨-, rfl⟩ | ⟨-, -, rfl⟩⟩ := dispatch_cases taken
      · unfold postNullRecv
        split <;> rfl
      · rfl
      · rfl
  | fetch i =>
      obtain ⟨request, -, -, rfl⟩ := fetch_cases taken
      rfl
  | ack =>
      obtain ⟨request, data, -, -, rfl⟩ := ack_cases taken
      rfl
  | poll n =>
      obtain ⟨-, -, -, -, rfl⟩ := poll_cases taken
      rfl
  | sendPair =>
      obtain ⟨pair, -, -, rfl⟩ := sendPair_cases taken
      rfl
  | recv =>
      obtain ⟨pair, rest, -, -, rfl⟩ := recv_cases taken
      rfl
  | finish =>
      obtain ⟨pair, recvBuf, slice, -, -, rfl⟩ := finish_cases taken
      rfl
  | release =>
      obtain ⟨slice, rest, -, rfl⟩ := releaseSlice_cases taken
      rfl
  | popRelease =>
      obtain ⟨buffer, -, rfl⟩ := popRelease_cases taken
      rfl
  | releaseDone =>
      obtain ⟨buffer, -, rfl⟩ := releaseDone_cases taken
      rfl

end Endpoint

namespace System

/-- The calls of `send_msg` that one side makes in a run. -/
def called (side : Side) (_ : System) : Action → List Msg
  | .own chosen action => if chosen = side then action.called else []
  | .write _ _ | .deliver _ => []

variable {recvMr sendMr : Side → MR} {side : Side} {calls : List Msg} {system : System}

theorem called_others {label : Action} (others : ∀ own, label ≠ .own side own) :
    called side system label = [] := by
  cases label with
  | own chosen action => exact if_neg fun same => others action (by rw [same])
  | write chosen i => rfl
  | deliver chosen => rfl

theorem run_submitted
    (run : Runs.Observed step Regular (called side) (new recvMr sendMr) calls system) :
    (system side).submitted.Perm calls := by
  refine run.invariant (fun calls system => (system side).submitted.Perm calls) ?_ ?_
  · exact List.Perm.refl _
  intro seen before label after _ kept regular taken
  rcases step_side side taken with ⟨own, rfl, acted⟩ | ⟨others, _, _, _, _, _, same⟩
  · have moved := Endpoint.step_submitted own acted
    have succeeds : (before side).failing own = [] := by
      cases own with
      | postFail errno => exact absurd regular not_false
      | _ => rfl
    rw [succeeds, List.append_nil] at moved
    rw [called, if_pos rfl]
    exact moved.trans (kept.append_right _)
  · rw [called_others others, List.append_nil, same]
    exact kept

/-- Exactly once, from the call to the peer's `recv_msg`. The third part is about a transport
that waits for a receive to be posted, and successful completions. -/
theorem calls_exactly_once (recvMr sendMr : Side → MR) (side : Side) (calls : List Msg)
    (system : System)
    (run : Runs.Observed step Regular (called side) (new recvMr sendMr) calls system) :
    calls.Perm ((system side).posted.map Request.msg ++ (system side).pending) ∧
      (system side.other).returned.Subperm (calls.map Msg.bytes) ∧
      (Runs.Resting step Productive system → (system side).pending = [] →
        (system side.other).returned.Perm (calls.map Msg.bytes)) := by
  have submitted : (_ ++ _ : List Msg).Perm calls := run_submitted run
  have whole : (system side).posted.map (fun request => request.msg.bytes) =
      ((system side).posted.map Request.msg).map Msg.bytes := by
    rw [List.map_map]
    rfl
  refine ⟨submitted.symm, ?_, ?_⟩
  · rw [(regular_linked run.run side).arrived.returned, List.map_take, whole, ← List.map_take]
    refine List.Subperm.trans ?_ (submitted.map Msg.bytes).subperm
    refine ((List.Sublist.map _ ?_)).subperm
    exact (List.take_sublist _ _).trans (List.sublist_append_left _ _)
  · intro rests finished
    rw [(resting_settled _ _ _ run.run rests side).returned, whole]
    rw [finished, List.append_nil] at submitted
    exact submitted.map Msg.bytes

theorem calls_exactly_once_two_slices : ∃ calls system,
    Runs.Observed step Regular (called .client)
      (new (fun _ => sampleMr) (fun _ => sampleMr)) calls system ∧
      calls.length = 1 ∧ (system .server).returned = [[7, 8, 9]] ∧
      (system .server).returned.Subperm (calls.map Msg.bytes) := by
  obtain ⟨calls, system, run, reached⟩ : ∃ calls system,
      Runs.Observed step (Allowed fun mine _ action => mine.Assumed action) (called .client)
        (new (fun _ => sampleMr) (fun _ => sampleMr)) calls system ∧
        decide (calls.length = 1 ∧ (system .server).returned = [[7, 8, 9]]) = true :=
    Runs.Observed.exists_of_observe assumes _ assumes_sound twoSlices (by decide +kernel)
  obtain ⟨one, returned⟩ := of_decide_eq_true reached
  have regular := observed_regular run
  exact ⟨calls, system, regular, one, returned,
    (calls_exactly_once _ _ .client calls system regular).2.1⟩

end System

end Ibv
