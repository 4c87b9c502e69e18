import Ibv.Gathering
import Ibv.Quiescence

set_option autoImplicit false

namespace Ibv

open RingFifo
open Direction (sampleMr)

/-- The notices of `queued` are consecutive, and what is withheld comes behind them. -/
def RecvBuffer.Reports (buffer : RecvBuffer) (queued : List Nat) : Prop :=
  ∃ position,
    buffer.ring.Gathered minLengthToNotifyRelease position (queued ++ [buffer.released]) ∧
      buffer.ring.cursor position (queued ++ [buffer.released]) = buffer.done + buffer.released

namespace RecvBuffer

variable {buffer : RecvBuffer} {queued : List Nat}

theorem new_reports (mr : MR) : (RecvBuffer.new mr).Reports [] := by
  refine ⟨mr.addr.toNat, trivial, ?_⟩
  change Ring.advance _ mr.addr.toNat 0 = mr.addr.toNat + 0
  exact Ring.advance_fits (Nat.le_add_right _ _)

theorem Reports.pop {notice : Nat} (reports : buffer.Reports (notice :: queued)) :
    buffer.Reports queued := by
  obtain ⟨position, gathered, reached⟩ := reports
  exact ⟨_, gathered.pop, reached⟩

theorem Reports.notifyRelease (reports : buffer.Reports queued) (length : Nat) :
    (buffer.notifyRelease length).1.Reports
      (queued ++ (buffer.notifyRelease length).2.toList) := by
  obtain ⟨position, gathered, reached⟩ := reports
  refine ⟨position, ?_⟩
  rw [notifyRelease_ring]
  rw [Ring.cursor_append, Ring.cursor_cons, Ring.cursor_nil] at reached
  by_cases wraps : buffer.right < buffer.done + buffer.released + length
  · have crosses : buffer.ring.right < buffer.done + buffer.released + length := wraps
    rw [notifyRelease_wraps wraps, Option.toList_some]
    dsimp only
    refine ⟨gathered.close (.inr ?_), ?_⟩
    · rw [Ring.cursor_append, Ring.cursor_cons, Ring.cursor_nil, reached]
      exact crosses
    · rw [Ring.cursor_append, Ring.cursor_append, Ring.cursor_cons, Ring.cursor_nil,
        Ring.cursor_cons, Ring.cursor_nil, reached]
      exact Ring.advance_wraps crosses
  · have fits : buffer.done + buffer.released + length ≤ buffer.ring.right := Nat.not_lt.mp wraps
    have moved := Ring.advance_add reached fits
    by_cases enough : minLengthToNotifyRelease ≤ buffer.released + length
    · rw [notifyRelease_reports wraps enough, Option.toList_some]
      dsimp only
      refine ⟨(gathered.grow (Nat.le_add_right _ length)).close (.inl enough), ?_⟩
      rw [Ring.cursor_append, Ring.cursor_append, Ring.cursor_cons, Ring.cursor_nil,
        Ring.cursor_cons, Ring.cursor_nil, moved]
      have still : buffer.ring.advance (buffer.done + buffer.released + length) 0 =
          buffer.done + buffer.released + length := Ring.advance_fits fits
      omega
    · rw [notifyRelease_gathers wraps enough, Option.toList_none, List.append_nil]
      dsimp only
      refine ⟨gathered.grow (Nat.le_add_right _ length), ?_⟩
      rw [Ring.cursor_append, Ring.cursor_cons, Ring.cursor_nil, moved]
      omega

end RecvBuffer

namespace Endpoint

variable {endpoint after : Endpoint}

theorem step_reports (action : Action) (reports : endpoint.recvBuf.Reports endpoint.release)
    (taken : endpoint.step action = some after) : after.recvBuf.Reports after.release := by
  by_cases reading : action.reading = true
  · cases action with
    | finish =>
        obtain ⟨pair, recvBuf, slice, -, read, rfl⟩ := finish_cases taken
        cases RecvBuffer.read_cases read
        exact reports
    | release =>
        obtain ⟨slice, rest, -, rfl⟩ := releaseSlice_cases taken
        exact reports.notifyRelease slice.length
    | _ => cases reading
  obtain ⟨recvBuf, -, -, -, -, release⟩ :=
    step_not_reading action (Bool.eq_false_iff.mpr reading) taken
  by_cases pops : action = .popNotice
  · subst pops
    obtain ⟨msg, buf, wrId, -, rfl⟩ := popNotice_cases taken
    dsimp only
    cases queue : endpoint.release with
    | nil =>
        rw [queue] at reports
        exact reports
    | cons notice rest =>
        rw [queue] at reports
        exact reports.pop
  · rw [recvBuf, release pops]
    exact reports

end Endpoint

namespace System

variable {recvMr sendMr : Side → MR} {system : System}

theorem run_reports {ok : System → Action → Prop}
    (run : Runs.Run step ok (new recvMr sendMr) system) (side : Side) :
    (system side).recvBuf.Reports (system side).release := by
  refine alone (fun _ mine => mine.recvBuf.Reports mine.release) (unrestricted run) ?_ ?_ ?_ side
  · intro side
    exact RecvBuffer.new_reports (recvMr side)
  · intro side mine peer action after reports _ taken
    exact Endpoint.step_reports action reports taken
  · intro side mine written delivered receives cq recvMem reports
    exact reports

theorem run_recvBuf_ring (run : Runs.Run step Regular (new recvMr sendMr) system) (side : Side) :
    (system side).recvBuf.ring = ⟨(recvMr side).addr.toNat,
      (recvMr side).addr.toNat + (recvMr side).length.toNat⟩ := by
  have back := regular_linked run side.other
  rw [Side.other_other] at back
  obtain ⟨updated, batches, withheld, accounts⟩ := back.flow.accounts
  have allocator := run_allocator_ring run side.other
  rw [Side.other_other] at allocator
  exact accounts.sameRing.trans allocator

theorem run_notices (run : Runs.Run step Regular (new recvMr sendMr) system) (side : Side) :
    minLengthToNotifyRelease * (system side).release.length ≤
      (recvMr side).length.toNat + minLengthToNotifyRelease := by
  obtain ⟨position, gathered, -⟩ := run_reports run side
  have back := regular_linked run side.other
  rw [Side.other_other] at back
  obtain ⟨outstanding, holds, -, places⟩ := back.flow.credits
  have fits := holds.sum_le
  rw [run_allocator_ring run side.other, Side.other_other] at fits
  dsimp only at fits
  rw [run_recvBuf_ring run side] at gathered
  have counted := gathered.count (by
    rw [List.sum_append, List.sum_singleton]
    dsimp only
    omega)
  simp only [List.length_append, List.length_singleton, List.sum_append, List.sum_singleton,
    Nat.mul_add, Nat.mul_one] at counted
  omega

theorem run_releases (run : Runs.Run step Regular (new recvMr sendMr) system) (side : Side)
    (small : (recvMr side).length.toNat < minLengthToNotifyRelease * (defaultRqeCount - 1))
    (held : (system side).held ≠ []) : ∃ after, (system side).step .release = some after := by
  have bounded := run_notices run side
  unfold minLengthToNotifyRelease at bounded small
  unfold defaultRqeCount maxQpWr at small
  cases slices : (system side).held with
  | nil => exact absurd slices held
  | cons slice rest =>
      have one : ((system side).recvBuf.notifyRelease slice.length).2.toList.length ≤ 1 := by
        cases ((system side).recvBuf.notifyRelease slice.length).2 with
        | none => exact Nat.zero_le _
        | some notice => exact Nat.le_refl _
      have room : (system side).release.length +
          ((system side).recvBuf.notifyRelease slice.length).2.toList.length ≤ defaultRqeCount := by
        unfold defaultRqeCount maxQpWr
        omega
      apply Option.ne_none_iff_exists'.mp
      unfold Endpoint.step Endpoint.releaseSlice
      rw [slices]
      dsimp only
      rw [if_pos room]
      exact Option.some_ne_none _

/-- `release` never waits with the 64 MiB of a `Conn`, and up to twice as many. -/
theorem release_never_waits (recvMr sendMr : Side → MR) (system : System)
    (run : Runs.Run step Regular (new recvMr sendMr) system) (side : Side) :
    minLengthToNotifyRelease * (system side).release.length ≤
        (recvMr side).length.toNat + minLengthToNotifyRelease ∧
      ((recvMr side).length.toNat < minLengthToNotifyRelease * (defaultRqeCount - 1) →
        (system side).held ≠ [] → ∃ after, (system side).step .release = some after) :=
  ⟨run_notices run side, run_releases run side⟩

theorem release_never_waits_three_bytes : ∃ system after,
    Runs.Run step Regular (new (fun _ => sampleMr) (fun _ => sampleMr)) system ∧
      (system .server).held.length = 1 ∧ (system .server).step .release = some after := by
  obtain ⟨system, run, reached⟩ : ∃ system,
      Runs.Run step (Allowed fun mine _ action => mine.Assumed action)
        (new (fun _ => sampleMr) (fun _ => sampleMr)) system ∧
        decide ((system .server).held.length = 1) = true :=
    Runs.Run.exists_of_execChecked assumes _ assumes_sound twoSlices (by decide +kernel)
  have one := of_decide_eq_true reached
  have regular := run_regular run
  obtain ⟨after, taken⟩ := (release_never_waits _ _ system regular .server).2 (by decide) (by
    intro none
    rw [none] at one
    cases one)
  exact ⟨system, after, regular, one, taken⟩

end System

end Ibv
