import Ibv.RemoteRing

set_option autoImplicit false

namespace Ibv

open Runs

/-- The call either stays in front of the right end, where the threshold is checked, or
starts the new batch with less than the threshold. -/
def RecvBuffer.Spares (buffer : RecvBuffer) (length : Nat) : Prop :=
  buffer.done + buffer.released + length ≤ buffer.right ∨ length < minLengthToNotifyRelease

instance (buffer : RecvBuffer) (length : Nat) : Decidable (buffer.Spares length) := by
  unfold RecvBuffer.Spares
  infer_instance

theorem RecvBuffer.withheld_iff (buffer : RecvBuffer) (length : Nat) :
    (buffer.notifyRelease length).1.released < minLengthToNotifyRelease ↔
      buffer.Spares length := by
  unfold Spares
  by_cases wraps : buffer.right < buffer.done + buffer.released + length
  · rw [notifyRelease_wraps wraps]
    exact ⟨.inr, fun spares => spares.resolve_left (Nat.not_le.mpr wraps)⟩
  · have fits : buffer.done + buffer.released + length ≤ buffer.right := Nat.not_lt.mp wraps
    refine ⟨fun _ => .inl fits, fun _ => ?_⟩
    by_cases enough : minLengthToNotifyRelease ≤ buffer.released + length
    · rw [notifyRelease_reports wraps enough]
      exact Nat.two_pow_pos 13
    · rw [notifyRelease_gathers wraps enough]
      exact Nat.not_le.mp enough

namespace Direction

/-- Every release of the run is one that spares. -/
def Sparing (direction : Direction) : Action → Prop
  | .release => ∀ slice ∈ direction.held.head?, direction.recvBuf.Spares slice.length
  | _ => True

instance (direction : Direction) (action : Action) : Decidable (direction.Sparing action) := by
  unfold Sparing
  split <;> infer_instance

variable {direction after : Direction}

theorem step_withheld (action : Action) (taken : step direction action = some after) :
    after.recvBuf.released = direction.recvBuf.released ∨
      action = .release ∧ ∃ slice rest, direction.held = slice :: rest ∧
        after.recvBuf = (direction.recvBuf.notifyRelease slice.length).1 := by
  cases action with
  | grant length =>
      obtain ⟨-, rfl⟩ := grant_eq_some_iff.mp taken
      exact .inl rfl
  | read =>
      obtain ⟨buf, -, rest⟩ := Option.bind_eq_some_iff.mp taken
      obtain ⟨result, sliced, same⟩ := Option.bind_eq_some_iff.mp rest
      cases same
      rw [RecvBuffer.read_cases sliced]
      exact .inl rfl
  | release =>
      obtain ⟨slice, rest, held, rfl⟩ := release_cases taken
      exact .inr ⟨rfl, slice, rest, held, rfl⟩
  | carry =>
      cases taken
      left
      unfold carry
      split <;> rfl
  | update =>
      obtain ⟨imm, rest, -, rfl⟩ := update_cases taken
      exact .inl rfl

theorem step_sparing (action : Action)
    (bounded : direction.recvBuf.released < minLengthToNotifyRelease)
    (sparing : direction.Sparing action) (taken : step direction action = some after) :
    after.recvBuf.released < minLengthToNotifyRelease := by
  rcases step_withheld action taken with same | ⟨rfl, slice, rest, held, moved⟩
  · rw [same]
    exact bounded
  · rw [moved, RecvBuffer.withheld_iff]
    apply sparing slice
    rw [held, List.head?_cons]
    rfl

/-- What the receiver withholds. It stays below the threshold in every run whose releases
spare, and a release that does not leaves at least the threshold unreported. -/
theorem withholding_bounded (mr : MR) (direction : Direction) :
    (Run step Sparing (new mr) direction →
      direction.recvBuf.released < minLengthToNotifyRelease) ∧
    (Run step Any (new mr) direction → ∀ after, direction.release = some after →
      (after.recvBuf.released < minLengthToNotifyRelease ↔ direction.Sparing .release)) := by
  constructor
  · intro run
    exact run.invariant (fun state => state.recvBuf.released < minLengthToNotifyRelease)
      (Nat.two_pow_pos 13) fun _ action _ bounded sparing taken =>
        step_sparing action bounded sparing taken
  · intro _ after taken
    obtain ⟨slice, rest, held, rfl⟩ := release_cases taken
    unfold Sparing
    rw [held, List.head?_cons]
    simp only [Option.mem_def, Option.some.injEq, forall_eq']
    exact RecvBuffer.withheld_iff _ _

/-- 64 MiB less 4 KiB, and then a message of 5000 bytes that goes over the right end. -/
theorem withholding_bounded_small_message :
    ∃ direction, Run step Sparing (new sampleMr) direction ∧
      direction.recvBuf.released = 5000 ∧
      direction.recvBuf.released < minLengthToNotifyRelease := by
  obtain ⟨direction, run, reached⟩ : ∃ direction, Run step Sparing (new sampleMr) direction ∧
      decide (direction.recvBuf.released = 5000) = true :=
    Run.exists_of_execChecked (fun direction action => decide (direction.Sparing action)) _
      (fun _ _ => of_decide_eq_true)
      [.grant 0x3fff000, .read, .release, .carry, .update, .grant 5000, .read, .release]
      (by decide +kernel)
  exact ⟨direction, run, of_decide_eq_true reached, (withholding_bounded sampleMr direction).1 run⟩

/-- A message of 30 MiB that goes over the right end is withheld as a whole. -/
theorem withholding_unbounded :
    ∃ direction, Run step Any (new sampleMr) direction ∧
      ¬ direction.recvBuf.released < minLengthToNotifyRelease := by
  obtain ⟨direction, run, reached⟩ : ∃ direction, Run step Any (new sampleMr) direction ∧
      decide (¬ direction.recvBuf.released < minLengthToNotifyRelease) = true :=
    Run.exists_of_exec _
      [.grant 0x2800000, .read, .release, .carry, .update, .grant 0x1e00000, .read, .release]
      (by decide +kernel)
  exact ⟨direction, run, of_decide_eq_true reached⟩

end Direction

end Ibv
