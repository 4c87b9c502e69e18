import Ibv.Burst

set_option autoImplicit false

namespace Ibv

open Direction (sampleMr)

namespace System

/-- Conservation and range of the `sending` counters. A message counts as received from
the `fetch_add(-1)` of the `recv_msg` that returns it. -/
theorem sending_counters (recvMr sendMr : Side → MR) (system : System)
    (run : Runs.Run step Runs.Any (new recvMr sendMr) system) :
    (system .client).sending + (system .server).sending =
        (((system .client).counted - (system .server).received +
          ((system .server).counted - (system .client).received) : Nat) : Int) ∧
      (∀ side, -maxSending ≤ (system side).sending ∧ (system side).sending ≤ maxSending ∧
        (system side).sending = (system side).counted - (system side).received ∧
        (system side.other).received ≤ (system side).counted) ∧
      ((∀ side, (system side).counted = (system side.other).received) →
        ¬ (maxSending ≤ (system .client).sending ∧ maxSending ≤ (system .server).sending)) := by
  have client := run_counts run .client
  have server := run_counts run .server
  have clientBalance := client.counting.balance
  have serverBalance := server.counting.balance
  have toServer := server.causal client
  have toClient := client.causal server
  dsimp only [Side.other] at client server toServer toClient
  refine ⟨by omega, ?_, ?_⟩
  · intro side
    have counts := run_counts run side
    have back := run_counts run side.other
    rw [Side.other_other] at back
    exact ⟨counts.lower back, counts.counting.upper, counts.counting.balance, back.causal counts⟩
  · intro received limits
    have fromClient := received .client
    have fromServer := received .server
    dsimp only [Side.other] at fromClient fromServer
    have positive : (0 : Int) < maxSending := by decide
    omega

theorem sending_counters_negative :
    ∃ system, Runs.Run step Runs.Any (new (fun _ => sampleMr) (fun _ => sampleMr)) system ∧
      (system .client).sending + (system .server).sending = 0 ∧
      (system .server).sending = -1 := by
  obtain ⟨system, run, reached⟩ : ∃ system, Runs.Run step Runs.Any
      (new (fun _ => sampleMr) (fun _ => sampleMr)) system ∧
        decide ((system .client).counted = 1 ∧ (system .server).received = 1 ∧
          (system .server).counted = 0 ∧ (system .client).received = 0) = true :=
    Runs.Run.exists_of_exec _ ((Endpoint.sendSteps Endpoint.oneByte).map (.own .client) ++
      [.own .client (.fetch 0), .write .client 0, .deliver .client] ++
      [.poll 1, .dispatch, .sendPair, .recv].map (.own .server)) (by decide +kernel)
  obtain ⟨counted, received, none, none'⟩ := of_decide_eq_true reached
  obtain ⟨total, each, -⟩ := sending_counters _ _ system run
  have server := (each .server).2.2.1
  rw [counted, received, none, none'] at total
  rw [none, received] at server
  exact ⟨system, run, total, server⟩

end System

end Ibv
