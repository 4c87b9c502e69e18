import Ibv.Burst

set_option autoImplicit false

namespace Ibv

open Direction (sampleMr)

/-- Every slot of the send queue holds an executed request whose completion has not been
polled, and every receive has been consumed by a message whose completion has not. -/
def Endpoint.Saturated (endpoint : Endpoint) : Prop :=
  endpoint.sqUsed = maxQpWr ∧ endpoint.acked = endpoint.posted.length ∧
    endpoint.receives = 0 ∧ endpoint.polled.countP WC.isRecv = 0

namespace System

/-- The completion queue holds at most `MAX_CQE` entries exactly as long as the endpoint
is not saturated: the two queues together are one entry deeper. -/
theorem completion_queue_fits_iff (recvMr sendMr : Side → MR) (system : System)
    (run : Runs.Run step Runs.Any (new recvMr sendMr) system) (side : Side) :
    (system side).cq.length ≤ maxCqe ↔ ¬ (system side).Saturated := by
  have queues := (run_counts run side).queues
  have completions := queues.completions
  have slots := queues.slots
  have credits := queues.credits
  have acked := queues.acked
  unfold Endpoint.Saturated
  unfold Endpoint.sqUsed at slots ⊢
  unfold Endpoint.unhandled at credits
  unfold maxCqe
  unfold defaultRqeCount at credits
  unfold maxQpWr at slots credits ⊢
  omega

theorem completion_queue_fits_one_way :
    ∃ system, Runs.Run step Runs.Any (new (fun _ => sampleMr) (fun _ => sampleMr)) system ∧
      (system .client).cq.countP WC.isSend = maxQpWr ∧ (system .client).cq.length ≤ maxCqe := by
  let start := new (fun _ => sampleMr) (fun _ => sampleMr)
  obtain ⟨client, server, run, sent, -, -⟩ := burst .client maxQpWr
    (new_primed .client) (Nat.le_refl (start .server).receives)
  have whole : Runs.Run step Runs.Any start (join .client client server) := by
    rw [← join_eq .client start]
    exact run
  refine ⟨join .client client server, whole, ?_, ?_⟩
  · rw [join_self, sent.completed.sends.1]
    exact Nat.zero_add _
  · apply (completion_queue_fits_iff _ _ _ whole .client).mpr
    rintro ⟨-, -, drained, -⟩
    rw [join_self, sent.receives] at drained
    cases drained

/-- Both endpoints post 16384 messages, all are executed, and nobody polls: 32768
completions for a queue of 32767 entries. -/
theorem completion_queue_overflows :
    ∃ system, Runs.Run step Runs.Any (new (fun _ => sampleMr) (fun _ => sampleMr)) system ∧
      maxCqe < (system .client).cq.length := by
  let start := new (fun _ => sampleMr) (fun _ => sampleMr)
  obtain ⟨client, server, run, sent, -, delivered⟩ := burst .client maxQpWr
    (new_primed .client) (Nat.le_refl (start .server).receives)
  have spent : client.receives = maxQpWr := sent.receives
  obtain ⟨server', client', run', -, -, delivered'⟩ := burst .server maxQpWr
    (delivered.primed (new_primed .server)) (Nat.le_of_eq spent.symm)
  have whole : Runs.Run step Runs.Any start (join .server server' client') := by
    rw [← join_eq .client start]
    refine run.trans ?_
    rw [← join_swap .client client server]
    exact run'
  refine ⟨join .server server' client', whole, ?_⟩
  have completions := (run_counts whole .client).queues.completions
  rw [show join .server server' client' .client = client' from join_other .server _ _]
    at completions ⊢
  rw [completions, delivered'.completed.recvs.1, delivered'.completed.recvs.2,
    sent.completed.sends.1, sent.completed.sends.2]
  change maxCqe < 0 + maxQpWr + (0 + maxQpWr)
  decide

end System

end Ibv
