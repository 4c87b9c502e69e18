import Ibv.Delivery
import Ibv.Progress

set_option autoImplicit false

namespace Ibv

/-- Weaker than `Assumed`: messages whose length fits in a u32, posts that succeed, and no
loop left with its condition true. -/
def Endpoint.Regular (endpoint : Endpoint) : Endpoint.Action → Prop
  | .call msg => msg.totalLen < 2 ^ 32
  | .localSecond => ∀ msg first, endpoint.allocating = some (msg, .tested first) →
      endpoint.sendRing.buffer.secondLoad = .exited →
      endpoint.sendRing.buffer.waits msg.wireLen = false
  | .remoteSecond => ∀ msg buf wrId imm first,
      endpoint.lock = some ⟨msg, buf, wrId, .placing imm (.tested first)⟩ →
      endpoint.allocator.secondLoad = .exited → endpoint.allocator.waits msg.wireLen = false
  | .postFail _ => False
  | _ => True

namespace Endpoint

variable {endpoint after : Endpoint}

/-- The two kinds of steps agree on all but the second loads. -/
theorem Regular.assumed {action : Action} (regular : endpoint.Regular action)
    (notLocal : action ≠ .localSecond) (notRemote : action ≠ .remoteSecond) :
    endpoint.Assumed action := by
  cases action with
  | localSecond => exact absurd rfl notLocal
  | remoteSecond => exact absurd rfl notRemote
  | call msg => exact regular
  | postFail errno => exact regular
  | _ => trivial

theorem Regular.step_intact (action : Action) {orphans : List Job}
    (intact : (endpoint.outgoing orphans).Intact) (tickets : (endpoint.outgoing orphans).Tickets)
    (regular : endpoint.Regular action) (taken : endpoint.step action = some after) :
    (after.outgoing orphans).Intact := by
  by_cases loads : action = .localSecond
  · subst loads
    obtain ⟨msg, first, waiting, rfl⟩ := localSecond_cases taken
    refine intact.load (intact.small msg _ waiting) ?_ ?_
    · intro exits
      exact (Cursors.waits_false_iff _ _).mp (regular msg first waiting exits)
    · exact fun first' tested => absurd tested (Cursors.secondLoad_decides _ first')
  by_cases loads' : action = .remoteSecond
  · subst loads'
    rw [step_not_sends .remoteSecond rfl orphans taken]
    exact intact
  exact Endpoint.step_intact action intact tickets (regular.assumed loads loads') taken

end Endpoint

theorem Flow.regular_step {mine peer after : Endpoint} (action : Endpoint.Action)
    {orphans : List Job} (flow : Flow mine peer) (back : Flow peer mine)
    (transport : Transport mine peer) (transport' : Transport peer mine)
    (sent : mine.delivered ≤ mine.posted.length)
    (tickets : (peer.outgoing orphans).Tickets) (regular : mine.Regular action)
    (taken : mine.step action = some after) : Flow after peer ∧ Flow peer after := by
  by_cases loads : action = .localSecond
  · subst loads
    obtain ⟨msg, first, waiting, rfl⟩ := Endpoint.localSecond_cases taken
    exact ⟨{ flow with }, { back with }⟩
  by_cases loads' : action = .remoteSecond
  · subst loads'
    obtain ⟨msg, buf, wrId, imm, first, holder, rfl⟩ := Endpoint.remoteSecond_cases taken
    refine flow.load back holder ?_ ?_
    · intro exits
      exact (Cursors.waits_false_iff _ _).mp (regular msg buf wrId imm first holder exits)
    · exact fun first' tested => absurd tested (Cursors.secondLoad_decides _ first')
  exact flow.own_step action back transport transport' sent tickets
    (regular.assumed loads loads') taken

namespace Linked

variable {mine peer after : Endpoint}

theorem regular_step (action : Endpoint.Action) (forth : Linked mine peer)
    (back : Linked peer mine) (regular : mine.Regular action)
    (taken : mine.step action = some after) : Linked after peer ∧ Linked peer after := by
  obtain ⟨counts, counts'⟩ := forth.counts.own_step action back.counts taken
  obtain ⟨transport, transport'⟩ :=
    forth.transport.own_step action back.transport forth.counts.sent taken
  obtain ⟨orphans, tickets, intact⟩ := forth.sending
  obtain ⟨orphans', tickets', intact'⟩ := back.sending
  obtain ⟨more, kept⟩ := Endpoint.step_tickets action tickets forth.counts.queues.acked taken
  have stored := regular.step_intact action intact tickets taken
  obtain ⟨flow, flow'⟩ := forth.flow.regular_step action back.flow forth.transport
    back.transport forth.counts.sent tickets' regular taken
  have count := back.transport.count
  have sent := forth.counts.sent
  exact ⟨⟨counts, ⟨_, kept, { stored with }⟩, transport, flow,
      forth.arrived.sender action (by omega) taken⟩,
    ⟨counts', ⟨orphans', tickets', intact'⟩, transport', flow',
      back.arrived.receiver action back.flow forth.transport tickets' taken⟩⟩

/-- On the way, a second load that sees what the first one saw leaves no loop too early. -/
theorem regular (linked : Linked mine peer) {action : Endpoint.Action}
    (assumed : mine.Assumed action) : mine.Regular action := by
  cases action with
  | localSecond =>
      intro msg first waiting exits
      obtain ⟨orphans, -, intact⟩ := linked.sending
      refine (Cursors.waits_false_iff _ _).mpr (Cursors.secondLoad_exits _ _ exits ?_)
      intro wraps
      rw [assumed msg first waiting]
      exact intact.tested msg first waiting wraps
  | remoteSecond =>
      intro msg buf wrId imm first holder exits
      refine (Cursors.waits_false_iff _ _).mpr (Cursors.secondLoad_exits _ _ exits ?_)
      intro wraps
      rw [assumed msg buf wrId imm first holder]
      exact linked.flow.tested msg buf wrId imm first holder wraps
  | call msg => exact assumed
  | postFail errno => exact assumed
  | _ => trivial

end Linked

namespace System

/-- The condition on the steps of a whole connection. -/
abbrev Regular : System → Action → Prop := Allowed fun mine _ action => mine.Regular action

variable {recvMr sendMr : Side → MR} {system : System}

theorem regular_linked (run : Runs.Run step Regular (new recvMr sendMr) system) (side : Side) :
    Linked (system side) (system side.other) := by
  refine pairwise (fun _ => Linked) run ?_ ?_ ?_ ?_ side
  · exact new_linked recvMr sendMr
  · intro side mine peer action after forth back regular taken
    exact forth.regular_step action back regular taken
  · intro side sender receiver i both forth back taken
    exact forth.write_step back taken
  · intro side sender receiver both forth back taken
    exact forth.deliver_step back taken

/-- A run whose loads agree is one of these. -/
theorem observed_regular_later {Seen : Type} {see : System → Action → List Seen}
    {seen : List Seen} {later : System}
    (first : Runs.Run step (Allowed fun mine _ action => mine.Assumed action)
      (new recvMr sendMr) system)
    (run : Runs.Observed step (Allowed fun mine _ action => mine.Assumed action) see system seen
      later) : Runs.Observed step Regular see system seen later := by
  refine run.strengthen ?_
  intro before label after run allowed taken
  cases label with
  | own side action => exact (run_linked (first.trans run) side).regular allowed
  | write side i => trivial
  | deliver side => trivial

theorem observed_regular {Seen : Type} {see : System → Action → List Seen} {seen : List Seen}
    (run : Runs.Observed step (Allowed fun mine _ action => mine.Assumed action) see
      (new recvMr sendMr) seen system) :
    Runs.Observed step Regular see (new recvMr sendMr) seen system :=
  observed_regular_later .refl run

theorem run_regular
    (run : Runs.Run step (Allowed fun mine _ action => mine.Assumed action)
      (new recvMr sendMr) system) : Runs.Run step Regular (new recvMr sendMr) system := by
  obtain ⟨seen, observed⟩ := run.observed fun _ _ => ([] : List Unit)
  exact (observed_regular observed).run

end System

end Ibv
