import Ibv.Setup

set_option autoImplicit false

namespace Ibv

namespace Phase

/-- The task has ended without a `Conn`. -/
def stopped : Phase → Bool
  | closed | panicked => true
  | _ => false

end Phase

theorem Outcome.receives_le (outcome : Outcome) : outcome.receives ≤ defaultRqeCount := by
  cases outcome with
  | success => exact Nat.le_refl _
  | failure count => exact Nat.min_le_right _ _

namespace Party

/-- A call after which the task goes on. -/
inductive Advance (party : Party) (incoming : List UInt8) (outcome : Outcome) : Party → Prop where
  | created (phase : party.phase = .create) :
      Advance party incoming outcome { party with phase := .init }
  | initialized (phase : party.phase = .init) :
      Advance party incoming outcome (party.logged (party.qp.init outcome.ok) .sendEndpoint)
  | endpointSent (phase : party.phase = .sendEndpoint) (bytes : List UInt8)
      (written : bytes = party.qp.endpoint.toBytes ∨ bytes.length < 22) :
      Advance party incoming outcome
        { party with sent := party.sent ++ bytes, phase := .recvEndpoint }
  | endpointRead (phase : party.phase = .recvEndpoint) (count : Nat) (remote : EndPoint)
      (available : count ≤ incoming.length)
      (whole : outcome.ok = true →
        count = 22 ∧ EndPoint.fromBytes (incoming.take 22) = some remote) :
      Advance party incoming outcome
        { party with consumed := party.consumed + count, phase := .readyToReceive remote }
  | toReceive (remote : EndPoint) (phase : party.phase = .readyToReceive remote) :
      Advance party incoming outcome
        (party.logged (party.qp.readyToReceive outcome.ok remote) .readyToSend)
  | toSend (phase : party.phase = .readyToSend) :
      Advance party incoming outcome (party.logged (party.qp.readyToSend outcome.ok) .register)
  | registered (phase : party.phase = .register) :
      Advance party incoming outcome { party with phase := .sendMr }
  | mrSent (phase : party.phase = .sendMr) :
      Advance party incoming outcome
        { party with
          sent := party.sent ++ (RemoteMR.fromMr party.recvMr).serialize
          phase := .recvMr }
  | mrRead (phase : party.phase = .recvMr) (remoteMr : RemoteMR)
      (available : RemoteMR.size ≤ incoming.length)
      (whole : RemoteMR.deserialize (incoming.take RemoteMR.size) = some remoteMr) :
      Advance party incoming outcome
        { party with consumed := party.consumed + RemoteMR.size, phase := .newConn remoteMr }
  | connected (remoteMr : RemoteMR) (phase : party.phase = .newConn remoteMr) :
      Advance party incoming outcome { party with phase := .postRecvs remoteMr }
  | posted (remoteMr : RemoteMR) (phase : party.phase = .postRecvs remoteMr) :
      Advance party incoming outcome
        { party with phase := .handOut { Endpoint.new party.recvMr party.sendMr remoteMr with
            receives := outcome.receives } }
  | handed (conn : Endpoint) (phase : party.phase = .handOut conn) :
      Advance party incoming outcome { party with phase := .handedOut conn }

variable {party after peer : Party} {role : Side} {incoming : List UInt8} {outcome : Outcome}

theorem tcpSend_cases {bytes : List UInt8} (result : party.tcpSend bytes outcome = some after) :
    ∃ moved, after = { party with sent := party.sent ++ moved } ∧
      (outcome.ok = true ∧ moved = bytes ∨
        outcome.ok = false ∧ moved.length < bytes.length) := by
  cases outcome with
  | success =>
      cases result
      exact ⟨bytes, rfl, Or.inl ⟨rfl, rfl⟩⟩
  | failure count =>
      by_cases part : count < bytes.length
      · simp only [tcpSend, part, ↓reduceIte, Option.some.injEq] at result
        refine ⟨bytes.take count, result.symm, Or.inr ⟨rfl, ?_⟩⟩
        rw [List.length_take]
        omega
      · simp only [tcpSend, part, ↓reduceIte, reduceCtorEq] at result

theorem tcpRecv_cases {length : Nat} {buf : List UInt8}
    (result : party.tcpRecv incoming length outcome = some (after, buf)) :
    buf.length = length ∧ ∃ count, count ≤ incoming.length ∧
      after = { party with consumed := party.consumed + count } ∧
        (outcome.ok = true → count = length ∧ buf = incoming.take length) := by
  cases outcome with
  | success =>
      by_cases enough : length ≤ incoming.length
      · simp only [tcpRecv, enough, ↓reduceIte, Option.some.injEq, Prod.mk.injEq] at result
        obtain ⟨rfl, rfl⟩ := result
        exact ⟨List.length_take_of_le enough, length, enough, rfl, fun _ => ⟨rfl, rfl⟩⟩
      · simp only [tcpRecv, enough, ↓reduceIte, reduceCtorEq] at result
  | failure count =>
      by_cases part : count < length ∧ count ≤ incoming.length
      · simp only [tcpRecv, part, and_self, ↓reduceIte, Option.some.injEq,
          Prod.mk.injEq] at result
        obtain ⟨rfl, rfl⟩ := result
        refine ⟨?_, count, part.2, rfl, fun impossible => by cases impossible⟩
        rw [List.length_append, List.length_replicate, List.length_take]
        omega
      · simp only [tcpRecv, part, ↓reduceIte, reduceCtorEq] at result

theorem unwrapped_ok (party : Party) (next : Phase) (ok : outcome.ok = true) :
    party.unwrapped outcome next = { party with phase := next } := by
  unfold unwrapped
  rw [if_pos ok]

theorem unwrapped_failed (party : Party) (next : Phase) (failed : outcome.ok = false) :
    party.unwrapped outcome next = { party with phase := .panicked } := by
  unfold unwrapped
  rw [failed]
  rfl

theorem unwrapped_advance (next : Phase)
    (advance : Advance party incoming outcome { party with phase := next }) :
    (outcome.ok = false ∧ (party.unwrapped outcome next).phase.stopped = true) ∨
      Advance party incoming outcome (party.unwrapped outcome next) := by
  cases ok : outcome.ok with
  | true =>
      rw [unwrapped_ok party next ok]
      exact Or.inr advance
  | false =>
      rw [unwrapped_failed party next ok]
      exact Or.inl ⟨rfl, rfl⟩

/-- A call that fails may end the task; every other goes on as `Advance` says. -/
theorem step_advance (taken : party.step role incoming outcome = some after) :
    (outcome.ok = false ∧ after.phase.stopped = true) ∨
      Advance party incoming outcome after := by
  unfold step at taken
  cases phase : party.phase with
  | create =>
      simp only [phase, Option.some.injEq] at taken
      exact taken ▸ unwrapped_advance _ (.created phase)
  | init =>
      simp only [phase, Option.some.injEq] at taken
      exact Or.inr (taken ▸ .initialized phase)
  | sendEndpoint =>
      simp only [phase, Option.map_eq_some_iff] at taken
      obtain ⟨sent, result, rfl⟩ := taken
      obtain ⟨moved, rfl, how⟩ := tcpSend_cases result
      rw [EndPoint.toBytes_length] at how
      exact Or.inr (.endpointSent phase moved (how.imp And.right And.right))
  | recvEndpoint =>
      simp only [phase, Option.map_eq_some_iff] at taken
      obtain ⟨⟨read, buf⟩, result, rfl⟩ := taken
      obtain ⟨full, count, available, rfl, whole⟩ := tcpRecv_cases result
      rw [EndPoint.toBytes_length] at full whole
      obtain ⟨remote, decodes⟩ := EndPoint.fromBytes_total buf full
      dsimp only
      rw [decodes]
      apply Or.inr
      apply Advance.endpointRead phase count remote available
      intro ok
      obtain ⟨all, same⟩ := whole ok
      exact ⟨all, same ▸ decodes⟩
  | readyToReceive remote =>
      simp only [phase, Option.some.injEq] at taken
      exact Or.inr (taken ▸ .toReceive remote phase)
  | readyToSend =>
      simp only [phase, Option.some.injEq] at taken
      exact Or.inr (taken ▸ .toSend phase)
  | register =>
      simp only [phase, Option.some.injEq] at taken
      exact taken ▸ unwrapped_advance _ (.registered phase)
  | sendMr =>
      simp only [phase, Option.map_eq_some_iff] at taken
      obtain ⟨sent, result, rfl⟩ := taken
      obtain ⟨moved, rfl, ⟨ok, rfl⟩ | ⟨failed, short⟩⟩ := tcpSend_cases result
      · rw [unwrapped_ok _ _ ok]
        exact Or.inr (.mrSent phase)
      · rw [unwrapped_failed _ _ failed]
        exact Or.inl ⟨failed, rfl⟩
  | recvMr =>
      simp only [phase, Option.map_eq_some_iff] at taken
      obtain ⟨⟨read, buf⟩, result, rfl⟩ := taken
      cases ok : outcome.ok with
      | true =>
          obtain ⟨full, count, available, rfl, whole⟩ := tcpRecv_cases result
          obtain ⟨rfl, rfl⟩ := whole ok
          obtain ⟨remoteMr, decodes⟩ := RemoteMR.deserialize_total _ full
          rw [unwrapped_ok _ _ ok, decodes]
          exact Or.inr (.mrRead phase remoteMr available decodes)
      | false =>
          rw [unwrapped_failed _ _ ok]
          exact Or.inl ⟨rfl, rfl⟩
  | newConn remoteMr =>
      simp only [phase, Option.some.injEq] at taken
      exact taken ▸ unwrapped_advance _ (.connected remoteMr phase)
  | postRecvs remoteMr =>
      simp only [phase, Option.some.injEq] at taken
      exact Or.inr (taken ▸ .posted remoteMr phase)
  | handOut conn =>
      simp only [phase] at taken
      split at taken
      · cases taken
        exact Or.inr (.handed conn phase)
      · cases taken
        exact Or.inl ⟨rfl, rfl⟩
      · cases taken
  | handedOut conn => simp only [phase, reduceCtorEq] at taken
  | closed => simp only [phase, reduceCtorEq] at taken
  | panicked => simp only [phase, reduceCtorEq] at taken

end Party

end Ibv
