import Ibv.Progress
import Ibv.Server
import Ibv.SetupAgreement

set_option autoImplicit false

namespace Ibv

open Runs (Run Any Trail Observed)

namespace Party

/-- A side none of whose calls has failed. -/
structure Complete (party : Party) : Prop where
  going : party.phase.stopped = false
  sent : party.sent.length = party.phase.written
  posted : ∀ conn, party.phase = .handOut conn ∨ party.phase = .handedOut conn →
    conn.receives = defaultRqeCount

theorem Complete.new (endpoint : EndPoint) (recvMr sendMr : MR) :
    Complete (.new endpoint recvMr sendMr) where
  going := rfl
  sent := rfl
  posted := by simp [Party.new]

variable {party after peer : Party} {role : Side} {incoming : List UInt8}

theorem Complete.step (complete : party.Complete)
    (taken : party.step role incoming .success = some after) :
    after.Complete ∧ after.phase.index = party.phase.index + 1 := by
  obtain ⟨going, sent, posted⟩ := complete
  have advance : Advance party incoming .success after :=
    (step_advance taken).resolve_left (by simp [Outcome.ok])
  cases advance with
  | endpointSent phase bytes written =>
      rw [phase] at sent
      simp only [Party.step, phase, tcpSend, Option.map_some, Option.some.injEq, mk.injEq,
        List.append_cancel_left_eq] at taken
      have length := congrArg List.length taken.2.2.2.1
      rw [EndPoint.toBytes_length] at length
      refine ⟨⟨rfl, ?_, by simp⟩, by simp [Phase.index, phase]⟩
      rw [List.length_append, sent, ← length]
      rfl
  | mrSent phase =>
      rw [phase] at sent
      refine ⟨⟨rfl, ?_, by simp⟩, by simp [Phase.index, phase]⟩
      rw [List.length_append, sent, RemoteMR.serialize_length]
      rfl
  | posted remoteMr phase =>
      rw [phase] at sent
      refine ⟨⟨rfl, sent, ?_⟩, by simp [Phase.index, phase]⟩
      rintro conn (same | same)
      · cases same
        rfl
      · cases same
  | handed conn phase =>
      rw [phase] at sent
      refine ⟨⟨rfl, sent, ?_⟩, by simp [Phase.index, phase]⟩
      rintro conn (same | same)
      · cases same
      · cases same
        exact posted conn (.inl phase)
  | created phase | initialized phase | endpointRead phase | registered phase | toSend phase
  | mrRead phase | toReceive _ phase | connected _ phase =>
      rw [phase] at sent
      exact ⟨⟨rfl, sent, by simp [logged]⟩, by simp [Phase.index, phase, logged]⟩

/-- Only the two receives wait, for bytes the peer has not written. -/
theorem waits_cases (going : party.phase.stopped = false)
    (waits : party.step role incoming .success = none) :
    (party.phase = .recvEndpoint ∧ incoming.length < 22) ∨
      (party.phase = .recvMr ∧ incoming.length < 16) ∨
      ∃ conn, party.phase = .handedOut conn := by
  cases phase : party.phase with
  | recvEndpoint =>
      by_cases enough : 22 ≤ incoming.length
      · simp [Party.step, phase, tcpRecv, EndPoint.toBytes_length, enough] at waits
      · exact .inl ⟨rfl, Nat.not_le.mp enough⟩
  | recvMr =>
      by_cases enough : 16 ≤ incoming.length
      · simp [Party.step, phase, tcpRecv, RemoteMR.size, enough] at waits
      · exact .inr (.inl ⟨rfl, Nat.not_le.mp enough⟩)
  | handedOut conn => exact .inr (.inr ⟨conn, rfl⟩)
  | closed | panicked =>
      rw [phase] at going
      cases going
  | _ => simp [Party.step, phase, tcpSend] at waits

/-- A side that waits has read all the peer has written, so the peer is a call further
behind than the one whose bytes it waits for. -/
theorem InStep.behind (known : party.InStep peer) (going : party.phase.stopped = false)
    (complete : peer.Complete)
    (waits : party.step role (peer.sent.drop party.consumed) .success = none) :
    (party.phase = .recvEndpoint ∧ peer.phase.written < 22) ∨
      (party.phase = .recvMr ∧ peer.phase.written < 38) ∨
      ∃ conn, party.phase = .handedOut conn := by
  have taken := known.taken
  have cases := waits_cases going waits
  rw [List.length_drop, complete.sent] at cases
  rcases cases with ⟨phase, short⟩ | ⟨phase, short⟩ | handed
  · rw [taken, phase] at short
    exact .inl ⟨phase, short⟩
  · rw [taken, phase] at short
    simp only [Phase.taken] at short
    exact .inr (.inl ⟨phase, by omega⟩)
  · exact .inr (.inr handed)

theorem written_of_waits (phase : party.phase = .recvEndpoint ∨ party.phase = .recvMr ∨
    ∃ conn, party.phase = .handedOut conn) :
    22 ≤ party.phase.written ∧ (party.phase ≠ .recvEndpoint → party.phase.written = 38) := by
  rcases phase with phase | phase | ⟨conn, phase⟩ <;> simp [phase, Phase.written]

/-- Two sides never wait for each other. -/
theorem handed_of_waits (known : party.InStep peer) (back : peer.InStep party)
    (complete : party.Complete) (other : peer.Complete)
    (waits : party.step role (peer.sent.drop party.consumed) .success = none)
    (waits' : peer.step role.other (party.sent.drop peer.consumed) .success = none) :
    ∃ conn, party.phase = .handedOut conn := by
  have mine := known.behind complete.going other waits
  have theirs := back.behind other.going complete waits'
  obtain ⟨some, -⟩ := written_of_waits (theirs.imp And.left (Or.imp And.left id))
  obtain ⟨own, -⟩ := written_of_waits (mine.imp And.left (Or.imp And.left id))
  rcases mine with ⟨-, short⟩ | ⟨-, short⟩ | handed
  · omega
  · rcases theirs with ⟨-, short'⟩ | ⟨phase, -⟩ | ⟨conn, phase⟩
    · omega
    · simp [phase, Phase.written] at short
    · simp [phase, Phase.written] at short
  · exact handed

end Party

namespace Setup

variable {endpoint : Side → EndPoint} {recvMr sendMr : Side → MR} {setup after : Setup}
  {action : Side × Outcome}

theorem run_complete (run : Run step Successful (new endpoint recvMr sendMr) setup) :
    ∀ side, (setup side).Complete := by
  refine run.invariant (fun reached => ∀ side, (reached side).Complete)
    (fun _ => .new _ _ _) ?_
  intro before action after complete succeeds taken
  obtain ⟨party, stepped, rfl⟩ := step_cases taken
  rw [succeeds] at stepped
  exact Side.forall_update (fun _ (mine _ : Party) => mine.Complete)
    ((complete action.1).step stepped).1 (complete action.1.other)

def made (setup : Setup) : Nat :=
  (setup .client).phase.index + (setup .server).phase.index

theorem made_update (setup : Setup) (side : Side) (party : Party) :
    made (Function.update setup side party) =
      party.phase.index + (setup side.other).phase.index := by
  cases side with
  | client => rfl
  | server => exact Nat.add_comm _ _

theorem made_own (setup : Setup) (side : Side) :
    made setup = (setup side).phase.index + (setup side.other).phase.index := by
  rw [← made_update, Function.update_eq_self]

/-- The calls that one side makes in a run. -/
def callsOf (side : Side) (calls : List (Side × Outcome)) : Nat :=
  calls.countP fun call => call.1 = side

theorem trail_calls {calls : List (Side × Outcome)}
    (run : Trail step Successful (new endpoint recvMr sendMr) calls setup) (side : Side) :
    callsOf side calls = (setup side).phase.index := by
  refine run.invariant (fun calls reached => callsOf side calls = (reached side).phase.index)
    rfl ?_
  intro calls before action after reached same succeeds taken
  obtain ⟨party, stepped, rfl⟩ := step_cases taken
  rw [succeeds] at stepped
  have next := ((run_complete reached action.1).step stepped).2
  unfold callsOf at same ⊢
  rw [List.countP_append, List.countP_singleton, same]
  by_cases own : action.1 = side
  · subst own
    rw [Function.update_self, next, if_pos (decide_eq_true rfl)]
  · rw [Function.update_of_ne (Ne.symm own), if_neg (by simpa using own), Nat.add_zero]

theorem callsOf_add (calls : List (Side × Outcome)) :
    callsOf .client calls + callsOf .server calls = calls.length := by
  rw [calls.length_eq_countP_add_countP fun call => call.1 = .client]
  unfold callsOf
  congr 2
  funext call
  cases call.1 <;> rfl

end Setup

theorem Phase.index_le (phase : Phase) : phase.index ≤ 12 := by
  cases phase <;> simp [index]

theorem Phase.index_last {phase : Phase} (going : phase.stopped = false)
    (last : phase.index = 12) : ∃ conn, phase = .handedOut conn := by
  cases phase with
  | handedOut conn => exact ⟨conn, rfl⟩
  | closed | panicked => cases going
  | _ => simp [index] at last

namespace Setup

variable {endpoint : Side → EndPoint} {recvMr sendMr : Side → MR} {setup : Setup}

/-- What a side knows of its peer when it hands out its `Conn`, if neither has ended. -/
theorem Live.knows (live : Live endpoint recvMr sendMr setup) {side : Side} {conn : Endpoint}
    (handed : (setup side).phase = .handedOut conn) :
    (setup side).qp.status = .rts ∧ (setup side).qp.dest = some (endpoint side.other) ∧
      ∃ receives, receives ≤ defaultRqeCount ∧
        conn = { System.new recvMr sendMr side with receives := receives } := by
  have status := (live.inStep side).status
  have complete := (live.inStep side).complete (by rw [handed]; rfl)
  have known := (live.inStep side).heard.resolve_left complete
  unfold Party.Heard at known
  rw [handed, live.endpoint, live.recvMr, live.recvMr, live.sendMr] at known
  rw [handed] at status
  exact ⟨status, known⟩

theorem Live.completes (live : Live endpoint recvMr sendMr setup) {side : Side}
    {conn : Endpoint} (complete : (setup side).Complete)
    (handed : (setup side).phase = .handedOut conn) :
    (setup side).qp.status = .rts ∧ (setup side).qp.dest = some (endpoint side.other) ∧
      (setup side).phase = .handedOut (System.new recvMr sendMr side) := by
  obtain ⟨status, dest, receives, -, same⟩ := live.knows handed
  have posted := complete.posted conn (.inr handed)
  rw [same] at posted
  change receives = defaultRqeCount at posted
  refine ⟨status, dest, ?_⟩
  rw [handed, same, posted]
  cases side <;> rfl

/-- A setup in which no call fails ends after twelve calls of each side, whatever their
order, and before that one of the sides has a call that does not wait. -/
theorem setup_completes (endpoint : Side → EndPoint) (recvMr sendMr : Side → MR)
    (calls : List (Side × Outcome)) (setup : Setup)
    (run : Trail step Successful (new endpoint recvMr sendMr) calls setup) :
    (∀ side, callsOf side calls ≤ 12) ∧ calls.length ≤ 24 ∧
      (calls.length < 24 → ∃ side, (setup.step (side, .success)).isSome = true) ∧
      (calls.length = 24 → ∀ side, (setup side).qp.status = .rts ∧
        (setup side).qp.dest = some (endpoint side.other) ∧
        (setup side).phase = .handedOut (System.new recvMr sendMr side)) := by
  have complete := run_complete run.run
  have live := run_successful run.run
  have bounded : ∀ side, callsOf side calls ≤ 12 := by
    intro side
    rw [trail_calls run]
    exact (setup side).phase.index_le
  have made := callsOf_add calls
  have client := trail_calls run .client
  have server := trail_calls run .server
  have within := bounded .client
  have within' := bounded .server
  refine ⟨bounded, by omega, ?_, ?_⟩
  · intro early
    by_contra stuck
    push Not at stuck
    have waits : ∀ side, (setup side).step side (setup.incoming side) .success = none := by
      intro side
      simpa [step] using stuck side
    have handed : ∀ side, (setup side).phase.index = 12 := by
      intro side
      have back := live.inStep side.other
      have waits' := waits side.other
      unfold incoming at waits'
      rw [Side.other_other] at back waits'
      obtain ⟨conn, phase⟩ := Party.handed_of_waits (live.inStep side) back (complete side)
        (complete side.other) (waits side) waits'
      simp [phase, Phase.index]
    have first := handed .client
    have second := handed .server
    omega
  · intro all side
    have last : (setup side).phase.index = 12 := by
      cases side <;> omega
    obtain ⟨conn, handed⟩ := Phase.index_last (complete side).going last
    exact live.completes (complete side) handed

theorem setup_completes_in_turn : ∃ (calls : List (Side × Outcome)) (setup : Setup),
    Trail step Successful (new sampleEndpoint sampleRecvMr sampleSendMr) calls setup ∧
      callsOf .client calls = 12 ∧ calls.length = 24 ∧ (setup .server).qp.status = .rts ∧
      (setup .server).qp.dest = some (sampleEndpoint .client) ∧
      (setup .server).phase = .handedOut (System.new sampleRecvMr sampleSendMr .server) := by
  obtain ⟨calls, setup, run, reached⟩ : ∃ calls setup,
      Trail step Successful (new sampleEndpoint sampleRecvMr sampleSendMr) calls setup ∧
        decide (callsOf .client calls = 12 ∧ calls.length = 24) = true :=
    Observed.exists_of_observe (fun _ action => decide (action.2 = .success))
      (fun calls _ => decide (callsOf .client calls = 12 ∧ calls.length = 24))
      (fun _ _ => of_decide_eq_true) (Setup.calls fun _ _ => false) (by decide +kernel)
  obtain ⟨own, length⟩ := of_decide_eq_true reached
  obtain ⟨-, -, -, last⟩ := setup_completes _ _ _ calls setup run
  exact ⟨calls, setup, run, own, length, last length .server⟩

end Setup

end Ibv
