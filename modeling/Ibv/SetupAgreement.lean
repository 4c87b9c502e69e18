import Ibv.SetupSteps

set_option autoImplicit false

namespace Ibv

open Runs (Run Any)

namespace Phase

/-- The calls that log their error and whose effect the rest of the setup relies on. The
endpoint is sent by a call of the same kind, but a peer that misses it waits forever. -/
def critical : Phase → Bool
  | init | recvEndpoint | readyToReceive _ | readyToSend => true
  | _ => false

/-- The calls that move the queue pair. -/
def verb : Phase → Bool
  | init | readyToReceive _ | readyToSend => true
  | _ => false

/-- The state the queue pair is meant to be in. -/
def status : Phase → Status
  | create | init => .unknown
  | sendEndpoint | recvEndpoint | readyToReceive _ => .init
  | readyToSend => .rtr
  | register | sendMr | recvMr | newConn _ | postRecvs _ | handOut _ | handedOut _ => .rts
  | closed | panicked => .unknown

/-- How many bytes are meant to be on the stream. -/
def written : Phase → Nat
  | create | init | sendEndpoint => 0
  | recvEndpoint | readyToReceive _ | readyToSend | register | sendMr => 22
  | recvMr | newConn _ | postRecvs _ | handOut _ | handedOut _ => 38
  | closed | panicked => 0

theorem written_le (phase : Phase) : phase.written ≤ 38 := by
  cases phase <;> simp [written]

/-- How many bytes of the peer are meant to have been read. -/
def taken : Phase → Nat
  | create | init | sendEndpoint | recvEndpoint => 0
  | readyToReceive _ | readyToSend | register | sendMr | recvMr => 22
  | newConn _ | postRecvs _ | handOut _ | handedOut _ => 38
  | closed | panicked => 0

end Phase

/-- How far a queue pair has come. -/
def Status.rank : Status → Nat
  | unknown | error => 0
  | init => 1
  | rtr => 2
  | rts => 3

namespace QP

variable {qp : QP}

theorem init_ok (status : qp.status = .unknown) :
    qp.init true = some { qp with status := .init } := by
  simp [init, modify, status]

theorem readyToReceive_ok (remote : EndPoint) (status : qp.status = .init) :
    qp.readyToReceive true remote = some { qp with status := .rtr, dest := some remote } := by
  simp [readyToReceive, modify, status]

theorem readyToSend_ok (status : qp.status = .rtr) :
    qp.readyToSend true = some { qp with status := .rts } := by
  simp [readyToSend, modify, status]

theorem modify_lags (source target : Status) (accepts : Bool) (lag : Nat)
    (lags : qp.status.rank + lag ≤ source.rank) (next : target.rank = source.rank + 1) :
    ((qp.modify accepts source target).getD qp).status.rank + lag ≤ target.rank := by
  unfold modify
  split
  · rename_i taken
    have status : qp.status = source := eq_of_beq (Bool.and_eq_true_iff.mp taken).2
    rw [status] at lags
    change target.rank + lag ≤ target.rank
    omega
  · change qp.status.rank + lag ≤ target.rank
    omega

theorem modify_endpoint (accepts : Bool) (source target : Status) :
    ((qp.modify accepts source target).getD qp).endpoint = qp.endpoint := by
  unfold modify
  split
  · rfl
  · rfl

/-- The destination aside, `ready_to_receive` is a transition like the others. -/
theorem readyToReceive_fields (accepts : Bool) (remote : EndPoint) :
    ((qp.readyToReceive accepts remote).getD qp).status =
      ((qp.modify accepts .init .rtr).getD qp).status ∧
    ((qp.readyToReceive accepts remote).getD qp).endpoint =
      ((qp.modify accepts .init .rtr).getD qp).endpoint := by
  unfold readyToReceive
  cases qp.modify accepts .init .rtr with
  | none => exact ⟨rfl, rfl⟩
  | some moved => exact ⟨rfl, rfl⟩

end QP

namespace Party

/-- All that a side has to say. -/
def stream (party : Party) : List UInt8 :=
  party.qp.endpoint.toBytes ++ (RemoteMR.fromMr party.recvMr).serialize

@[simp] theorem stream_length (party : Party) : party.stream.length = 38 := by
  simp only [stream, List.length_append, EndPoint.toBytes_length, RemoteMR.serialize_length,
    RemoteMR.size]

theorem stream_endpoint (party : Party) : party.stream.take 22 = party.qp.endpoint.toBytes :=
  List.take_left' (EndPoint.toBytes_length _)

theorem stream_mr (party : Party) :
    party.stream.drop 22 = (RemoteMR.fromMr party.recvMr).serialize :=
  List.drop_left' (EndPoint.toBytes_length _)

/-- The peer will never find all that it waits for on the stream. -/
def Lost (party : Party) : Prop := party.sent.length < party.phase.written

/-- What is on the stream is what was meant to be there. -/
def Honest (party : Party) : Prop :=
  party.Lost ∨ party.sent = party.stream.take party.phase.written

/-- What a side has learned of its peer is right. -/
def Heard (party : Party) (remote : EndPoint) (remoteMr : RemoteMR) : Prop :=
  match party.phase with
  | .readyToReceive read => read = remote
  | .readyToSend | .register | .sendMr | .recvMr => party.qp.dest = some remote
  | .newConn read | .postRecvs read => party.qp.dest = some remote ∧ read = remoteMr
  | .handOut conn | .handedOut conn =>
      party.qp.dest = some remote ∧ ∃ receives, receives ≤ defaultRqeCount ∧
        conn = { Endpoint.new party.recvMr party.sendMr remoteMr with receives := receives }
  | _ => True

/-- A side and what it knows of its peer. -/
structure InStep (party peer : Party) : Prop where
  status : party.qp.status = party.phase.status
  taken : party.consumed = party.phase.taken
  available : party.consumed ≤ peer.sent.length
  heard : peer.Lost ∨ party.Heard peer.qp.endpoint (.fromMr peer.recvMr)

variable {party after peer : Party} {role : Side} {incoming : List UInt8} {outcome : Outcome}

theorem stopped_step (stopped : party.phase.stopped = true) :
    party.step role incoming outcome ≠ some after := by
  intro taken
  unfold step at taken
  cases phase : party.phase with
  | closed | panicked => simp only [phase, reduceCtorEq] at taken
  | _ =>
      rw [phase] at stopped
      cases stopped

theorem verb_failed {count : Nat} (verb : party.phase.verb = true)
    (level : party.qp.status.rank + 0 ≤ party.phase.status.rank)
    (taken : party.step role incoming (.failure count) = some after) :
    after.qp.status.rank + 1 ≤ after.phase.status.rank := by
  unfold step at taken
  cases phase : party.phase with
  | init | readyToReceive remote | readyToSend =>
      rw [phase] at level
      simp only [phase, Option.some.injEq] at taken
      subst taken
      exact Nat.succ_le_succ level
  | _ =>
      rw [phase] at verb
      cases verb

namespace Advance

theorem kept (advance : Advance party incoming outcome after) :
    after.qp.endpoint = party.qp.endpoint ∧ after.recvMr = party.recvMr ∧
      after.sendMr = party.sendMr ∧ party.sent.length ≤ after.sent.length := by
  cases advance with
  | initialized | toSend => exact ⟨QP.modify_endpoint _ _ _, rfl, rfl, Nat.le_refl _⟩
  | toReceive remote =>
      refine ⟨?_, rfl, rfl, Nat.le_refl _⟩
      exact (QP.readyToReceive_fields _ remote).2.trans (QP.modify_endpoint _ _ _)
  | endpointSent | mrSent =>
      refine ⟨rfl, rfl, rfl, ?_⟩
      rw [List.length_append]
      exact Nat.le_add_right _ _
  | created | endpointRead | registered | mrRead | connected | posted | handed =>
      exact ⟨rfl, rfl, rfl, Nat.le_refl _⟩

theorem lost (advance : Advance party incoming outcome after) (lost : party.Lost) :
    after.Lost := by
  unfold Lost at lost ⊢
  cases advance with
  | endpointSent phase =>
      rw [phase] at lost
      exact absurd lost (Nat.not_lt_zero _)
  | mrSent phase =>
      rw [phase] at lost
      simp only [Phase.written, List.length_append, RemoteMR.serialize_length,
        RemoteMR.size] at lost ⊢
      omega
  | created phase | initialized phase | endpointRead phase | registered phase | toSend phase
  | mrRead phase | toReceive _ phase | connected _ phase | posted _ phase | handed _ phase =>
      rw [phase] at lost
      exact lost

/-- No call makes up for a queue pair that lags behind. -/
theorem lags (advance : Advance party incoming outcome after) (lag : Nat)
    (lags : party.qp.status.rank + lag ≤ party.phase.status.rank) :
    after.qp.status.rank + lag ≤ after.phase.status.rank := by
  cases advance with
  | initialized phase =>
      rw [phase] at lags
      exact QP.modify_lags .unknown .init _ lag lags rfl
  | toSend phase =>
      rw [phase] at lags
      exact QP.modify_lags .rtr .rts _ lag lags rfl
  | toReceive remote phase =>
      rw [phase] at lags
      have moved := QP.modify_lags .init .rtr outcome.ok lag lags rfl
      rw [← (QP.readyToReceive_fields outcome.ok remote).1] at moved
      exact moved
  | created phase | endpointSent phase | endpointRead phase | registered phase | mrSent phase
  | mrRead phase | connected _ phase | posted _ phase | handed _ phase =>
      rw [phase] at lags
      exact lags

theorem honest (advance : Advance party incoming outcome after) (honest : party.Honest) :
    after.Honest := by
  rcases honest with lost | same
  · exact Or.inl (advance.lost lost)
  have stream : after.stream = party.stream := by
    obtain ⟨endpoint, recvMr, -⟩ := advance.kept
    unfold Party.stream
    rw [endpoint, recvMr]
  unfold Honest
  rw [stream]
  cases advance with
  | endpointSent phase bytes written =>
      rw [phase] at same
      have empty : party.sent = [] := same
      rw [empty, List.nil_append]
      rcases written with rfl | short
      · exact Or.inr party.stream_endpoint.symm
      · exact Or.inl short
  | mrSent phase =>
      rw [phase] at same
      right
      change party.sent ++ _ = party.stream.take 38
      rw [same, ← party.stream_mr, List.take_of_length_le (Nat.le_of_eq party.stream_length)]
      exact List.take_append_drop 22 _
  | created phase | initialized phase | endpointRead phase | registered phase | toSend phase
  | mrRead phase | toReceive _ phase | connected _ phase | posted _ phase | handed _ phase =>
      rw [phase] at same
      exact Or.inr same

end Advance

/-- The next bytes a side reads are those its peer means it to read. -/
theorem Honest.reads {start length : Nat} (honest : peer.Honest) (complete : ¬ peer.Lost)
    (enough : start + length ≤ peer.sent.length) :
    (peer.sent.drop start).take length = (peer.stream.drop start).take length := by
  rcases honest with lost | same
  · exact absurd lost complete
  · have bound : start + length ≤ peer.phase.written := by
      rw [same, List.length_take] at enough
      omega
    rw [same, List.drop_take, List.take_take, Nat.min_eq_left (by omega)]

namespace InStep

/-- A side that has read all there is has a peer that has written all there is. -/
theorem complete (known : party.InStep peer) (read : party.phase.taken = 38) : ¬ peer.Lost := by
  have available := known.available
  have bound := peer.phase.written_le
  rw [known.taken, read] at available
  exact Nat.not_lt.mpr (Nat.le_trans bound available)

theorem written (known : party.InStep peer) (honest : peer.Honest)
    (read : party.phase.taken = 38) : peer.phase.written = 38 := by
  have available := known.available
  have bound := peer.phase.written_le
  rw [known.taken, read] at available
  rcases honest with lost | same
  · exact absurd lost (known.complete read)
  · rw [same, List.length_take] at available
    omega

theorem ofPeer (known : party.InStep peer) (advance : Advance peer incoming outcome after) :
    party.InStep after := by
  obtain ⟨endpoint, recvMr, -, grown⟩ := advance.kept
  refine ⟨known.status, known.taken, Nat.le_trans known.available grown, ?_⟩
  rw [endpoint, recvMr]
  exact known.heard.imp advance.lost id

theorem ofAdvance (known : party.InStep peer) (honest : peer.Honest)
    (succeeds : party.phase.critical = true → outcome.ok = true)
    (advance : Advance party (peer.sent.drop party.consumed) outcome after) :
    after.InStep peer := by
  obtain ⟨status, taken, available, heard⟩ := known
  unfold Heard at heard
  cases advance with
  | created phase =>
      rw [phase] at status taken
      exact ⟨status, taken, available, Or.inr trivial⟩
  | initialized phase =>
      rw [phase] at status taken succeeds
      rw [succeeds rfl, logged, QP.init_ok status]
      exact ⟨rfl, taken, available, Or.inr trivial⟩
  | endpointSent phase =>
      rw [phase] at status taken
      exact ⟨status, taken, available, Or.inr trivial⟩
  | endpointRead phase count remote there whole =>
      rw [phase] at status taken succeeds
      obtain ⟨rfl, decodes⟩ := whole (succeeds rfl)
      rw [List.length_drop] at there
      refine ⟨status, by rw [taken]; rfl, by dsimp only; omega, ?_⟩
      by_cases lost : peer.Lost
      · exact Or.inl lost
      · right
        change remote = peer.qp.endpoint
        rw [honest.reads lost (by omega), taken] at decodes
        change EndPoint.fromBytes (peer.stream.take 22) = some remote at decodes
        rw [stream_endpoint, EndPoint.fromBytes_toBytes] at decodes
        exact (Option.some.inj decodes).symm
  | toReceive remote phase =>
      rw [phase] at status taken succeeds heard
      rw [succeeds rfl, logged, QP.readyToReceive_ok remote status]
      refine ⟨rfl, taken, available, heard.imp_right fun same => ?_⟩
      exact congrArg some same
  | toSend phase =>
      rw [phase] at status taken succeeds heard
      rw [succeeds rfl, logged, QP.readyToSend_ok status]
      exact ⟨rfl, taken, available, heard⟩
  | registered phase =>
      rw [phase] at status taken heard
      exact ⟨status, taken, available, heard⟩
  | mrSent phase =>
      rw [phase] at status taken heard
      exact ⟨status, taken, available, heard⟩
  | mrRead phase remoteMr there decodes =>
      rw [phase] at status taken heard
      rw [List.length_drop] at there
      refine ⟨status, by rw [taken]; rfl, by dsimp only; omega, ?_⟩
      by_cases lost : peer.Lost
      · exact Or.inl lost
      · refine heard.imp_right fun dest => ⟨dest, ?_⟩
        rw [honest.reads lost (by omega), taken] at decodes
        change RemoteMR.deserialize ((peer.stream.drop 22).take RemoteMR.size) = _ at decodes
        rw [stream_mr, List.take_of_length_le (Nat.le_of_eq (RemoteMR.serialize_length _)),
          RemoteMR.deserialize_serialize] at decodes
        exact (Option.some.inj decodes).symm
  | connected remoteMr phase =>
      rw [phase] at status taken heard
      exact ⟨status, taken, available, heard⟩
  | posted remoteMr phase =>
      rw [phase] at status taken heard
      refine ⟨status, taken, available, heard.imp_right fun right => ⟨right.1, ?_⟩⟩
      exact ⟨outcome.receives, outcome.receives_le, by rw [right.2]⟩
  | handed conn phase =>
      rw [phase] at status taken heard
      exact ⟨status, taken, available, heard⟩

end InStep

end Party

namespace Setup

open Party (InStep)

/-- No call of `init`, of the endpoint receive, of `ready_to_receive` or of
`ready_to_send` fails. -/
def Unfailing (setup : Setup) (action : Side × Outcome) : Prop :=
  (setup action.1).phase.critical = true → action.2.ok = true

instance (setup : Setup) (action : Side × Outcome) : Decidable (setup.Unfailing action) :=
  inferInstanceAs (Decidable (_ → _))

/-- Where both sides hand out a `Conn`, both queue pairs are ready to send, each to the
other, and each side writes to the buffer the other has registered. -/
def Agreement (endpoint : Side → EndPoint) (recvMr : Side → MR) (setup : Setup) : Prop :=
  ∀ conns : Side → Endpoint, (∀ side, (setup side).phase = .handedOut (conns side)) →
    ∀ side, (setup side).qp.status = .rts ∧
      (setup side).qp.dest = some (endpoint side.other) ∧
      (conns side).allocator = .new (.fromMr (recvMr side.other))

variable {endpoint : Side → EndPoint} {recvMr sendMr : Side → MR} {setup after : Setup}
  {action : Side × Outcome}

/-- Both sides go on, and neither has lost step. -/
structure Live (endpoint : Side → EndPoint) (recvMr sendMr : Side → MR) (setup : Setup) :
    Prop where
  endpoint : ∀ side, (setup side).qp.endpoint = endpoint side
  recvMr : ∀ side, (setup side).recvMr = recvMr side
  sendMr : ∀ side, (setup side).sendMr = sendMr side
  honest : ∀ side, (setup side).Honest
  inStep : ∀ side, (setup side).InStep (setup side.other)

theorem Live.new (endpoint : Side → EndPoint) (recvMr sendMr : Side → MR) :
    Live endpoint recvMr sendMr (.new endpoint recvMr sendMr) where
  endpoint _ := rfl
  recvMr _ := rfl
  sendMr _ := rfl
  honest _ := Or.inr rfl
  inStep _ := ⟨rfl, rfl, Nat.le_refl 0, Or.inr trivial⟩

theorem step_cases (taken : setup.step action = some after) :
    ∃ party, (setup action.1).step action.1 (setup.incoming action.1) action.2 = some party ∧
      after = Function.update setup action.1 party := by
  obtain ⟨party, stepped, same⟩ := Option.map_eq_some_iff.mp taken
  exact ⟨party, stepped, same.symm⟩

/-- A side that has ended makes no more calls. -/
theorem stopped_kept (stopped : ∃ side, (setup side).phase.stopped = true)
    (taken : setup.step action = some after) : ∃ side, (after side).phase.stopped = true := by
  obtain ⟨ended, stopped⟩ := stopped
  obtain ⟨party, stepped, rfl⟩ := step_cases taken
  refine ⟨ended, ?_⟩
  by_cases own : ended = action.1
  · subst own
    exact absurd stepped (Party.stopped_step stopped)
  · rw [Function.update_of_ne own]
    exact stopped

theorem Live.advance {side : Side} {outcome : Outcome} {party : Party}
    (live : Live endpoint recvMr sendMr setup)
    (allowed : (setup side).phase.critical = true → outcome.ok = true)
    (advance : Party.Advance (setup side) (setup.incoming side) outcome party) :
    Live endpoint recvMr sendMr (Function.update setup side party) := by
  obtain ⟨sameEndpoint, sameRecvMr, sameSendMr, -⟩ := advance.kept
  have inStep := live.inStep side
  have known := live.inStep side.other
  rw [Side.other_other] at known
  exact
    { endpoint := Side.forall_update
        (fun chosen (mine _ : Party) => mine.qp.endpoint = endpoint chosen)
        (sameEndpoint.trans (live.endpoint side)) (live.endpoint side.other)
      recvMr := Side.forall_update (fun chosen (mine _ : Party) => mine.recvMr = recvMr chosen)
        (sameRecvMr.trans (live.recvMr side)) (live.recvMr side.other)
      sendMr := Side.forall_update (fun chosen (mine _ : Party) => mine.sendMr = sendMr chosen)
        (sameSendMr.trans (live.sendMr side)) (live.sendMr side.other)
      honest := Side.forall_update (fun _ (mine _ : Party) => mine.Honest)
        (advance.honest (live.honest side)) (live.honest side.other)
      inStep := Side.forall_update (fun _ => InStep)
        (inStep.ofAdvance (live.honest side.other) allowed advance) (known.ofPeer advance) }

theorem Live.step (live : Live endpoint recvMr sendMr setup) (allowed : setup.Unfailing action)
    (taken : setup.step action = some after) :
    (∃ side, (after side).phase.stopped = true) ∨ Live endpoint recvMr sendMr after := by
  obtain ⟨party, stepped, rfl⟩ := step_cases taken
  rcases Party.step_advance stepped with ⟨-, stopped⟩ | advance
  · exact Or.inl ⟨action.1, by rw [Function.update_self]; exact stopped⟩
  · exact Or.inr (live.advance allowed advance)

theorem run_live (run : Run step Unfailing (new endpoint recvMr sendMr) setup) :
    (∃ side, (setup side).phase.stopped = true) ∨ Live endpoint recvMr sendMr setup := by
  refine run.invariant
    (fun reached => (∃ side, (reached side).phase.stopped = true) ∨
      Live endpoint recvMr sendMr reached) (Or.inr (Live.new endpoint recvMr sendMr)) ?_
  intro before action after sound allowed taken
  rcases sound with stopped | live
  · exact Or.inl (stopped_kept stopped taken)
  · exact live.step allowed taken

def Successful (_ : Setup) (action : Side × Outcome) : Prop := action.2 = .success

theorem run_successful (run : Run step Successful (new endpoint recvMr sendMr) setup) :
    Live endpoint recvMr sendMr setup := by
  refine run.invariant (Live endpoint recvMr sendMr) (Live.new endpoint recvMr sendMr) ?_
  intro before action after live succeeds taken
  have ok : action.2.ok = true := by rw [succeeds]; rfl
  obtain ⟨party, stepped, rfl⟩ := step_cases taken
  rcases Party.step_advance stepped with ⟨failed, -⟩ | advance
  · rw [ok] at failed
    cases failed
  · exact live.advance (fun _ => ok) advance

/-- Two sides that both hand out a `Conn` know each other. Their `Conn`s are the two ends
that messages are exchanged between, but for receives whose post has failed. -/
theorem handed_out {conns : Side → Endpoint}
    (run : Run step Unfailing (new endpoint recvMr sendMr) setup)
    (handed : ∀ side, (setup side).phase = .handedOut (conns side)) (side : Side) :
    (setup side).qp.status = .rts ∧ (setup side).qp.dest = some (endpoint side.other) ∧
      ∃ receives, receives ≤ defaultRqeCount ∧
        conns side = { System.new recvMr sendMr side with receives := receives } := by
  rcases run_live run with ⟨ended, stopped⟩ | live
  · rw [handed ended] at stopped
    cases stopped
  have status := (live.inStep side).status
  have complete := (live.inStep side).complete (by rw [handed side]; rfl)
  have known := (live.inStep side).heard.resolve_left complete
  unfold Party.Heard at known
  rw [handed side, live.endpoint, live.recvMr, live.recvMr, live.sendMr] at known
  rw [handed side] at status
  exact ⟨status, known⟩

/-- Whatever fails, a queue pair is never further than its side's calls, and one that
lags behind them never catches up. -/
theorem lags_step {side : Side} (lag : Nat)
    (lags : (setup side).phase.stopped = true ∨
      (setup side).qp.status.rank + lag ≤ (setup side).phase.status.rank)
    (taken : setup.step action = some after) :
    (after side).phase.stopped = true ∨
      (after side).qp.status.rank + lag ≤ (after side).phase.status.rank := by
  obtain ⟨party, stepped, rfl⟩ := step_cases taken
  by_cases own : side = action.1
  · subst own
    rw [Function.update_self]
    rcases lags with stopped | lags
    · exact absurd stepped (Party.stopped_step stopped)
    · exact (Party.step_advance stepped).imp And.right fun advance => advance.lags lag lags
  · rw [Function.update_of_ne own]
    exact lags

/-- After a verb that failed, on any run, the side never hands out a `Conn` on a queue
pair that is ready to send: on the three verbs the condition of `setup_agreement` cannot
be relaxed. -/
theorem failed_verb_never_ready {before failed final : Setup} {side : Side} {count : Nat}
    {conn : Endpoint} (verb : (before side).phase.verb = true)
    (start : Run step Any (new endpoint recvMr sendMr) before)
    (fails : before.step (side, .failure count) = some failed)
    (rest : Run step Any failed final) (handed : (final side).phase = .handedOut conn) :
    (final side).qp.status ≠ .rts := by
  have level : (before side).phase.stopped = true ∨
      (before side).qp.status.rank + 0 ≤ (before side).phase.status.rank := by
    refine start.invariant (fun reached => (reached side).phase.stopped = true ∨
      (reached side).qp.status.rank + 0 ≤ (reached side).phase.status.rank) ?_ ?_
    · exact Or.inr (Nat.le_refl 0)
    · intro state label after lags _ taken
      exact lags_step 0 lags taken
  have behind : (failed side).phase.stopped = true ∨
      (failed side).qp.status.rank + 1 ≤ (failed side).phase.status.rank := by
    obtain ⟨party, stepped, rfl⟩ := step_cases fails
    rw [Function.update_self]
    rcases level with stopped | level
    · exact absurd stepped (Party.stopped_step stopped)
    · exact Or.inr (Party.verb_failed verb level stepped)
  have still := rest.invariant (fun reached => (reached side).phase.stopped = true ∨
      (reached side).qp.status.rank + 1 ≤ (reached side).phase.status.rank) behind
    fun state label after lags _ taken => lags_step 1 lags taken
  intro ready
  rw [handed, ready] at still
  rcases still with stopped | lags
  · cases stopped
  · exact absurd lags (Nat.not_succ_le_self 3)

/-- Connection setup agreement, on every interleaving and whatever else fails. The endpoint of
a side is the value that its `QP::endpoint()` returned, which drops an error of
`ibv_query_gid`. -/
theorem setup_agreement (endpoint : Side → EndPoint) (recvMr sendMr : Side → MR) (setup : Setup)
    (run : Run step Unfailing (new endpoint recvMr sendMr) setup) :
    setup.Agreement endpoint recvMr := by
  intro conns handed side
  obtain ⟨status, dest, receives, -, conn⟩ := handed_out run handed side
  rw [conn]
  exact ⟨status, dest, rfl⟩

/-- The twelve calls of both sides in turn, all successful but those `fails` names. -/
def calls (fails : Side → Nat → Bool) : List (Side × Outcome) :=
  (List.range 12).flatMap fun call =>
    [Side.client, Side.server].map fun side =>
      (side, if fails side call then .failure 0 else .success)

def bothHandOut (setup : Setup) : Bool :=
  [Side.client, Side.server].all fun side =>
    match (setup side).phase with
    | .handedOut _ => true
    | _ => false

theorem bothHandOut_conns (both : setup.bothHandOut = true) :
    ∃ conns : Side → Endpoint, ∀ side, (setup side).phase = .handedOut (conns side) := by
  have each : ∀ side, ∃ conn, (setup side).phase = .handedOut conn := by
    intro side
    have member : side ∈ [Side.client, Side.server] := by cases side <;> decide
    have handed := List.all_eq_true.mp both side member
    split at handed
    · rename_i conn phase
      exact ⟨conn, phase⟩
    · cases handed
  exact ⟨fun side => (each side).choose, fun side => (each side).choose_spec⟩

theorem setup_agreement_all_successful : ∃ (setup : Setup) (conns : Side → Endpoint),
    Run step Unfailing (new sampleEndpoint sampleRecvMr sampleSendMr) setup ∧
      (∀ side, (setup side).phase = .handedOut (conns side)) ∧
      (setup .client).qp.status = .rts ∧
      (setup .client).qp.dest = some (sampleEndpoint .server) ∧
      (conns .client).allocator = .new ⟨0x20000000, 0x4000000, 10⟩ := by
  obtain ⟨setup, run, both⟩ : ∃ setup,
      Run step Unfailing (new sampleEndpoint sampleRecvMr sampleSendMr) setup ∧
        setup.bothHandOut = true :=
    Run.exists_of_execChecked (fun before action => decide (before.Unfailing action)) _
      (fun _ _ => of_decide_eq_true) (calls fun _ _ => false) (by decide +kernel)
  obtain ⟨conns, handed⟩ := bothHandOut_conns both
  exact ⟨setup, conns, run, handed, setup_agreement _ _ _ setup run conns handed .client⟩

/-- The driver refuses `ready_to_receive` to the client, which logs the error. Both sides
hand out a `Conn`, the client's on a queue pair that is still in INIT. -/
theorem setup_disagreement : ∃ (setup : Setup) (conns : Side → Endpoint),
    Run step Any (new sampleEndpoint sampleRecvMr sampleSendMr) setup ∧
      (∀ side, (setup side).phase = .handedOut (conns side)) ∧
      (setup .client).qp.status = .init ∧
      ¬ setup.Agreement sampleEndpoint sampleRecvMr := by
  obtain ⟨setup, run, reached⟩ : ∃ setup,
      Run step Any (new sampleEndpoint sampleRecvMr sampleSendMr) setup ∧
        (setup.bothHandOut && (setup .client).qp.status == .init) = true :=
    Run.exists_of_exec
      (fun (setup : Setup) => setup.bothHandOut && (setup .client).qp.status == .init)
      (calls fun side call => side == .client && call == 4) (by decide +kernel)
  obtain ⟨both, status⟩ := Bool.and_eq_true_iff.mp reached
  obtain ⟨conns, handed⟩ := bothHandOut_conns both
  have init : (setup .client).qp.status = .init := eq_of_beq status
  refine ⟨setup, conns, run, handed, init, ?_⟩
  intro agreement
  have ready := (agreement conns handed .client).1
  rw [init] at ready
  cases ready

end Setup

end Ibv
