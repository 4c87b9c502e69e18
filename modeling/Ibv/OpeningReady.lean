import Ibv.Counters
import Ibv.Opening

set_option autoImplicit false

namespace Ibv

open Runs (Run Any)

theorem Party.Advance.hasConn {party after : Party} {incoming : List UInt8} {outcome : Outcome}
    (advance : Party.Advance party incoming outcome after) :
    after.phase.hasConn = (party.phase.hasConn || party.phase.posting) := by
  cases advance with
  | created phase | initialized phase | endpointSent phase | endpointRead phase
  | toSend phase | registered phase | mrSent phase | mrRead phase | toReceive _ phase
  | connected _ phase | posted _ phase | handed _ phase =>
      rw [phase]
      rfl

namespace Opener

inductive Moves (opener peer : Opener) (role : Side) : Action → Opener → Prop where
  | setup (party : Party) (looped : opener.party.phase.posting = true → opener.polls = true)
      (taken : opener.party.step role (peer.party.sent.drop opener.party.consumed) .success =
        some party) : Moves opener peer role .setup { opener with party := party }
  | postRecv (posting : opener.party.phase.posting = true)
      (room : opener.looped < defaultRqeCount) :
      Moves opener peer role .postRecv { opener with looped := opener.looped + 1 }
  | spawn (posting : opener.party.phase.posting = true)
      (looped : opener.looped = defaultRqeCount) (silent : opener.polls = false) :
      Moves opener peer role .spawn { opener with polls := true }
  | takeLock (conn : opener.hasConn = true) (free : opener.lock = none) :
      Moves opener peer role .takeLock { opener with lock := some .locked }
  | load (holds : opener.lock = some .locked) (below : opener.sending < maxSending) :
      Moves opener peer role .load { opener with lock := some .admitted }
  | count (holds : opener.lock = some .admitted) :
      Moves opener peer role .count
        { opener with sending := fetchAddI32 opener.sending 1, lock := some .counted }
  | post (holds : opener.lock = some .counted) :
      Moves opener peer role .post
        { opener with lock := none, posted := opener.posted + 1 }
  | dispatch (polls : opener.polls = true) (arrived : opener.dispatched < peer.posted) :
      Moves opener peer role .dispatch { opener with dispatched := opener.dispatched + 1 }
  | recv (conn : opener.hasConn = true) (arrived : opener.taken < opener.dispatched) :
      Moves opener peer role .recv
        { opener with
          taken := opener.taken + 1
          sending := fetchAddI32 opener.sending (-1) }

variable {opener peer after : Opener} {role : Side} {action : Action}

theorem step_moves (taken : opener.step peer role action = some after) :
    Moves opener peer role action after := by
  cases action with
  | setup =>
      simp only [step, setup, Option.ite_none_left_eq_some, Option.map_eq_some_iff,
        Bool.and_eq_true, Bool.not_eq_true', not_and, Bool.not_eq_false] at taken
      obtain ⟨looped, party, stepped, rfl⟩ := taken
      exact .setup party looped stepped
  | postRecv =>
      simp only [step, postRecv, Option.ite_none_right_eq_some, Bool.and_eq_true,
        decide_eq_true_eq, Option.some.injEq] at taken
      obtain ⟨⟨posting, room⟩, rfl⟩ := taken
      exact .postRecv posting room
  | spawn =>
      simp only [step, spawn, Option.ite_none_right_eq_some, Bool.and_eq_true, beq_iff_eq,
        Bool.not_eq_true', Option.some.injEq] at taken
      obtain ⟨⟨⟨posting, looped⟩, silent⟩, rfl⟩ := taken
      exact .spawn posting looped silent
  | takeLock =>
      simp only [step, takeLock, Option.ite_none_right_eq_some, Bool.and_eq_true,
        Option.isNone_iff_eq_none, Option.some.injEq] at taken
      obtain ⟨⟨conn, free⟩, rfl⟩ := taken
      exact .takeLock conn free
  | load =>
      simp only [step, load] at taken
      split at taken
      · rename_i holds
        simp only [Option.ite_none_left_eq_some, Option.some.injEq] at taken
        obtain ⟨below, rfl⟩ := taken
        exact .load holds (Int.not_le.mp below)
      · cases taken
  | count =>
      simp only [step, count] at taken
      split at taken
      · rename_i holds
        cases taken
        exact .count holds
      · cases taken
  | post =>
      simp only [step, post] at taken
      split at taken
      · rename_i holds
        cases taken
        exact .post holds
      · cases taken
  | dispatch =>
      simp only [step, dispatch, Option.ite_none_right_eq_some, Bool.and_eq_true,
        decide_eq_true_eq, Option.some.injEq] at taken
      obtain ⟨⟨polls, arrived⟩, rfl⟩ := taken
      exact .dispatch polls arrived
  | recv =>
      simp only [step, recv, Option.ite_none_right_eq_some, Bool.and_eq_true,
        decide_eq_true_eq, Option.some.injEq] at taken
      obtain ⟨⟨conn, arrived⟩, rfl⟩ := taken
      exact .recv conn arrived

/-- The message that `sending` counts and that has not been posted yet. -/
def charged : Option Sending → Nat
  | some .counted => 1
  | _ => 0

/-- The message that `sending` has left room for and that has not been posted yet. -/
def admitted : Option Sending → Nat
  | some .admitted | some .counted => 1
  | _ => 0

/-- The order a side keeps within itself. As long as the peer has not answered, `sending`
bounds all that was posted. -/
structure Orderly (opener : Opener) : Prop where
  looped : opener.looped ≤ defaultRqeCount
  polling : opener.polls = true → opener.looped = defaultRqeCount
  idle : opener.polls = false → opener.dispatched = 0
  connected : opener.hasConn = true → opener.polls = true
  silent : opener.hasConn = false → opener.lock = none ∧ opener.posted = 0
  received : opener.taken ≤ opener.dispatched
  balance : opener.taken = 0 → opener.sending = opener.posted + charged opener.lock
  limit : opener.taken = 0 → opener.posted + admitted opener.lock ≤ defaultRqeCount

theorem Orderly.new (endpoint : EndPoint) (recvMr sendMr : MR) :
    (Opener.new endpoint recvMr sendMr).Orderly where
  looped := Nat.zero_le _
  polling := fun polls => by cases polls
  idle := fun _ => rfl
  connected := fun conn => by cases conn
  silent := fun _ => ⟨rfl, rfl⟩
  received := Nat.le_refl 0
  balance := fun _ => rfl
  limit := fun _ => Nat.zero_le _

theorem Orderly.holder {stage : Sending} (orderly : opener.Orderly)
    (holds : opener.lock = some stage) : opener.hasConn = true := by
  cases conn : opener.hasConn with
  | true => rfl
  | false =>
      rw [(orderly.silent conn).1] at holds
      cases holds

theorem Orderly.sends {sending : Int} {lock : Option Sending} {posted : Nat}
    (orderly : opener.Orderly) (conn : opener.hasConn = true)
    (first : opener.sending = opener.posted + charged opener.lock →
      opener.posted + admitted opener.lock ≤ defaultRqeCount →
      sending = posted + charged lock ∧ posted + admitted lock ≤ defaultRqeCount) :
    Orderly { opener with sending := sending, lock := lock, posted := posted } where
  looped := orderly.looped
  polling := orderly.polling
  idle := orderly.idle
  connected := orderly.connected
  silent := fun without => absurd (without.symm.trans conn) Bool.false_ne_true
  received := orderly.received
  balance := fun unanswered =>
    (first (orderly.balance unanswered) (orderly.limit unanswered)).1
  limit := fun unanswered => (first (orderly.balance unanswered) (orderly.limit unanswered)).2

theorem Orderly.step (orderly : opener.Orderly)
    (taken : opener.step peer role action = some after) : after.Orderly := by
  cases step_moves taken with
  | setup party looped stepped =>
      rcases Party.step_advance stepped with ⟨failed, -⟩ | advance
      · cases failed
      have gained := advance.hasConn
      refine { orderly with connected := ?_, silent := ?_ }
      · intro conn
        rcases Bool.or_eq_true_iff.mp (gained.symm.trans conn) with had | posting
        · exact orderly.connected had
        · exact looped posting
      · intro without
        exact orderly.silent (Bool.or_eq_false_iff.mp (gained.symm.trans without)).1
  | postRecv posting room =>
      refine { orderly with looped := room, polling := ?_ }
      intro polls
      exact absurd (orderly.polling polls) (Nat.ne_of_lt room)
  | spawn posting looped quiet =>
      exact { orderly with polling := fun _ => looped, idle := nofun, connected := fun _ => rfl }
  | takeLock conn free =>
      apply orderly.sends conn
      intro balance limit
      rw [free] at balance limit
      exact ⟨balance, limit⟩
  | load holds below =>
      apply orderly.sends (orderly.holder holds)
      intro balance limit
      rw [holds] at balance
      refine ⟨balance, ?_⟩
      change opener.sending = opener.posted + (0 : Nat) at balance
      change opener.sending < (defaultRqeCount : Int) at below
      change opener.posted + 1 ≤ defaultRqeCount
      omega
  | count holds =>
      apply orderly.sends (orderly.holder holds)
      intro balance limit
      rw [holds] at balance limit
      refine ⟨?_, limit⟩
      change opener.sending = opener.posted + (0 : Nat) at balance
      change opener.posted + 1 ≤ defaultRqeCount at limit
      change fetchAddI32 opener.sending 1 = opener.posted + (1 : Nat)
      have upper : opener.sending + 1 ≤ (defaultRqeCount : Int) := by omega
      rw [Endpoint.fetchAddI32_eq (by unfold maxSending; omega) upper]
      omega
  | post holds =>
      apply orderly.sends (orderly.holder holds)
      intro balance limit
      rw [holds] at balance limit
      exact ⟨balance, limit⟩
  | dispatch polls arrived =>
      refine { orderly with idle := ?_, received := Nat.le_succ_of_le orderly.received }
      intro without
      exact absurd (without.symm.trans polls) Bool.false_ne_true
  | recv conn arrived =>
      exact { orderly with received := arrived, balance := nofun, limit := nofun }

/-- The rounds of the loop, one after the other. -/
theorem loop_run (posting : opener.party.phase.posting = true) (n : Nat)
    (room : opener.looped + n ≤ defaultRqeCount) :
    Run (fun before action => before.step peer role action) Any opener
      { opener with looped := opener.looped + n } := by
  induction n with
  | zero => exact .refl
  | succ n ih =>
      apply (ih (Nat.le_of_succ_le room)).next .postRecv trivial
      exact if_pos (Bool.and_eq_true_iff.mpr ⟨posting, decide_eq_true room⟩)

theorem setup_returns {remoteMr : RemoteMR} (phase : opener.party.phase = .postRecvs remoteMr)
    (polls : opener.polls = true) : ∃ party, opener.setup peer role =
      some { opener with party := party } ∧ party.phase.hasConn = true := by
  let conn := Endpoint.new opener.party.recvMr opener.party.sendMr remoteMr
  refine ⟨{ opener.party with phase := .handOut { conn with receives := defaultRqeCount } },
    ?_, rfl⟩
  unfold setup Party.step
  rw [polls, Bool.not_true, Bool.and_false, phase]
  rfl

/-- A side on its own, whatever its peer does, comes from the loop to its next post. -/
theorem post_run {remoteMr : RemoteMR} (phase : opener.party.phase = .postRecvs remoteMr)
    (looped : opener.looped ≤ defaultRqeCount) (quiet : opener.polls = false)
    (free : opener.lock = none) (below : opener.sending < maxSending) :
    ∃ after, Run (fun before action => before.step peer role action) Any opener after ∧
      after.lock = some .counted ∧ after.posted = opener.posted := by
  have posting : opener.party.phase.posting = true := by rw [phase]; rfl
  let filled : Opener := { opener with looped := defaultRqeCount }
  have loop : Run (fun before action => before.step peer role action) Any opener filled := by
    have rounds := @loop_run opener peer role posting (defaultRqeCount - opener.looped) (by omega)
    rw [Nat.add_sub_cancel' looped] at rounds
    exact rounds
  let polling : Opener := { filled with polls := true }
  obtain ⟨party, returns, conn⟩ := @setup_returns polling peer role remoteMr phase rfl
  let connected : Opener := { polling with party := party }
  let locked : Opener := { connected with lock := some .locked }
  let letIn : Opener := { locked with lock := some .admitted }
  refine ⟨{ letIn with sending := fetchAddI32 opener.sending 1, lock := some .counted }, ?_,
    rfl, rfl⟩
  have spawned : filled.step peer role .spawn = some polling := by
    apply if_pos
    rw [show filled.party.phase.posting = true from posting,
      show filled.polls = false from quiet, show filled.looped = defaultRqeCount from rfl,
      beq_self_eq_true]
    rfl
  have entered : connected.step peer role .takeLock = some locked := by
    apply if_pos
    rw [show connected.hasConn = true from conn, show connected.lock = none from free]
    rfl
  have loaded : locked.step peer role .load = some letIn :=
    if_neg (Int.not_le.mpr below)
  exact ((((loop.next .spawn trivial spawned).next .setup trivial returns).next .takeLock
    trivial entered).next .load trivial loaded).next .count trivial rfl

end Opener

namespace Opening

variable {endpoint : Side → EndPoint} {recvMr sendMr : Side → MR} {opening after : Opening}
  {side : Side} {action : Side × Opener.Action}

theorem step_cases (taken : opening.step action = some after) :
    ∃ opener, (opening action.1).step (opening action.1.other) action.1 action.2 = some opener ∧
      after = Function.update opening action.1 opener := by
  obtain ⟨opener, stepped, same⟩ := Option.map_eq_some_iff.mp taken
  exact ⟨opener, stepped, same.symm⟩

theorem setup_update (opening : Opening) (side : Side) (opener : Opener) :
    setup (Function.update opening side opener) =
      Function.update opening.setup side opener.party := by
  funext chosen
  by_cases own : chosen = side
  · subst own
    simp only [setup, Function.update_self]
  · simp only [setup, Function.update_of_ne own]

theorem step_setup (taken : opening.step action = some after) :
    after.setup = opening.setup ∨
      opening.setup.step (action.1, .success) = some after.setup := by
  obtain ⟨side, call⟩ := action
  obtain ⟨opener, stepped, rfl⟩ := step_cases taken
  rw [setup_update]
  cases Opener.step_moves stepped with
  | setup party looped called =>
      right
      exact Option.map_eq_some_iff.mpr ⟨party, called, rfl⟩
  | postRecv | spawn | takeLock | load | count | post | dispatch | recv =>
      exact Or.inl (Function.update_eq_self _ _)

/-- What the two sides do beside it does not disturb the setup. -/
theorem run_setup (run : Run step Any (new endpoint recvMr sendMr) opening) :
    Run Setup.step Setup.Successful (Setup.new endpoint recvMr sendMr) opening.setup := by
  refine run.simulates setup ?_
  intro before action after _ _ taken
  exact (step_setup taken).imp_right fun called => ⟨(action.1, .success), rfl, called⟩

/-- Both sides are orderly, and no side handles a message that was not posted. -/
structure Paired (opening : Opening) : Prop where
  orderly : ∀ side, (opening side).Orderly
  dispatched : ∀ side, (opening side).dispatched ≤ (opening side.other).posted

theorem Paired.new (endpoint : Side → EndPoint) (recvMr sendMr : Side → MR) :
    Paired (.new endpoint recvMr sendMr) where
  orderly _ := .new _ _ _
  dispatched _ := Nat.le_refl 0

/-- `dispatched` of one side and `posted` of the other only grow. -/
theorem moves_counts {opener peer after : Opener} {role : Side} {action : Opener.Action}
    (moves : Opener.Moves opener peer role action after) : opener.posted ≤ after.posted ∧
      (opener.dispatched ≤ peer.posted → after.dispatched ≤ peer.posted) := by
  cases moves with
  | post => exact ⟨Nat.le_succ _, id⟩
  | dispatch polls arrived => exact ⟨Nat.le_refl _, fun _ => arrived⟩
  | setup | postRecv | spawn | takeLock | load | count | recv => exact ⟨Nat.le_refl _, id⟩

theorem Paired.step (paired : opening.Paired) (taken : opening.step action = some after) :
    after.Paired := by
  obtain ⟨opener, stepped, rfl⟩ := step_cases taken
  obtain ⟨grown, behind⟩ := moves_counts (Opener.step_moves stepped)
  have known := paired.dispatched action.1.other
  rw [Side.other_other] at known
  exact
    { orderly := Side.forall_update (fun _ (mine _ : Opener) => mine.Orderly)
        ((paired.orderly action.1).step stepped) (paired.orderly action.1.other)
      dispatched := Side.forall_update
        (fun _ (mine peer : Opener) => mine.dispatched ≤ peer.posted)
        (behind (paired.dispatched action.1)) (Nat.le_trans known grown) }

theorem run_paired (run : Run step Any (new endpoint recvMr sendMr) opening) : opening.Paired :=
  run.invariant Paired (.new endpoint recvMr sendMr) fun _ _ _ paired _ taken => paired.step taken

/-- A side that has its `Conn` has read the message its peer sends once its queue pair is
ready to send and its receive buffer registered. -/
theorem peer_set_up (run : Run step Any (new endpoint recvMr sendMr) opening)
    (conn : (opening side).hasConn = true) :
    (opening side.other).party.qp.status = .rts ∧
      (opening side.other).party.phase.registered = true := by
  have live := Setup.run_successful (run_setup run)
  have read : (opening.setup side).phase.taken = 38 := by
    unfold Opener.hasConn at conn
    change (opening side).party.phase.taken = 38
    cases phase : (opening side).party.phase with
    | handOut | handedOut => rfl
    | _ =>
        rw [phase] at conn
        cases conn
  have written := (live.inStep side).written (live.honest side.other) read
  have status := (live.inStep side.other).status
  change (opening side.other).party.phase.written = 38 at written
  change (opening side.other).party.qp.status = (opening side.other).party.phase.status at status
  cases phase : (opening side.other).party.phase with
  | recvMr | newConn | postRecvs | handOut | handedOut =>
      rw [phase] at status
      exact ⟨status, rfl⟩
  | _ =>
      rw [phase] at written
      cases written

/-- A side whose peer has no `Conn` yet has had no answer, so that `sending` has counted
every message: there are no more than the loop of the peer posts receives. -/
theorem posts_bounded (paired : opening.Paired) (posts : opening.Posts side)
    (without : (opening side.other).hasConn = false) :
    (opening side).posted + 1 ≤ defaultRqeCount := by
  have orderly := paired.orderly side
  have unanswered : (opening side).taken = 0 := by
    have received := orderly.received
    have behind := paired.dispatched side
    have silent := ((paired.orderly side.other).silent without).2
    omega
  have limit := orderly.limit unanswered
  rw [posts] at limit
  exact limit

/-- The peer has left the loop that posts its receives, or the loop is already ahead of
the messages. -/
def Supplied (opening : Opening) (side : Side) : Prop :=
  (opening side.other).polls = true ∨ (opening side).posted < (opening side.other).looped

theorem receives_iff (paired : opening.Paired) (posts : opening.Posts side) :
    ((opening side.other).hasConn = false →
      (opening side).posted + 1 ≤ (opening side.other).receives) ↔ opening.Supplied side := by
  have orderly := paired.orderly side.other
  constructor
  · intro enough
    cases polls : (opening side.other).polls with
    | true => exact Or.inl polls
    | false =>
        right
        have without : (opening side.other).hasConn = false := by
          cases conn : (opening side.other).hasConn with
          | false => rfl
          | true => exact absurd (polls.symm.trans (orderly.connected conn)) Bool.false_ne_true
        have ahead := enough without
        rw [Opener.receives, orderly.idle polls] at ahead
        exact ahead
  · intro supplied without
    apply Nat.le_trans _ (Nat.le_add_right _ _)
    rcases supplied with polls | ahead
    · rw [orderly.polling polls]
      exact posts_bounded paired posts without
    · exact ahead

/-- Ready before the first message: the two messages of the setup order the queue pair and
the receive buffer of the peer before any post, and its receives they do not. -/
theorem ready_before_message (endpoint : Side → EndPoint) (recvMr sendMr : Side → MR)
    (opening : Opening) (side : Side) (run : Run step Any (new endpoint recvMr sendMr) opening)
    (posts : opening.Posts side) :
    ((opening side.other).party.qp.status = .rts ∧
      (opening side.other).party.phase.registered = true) ∧
    (opening.Ready side ↔ opening.Supplied side) := by
  have paired := run_paired run
  have setUp := peer_set_up run ((paired.orderly side).holder posts)
  refine ⟨setUp, ?_⟩
  rw [← receives_iff paired posts]
  exact ⟨Ready.receives, fun enough => ⟨Or.inr setUp.1, setUp.2, enough⟩⟩

theorem solo {opener : Opener}
    (run : Run (fun before call => before.step (opening side.other) side call) Any
      (opening side) opener) : Run step Any opening (Function.update opening side opener) := by
  induction run with
  | refl =>
      rw [Function.update_eq_self]
      exact .refl
  | next run call _ taken ih =>
      apply ih.next (side, call) trivial
      unfold step
      rw [Function.update_self, Function.update_of_ne side.other_ne, taken]
      simp only [Option.map_some, Function.update_idem]

def upToConn : List (Side × Opener.Action) :=
  (List.range 9).flatMap fun _ => [(.client, .setup), (.server, .setup)]

/-- At the start of its loop, with nothing sent. -/
def atLoop (opening : Opening) (side : Side) : Bool :=
  (opening side).party.phase.posting && (opening side).looped == 0 && !(opening side).polls &&
    (opening side).lock.isNone && (opening side).sending == 0 && (opening side).posted == 0

theorem first_post (run : Run step Any (new endpoint recvMr sendMr) opening)
    (waits : opening.atLoop side = true) :
    ∃ after, Run step Any (new endpoint recvMr sendMr) after ∧ after.Posts side ∧
      (after side).posted = 0 ∧ after side.other = opening side.other := by
  simp only [atLoop, Bool.and_eq_true, beq_iff_eq, Bool.not_eq_true',
    Option.isNone_iff_eq_none] at waits
  obtain ⟨⟨⟨⟨⟨posting, looped⟩, quiet⟩, free⟩, sending⟩, posted⟩ := waits
  obtain ⟨remoteMr, phase⟩ : ∃ remoteMr, (opening side).party.phase = .postRecvs remoteMr := by
    cases phase : (opening side).party.phase with
    | postRecvs remoteMr => exact ⟨remoteMr, rfl⟩
    | _ =>
        rw [phase] at posting
        cases posting
  have start : (opening side).looped ≤ defaultRqeCount := looped ▸ Nat.zero_le _
  obtain ⟨opener, alone, counted, same⟩ :=
    @Opener.post_run (opening side) (opening side.other) side remoteMr phase start quiet free
      (by rw [sending]; decide)
  refine ⟨Function.update opening side opener, run.trans (solo alone), ?_, ?_, ?_⟩
  · unfold Posts
    rw [Function.update_self]
    exact counted
  · rw [Function.update_self, same, posted]
  · exact Function.update_of_ne side.other_ne _ _

/-- The client is at its loop when the server has posted `n` receives. -/
def clientAtLoop (n : Nat) (opening : Opening) : Bool :=
  opening.atLoop .client && !(opening .server).hasConn && (opening .server).looped == n &&
    (opening .server).dispatched == 0

theorem sample_post (n : Nat) (calls : List (Side × Opener.Action))
    (reached : (Runs.exec step (new Setup.sampleEndpoint Setup.sampleRecvMr Setup.sampleSendMr)
      calls).any (clientAtLoop n) = true) :
    ∃ opening : Opening,
      Run step Any (new Setup.sampleEndpoint Setup.sampleRecvMr Setup.sampleSendMr) opening ∧
        opening.Posts .client ∧ (opening .client).posted = 0 ∧
        (opening .server).hasConn = false ∧ (opening .server).looped = n ∧
        (opening .server).receives = n := by
  obtain ⟨before, run, holds⟩ := Run.exists_of_exec _ _ reached
  simp only [clientAtLoop, Bool.and_eq_true, Bool.not_eq_true', beq_iff_eq] at holds
  obtain ⟨⟨⟨waits, without⟩, looped⟩, dispatched⟩ := holds
  obtain ⟨opening, run, posts, posted, same⟩ := first_post run waits
  change opening .server = before .server at same
  refine ⟨opening, run, posts, posted, ?_, ?_, ?_⟩
  · rw [same, without]
  · rw [same, looped]
  · rw [same, Opener.receives, looped, dispatched, Nat.add_zero]

theorem ready_before_message_one_receive : ∃ opening : Opening,
    Run step Any (new Setup.sampleEndpoint Setup.sampleRecvMr Setup.sampleSendMr) opening ∧
      opening.Posts .client ∧ (opening .server).hasConn = false ∧
      (opening .server).receives = 1 ∧ opening.Ready .client := by
  obtain ⟨opening, run, posts, posted, without, looped, receives⟩ := sample_post 1
    (upToConn ++ [(.client, .setup), (.server, .setup), (.server, .postRecv)]) (by decide +kernel)
  refine ⟨opening, run, posts, without, receives, ?_⟩
  refine (ready_before_message _ _ _ opening .client run posts).2.mpr (Or.inr ?_)
  change (opening .client).posted < (opening .server).looped
  rw [posted, looped]
  exact Nat.one_pos

/-- The client posts a message while the server is in `SendBuffer::new`. The server has
sent the address of its receive buffer and posted no receive. -/
theorem post_without_receive : ∃ opening : Opening,
    Run step Any (new Setup.sampleEndpoint Setup.sampleRecvMr Setup.sampleSendMr) opening ∧
      opening.Posts .client ∧ (opening .server).receives = 0 ∧ ¬ opening.Ready .client := by
  obtain ⟨opening, run, posts, posted, without, looped, receives⟩ := sample_post 0
    (upToConn ++ [(.client, .setup)]) (by decide +kernel)
  refine ⟨opening, run, posts, receives, ?_⟩
  intro ready
  have enough : (opening .client).posted + 1 ≤ (opening .server).receives :=
    ready.receives without
  rw [receives] at enough
  exact absurd enough (Nat.not_succ_le_zero _)

end Opening

end Ibv
