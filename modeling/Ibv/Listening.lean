import Ibv.SetupAgreement

set_option autoImplicit false

namespace Ibv

open Runs (Run)

/-- What has become of the `Server`. Its `accept` unwraps, so it panics once the task is gone
and the channel empty. -/
inductive Acceptor where
  | receiving
  | dropped
  | panicked
deriving DecidableEq, Repr

def channelCapacity : Nat := 10

/-- `exchange` holds both sides of the setup with each peer. The streams of `backlog` wait for
`listener.accept()`, which has given those of `served` to the task; `serving` is the one it is
busy with. The `Conn`s in `channel` wait for the calls of `accept`, which have returned
`accepted`. Each stands with the peer it belongs to, which the code does not see. -/
structure Listening (Peer : Type) where
  exchange : Peer → Setup
  backlog : List Peer
  served : List Peer
  serving : Option Peer
  accepting : Bool
  channel : List (Peer × Endpoint)
  accepted : List (Peer × Endpoint)
  acceptor : Acceptor

namespace Listening

variable {Peer : Type}

def new (exchange : Peer → Setup) : Listening Peer where
  exchange := exchange
  backlog := []
  served := []
  serving := none
  accepting := true
  channel := []
  accepted := []
  acceptor := .receiving

inductive Action (Peer : Type) where
  /-- `TcpStream::connect`. -/
  | connect (peer : Peer)
  /-- The next call of `connect` behind it. -/
  | client (peer : Peer) (outcome : Outcome)
  /-- `listener.accept()`. -/
  | listen (succeeds : Bool)
  /-- The next call of the iteration. -/
  | server (outcome : Outcome)
  | accept
  | drop
deriving DecidableEq, Repr

def arrived (listening : Listening Peer) : List Peer := listening.served ++ listening.backlog

/-- `sender.send(conn)` waits for a free place, and fails once the `Server` is gone. -/
def sends (listening : Listening Peer) : Outcome → Bool
  | .success =>
      decide (listening.acceptor = .receiving ∧ listening.channel.length < channelCapacity)
  | .failure _ => decide (listening.acceptor ≠ .receiving)

def admits (listening : Listening Peer) (phase : Phase) (outcome : Outcome) : Bool :=
  match phase with
  | .handOut _ => listening.sends outcome
  | _ => true

variable [DecidableEq Peer]

/-- After a call of the iteration. A `break` or a panic ends the task. -/
def settle (listening : Listening Peer) (peer : Peer) (setup : Setup) : Listening Peer :=
  let after := { listening with exchange := Function.update listening.exchange peer setup }
  match (setup .server).phase with
  | .handedOut conn =>
      { after with serving := none, channel := listening.channel ++ [(peer, conn)] }
  | .closed | .panicked => { after with accepting := false }
  | _ => after

/-- `Server::accept`. -/
def accept (listening : Listening Peer) : Option (Listening Peer) :=
  if listening.acceptor = .receiving then
    match listening.channel with
    | first :: rest =>
        some { listening with channel := rest, accepted := listening.accepted ++ [first] }
    | [] => if listening.accepting then none else some { listening with acceptor := .panicked }
  else none

def listen (listening : Listening Peer) (succeeds : Bool) : Option (Listening Peer) :=
  if listening.accepting && listening.serving.isNone then
    if succeeds then
      match listening.backlog with
      | peer :: rest => some { listening with
          backlog := rest
          served := listening.served ++ [peer]
          serving := some peer }
      | [] => none
    else some { listening with accepting := false }
  else none

def serve (listening : Listening Peer) (outcome : Outcome) : Option (Listening Peer) :=
  match listening.serving with
  | some peer =>
      if listening.accepting &&
          listening.admits (listening.exchange peer .server).phase outcome then
        ((listening.exchange peer).step (.server, outcome)).map (listening.settle peer)
      else none
  | none => none

def step (listening : Listening Peer) : Action Peer → Option (Listening Peer)
  | .connect peer =>
      if listening.accepting ∧ peer ∉ listening.arrived then
        some { listening with backlog := listening.backlog ++ [peer] }
      else none
  | .client peer outcome =>
      if peer ∈ listening.arrived then
        ((listening.exchange peer).step (.client, outcome)).map fun setup =>
          { listening with exchange := Function.update listening.exchange peer setup }
      else none
  | .listen succeeds => listening.listen succeeds
  | .server outcome => listening.serve outcome
  | .accept => listening.accept
  | .drop =>
      if listening.acceptor = .receiving then some { listening with acceptor := .dropped }
      else none

inductive Moves (before : Listening Peer) : Action Peer → Listening Peer → Prop where
  | connected (peer : Peer) (alive : before.accepting = true) (fresh : peer ∉ before.arrived) :
      Moves before (.connect peer) { before with backlog := before.backlog ++ [peer] }
  | called (peer : Peer) (outcome : Outcome) (setup : Setup) (arrived : peer ∈ before.arrived)
      (taken : (before.exchange peer).step (.client, outcome) = some setup) :
      Moves before (.client peer outcome)
        { before with exchange := Function.update before.exchange peer setup }
  | listened (peer : Peer) (rest : List Peer) (alive : before.accepting = true)
      (idle : before.serving = none) (first : before.backlog = peer :: rest) :
      Moves before (.listen true) { before with
        backlog := rest
        served := before.served ++ [peer]
        serving := some peer }
  | refused (alive : before.accepting = true) (idle : before.serving = none) :
      Moves before (.listen false) { before with accepting := false }
  | served (peer : Peer) (outcome : Outcome) (setup : Setup) (alive : before.accepting = true)
      (serving : before.serving = some peer)
      (taken : (before.exchange peer).step (.server, outcome) = some setup)
      (going : (setup .server).phase.stopped = false)
      (unfinished : ∀ conn, (setup .server).phase ≠ .handedOut conn) :
      Moves before (.server outcome)
        { before with exchange := Function.update before.exchange peer setup }
  | passed (peer : Peer) (outcome : Outcome) (conn : Endpoint) (setup : Setup)
      (alive : before.accepting = true) (serving : before.serving = some peer)
      (taken : (before.exchange peer).step (.server, outcome) = some setup)
      (handed : (setup .server).phase = .handedOut conn)
      (room : before.channel.length < channelCapacity) :
      Moves before (.server outcome) { before with
        exchange := Function.update before.exchange peer setup
        serving := none
        channel := before.channel ++ [(peer, conn)] }
  | ended (peer : Peer) (outcome : Outcome) (setup : Setup) (alive : before.accepting = true)
      (serving : before.serving = some peer)
      (taken : (before.exchange peer).step (.server, outcome) = some setup)
      (stopped : (setup .server).phase.stopped = true) :
      Moves before (.server outcome) { before with
        exchange := Function.update before.exchange peer setup
        accepting := false }
  | accepted (first : Peer × Endpoint) (rest : List (Peer × Endpoint))
      (receiving : before.acceptor = .receiving) (shape : before.channel = first :: rest) :
      Moves before .accept
        { before with channel := rest, accepted := before.accepted ++ [first] }
  | panicked (gone : before.accepting = false) (empty : before.channel = []) :
      Moves before .accept { before with acceptor := .panicked }
  | dropped : Moves before .drop { before with acceptor := .dropped }

end Listening

theorem Party.step_handed {party after : Party} {role : Side} {incoming : List UInt8}
    {outcome : Outcome} {conn : Endpoint} (taken : party.step role incoming outcome = some after)
    (handed : after.phase = .handedOut conn) :
    party.phase = .handOut conn ∧ outcome = .success := by
  rcases Party.step_advance taken with ⟨-, stopped⟩ | advance
  · rw [handed] at stopped
    cases stopped
  · cases advance with
    | handed conn' phase =>
        cases handed
        refine ⟨phase, ?_⟩
        cases outcome with
        | success => rfl
        | failure count => cases role <;> simp [Party.step, phase] at taken
    | _ => cases handed

namespace Listening

variable {Peer : Type} [DecidableEq Peer] {before after : Listening Peer} {action : Action Peer}

theorem settle_moves {peer : Peer} {outcome : Outcome} {setup : Setup}
    (alive : before.accepting = true) (serving : before.serving = some peer)
    (admits : before.admits (before.exchange peer .server).phase outcome = true)
    (taken : (before.exchange peer).step (.server, outcome) = some setup) :
    before.Moves (.server outcome) (before.settle peer setup) := by
  unfold settle
  cases phase : (setup .server).phase with
  | handedOut conn =>
      obtain ⟨party, stepped, rfl⟩ := Setup.step_cases taken
      rw [Function.update_self] at phase
      obtain ⟨last, rfl⟩ := Party.step_handed stepped phase
      refine .passed peer .success conn _ alive serving taken ?_ ?_
      · rw [Function.update_self, phase]
      · rw [last] at admits
        exact (of_decide_eq_true admits).2
  | closed | panicked => exact .ended peer outcome setup alive serving taken (by rw [phase]; rfl)
  | _ => exact .served peer outcome setup alive serving taken (by rw [phase]; rfl) (by simp [phase])

theorem step_moves (taken : before.step action = some after) : before.Moves action after := by
  cases action with
  | connect peer =>
      simp only [step, Option.ite_none_right_eq_some, Option.some.injEq] at taken
      obtain ⟨⟨alive, fresh⟩, rfl⟩ := taken
      exact .connected peer alive fresh
  | client peer outcome =>
      simp only [step, Option.ite_none_right_eq_some, Option.map_eq_some_iff] at taken
      obtain ⟨arrived, setup, taken, rfl⟩ := taken
      exact .called peer outcome setup arrived taken
  | listen succeeds =>
      simp only [step, listen, Option.ite_none_right_eq_some, Bool.and_eq_true,
        Option.isNone_iff_eq_none] at taken
      obtain ⟨⟨alive, idle⟩, taken⟩ := taken
      cases succeeds with
      | true =>
          cases first : before.backlog with
          | nil => simp [first] at taken
          | cons peer rest =>
              simp only [first, ↓reduceIte, Option.some.injEq] at taken
              exact taken ▸ .listened peer rest alive idle first
      | false =>
          simp only [Bool.false_eq_true, ↓reduceIte, Option.some.injEq] at taken
          exact taken ▸ .refused alive idle
  | server outcome =>
      cases serving : before.serving with
      | none => simp [step, serve, serving] at taken
      | some peer =>
          simp only [step, serve, serving, Option.ite_none_right_eq_some, Bool.and_eq_true,
            Option.map_eq_some_iff] at taken
          obtain ⟨⟨alive, admits⟩, setup, taken, rfl⟩ := taken
          exact settle_moves alive serving admits taken
  | accept =>
      simp only [step, accept, Option.ite_none_right_eq_some] at taken
      obtain ⟨receiving, taken⟩ := taken
      cases shape : before.channel with
      | nil =>
          simp only [shape, Option.ite_none_left_eq_some, Bool.not_eq_true,
            Option.some.injEq] at taken
          obtain ⟨gone, rfl⟩ := taken
          have moves := Moves.panicked gone shape
          rwa [shape] at moves
      | cons first rest =>
          simp only [shape, Option.some.injEq] at taken
          exact taken ▸ .accepted first rest receiving shape
  | drop =>
      simp only [step, Option.ite_none_right_eq_some, Option.some.injEq] at taken
      obtain ⟨-, rfl⟩ := taken
      exact .dropped

def Meets (ok : Setup → Side × Outcome → Prop) (listening : Listening Peer) :
    Action Peer → Prop
  | .client peer outcome => ok (listening.exchange peer) (.client, outcome)
  | .server outcome =>
      ∀ peer, listening.serving = some peer → ok (listening.exchange peer) (.server, outcome)
  | _ => True

theorem Moves.exchange {ok : Setup → Side × Outcome → Prop} (moves : before.Moves action after)
    (meets : Meets ok before action) (peer : Peer) :
    after.exchange peer = before.exchange peer ∨ ∃ call, ok (before.exchange peer) call ∧
      (before.exchange peer).step call = some (after.exchange peer) := by
  have own : ∀ (chosen : Peer) (call : Side × Outcome) (setup : Setup),
      ok (before.exchange chosen) call → (before.exchange chosen).step call = some setup →
      Function.update before.exchange chosen setup peer = before.exchange peer ∨
        ∃ call, ok (before.exchange peer) call ∧ (before.exchange peer).step call =
          some (Function.update before.exchange chosen setup peer) := by
    intro chosen call setup allowed taken
    by_cases same : peer = chosen
    · subst same
      rw [Function.update_self]
      exact .inr ⟨call, allowed, taken⟩
    · exact .inl (Function.update_of_ne same _ _)
  cases moves with
  | called chosen outcome setup arrived taken => exact own chosen _ setup meets taken
  | served chosen outcome setup alive serving taken
  | passed chosen outcome _ setup alive serving taken
  | ended chosen outcome setup alive serving taken =>
      exact own chosen _ setup (meets chosen serving) taken
  | _ => exact .inl rfl

/-- Whatever the others do, the setup with each peer is one of two sides. -/
theorem run_exchange {ok : Setup → Side × Outcome → Prop} {exchange : Peer → Setup}
    (run : Run step (Meets ok) (new exchange) after) (peer : Peer) :
    Run Setup.step ok (exchange peer) (after.exchange peer) :=
  run.simulates (fun listening => listening.exchange peer) fun _ _ _ _ meets taken =>
    (step_moves taken).exchange meets peer

end Listening

end Ibv
