import Mathlib.Data.List.Nodup
import Ibv.Listening
import Ibv.SetupProgress

set_option autoImplicit false

namespace Ibv

open Runs (Run Observed)

theorem Setup.step_other {before after : Setup} {side : Side} {outcome : Outcome}
    (taken : before.step (side, outcome) = some after) : after side.other = before side.other := by
  obtain ⟨party, -, rfl⟩ := Setup.step_cases taken
  exact Function.update_of_ne side.other_ne _ _

namespace Listening

variable {Peer : Type}

def setups (endpoint : Peer → Side → EndPoint) (recvMr sendMr : Peer → Side → MR)
    (peer : Peer) : Setup :=
  .new (endpoint peer) (recvMr peer) (sendMr peer)

/-- No call of a setup fails that `setup_agreement` needs. -/
abbrev Unfailing [DecidableEq Peer] : Listening Peer → Action Peer → Prop :=
  Meets Setup.Unfailing

/-- The stream that is opened. -/
def Action.opens : Action Peer → List Peer
  | .connect peer => [peer]
  | _ => []

abbrev opens (_ : Listening Peer) (action : Action Peer) : List Peer := action.opens

/-- The streams are served one after the other, in the order in which they were opened, and
every one but the last has had its `Conn` put into the channel. -/
structure Sound (exchange : Peer → Setup) (listening : Listening Peer) : Prop where
  distinct : listening.arrived.Nodup
  passed : listening.served =
    (listening.accepted ++ listening.channel).map Prod.fst ++ listening.serving.toList
  room : listening.channel.length ≤ channelCapacity
  handed : ∀ entry ∈ listening.accepted ++ listening.channel,
    (listening.exchange entry.1 .server).phase = .handedOut entry.2
  current : ∀ peer, listening.serving = some peer →
    ∀ conn, (listening.exchange peer .server).phase ≠ .handedOut conn
  unserved : ∀ peer, peer ∉ listening.served →
    listening.exchange peer .server = exchange peer .server
  absent : ∀ peer, peer ∉ listening.arrived → listening.exchange peer = exchange peer
  gone : listening.acceptor = .panicked →
    listening.accepting = false ∧ listening.channel = []

variable {exchange : Peer → Setup} {before after : Listening Peer}

theorem Sound.new (exchange : Peer → Setup) : Sound exchange (new exchange) where
  distinct := List.nodup_nil
  passed := rfl
  room := Nat.zero_le _
  handed := by simp [Listening.new]
  current := by simp [Listening.new]
  unserved _ _ := rfl
  absent _ _ := rfl
  gone := by simp [Listening.new]

namespace Sound

variable (sound : Sound exchange before)

include sound

/-- The peer whose stream is served has no `Conn` yet, and every other has kept its own. -/
theorem entry_ne {peer : Peer} (serving : before.serving = some peer) :
    ∀ entry ∈ before.accepted ++ before.channel, entry.1 ≠ peer := by
  intro entry member same
  have distinct := (List.nodup_append.mp sound.distinct).1
  rw [sound.passed, serving] at distinct
  exact (List.nodup_append.mp distinct).2.2 entry.1 (List.mem_map_of_mem member) peer
    (by simp) same

theorem serving_served {peer : Peer} (serving : before.serving = some peer) :
    peer ∈ before.served := by
  rw [sound.passed, serving]
  simp

theorem serving_arrived {peer : Peer} (serving : before.serving = some peer) :
    peer ∈ before.arrived :=
  List.mem_append_left _ (sound.serving_served serving)

theorem accepted_arrived :
    before.accepted.map Prod.fst ++ (before.channel.map Prod.fst ++
      (before.serving.toList ++ before.backlog)) = before.arrived := by
  rw [arrived, sound.passed]
  simp

theorem served_length :
    before.served.length ≤ before.accepted.length + before.channel.length + 1 := by
  have single : before.serving.toList.length ≤ 1 := Option.length_toList_le
  rw [sound.passed, List.length_append, List.length_map, List.length_append]
  omega

theorem connect {peer : Peer} (fresh : peer ∉ before.arrived) :
    Sound exchange { before with backlog := before.backlog ++ [peer] } := by
  refine ⟨?_, sound.passed, sound.room, sound.handed, sound.current, sound.unserved, ?_,
    sound.gone⟩
  · change (before.served ++ (before.backlog ++ [peer])).Nodup
    rw [← List.append_assoc]
    exact List.nodup_append.mpr ⟨sound.distinct, List.nodup_singleton _, by
      rintro chosen member _ own rfl
      rw [List.mem_singleton] at own
      exact fresh (own ▸ member)⟩
  · intro chosen absent
    apply sound.absent chosen
    intro member
    apply absent
    change chosen ∈ before.served ++ (before.backlog ++ [peer])
    rw [← List.append_assoc]
    exact List.mem_append_left _ member

theorem listen {peer : Peer} {rest : List Peer} (idle : before.serving = none)
    (fresh : ∀ peer conn, (exchange peer .server).phase ≠ .handedOut conn)
    (first : before.backlog = peer :: rest) :
    Sound exchange { before with
      backlog := rest
      served := before.served ++ [peer]
      serving := some peer } := by
  have same : before.served ++ [peer] ++ rest = before.arrived := by
    rw [arrived, first, List.append_assoc, List.singleton_append]
  have distinct := sound.distinct
  rw [arrived, first] at distinct
  have unserved : peer ∉ before.served := fun member =>
    (List.nodup_append.mp distinct).2.2 peer member peer List.mem_cons_self rfl
  refine ⟨?_, ?_, sound.room, sound.handed, ?_, ?_, ?_, sound.gone⟩
  · change (before.served ++ [peer] ++ rest).Nodup
    rw [same]
    exact sound.distinct
  · change before.served ++ [peer] = _ ++ [peer]
    rw [sound.passed, idle, Option.toList_none, List.append_nil]
  · intro chosen own conn
    cases own
    dsimp only
    rw [sound.unserved peer unserved]
    exact fresh peer conn
  · intro chosen absent
    exact sound.unserved chosen fun member => absent (List.mem_append_left _ member)
  · intro chosen absent
    apply sound.absent chosen
    rwa [← same]

theorem accept {first : Peer × Endpoint} {rest : List (Peer × Endpoint)}
    (receiving : before.acceptor = .receiving) (shape : before.channel = first :: rest) :
    Sound exchange { before with channel := rest, accepted := before.accepted ++ [first] } := by
  have same : before.accepted ++ [first] ++ rest = before.accepted ++ before.channel := by
    rw [shape, List.append_assoc, List.singleton_append]
  refine ⟨sound.distinct, ?_, ?_, ?_, sound.current, sound.unserved, sound.absent, ?_⟩
  · rw [same]
    exact sound.passed
  · have room := sound.room
    rw [shape, List.length_cons] at room
    exact Nat.le_of_succ_le room
  · rw [same]
    exact sound.handed
  · intro panicked
    rw [receiving] at panicked
    cases panicked

variable [DecidableEq Peer]

theorem unserved_update {peer : Peer} (serving : before.serving = some peer) (setup : Setup) :
    ∀ chosen, chosen ∉ before.served →
      Function.update before.exchange peer setup chosen .server = exchange chosen .server := by
  intro chosen unserved
  have other : chosen ≠ peer := by
    rintro rfl
    exact unserved (sound.serving_served serving)
  rw [Function.update_of_ne other]
  exact sound.unserved chosen unserved

theorem absent_update {peer : Peer} (arrived : peer ∈ before.arrived) (setup : Setup) :
    ∀ chosen, chosen ∉ before.arrived →
      Function.update before.exchange peer setup chosen = exchange chosen := by
  intro chosen absent
  have other : chosen ≠ peer := by
    rintro rfl
    exact absent arrived
  rw [Function.update_of_ne other]
  exact sound.absent chosen absent

theorem serve {peer : Peer} {setup : Setup}
    (serving : before.serving = some peer)
    (unfinished : ∀ conn, (setup .server).phase ≠ .handedOut conn) :
    Sound exchange
      { before with exchange := Function.update before.exchange peer setup } where
  distinct := sound.distinct
  passed := sound.passed
  room := sound.room
  handed := by
    intro entry member
    dsimp only
    rw [Function.update_of_ne (sound.entry_ne serving entry member)]
    exact sound.handed entry member
  current := by
    intro chosen same conn
    have own : chosen = peer := Option.some.inj (same.symm.trans serving)
    dsimp only
    rw [own, Function.update_self]
    exact unfinished conn
  unserved := sound.unserved_update serving setup
  absent := sound.absent_update (sound.serving_arrived serving) setup
  gone := sound.gone

theorem call {peer : Peer} {outcome : Outcome} {setup : Setup} (arrived : peer ∈ before.arrived)
    (taken : (before.exchange peer).step (.client, outcome) = some setup) :
    Sound exchange
      { before with exchange := Function.update before.exchange peer setup } := by
  have same : ∀ chosen, Function.update before.exchange peer setup chosen .server =
      before.exchange chosen .server := by
    intro chosen
    by_cases own : chosen = peer
    · rw [own, Function.update_self]
      exact Setup.step_other taken
    · rw [Function.update_of_ne own]
  refine ⟨sound.distinct, sound.passed, sound.room, ?_, ?_, ?_,
    sound.absent_update arrived setup, sound.gone⟩
  · simpa only [same] using sound.handed
  · simpa only [same] using sound.current
  · simpa only [same] using sound.unserved

theorem pass {peer : Peer} {conn : Endpoint} {setup : Setup}
    (alive : before.accepting = true) (serving : before.serving = some peer)
    (handed : (setup .server).phase = .handedOut conn)
    (room : before.channel.length < channelCapacity) :
    Sound exchange { before with
      exchange := Function.update before.exchange peer setup
      serving := none
      channel := before.channel ++ [(peer, conn)] } := by
  have other := sound.entry_ne serving
  refine ⟨sound.distinct, ?_, ?_, ?_, by simp, sound.unserved_update serving setup,
    sound.absent_update (sound.serving_arrived serving) setup, ?_⟩
  · have passed := sound.passed
    rw [serving] at passed
    simpa using passed
  · rw [List.length_append, List.length_singleton]
    exact room
  · intro entry member
    rw [← List.append_assoc, List.mem_append, List.mem_singleton] at member
    dsimp only
    rcases member with old | rfl
    · rw [Function.update_of_ne (other entry old)]
      exact sound.handed entry old
    · rw [Function.update_self, handed]
  · intro panicked
    have gone := (sound.gone panicked).1
    rw [alive] at gone
    cases gone

theorem step {action : Action Peer}
    (fresh : ∀ peer conn, (exchange peer .server).phase ≠ .handedOut conn)
    (taken : before.step action = some after) : Sound exchange after := by
  cases step_moves taken with
  | connected peer alive absent => exact sound.connect absent
  | called peer outcome setup arrived called => exact sound.call arrived called
  | listened peer rest alive idle first => exact sound.listen idle fresh first
  | served peer outcome setup alive serving taken going unfinished =>
      exact sound.serve serving unfinished
  | passed peer outcome conn setup alive serving taken handed room =>
      exact sound.pass alive serving handed room
  | ended peer outcome setup alive serving taken stopped =>
      have served := sound.serve serving fun conn handed => by
        rw [handed] at stopped
        cases stopped
      exact { served with gone := fun panicked => ⟨rfl, (served.gone panicked).2⟩ }
  | accepted first rest receiving shape => exact sound.accept receiving shape
  | refused alive idle => exact { sound with gone := fun panicked => ⟨rfl, (sound.gone panicked).2⟩ }
  | panicked gone empty => exact { sound with gone := fun _ => ⟨gone, empty⟩ }
  | dropped => exact { sound with gone := by simp }

end Sound

variable [DecidableEq Peer] {endpoint : Peer → Side → EndPoint} {recvMr sendMr : Peer → Side → MR}
  {listening : Listening Peer} {ok : Listening Peer → Action Peer → Prop} {action : Action Peer}

theorem run_sound (run : Run step ok (new (setups endpoint recvMr sendMr)) listening) :
    Sound (setups endpoint recvMr sendMr) listening :=
  run.invariant (Sound (setups endpoint recvMr sendMr)) (.new _)
    fun _ _ _ sound _ taken => sound.step (by simp [setups, Setup.new, Party.new]) taken

theorem step_arrived (taken : before.step action = some after) :
    after.arrived = before.arrived ++ action.opens := by
  cases step_moves taken with
  | connected peer => exact (List.append_assoc _ _ _).symm
  | listened peer rest alive idle first =>
      simp [arrived, Action.opens, first]
  | _ => exact (List.append_nil _).symm

theorem observed_arrived {exchange : Peer → Setup} {arrivals : List Peer}
    (run : Observed step ok opens (new exchange) arrivals listening) :
    listening.arrived = arrivals := by
  refine run.invariant (fun arrivals reached => reached.arrived = arrivals) rfl ?_
  intro seen before action after _ same _ taken
  rw [step_arrived taken, same]

end Listening

theorem Outcome.of_ok {outcome : Outcome} (ok : outcome.ok = true) : outcome = .success := by
  cases outcome with
  | success => rfl
  | failure count => cases ok

/-- Who has read nothing is not past its first receive. -/
theorem Phase.index_of_taken {phase : Phase} (unread : phase.taken = 0) :
    phase.stopped = true ∨ phase.index ≤ 3 := by
  cases phase <;> simp_all [taken, stopped, index]

namespace Listening

variable {Peer : Type} [DecidableEq Peer] {endpoint : Peer → Side → EndPoint}
  {recvMr sendMr : Peer → Side → MR} {listening start later : Listening Peer} {peer : Peer}

/-- The task has not made a call for the client, which waits for the endpoint of the server
unless it has ended. -/
def Unanswered (endpoint : Peer → Side → EndPoint) (recvMr sendMr : Peer → Side → MR)
    (listening : Listening Peer) (peer : Peer) : Prop :=
  listening.exchange peer .server =
      .new (endpoint peer .server) (recvMr peer .server) (sendMr peer .server) ∧
    ((listening.exchange peer .client).phase.stopped = true ∨
      (listening.exchange peer .client).phase.index ≤ 3)

theorem unserved_unanswered
    (run : Run step Unfailing (new (setups endpoint recvMr sendMr)) listening)
    (unserved : peer ∉ listening.served) :
    listening.Unanswered endpoint recvMr sendMr peer := by
  have fresh := (run_sound run).unserved peer unserved
  refine ⟨fresh, ?_⟩
  rcases Setup.run_live (run_exchange run peer) with ⟨side, stopped⟩ | live
  · cases side with
    | client => exact .inl stopped
    | server =>
        rw [fresh] at stopped
        cases stopped
  · have known := live.inStep .client
    have available := known.available
    have silent : (listening.exchange peer Side.client.other).sent = [] := by
      change (listening.exchange peer .server).sent = []
      rw [fresh]
      rfl
    rw [known.taken, silent, List.length_nil] at available
    exact Phase.index_of_taken (Nat.le_zero.mp available)

/- Clients that differ in their queue pairs and buffers, and the calls of one of them and of
the task that serves it. -/
def sampleEndpoints (peer : Nat) (side : Side) : EndPoint :=
  { Setup.sampleEndpoint side with qpn := (Setup.sampleEndpoint side).qpn + UInt32.ofNat peer }

def sampleMrs (peer : Nat) (side : Side) : MR :=
  { Setup.sampleRecvMr side with
    addr := (Setup.sampleRecvMr side).addr + UInt64.ofNat (peer * 2 ^ 32) }

def Action.succeeds : Action Peer → Bool
  | .client _ outcome | .server outcome => outcome.ok
  | .listen succeeds => succeeds
  | .drop => false
  | .connect _ | .accept => true

theorem Action.unfailing {action : Action Peer} (listening : Listening Peer)
    (succeeds : action.succeeds = true) : listening.Unfailing action := by
  cases action with
  | client peer outcome => exact fun _ => succeeds
  | server outcome => exact fun _ _ _ => succeeds
  | _ => trivial

def exampleCalls (peer : Nat) : List (Action Nat) :=
  List.replicate 3 (.client peer .success) ++ List.replicate 8 (.server .success) ++
    List.replicate 9 (.client peer .success) ++ List.replicate 4 (.server .success)

/-- The `Conn`s that `accept` returns are those of the clients in the order in which they have
opened their streams. While no `init`, receive of the endpoint, `ready_to_receive` or
`ready_to_send` fails, each is joined to the client it belongs to, unless that client has
ended, and where the client has its own `Conn` as well, that one is joined to it in turn. -/
theorem conns_in_order (endpoint : Peer → Side → EndPoint) (recvMr sendMr : Peer → Side → MR)
    (arrivals : List Peer) (listening : Listening Peer)
    (run : Observed step Unfailing opens (new (setups endpoint recvMr sendMr)) arrivals
      listening) :
    arrivals.Nodup ∧ listening.accepted.map Prod.fst <+: arrivals ∧
      (listening.acceptor = .panicked →
        listening.accepting = false ∧ listening.channel = []) ∧
      ∀ peer conn, (peer, conn) ∈ listening.accepted →
        (listening.exchange peer .client).phase.stopped = false →
        ((listening.exchange peer .server).qp.status = .rts ∧
          (listening.exchange peer .server).qp.dest = some (endpoint peer .client) ∧
          ∃ receives, receives ≤ defaultRqeCount ∧ conn =
            { System.new (recvMr peer) (sendMr peer) .server with receives := receives }) ∧
        ∀ conn', (listening.exchange peer .client).phase = .handedOut conn' →
          (listening.exchange peer .client).qp.status = .rts ∧
          (listening.exchange peer .client).qp.dest = some (endpoint peer .server) ∧
          ∃ receives, receives ≤ defaultRqeCount ∧ conn' =
            { System.new (recvMr peer) (sendMr peer) .client with receives := receives } := by
  have sound := run_sound run.run
  have arrived := observed_arrived run
  refine ⟨arrived ▸ sound.distinct, ?_, sound.gone, ?_⟩
  · rw [← arrived, ← sound.accepted_arrived]
    exact List.prefix_append _ _
  · intro peer conn member going
    have handed := sound.handed (peer, conn) (List.mem_append_left _ member)
    have live := (Setup.run_live (run_exchange run.run peer)).resolve_left (by
      rintro ⟨side, stopped⟩
      cases side with
      | client =>
          rw [going] at stopped
          cases stopped
      | server =>
          rw [handed] at stopped
          cases stopped)
    exact ⟨live.knows handed, fun conn' handed' => live.knows handed'⟩

theorem conns_in_order_two_clients : ∃ (listening : Listening Nat) (conn : Endpoint),
    Observed step Unfailing opens (new (setups sampleEndpoints sampleMrs sampleMrs)) [1, 0]
      listening ∧
      listening.accepted = [(1, conn)] ∧
      (listening.exchange 1 .server).qp.dest = some (sampleEndpoints 1 .client) := by
  obtain ⟨arrivals, listening, run, reached⟩ : ∃ arrivals listening,
      Observed step Unfailing opens (new (setups sampleEndpoints sampleMrs sampleMrs)) arrivals
          listening ∧
        (decide (arrivals = [1, 0] ∧ listening.accepted.map Prod.fst = [1]) &&
          !(listening.exchange 1 .client).phase.stopped) = true :=
    Observed.exists_of_observe (fun _ action => action.succeeds)
      (fun arrivals listening =>
        decide (arrivals = [1, 0] ∧ listening.accepted.map Prod.fst = [1]) &&
          !(listening.exchange 1 .client).phase.stopped)
      (fun listening _ => Action.unfailing listening)
      ([.connect 1, .connect 0, .listen true] ++ exampleCalls 1 ++ [.accept]) (by decide +kernel)
  simp only [Bool.and_eq_true, decide_eq_true_eq, Bool.not_eq_true'] at reached
  obtain ⟨⟨rfl, accepted⟩, going⟩ := reached
  obtain ⟨⟨peer, conn⟩, only, rfl⟩ := List.map_eq_singleton_iff.mp accepted
  obtain ⟨-, -, -, known⟩ := conns_in_order _ _ _ [1, 0] listening run
  obtain ⟨⟨-, dest, -⟩, -⟩ := known 1 conn (by rw [only]; exact List.mem_singleton_self _) going
  exact ⟨listening, conn, run, only, dest⟩

/-- The task is never more than eleven streams ahead of the calls of `accept`: ten `Conn`s in
the channel and one in its hand. All clients behind wait unanswered. (`Unfailing` is needed
for the calls of these clients alone.) -/
theorem listener_backpressure (endpoint : Peer → Side → EndPoint)
    (recvMr sendMr : Peer → Side → MR) (arrivals : List Peer) (listening : Listening Peer)
    (run : Observed step Unfailing opens (new (setups endpoint recvMr sendMr)) arrivals
      listening) :
    ∀ peer ∈ arrivals.drop (listening.accepted.length + (channelCapacity + 1)),
      listening.Unanswered endpoint recvMr sendMr peer := by
  have sound := run_sound run.run
  have room := sound.room
  have length := sound.served_length
  intro peer member
  apply unserved_unanswered run.run
  intro served
  rw [← observed_arrived run, arrived, List.drop_append,
    List.drop_eq_nil_of_le (by omega), List.nil_append] at member
  exact (List.nodup_append.mp sound.distinct).2.2 peer served peer (List.mem_of_mem_drop member) rfl

/-- Twelve clients. The `Conn`s of ten are in the channel and that of the eleventh waits for a
place, so the twelfth is not served. -/
theorem listener_backpressure_twelve_clients : ∃ listening : Listening Nat,
    Observed step Unfailing opens (new (setups sampleEndpoints sampleMrs sampleMrs))
      (List.range 12) listening ∧
      listening.channel.map Prod.fst = List.range 10 ∧ listening.serving = some 10 ∧
      listening.Unanswered sampleEndpoints sampleMrs sampleMrs 11 := by
  obtain ⟨arrivals, listening, run, reached⟩ : ∃ arrivals listening,
      Observed step Unfailing opens (new (setups sampleEndpoints sampleMrs sampleMrs)) arrivals
          listening ∧
        decide (arrivals = List.range 12 ∧ listening.accepted.length = 0 ∧
          listening.channel.map Prod.fst = List.range 10 ∧ listening.serving = some 10) = true :=
    Observed.exists_of_observe (fun _ action => action.succeeds)
      (fun arrivals listening =>
        decide (arrivals = List.range 12 ∧ listening.accepted.length = 0 ∧
          listening.channel.map Prod.fst = List.range 10 ∧ listening.serving = some 10))
      (fun listening _ => Action.unfailing listening)
      ((List.range 12).map .connect ++
        ((List.range 10).flatMap fun peer => .listen true :: exampleCalls peer) ++
        .listen true :: (exampleCalls 10).dropLast) (by decide +kernel)
  obtain ⟨rfl, accepted, channel, serving⟩ := of_decide_eq_true reached
  refine ⟨listening, run, channel, serving, ?_⟩
  apply listener_backpressure _ _ _ (List.range 12) listening run
  rw [accepted]
  decide

/-- The client that makes the step. -/
def Action.caller : Action Peer → Option Peer
  | .client peer _ => some peer
  | _ => none

/-- The calls of all others. -/
def Others (peer : Peer) (listening : Listening Peer) (action : Action Peer) : Prop :=
  listening.Unfailing action ∧ action.caller ≠ some peer

theorem others_client (run : Run step (Others peer) start later) :
    later.exchange peer .client = start.exchange peer .client := by
  refine run.invariant
    (fun reached => reached.exchange peer .client = start.exchange peer .client) rfl ?_
  intro before action after same others taken
  rw [← same]
  cases step_moves taken with
  | called chosen outcome setup =>
      have other : peer ≠ chosen := by
        rintro rfl
        exact others.2 rfl
      exact congrFun (Function.update_of_ne other _ _) _
  | served chosen outcome setup alive serving called
  | passed chosen outcome _ setup alive serving called
  | ended chosen outcome setup alive serving called =>
      by_cases own : peer = chosen
      · subst own
        dsimp only
        rw [Function.update_self]
        exact Setup.step_other called
      · exact congrFun (Function.update_of_ne own _ _) _
  | _ => rfl

/-- A server hands out no `Conn` for a client that has not written all it has to say. -/
theorem silent_unhanded (run : Run step Unfailing (new (setups endpoint recvMr sendMr)) listening)
    (going : (listening.exchange peer .client).phase.stopped = false)
    (silent : (listening.exchange peer .client).sent.length < 38) (conn : Endpoint) :
    (listening.exchange peer .server).phase ≠ .handedOut conn := by
  intro handed
  rcases Setup.run_live (run_exchange run peer) with ⟨side, stopped⟩ | live
  · cases side with
    | client =>
        rw [going] at stopped
        cases stopped
    | server =>
        rw [handed] at stopped
        cases stopped
  · have known := live.inStep .server
    have available := known.available
    rw [known.taken, handed] at available
    exact absurd available (Nat.not_le.mpr silent)

/-- One client that keeps its stream open and stays silent stops the server for all that have
opened theirs behind it, however long the others go on, as long as no call fails that
`setup_agreement` needs. -/
theorem silent_client_blocks (endpoint : Peer → Side → EndPoint)
    (recvMr sendMr : Peer → Side → MR) (start later : Listening Peer) (peer : Peer)
    (front back : List Peer)
    (run : Run step Unfailing (new (setups endpoint recvMr sendMr)) start)
    (going : (start.exchange peer .client).phase.stopped = false)
    (silent : (start.exchange peer .client).sent.length < 38)
    (rest : Run step (Others peer) start later) (shape : later.arrived = front ++ peer :: back) :
    (later.accepted ++ later.channel).map Prod.fst <+: front ∧
      ∀ behind ∈ back, later.Unanswered endpoint recvMr sendMr behind := by
  have whole : Run step Unfailing (new (setups endpoint recvMr sendMr)) later :=
    run.trans (rest.mono fun _ _ others => others.1)
  have sound := run_sound whole
  rw [← others_client rest] at going silent
  have unhanded : peer ∉ (later.accepted ++ later.channel).map Prod.fst := by
    intro found
    obtain ⟨entry, member, rfl⟩ := List.mem_map.mp found
    exact silent_unhanded whole going silent entry.2 (sound.handed entry member)
  have arrived := sound.accepted_arrived
  rw [← List.append_assoc, ← List.map_append, shape] at arrived
  have reach : front ++ [peer] <+: front ++ peer :: back := ⟨back, by simp⟩
  have before : (later.accepted ++ later.channel).map Prod.fst <+: front := by
    apply List.prefix_of_prefix_length_le ⟨_, arrived⟩ (List.prefix_append _ _)
    by_contra longer
    apply unhanded
    have part : front ++ [peer] <+: (later.accepted ++ later.channel).map Prod.fst := by
      apply List.prefix_of_prefix_length_le reach ⟨_, arrived⟩
      rw [List.length_append, List.length_singleton]
      omega
    exact part.subset (by simp)
  refine ⟨before, ?_⟩
  intro behind member
  apply unserved_unanswered whole
  intro served
  have length := before.length_le
  rw [List.length_map, List.length_append] at length
  have limit := sound.served_length
  have part : later.served <+: front ++ [peer] := by
    rw [← shape] at reach
    apply List.prefix_of_prefix_length_le (List.prefix_append _ _) reach
    rw [List.length_append, List.length_singleton]
    omega
  have distinct := sound.distinct
  rw [shape, ← List.singleton_append, ← List.append_assoc] at distinct
  exact (List.nodup_append.mp distinct).2.2 behind (part.subset served) behind member rfl

/-- The first of two clients opens its stream and does no more. The task waits for its
endpoint, and the second client for that of the server. -/
theorem silent_client_blocks_second : ∃ later : Listening Nat,
    Run step (Others 0) (new (setups sampleEndpoints sampleMrs sampleMrs)) later ∧
      later.arrived = [0, 1] ∧ (later.exchange 0 .server).phase.index = 3 ∧
      (later.exchange 1 .client).phase.index = 3 ∧
      later.Unanswered sampleEndpoints sampleMrs sampleMrs 1 := by
  obtain ⟨later, rest, reached⟩ : ∃ later,
      Run step (Others 0) (new (setups sampleEndpoints sampleMrs sampleMrs)) later ∧
        decide (later.arrived = [0, 1] ∧ (later.exchange 0 .server).phase.index = 3 ∧
          (later.exchange 1 .client).phase.index = 3) = true :=
    Run.exists_of_execChecked
      (fun _ action => action.succeeds && decide (action.caller ≠ some 0)) _
      (fun listening action allowed =>
        ⟨Action.unfailing listening (Bool.and_eq_true_iff.mp allowed).1,
          of_decide_eq_true (Bool.and_eq_true_iff.mp allowed).2⟩)
      ([.connect 0, .connect 1, .listen true] ++ List.replicate 3 (.server .success) ++
        List.replicate 3 (.client 1 .success)) (by decide +kernel)
  obtain ⟨arrived, server, client⟩ := of_decide_eq_true reached
  obtain ⟨-, unanswered⟩ := silent_client_blocks sampleEndpoints sampleMrs sampleMrs _ later 0 []
    [1] .refl rfl (by decide) rest arrived
  exact ⟨later, rest, arrived, server, client, unanswered 1 (List.mem_singleton_self 1)⟩

end Listening

end Ibv
