import Mathlib.Algebra.BigOperators.Group.List.Basic
import Mathlib.Algebra.Order.BigOperators.Group.List
import Mathlib.Algebra.Order.Ring.Nat
import Ibv.ListeningOrder

set_option autoImplicit false

namespace Ibv

open Runs (Run Trail Resting Observed)

theorem sum_update {Index Value : Type} [DecidableEq Index] (values : Index → Value)
    (weight : Value → Nat) {indices : List Index} (distinct : indices.Nodup) {index : Index}
    (member : index ∈ indices) (value : Value) :
    (indices.map fun i => weight (Function.update values index value i)).sum +
        weight (values index) =
      (indices.map fun i => weight (values i)).sum + weight value := by
  rw [← List.sum_map_erase (fun i => weight (Function.update values index value i)) member,
    ← List.sum_map_erase (fun i => weight (values i)) member]
  have rest : (indices.erase index).map (fun i => weight (Function.update values index value i)) =
      (indices.erase index).map fun i => weight (values i) := by
    apply List.map_congr_left
    intro i other
    rw [Function.update_of_ne (distinct.mem_erase_iff.mp other).1]
  rw [rest, Function.update_self]
  omega

namespace Listening

variable {Peer : Type}

/-- No call fails, and the `Server` is not dropped. -/
def Successful (listening : Listening Peer) (action : Action Peer) : Prop :=
  Meets Setup.Successful listening action ∧ action ≠ .listen false ∧ action ≠ .drop

theorem Action.successful {action : Action Peer} (listening : Listening Peer)
    (succeeds : action.succeeds = true) : listening.Successful action := by
  refine ⟨?_, ?_, ?_⟩
  · cases action with
    | client peer outcome => exact Outcome.of_ok succeeds
    | server outcome => exact fun _ _ => Outcome.of_ok succeeds
    | _ => trivial
  · rintro rfl
    cases succeeds
  · rintro rfl
    cases succeeds

/-- And no further stream is opened. -/
def Productive (listening : Listening Peer) (action : Action Peer) : Prop :=
  listening.Successful action ∧ ∀ peer, action ≠ .connect peer

/-- Every step there has been: the streams opened and taken, the calls made for each, and the
`Conn`s accepted. -/
def steps (listening : Listening Peer) : Nat :=
  (listening.arrived.map fun peer => (listening.exchange peer).made).sum +
    listening.arrived.length + listening.served.length + listening.accepted.length

structure Healthy (listening : Listening Peer) : Prop where
  accepting : listening.accepting = true
  acceptor : listening.acceptor = .receiving
  complete : ∀ peer side, (listening.exchange peer side).Complete

theorem steps_le {exchange : Peer → Setup} {listening : Listening Peer}
    (sound : Sound exchange listening) :
    listening.steps ≤ 27 * listening.arrived.length := by
  have made : (listening.arrived.map fun peer => (listening.exchange peer).made).sum ≤
      listening.arrived.length * 24 := by
    have bounded := List.sum_le_card_nsmul
      (listening.arrived.map fun peer => (listening.exchange peer).made) 24 (by
        intro calls member
        obtain ⟨peer, -, rfl⟩ := List.mem_map.mp member
        have client := (listening.exchange peer .client).phase.index_le
        have server := (listening.exchange peer .server).phase.index_le
        unfold Setup.made
        omega)
    rwa [List.length_map, nsmul_eq_mul, Nat.cast_id] at bounded
  have accepted := congrArg List.length sound.accepted_arrived
  simp only [List.length_append, List.length_map] at accepted
  have served : listening.served.length ≤ listening.arrived.length := by
    simp [arrived]
  unfold steps
  omega

theorem admits_empty {listening : Listening Peer} (phase : Phase)
    (receiving : listening.acceptor = .receiving) (empty : listening.channel = []) :
    listening.admits phase .success = true := by
  unfold admits
  split
  · simp [sends, receiving, empty, channelCapacity]
  · rfl

variable [DecidableEq Peer] {endpoint : Peer → Side → EndPoint}
  {recvMr sendMr : Peer → Side → MR} {before after listening : Listening Peer}
  {action : Action Peer}

theorem call_complete {setup next : Setup} (complete : ∀ side, (setup side).Complete)
    {side : Side} (taken : setup.step (side, .success) = some next) :
    (∀ chosen, (next chosen).Complete) ∧ next.made = setup.made + 1 := by
  obtain ⟨party, stepped, rfl⟩ := Setup.step_cases taken
  obtain ⟨own, index⟩ := (complete side).step stepped
  refine ⟨Side.forall_update (fun _ (mine _ : Party) => mine.Complete) own
    (complete side.other), ?_⟩
  change Setup.made (Function.update setup side party) = _
  rw [Setup.made_update, Setup.made_own setup side, index]
  omega

theorem Healthy.update {peer : Peer} {setup : Setup} (healthy : before.Healthy)
    (complete : ∀ side, (setup side).Complete) (chosen : Peer) :
    ∀ side, (Function.update before.exchange peer setup chosen side).Complete := by
  by_cases own : chosen = peer
  · rw [own, Function.update_self]
    exact complete
  · rw [Function.update_of_ne own]
    exact healthy.complete chosen

theorem Healthy.step (healthy : before.Healthy) (successful : before.Successful action)
    (taken : before.step action = some after) : after.Healthy := by
  obtain ⟨accepting, acceptor, complete⟩ := healthy
  obtain ⟨meets, listens, keeps⟩ := successful
  cases step_moves taken with
  | called peer outcome setup arrived called =>
      cases (show outcome = .success from meets)
      exact ⟨accepting, acceptor,
        Healthy.update ⟨accepting, acceptor, complete⟩ (call_complete (complete peer) called).1⟩
  | served peer outcome setup alive serving called
  | passed peer outcome conn setup alive serving called =>
      cases (show outcome = .success from meets peer serving)
      exact ⟨accepting, acceptor,
        Healthy.update ⟨accepting, acceptor, complete⟩ (call_complete (complete peer) called).1⟩
  | ended peer outcome setup alive serving called stopped =>
      cases (show outcome = .success from meets peer serving)
      have going := ((call_complete (complete peer) called).1 .server).going
      rw [stopped] at going
      cases going
  | refused => exact absurd rfl listens
  | panicked gone =>
      rw [accepting] at gone
      cases gone
  | dropped => exact absurd rfl keeps
  | connected | listened | accepted => exact ⟨accepting, acceptor, complete⟩

theorem run_healthy (run : Run step Successful (new (setups endpoint recvMr sendMr)) listening) :
    listening.Healthy :=
  run.invariant Healthy ⟨rfl, rfl, fun _ _ => .new _ _ _⟩
    fun _ _ _ healthy successful taken => healthy.step successful taken

theorem steps_step (sound : Sound (setups endpoint recvMr sendMr) before)
    (healthy : before.Healthy) (successful : before.Successful action)
    (taken : before.step action = some after) : after.steps = before.steps + 1 := by
  have called : ∀ (peer : Peer) (side : Side) (setup : Setup), peer ∈ before.arrived →
      (before.exchange peer).step (side, .success) = some setup →
      (before.arrived.map fun i => (Function.update before.exchange peer setup i).made).sum =
        (before.arrived.map fun i => (before.exchange i).made).sum + 1 := by
    intro peer side setup arrived called
    have changed := sum_update before.exchange Setup.made sound.distinct arrived setup
    rw [(call_complete (healthy.complete peer) called).2] at changed
    omega
  have kept := healthy.step successful taken
  have same := step_arrived taken
  obtain ⟨meets, listens, keeps⟩ := successful
  unfold steps
  rw [same]
  cases step_moves taken with
  | connected peer alive fresh =>
      have unmade : (before.exchange peer).made = 0 := by
        rw [sound.absent peer fresh]
        rfl
      simp only [Action.opens, List.map_append, List.sum_append, List.map_singleton,
        List.sum_singleton, unmade, List.length_append, List.length_singleton]
      omega
  | called peer outcome setup arrived made =>
      cases (show outcome = .success from meets)
      have more := called peer .client setup arrived made
      rw [Action.opens.eq_def, List.append_nil]
      dsimp only
      omega
  | served peer outcome setup alive serving made
  | passed peer outcome conn setup alive serving made =>
      cases (show outcome = .success from meets peer serving)
      have more := called peer .server setup (sound.serving_arrived serving) made
      rw [Action.opens.eq_def, List.append_nil]
      dsimp only
      omega
  | ended peer outcome setup alive serving called =>
      have alive := kept.accepting
      cases alive
  | listened peer rest alive idle first =>
      rw [Action.opens.eq_def, List.append_nil]
      dsimp only
      rw [List.length_append, List.length_singleton]
      omega
  | accepted first rest =>
      rw [Action.opens.eq_def, List.append_nil]
      dsimp only
      rw [List.length_append, List.length_singleton]
      omega
  | refused => exact absurd rfl listens
  | panicked gone =>
      have receiving := kept.acceptor
      cases receiving
  | dropped => exact absurd rfl keeps

theorem trail_steps {actions : List (Action Peer)}
    (run : Trail step Successful (new (setups endpoint recvMr sendMr)) actions listening) :
    actions.length = listening.steps ∧
      listening.arrived = actions.flatMap Action.opens := by
  refine run.invariant (fun actions reached => actions.length = reached.steps ∧
    reached.arrived = actions.flatMap Action.opens) ⟨rfl, rfl⟩ ?_
  rintro actions before action after reached ⟨length, arrived⟩ successful taken
  rw [List.length_append, List.length_singleton, length,
    steps_step (run_sound reached) (run_healthy reached) successful taken, step_arrived taken,
    arrived, List.flatMap_append, List.flatMap_singleton]
  exact ⟨rfl, rfl⟩

/-- Where nothing can be done, the call of a client waits, -/
theorem resting_client (rests : Resting step Productive listening) {peer : Peer}
    (arrived : peer ∈ listening.arrived) :
    (listening.exchange peer .client).step .client
      ((listening.exchange peer).incoming .client) .success = none := by
  have stuck := rests (.client peer .success) ⟨⟨rfl, by simp, by simp⟩, by simp⟩
  simpa [step, arrived, Setup.step] using stuck

section

variable (run : Run step Successful (new (setups endpoint recvMr sendMr)) listening)
  (rests : Resting step Productive listening)

include run

theorem run_live (peer : Peer) : Setup.Live (endpoint peer) (recvMr peer) (sendMr peer)
    (listening.exchange peer) :=
  Setup.run_successful (run_exchange (run.mono fun _ _ successful => successful.1) peer)

include rests

/-- all `Conn`s are accepted, -/
theorem resting_channel : listening.channel = [] := by
  have acceptor := (run_healthy run).acceptor
  have stuck := rests .accept ⟨⟨trivial, by simp, by simp⟩, by simp⟩
  cases shape : listening.channel with
  | nil => rfl
  | cons first rest => simp [step, accept, acceptor, shape] at stuck

/-- the task is not busy, since it and the client would wait for each other, -/
theorem resting_serving : listening.serving = none := by
  obtain ⟨accepting, acceptor, complete⟩ := run_healthy run
  have sound := run_sound run
  cases serving : listening.serving with
  | none => rfl
  | some peer =>
      have live := run_live run peer
      have ready := admits_empty (listening.exchange peer .server).phase acceptor
        (resting_channel run rests)
      have stuck := rests (.server .success) ⟨⟨fun _ _ => rfl, by simp, by simp⟩, by simp⟩
      simp only [step, serve, serving, accepting, ready, Bool.and_self, ↓reduceIte,
        Option.map_eq_none_iff, Setup.step] at stuck
      obtain ⟨conn, handed⟩ := Party.handed_of_waits (live.inStep .server) (live.inStep .client)
        (complete peer .server) (complete peer .client) stuck
        (resting_client rests (sound.serving_arrived serving))
      exact absurd handed (sound.current peer serving conn)

/-- and no stream is left to it. -/
theorem resting_backlog : listening.backlog = [] := by
  have accepting := (run_healthy run).accepting
  have idle := resting_serving run rests
  have stuck := rests (.listen true) ⟨⟨trivial, by simp, by simp⟩, by simp⟩
  cases first : listening.backlog with
  | nil => rfl
  | cons peer rest => simp [step, listen, accepting, idle, first] at stuck

theorem resting_accepted : listening.accepted.map Prod.fst = listening.arrived := by
  have all := (run_sound run).accepted_arrived
  rw [resting_channel run rests, resting_serving run rests, resting_backlog run rests] at all
  simpa using all

theorem resting_completes {peer : Peer} (arrived : peer ∈ listening.arrived) (side : Side) :
    (listening.exchange peer side).qp.status = .rts ∧
      (listening.exchange peer side).qp.dest = some (endpoint peer side.other) ∧
      (listening.exchange peer side).phase =
        .handedOut (System.new (recvMr peer) (sendMr peer) side) := by
  have live := run_live run peer
  have complete := (run_healthy run).complete peer
  have waits := resting_client rests arrived
  rw [← resting_accepted run rests] at arrived
  obtain ⟨entry, member, rfl⟩ := List.mem_map.mp arrived
  have server := (run_sound run).handed entry (List.mem_append_left _ member)
  have client := (live.inStep .client).behind (complete .client).going (complete .server) waits
  rw [Side.other, server] at client
  simp only [Phase.written, Nat.reduceLT, and_false, false_or, Nat.lt_irrefl] at client
  cases side with
  | client =>
      obtain ⟨conn, handed⟩ := client
      exact live.completes (complete .client) handed
  | server => exact live.completes (complete .server) server

end

/-- At most 27 steps for each stream that is opened, and then every client has been given its
`Conn` and `accept` has returned that of the server. -/
theorem all_accepted (endpoint : Peer → Side → EndPoint) (recvMr sendMr : Peer → Side → MR)
    (actions : List (Action Peer)) (listening : Listening Peer)
    (run : Trail step Successful (new (setups endpoint recvMr sendMr)) actions listening) :
    actions.length ≤ 27 * (actions.flatMap Action.opens).length ∧
      (Resting step Productive listening →
        listening.accepted = (actions.flatMap Action.opens).map (fun peer =>
          (peer, System.new (recvMr peer) (sendMr peer) .server)) ∧
        ∀ peer ∈ actions.flatMap Action.opens, ∀ side,
          (listening.exchange peer side).qp.status = .rts ∧
          (listening.exchange peer side).qp.dest = some (endpoint peer side.other) ∧
          (listening.exchange peer side).phase =
            .handedOut (System.new (recvMr peer) (sendMr peer) side)) := by
  obtain ⟨length, arrived⟩ := trail_steps run
  have sound := run_sound run.run
  rw [← arrived, length]
  refine ⟨steps_le sound, fun rests => ⟨?_, fun peer => resting_completes run.run rests⟩⟩
  rw [← resting_accepted run.run rests, List.map_map]
  symm
  refine (List.map_congr_left ?_).trans (List.map_id _)
  intro entry member
  have handed := sound.handed entry (List.mem_append_left _ member)
  have arrives : entry.1 ∈ listening.arrived := by
    rw [← resting_accepted run.run rests]
    exact List.mem_map_of_mem member
  obtain ⟨-, -, same⟩ := resting_completes run.run rests arrives .server
  rw [handed] at same
  exact Prod.ext rfl (Phase.handedOut.inj same).symm

theorem all_accepted_two_clients : ∃ (actions : List (Action Nat)) (listening : Listening Nat),
    Trail step Successful (new (setups sampleEndpoints sampleMrs sampleMrs)) actions listening ∧
      Resting step Productive listening ∧
      listening.accepted = [(0, System.new (sampleMrs 0) (sampleMrs 0) .server),
        (1, System.new (sampleMrs 1) (sampleMrs 1) .server)] := by
  obtain ⟨actions, listening, run, reached⟩ : ∃ actions listening,
      Trail step Successful (new (setups sampleEndpoints sampleMrs sampleMrs)) actions
          listening ∧
        decide (actions.length = 54 ∧ actions.flatMap Action.opens = [0, 1]) = true :=
    Observed.exists_of_observe (fun _ action => action.succeeds)
      (fun actions _ => decide (actions.length = 54 ∧ actions.flatMap Action.opens = [0, 1]))
      (fun listening _ => Action.successful listening)
      ([.connect 0, .connect 1, .listen true] ++ exampleCalls 0 ++ [.listen true] ++
        exampleCalls 1 ++ [.accept, .accept]) (by decide +kernel)
  obtain ⟨length, opens⟩ := of_decide_eq_true reached
  have rests : Resting step Productive listening := by
    intro action productive
    by_contra enabled
    obtain ⟨after, taken⟩ := Option.ne_none_iff_exists'.mp enabled
    have bound := (all_accepted _ _ _ _ _ (run.next action productive.1 taken)).1
    have none : action.opens = [] := by
      cases action with
      | connect peer => exact absurd rfl (productive.2 peer)
      | _ => rfl
    simp only [List.length_append, length, List.flatMap_append, opens, List.flatMap_singleton,
      none] at bound
    simp at bound
  have accepted := ((all_accepted _ _ _ actions listening run).2 rests).1
  rw [opens] at accepted
  exact ⟨actions, listening, run, rests, accepted⟩

end Listening

end Ibv
