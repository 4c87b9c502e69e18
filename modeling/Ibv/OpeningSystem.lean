import Ibv.OpeningReady

set_option autoImplicit false

namespace Ibv

open Runs (Run Any)

/-- What the opening tells apart of the critical section. -/
def Stage.sending : Stage → Sending
  | .locked => .locked
  | .admitted => .admitted
  | .counted | .placing _ _ | .placed _ _ => .counted

namespace Opener

def running (opener : Opener) (conn : Endpoint) : Opener :=
  { opener with
    sending := conn.sending
    lock := conn.lock.map fun call => call.stage.sending
    posted := conn.posted.length
    dispatched := conn.handled
    taken := conn.received }

variable {opener other : Opener} {mine peer after : Endpoint} {role : Side}
  {action : Endpoint.Action}

theorem running_eq (lock : after.lock = mine.lock) (posted : after.posted = mine.posted)
    (sending : after.sending = mine.sending) (received : after.received = mine.received)
    (handled : after.handled = mine.handled) : opener.running after = opener.running mine := by
  unfold running
  rw [lock, posted, sending, received, handled]

/-- The critical section: from the count to the post nothing is to be seen. -/
theorem running_critical (conn : opener.hasConn = true) (critical : action.critical = true)
    (unfailing : ∀ errno, action ≠ .postFail errno) (taken : mine.step action = some after) :
    opener.running after = opener.running mine ∨
      ∃ call, (opener.running mine).step (other.running peer) role call =
        some (opener.running after) := by
  cases action with
  | takeLock i =>
      obtain ⟨msg, buf, wrId, addr, free, -, rfl⟩ := Endpoint.takeLock_cases taken
      right
      refine ⟨.takeLock, if_pos ?_⟩
      rw [show (opener.running mine).hasConn = true from conn, running, free]
      rfl
  | load =>
      obtain ⟨msg, buf, wrId, holder, below, rfl⟩ := Endpoint.load_cases taken
      right
      refine ⟨.load, ?_⟩
      simp only [step, load, running, holder, Option.map_some, Stage.sending]
      exact if_neg (Int.not_le.mpr below)
  | count =>
      obtain ⟨msg, buf, wrId, holder, rfl⟩ := Endpoint.count_cases taken
      right
      refine ⟨.count, ?_⟩
      simp only [step, count, running, holder, Option.map_some, Stage.sending]
  | popNotice =>
      obtain ⟨msg, buf, wrId, holder, rfl⟩ := Endpoint.popNotice_cases taken
      left
      simp only [running, holder, Option.map_some, Stage.sending]
  | remoteFirst =>
      obtain ⟨msg, buf, wrId, imm, holder, rfl⟩ := Endpoint.remoteFirst_cases taken
      left
      simp only [running, holder, Option.map_some, Stage.sending]
  | remoteSecond =>
      obtain ⟨msg, buf, wrId, imm, first, holder, rfl⟩ := Endpoint.remoteSecond_cases taken
      left
      simp only [running, holder, Option.map_some, Stage.sending]
  | allocRemote =>
      obtain ⟨msg, buf, wrId, imm, holder, rfl⟩ := Endpoint.allocRemote_cases taken
      left
      simp only [running, holder, Option.map_some, Stage.sending]
  | post =>
      obtain ⟨msg, buf, wrId, imm, remote, holder, -, rfl⟩ := Endpoint.post_cases taken
      right
      refine ⟨.post, ?_⟩
      simp only [step, post, running, holder, Option.map_some, Option.map_none, Stage.sending,
        List.length_append, List.length_singleton]
  | postFail errno => exact absurd rfl (unfailing errno)
  | _ => cases critical

theorem running_step (conn : opener.hasConn = true) (polls : opener.polls = true)
    (counts : Counts mine peer) (back : Counts peer mine)
    (unfailing : ∀ errno, action ≠ .postFail errno) (taken : mine.step action = some after) :
    opener.running after = opener.running mine ∨
      ∃ call, (opener.running mine).step (other.running peer) role call =
        some (opener.running after) := by
  cases critical : action.critical with
  | true => exact running_critical conn critical unfailing taken
  | false =>
      obtain ⟨lock, -, posted, -, quiet, -, -⟩ :=
        Endpoint.step_not_critical action critical taken
      cases queueing : action.queueing with
      | false =>
          obtain ⟨sending, received⟩ := quiet (Endpoint.Action.not_queueing queueing).2
          left
          apply running_eq lock posted sending received
          obtain ⟨state, rfl⟩ := Endpoint.step_not_queueing action queueing taken
          rfl
      | true =>
          cases action with
          | ack =>
              obtain ⟨request, data, -, -, rfl⟩ := Endpoint.ack_cases taken
              exact Or.inl rfl
          | poll n =>
              obtain ⟨-, -, -, -, rfl⟩ := Endpoint.poll_cases taken
              exact Or.inl rfl
          | sendPair =>
              obtain ⟨pair, -, -, rfl⟩ := Endpoint.sendPair_cases taken
              exact Or.inl rfl
          | dispatch =>
              obtain ⟨wc, rest, -, batch, branches⟩ := Endpoint.dispatch_cases taken
              rcases branches with ⟨code, rfl⟩ | ⟨-, rfl⟩ | ⟨-, -, rfl⟩
              · have isRecv : wc.isRecv = true := decide_eq_true code
                have arrived := counts.arrived
                have sent := back.sent
                rw [Endpoint.unhandled, batch, List.countP_cons_of_pos isRecv] at arrived
                have below : mine.handled < peer.posted.length := by omega
                right
                rw [counts.queues.postNullRecv batch isRecv]
                exact ⟨.dispatch, if_pos (Bool.and_eq_true_iff.mpr ⟨polls, decide_eq_true below⟩)⟩
              · exact Or.inl rfl
              · exact Or.inl rfl
          | recv =>
              obtain ⟨pair, rest, -, queue, rfl⟩ := Endpoint.recv_cases taken
              have handled := counts.queues.handled
              rw [queue, List.length_cons] at handled
              have below : mine.received < mine.handled := by omega
              right
              exact ⟨.recv, if_pos (Bool.and_eq_true_iff.mpr ⟨conn, decide_eq_true below⟩)⟩
          | post => cases critical
          | _ => cases queueing

end Opener

namespace Opening

/-- Both sides with their `Conn`s. -/
def running (opening : Opening) (system : System) : Opening := fun side =>
  (opening side).running (system side)

variable {opening : Opening} {recvMr sendMr : Side → MR} {system : System}

theorem running_join (opening : Opening) (system : System) (side : Side) (mine : Endpoint) :
    opening.running (System.join side mine (system side.other)) =
      Function.update (opening.running system) side ((opening side).running mine) := by
  funext chosen
  rcases chosen.eq_or_other side with rfl | rfl
  · rw [running, System.join_self, Function.update_self]
  · rw [running, System.join_other, Function.update_of_ne side.other_ne]
    rfl

/-- The wire is not to be seen in the opening. -/
theorem running_wire {side : Side} {mine peer : Endpoint}
    (own : (opening side).running mine = (opening side).running (system side))
    (other : (opening side.other).running peer =
      (opening side.other).running (system side.other)) :
    opening.running (System.join side mine peer) = opening.running system := by
  funext chosen
  rcases chosen.eq_or_other side with rfl | rfl
  · rw [running, System.join_self]
    exact own
  · rw [running, System.join_other]
    exact other

def NoPostFails (_ : System) : System.Action → Prop
  | .own _ (.postFail _) => False
  | _ => True

/-- The connected endpoints run as the opening does from where both sides have their
`Conn`s. -/
theorem system_run (connected : ∀ side, (opening side).hasConn = true)
    (polls : ∀ side, (opening side).polls = true)
    (run : Run System.step NoPostFails (.new recvMr sendMr) system) :
    Run step Any (opening.running (.new recvMr sendMr)) (opening.running system) := by
  refine run.simulates opening.running ?_
  intro before label after start allowed taken
  cases label with
  | own side action =>
      obtain ⟨mine, stepped, rfl⟩ := Option.map_eq_some_iff.mp taken
      have counts := System.run_counts start side
      have back := System.run_counts start side.other
      rw [Side.other_other] at back
      rw [running_join]
      have unfailing : ∀ errno, action ≠ .postFail errno := by
        rintro errno rfl
        exact allowed
      have moves := @Opener.running_step (opening side) (opening side.other) (before side)
        (before side.other) mine side action (connected side) (polls side) counts back
        unfailing stepped
      rcases moves with same | ⟨call, moved⟩
      · left
        rw [same]
        exact Function.update_eq_self _ _
      · exact Or.inr ⟨(side, call), trivial, Option.map_eq_some_iff.mpr ⟨_, moved, rfl⟩⟩
  | write side i =>
      obtain ⟨both, written, rfl⟩ := Option.map_eq_some_iff.mp taken
      obtain ⟨request, data, -, -, -, rfl⟩ := System.writeData_cases written
      exact Or.inl (running_wire rfl rfl)
  | deliver side =>
      obtain ⟨both, delivered, rfl⟩ := Option.map_eq_some_iff.mp taken
      obtain ⟨request, -, -, -, rfl⟩ := System.deliverNext_cases delivered
      exact Or.inl (running_wire rfl rfl)

/-- Where both sides have their `Conn`s and none has sent anything, the opening goes on as
the connected endpoints do. -/
theorem connected_run {endpoint : Side → EndPoint}
    (start : Run step Any (new endpoint recvMr sendMr) opening)
    (connected : ∀ side, (opening side).hasConn = true)
    (quiet : ∀ side, (opening side).lock = none ∧ (opening side).posted = 0)
    (run : Run System.step NoPostFails (.new recvMr sendMr) system) :
    Run step Any (new endpoint recvMr sendMr) (opening.running system) := by
  have paired := run_paired start
  have same : opening.running (.new recvMr sendMr) = opening := by
    funext side
    obtain ⟨free, posted⟩ := quiet side
    have orderly := paired.orderly side
    have behind := paired.dispatched side
    rw [(quiet side.other).2] at behind
    have dispatched : (opening side).dispatched = 0 := Nat.le_zero.mp behind
    have taken : (opening side).taken = 0 := by
      have received := orderly.received
      omega
    have sending := orderly.balance taken
    rw [free, posted] at sending
    change (opening side).sending = 0 at sending
    unfold running Opener.running
    cases opener : opening side with
    | mk party looped polls sent lock count handled received =>
        rw [opener] at free posted dispatched taken sending
        dsimp only at free posted dispatched taken sending
        subst free posted dispatched taken sending
        rfl
  have onward := system_run connected
    (fun side => (paired.orderly side).connected (connected side)) run
  rw [same] at onward
  exact start.trans onward

end Opening

end Ibv
