import Ibv.Programs

set_option autoImplicit false

namespace Ibv

open Direction (sampleMr)

namespace System

theorem step_submitted_same {system after : System} (action : Action)
    (uncalled : ∀ side msg, action ≠ .own side (.call msg))
    (succeeds : ∀ side errno, action ≠ .own side (.postFail errno))
    (taken : system.step action = some after) (side : Side) :
    (after side).submitted.Perm (system side).submitted := by
  cases action with
  | own chosen action =>
      obtain ⟨mine, acted, rfl⟩ := own_cases taken
      refine forall_join (fun side endpoint => endpoint.submitted.Perm (system side).submitted)
        ?_ (.refl _) side
      have failing : (system chosen).failing action = [] := by
        cases action with
        | postFail errno => exact absurd rfl (succeeds chosen errno)
        | _ => rfl
      have called : action.called = [] := by
        cases action with
        | call msg => exact absurd rfl (uncalled chosen msg)
        | _ => rfl
      exact Endpoint.step_tasks_same action failing called acted
  | write chosen i => exact (step_plain (.write chosen i) rfl taken side).1
  | deliver chosen => exact (step_plain (.deliver chosen) rfl taken side).1

end System

namespace Programs

variable {total : Nat} {recvMr sendMr : Side → MR} {programs before after : Programs}

/-- Steps that bring the programs on: a task spawned or started, or a productive step of the
connection. -/
def Productive (programs : Programs) : Action → Prop
  | .connection action => programs.connection.Productive action
  | _ => True

/-- A task costs more before it is started than its call brings, and more before it is
spawned. -/
def work (total : Nat) (programs : Programs) : Nat :=
  programs.connection.work +
    40 * ((programs.spawned .client).length + (programs.spawned .server).length) +
    50 * (total - programs.next) + 50 * (total - (programs.issued .server).length)

theorem Productive.succeeds {action : Action} (productive : programs.Productive action) :
    programs.Succeeds action := by
  cases action with
  | connection action =>
      cases action with
      | own side action =>
          cases action with
          | postFail errno => exact absurd rfl (productive.2.2 side errno)
          | _ => trivial
      | _ => trivial
  | _ => trivial

/-- The steps of the connection start no task, and only a release of the server spawns one. -/
theorem connection_spawned (action : System.Action)
    (taken : before.step total (.connection action) = some after) :
    after.next = before.next ∧ after.spawned .client = before.spawned .client ∧
      ((after.spawned .server).length = (before.spawned .server).length ∨
        (after.spawned .server).length = (before.spawned .server).length + 1) := by
  cases action with
  | write side i =>
      obtain ⟨connection, acted, rfl⟩ := Option.map_eq_some_iff.mp taken
      exact ⟨rfl, rfl, .inl rfl⟩
  | deliver side =>
      obtain ⟨connection, acted, rfl⟩ := Option.map_eq_some_iff.mp taken
      exact ⟨rfl, rfl, .inl rfl⟩
  | own side action =>
      cases action with
      | call msg => cases taken
      | recv =>
          change before.recv side = some after at taken
          unfold recv at taken
          split at taken
          · obtain ⟨connection, acted, rfl⟩ := Option.map_eq_some_iff.mp taken
            exact ⟨rfl, rfl, .inl rfl⟩
          · cases taken
      | release =>
          obtain ⟨connection, acted, rfl⟩ := Option.map_eq_some_iff.mp taken
          cases side with
          | client => exact ⟨rfl, rfl, .inl rfl⟩
          | server =>
              dsimp only
              rw [Function.update_self, Function.update_of_ne (by decide), List.length_append]
              exact ⟨rfl, rfl, .inr rfl⟩
      | _ =>
          obtain ⟨connection, acted, rfl⟩ := Option.map_eq_some_iff.mp taken
          exact ⟨rfl, rfl, .inl rfl⟩

theorem Running.issued_le (running : Running total recvMr sendMr programs) :
    (programs.issued .server).length ≤ total := by
  obtain ⟨-, -, received, requests⟩ := running.sound.causal running.run
  have bounded := running.sound.next
  unfold issued
  rw [List.length_range']
  omega

theorem connection_work (action : System.Action) (running : Running total recvMr sendMr before)
    (later : Running total recvMr sendMr after) (productive : before.connection.Productive action)
    (taken : before.step total (.connection action) = some after) :
    after.work total < before.work total := by
  obtain ⟨next, client, server⟩ := connection_spawned action taken
  have tasks := running.sound.submitted_length .server
  have tasks' := later.sound.submitted_length .server
  have bounded := later.issued_le
  rcases connection_step (.connection action) taken with
    ⟨same, -⟩ | ⟨side, k, number, same, -⟩ | ⟨moved, same, uncalled, acted⟩
  · cases same
  · cases same
  · cases same
    have spent := System.productive_work action productive acted
    have submitted := (System.step_submitted_same action uncalled productive.2.2 acted
      .server).length_eq
    unfold work
    rw [next, client]
    omega

theorem start_cases {side : Side} {k : Nat} (taken : before.start side k = some after) :
    ∃ number, (before.spawned side)[k]? = some number ∧
      before.connection.step (.own side (.call (numbered number))) = some after.connection ∧
      after.next = before.next ∧
      after.spawned = Function.update before.spawned side ((before.spawned side).eraseIdx k) := by
  unfold start at taken
  split at taken
  · rename_i number entry
    obtain ⟨connection, acted, rfl⟩ := Option.map_eq_some_iff.mp taken
    exact ⟨number, entry, acted, rfl, rfl⟩
  · cases taken

theorem start_lengths {side : Side} {k number : Nat} {mine : Endpoint}
    (entry : (before.spawned side)[k]? = some number)
    (called : (before.connection side).step (.call (numbered number)) = some mine) (chosen : Side) :
    (System.join side mine (before.connection side.other) chosen).submitted.length +
        (Function.update before.spawned side ((before.spawned side).eraseIdx k) chosen).length =
      (before.connection chosen).submitted.length + (before.spawned chosen).length := by
  have below := (List.getElem?_eq_some_iff.mp entry).1
  rcases chosen.eq_or_other side with rfl | rfl
  · have submitted := (Endpoint.step_tasks (.call (numbered number)) rfl called).length_eq
    rw [List.length_append, Endpoint.Action.called, List.length_singleton] at submitted
    rw [System.join_self, Function.update_self, List.length_eraseIdx_of_lt below, submitted]
    omega
  · rw [System.join_other, Function.update_of_ne side.other_ne]

theorem start_work {side : Side} {k : Nat} (running : Running total recvMr sendMr before)
    (later : Running total recvMr sendMr after) (taken : before.start side k = some after) :
    after.work total < before.work total := by
  obtain ⟨number, entry, acted, next, spawned⟩ := start_cases taken
  have spent := System.step_work (.own side (.call (numbered number))) not_false acted
  change _ ≤ _ + (31 + 1) at spent
  obtain ⟨mine, called, same⟩ := System.own_cases acted
  have lengths := start_lengths entry called .server
  rw [← same, ← spawned, running.sound.submitted_length, later.sound.submitted_length] at lengths
  have below := (List.getElem?_eq_some_iff.mp entry).1
  have erased := List.length_eraseIdx_of_lt below
  have fewer : (after.spawned .client).length + (after.spawned .server).length + 1 =
      (before.spawned .client).length + (before.spawned .server).length := by
    rw [spawned]
    cases side with
    | client =>
        rw [Function.update_self, Function.update_of_ne (by decide)]
        omega
    | server =>
        rw [Function.update_self, Function.update_of_ne (by decide)]
        omega
  unfold work
  rw [next, lengths]
  omega

theorem productive_work (action : Action) (running : Running total recvMr sendMr before)
    (roomy : Roomy total recvMr sendMr) (productive : before.Productive action)
    (taken : before.step total action = some after) : after.work total < before.work total := by
  have later := running_step action running roomy productive.succeeds taken
  cases action with
  | connection action => exact connection_work action running later productive taken
  | start side k => exact start_work running later taken
  | spawn =>
      change before.spawn total = some after at taken
      unfold spawn at taken
      split at taken
      · cases taken
        unfold work issued
        dsimp only
        rw [Function.update_self, Function.update_of_ne (by decide), List.length_append,
          List.length_singleton]
        omega
      · cases taken

/-- What the connection can do the programs let it do, but for calls, and for `recv_msg`
while a slice is held or after the last answer. -/
theorem step_enabled {action : System.Action} {connection : System}
    (taken : programs.connection.step action = some connection)
    (uncalled : ∀ side msg, action ≠ .own side (.call msg))
    (receives : ∀ side, action = .own side .recv →
      (programs.connection side).held = [] ∧ (side = .client → programs.done = false)) :
    programs.step total (.connection action) ≠ none := by
  cases action with
  | write side i =>
      change Option.map _ (programs.connection.step _) ≠ none
      rw [taken]
      exact Option.some_ne_none _
  | deliver side =>
      change Option.map _ (programs.connection.step _) ≠ none
      rw [taken]
      exact Option.some_ne_none _
  | own side action =>
      cases action with
      | call msg => exact absurd rfl (uncalled side msg)
      | recv =>
          change programs.recv side ≠ none
          unfold recv
          rw [if_pos (receives side rfl), taken]
          exact Option.some_ne_none _
      | _ =>
          change Option.map _ (programs.connection.step _) ≠ none
          rw [taken]
          exact Option.some_ne_none _

section Rest

variable (running : Running total recvMr sendMr programs) (roomy : Roomy total recvMr sendMr)
  (rests : Runs.Resting (step total) Productive programs)

include rests

theorem resting_started : total ≤ programs.next ∧ ∀ side, programs.spawned side = [] := by
  refine ⟨?_, ?_⟩
  · by_contra left
    have stuck : programs.spawn total = none := rests .spawn trivial
    unfold spawn at stuck
    rw [if_pos (Nat.not_le.mp left)] at stuck
    cases stuck
  · intro side
    cases waiting : programs.spawned side with
    | nil => rfl
    | cons number rest =>
        have stuck : programs.start side 0 = none := rests (.start side 0) trivial
        unfold start at stuck
        rw [waiting] at stuck
        cases stuck

include running roomy

theorem resting_released (side : Side) : (programs.connection side).held = [] := by
  by_contra held
  obtain ⟨mine, taken⟩ := System.run_releases (modest_regular running.run) side
    (roomy.notices side) held
  have moved : programs.connection.step (.own side .release) =
      some (System.join side mine (programs.connection side.other)) := by
    rw [System.step, taken, Option.map_some]
  refine step_enabled moved ?_ ?_ (rests (.connection (.own side .release)) ?_)
  · simp
  · simp
  · exact ⟨not_false, rfl, by simp⟩

/-- As long as the client is not done, the connection itself rests. -/
theorem resting_connection (going : programs.done = false) :
    Runs.Resting System.step System.Productive programs.connection := by
  intro action productive
  by_contra enabled
  obtain ⟨connection, taken⟩ := Option.ne_none_iff_exists'.mp enabled
  refine step_enabled taken ?_ ?_ (rests (.connection action) productive)
  · rintro side msg rfl
    have free := productive.2.1
    change 31 + msg.length = 0 at free
    omega
  · intro side _
    exact ⟨resting_released running roomy rests side, fun _ => going⟩

/-- Neither ring keeps a call waiting, so only the silence of the peer can. -/
theorem resting_excuse (going : programs.done = false) (side : Side) :
    (programs.connection side).pending = [] ∨
      (programs.connection side).posted.length =
        (programs.connection side.other).posted.length + defaultRqeCount := by
  obtain ⟨near, far⟩ := running.sound.passes roomy running.run side
  have settled := System.resting_settled recvMr sendMr programs.connection
    (modest_regular running.run) (resting_connection running roomy rests going) side
  by_cases pending : (programs.connection side).pending = []
  · exact .inl pending
  rcases settled.excused pending with ⟨msg, loop, waiting, -, done, high, low⟩ | ⟨-, ahead⟩ |
    ⟨⟨msg, buf, wrId, imm, loop, holder, -, waits⟩, -⟩
  · have passes := near msg loop waiting
    unfold Cursors.waits at passes
    rw [if_pos high, Bool.or_eq_false_iff, decide_eq_false_iff_not] at passes
    omega
  · exact .inr ahead
  · rw [far msg buf wrId imm loop holder] at waits
    cases waits

theorem resting_done : programs.done = true := by
  by_contra unfinished
  have going := Bool.eq_false_iff.mpr unfinished
  obtain ⟨spawned, started⟩ := resting_started rests
  have still := resting_connection running roomy rests going
  have settled := fun side => congrArg List.length (System.resting_settled recvMr sendMr
    programs.connection (modest_regular running.run) still side).returned
  have received := settled .client
  have answered := settled .server
  rw [List.length_map] at received answered
  have free := resting_released running roomy rests
  obtain ⟨-, responses, -, requests⟩ := running.sound.causal running.run
  rw [started, free, List.length_nil, List.length_nil, Nat.add_zero, Nat.sub_zero] at responses
  rw [started, List.length_nil, Nat.add_zero] at requests
  have bounded := running.sound.next
  have short := running.sound.undone going (free .client)
  rw [running.sound.counted .client] at short
  have some : 0 < defaultRqeCount := by decide
  change (programs.connection .server).returned.length = _ at received
  change (programs.connection .client).returned.length = _ at answered
  rcases resting_excuse running roomy rests going .client with pending | ahead
  · rw [pending, List.length_nil] at requests
    rcases resting_excuse running roomy rests going .server with pending' | ahead'
    · rw [pending', List.length_nil] at responses
      omega
    · change _ = (programs.connection .client).posted.length + defaultRqeCount at ahead'
      omega
  · change _ = (programs.connection .server).posted.length + defaultRqeCount at ahead
    rcases resting_excuse running roomy rests going .server with pending' | ahead'
    · rw [pending', List.length_nil] at responses
      omega
    · change _ = (programs.connection .client).posted.length + defaultRqeCount at ahead'
      omega

end Rest

theorem later_running {later : Programs} (running : Running total recvMr sendMr programs)
    (roomy : Roomy total recvMr sendMr)
    (onward : Runs.Run (step total) Productive programs later) :
    Running total recvMr sendMr later :=
  onward.invariant (Running total recvMr sendMr) running
    fun _ action _ running productive taken =>
      running_step action running roomy productive.succeeds taken

/-- The client finishes. From every state of a run of the two programs in which no post fails
they come to rest after a bounded number of steps, and where they do, the client has all its
answers. The server, whose loop has no end, then waits for a message. -/
theorem all_answered (total : Nat) (positive : 0 < total) (recvMr sendMr : Side → MR)
    (roomy : Roomy total recvMr sendMr) (programs : Programs)
    (run : Runs.Run (step total) Succeeds (new recvMr sendMr) programs) :
    (∀ actions later, Runs.Trail (step total) Productive programs actions later →
      actions.length ≤ programs.work total) ∧
    (∃ later, Runs.Run (step total) Productive programs later ∧
      Runs.Resting (step total) Productive later) ∧
    ∀ later, Runs.Run (step total) Productive programs later →
      Runs.Resting (step total) Productive later →
      later.done = true ∧
        (later.connection .server).returned.Perm ((List.range total).map toBeBytes) ∧
        (later.connection .client).returned.Perm ((List.range' 1 total).map toBeBytes) := by
  have running := running_of positive roomy run
  have spends (before : Programs) (action : Action) (after : Programs)
      (allowed : Running total recvMr sendMr before ∧ before.Productive action)
      (taken : before.step total action = some after) : after.work total < before.work total :=
    productive_work action allowed.1 roomy allowed.2 taken
  refine ⟨?_, ?_, ?_⟩
  · intro actions later onward
    have strong := onward.strengthen fun state action _ run productive _ =>
      And.intro (later_running running roomy run) productive
    have spent := strong.bounded (work total) spends
    omega
  · obtain ⟨later, onward, rests⟩ := Runs.exists_resting (work total) spends programs
    have productive := onward.mono fun _ _ => And.right
    exact ⟨later, productive, fun action allowed =>
      rests action ⟨later_running running roomy productive, allowed⟩⟩
  · intro later onward rests
    have running := later_running running roomy onward
    have done := resting_done running roomy rests
    exact ⟨done, running.complete done⟩

theorem all_answered_example : ∃ later,
    Runs.Run (step 100000) Productive (new (fun _ => sampleMr) (fun _ => sampleMr)) later ∧
      later.done = true ∧
      (later.connection .client).returned.Perm ((List.range' 1 100000).map toBeBytes) := by
  have roomy : Roomy 100000 (fun _ => sampleMr) (fun _ => sampleMr) :=
    ⟨fun _ => by decide, fun _ => by decide, fun _ => by decide⟩
  obtain ⟨-, ⟨later, onward, rests⟩, finished⟩ :=
    all_answered 100000 (by omega) _ _ roomy _ .refl
  obtain ⟨done, -, answers⟩ := finished later onward rests
  exact ⟨later, onward, done, answers⟩

end Programs

end Ibv
