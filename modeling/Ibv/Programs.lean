import Mathlib.Data.List.Nodup
import Ibv.ByteFormat
import Ibv.Calls
import Ibv.Notices
import Ibv.SmallMessages

set_option autoImplicit false

/- examples/client.rs and examples/server.rs on the two ends of a connection. The client
sends its requests from as many tasks, the server answers each with the number received so
far, and the client waits for as many answers. -/
namespace Ibv

open Direction (sampleMr)

/-- `u32::to_be_bytes` -/
def toBeBytes (value : Nat) : List UInt8 := (ByteFormat.digits 4 value).reverse

@[simp] theorem toBeBytes_length (value : Nat) : (toBeBytes value).length = 4 := by
  rw [toBeBytes, List.length_reverse, ByteFormat.digits_length]

theorem toBeBytes_inj {first second : Nat} (small : first < 2 ^ 32) (small' : second < 2 ^ 32)
    (same : toBeBytes first = toBeBytes second) : first = second := by
  have digits := List.reverse_injective same
  rw [← ByteFormat.number_digits 4 first small, digits, ByteFormat.number_digits 4 second small']

def IoSlice.new (bytes : List UInt8) : IoSlice where
  len := bytes.length
  byte := fun i => bytes.getD i 0

@[simp] theorem IoSlice.bytes_new (bytes : List UInt8) : (IoSlice.new bytes).bytes = bytes := by
  apply List.ext_getElem
  · rw [IoSlice.bytes_length, new]
  · intro i inside inside'
    simp [IoSlice.bytes, IoSlice.new, inside']

/-- What a task sends. -/
def numbered (number : Nat) : Msg := [IoSlice.new (toBeBytes number)]

@[simp] theorem numbered_bytes (number : Nat) : (numbered number).bytes = toBeBytes number := by
  rw [numbered, Msg.bytes_cons, IoSlice.bytes_new, Msg.bytes_nil, List.append_nil]

@[simp] theorem numbered_totalLen (number : Nat) : (numbered number).totalLen = 4 := by
  rw [← Msg.bytes_length, numbered_bytes, toBeBytes_length]

@[simp] theorem numbered_wireLen (number : Nat) : (numbered number).wireLen = 4 := by
  rw [Msg.wireLen, numbered_totalLen]
  exact Nat.mod_eq_of_lt (by omega)

namespace Endpoint

/-- The steps that the receiving loops and the tasks take, and the post that fails. -/
def Action.programmed : Action → Bool
  | .call _ | .recv | .finish | .release | .postFail _ => true
  | _ => false

variable {endpoint after : Endpoint}

theorem step_tasks (action : Action) (succeeds : endpoint.failing action = [])
    (taken : endpoint.step action = some after) :
    after.submitted.Perm (endpoint.submitted ++ action.called) := by
  have moved := step_submitted action taken
  rw [succeeds, List.append_nil] at moved
  exact moved

theorem step_tasks_same (action : Action) (succeeds : endpoint.failing action = [])
    (uncalled : action.called = []) (taken : endpoint.step action = some after) :
    after.submitted.Perm endpoint.submitted := by
  have moved := step_tasks action succeeds taken
  rw [uncalled, List.append_nil] at moved
  exact moved

theorem step_plain (action : Action) (plain : action.programmed = false)
    (taken : endpoint.step action = some after) :
    after.submitted.Perm endpoint.submitted ∧ after.returned = endpoint.returned ∧
      after.held = endpoint.held ∧ after.receiving = endpoint.receiving := by
  have notRecv : action ≠ .recv := by
    rintro rfl
    cases plain
  have notReading : action.reading = false := by
    cases action <;> first | rfl | cases plain
  have succeeds : endpoint.failing action = [] := by
    cases action <;> first | rfl | cases plain
  have uncalled : action.called = [] := by
    cases action <;> first | rfl | cases plain
  obtain ⟨-, held, returned, -, receiving, -⟩ := step_not_reading action notReading taken
  exact ⟨step_tasks_same action succeeds uncalled taken, returned, held, receiving notRecv⟩

end Endpoint

namespace System

def Action.programmed : Action → Bool
  | .own _ action => action.programmed
  | .write _ _ | .deliver _ => false

theorem forall_join {side : Side} {mine peer : Endpoint} (holds : Side → Endpoint → Prop)
    (own : holds side mine) (others : holds side.other peer) (chosen : Side) :
    holds chosen (join side mine peer chosen) := by
  rcases chosen.eq_or_other side with rfl | rfl
  · rw [join_self]
    exact own
  · rw [join_other]
    exact others

theorem own_cases {system after : System} {side : Side} {action : Endpoint.Action}
    (taken : system.step (.own side action) = some after) :
    ∃ mine, (system side).step action = some mine ∧ after = join side mine (system side.other) := by
  obtain ⟨mine, acted, same⟩ := Option.map_eq_some_iff.mp taken
  exact ⟨mine, acted, same.symm⟩

theorem step_plain {system after : System} (action : Action) (plain : action.programmed = false)
    (taken : system.step action = some after) (side : Side) :
    (after side).submitted.Perm (system side).submitted ∧
      (after side).returned = (system side).returned ∧ (after side).held = (system side).held ∧
      (after side).receiving = (system side).receiving := by
  rcases step_side side taken with ⟨own, rfl, acted⟩ | ⟨-, _, _, _, _, _, same⟩
  · exact Endpoint.step_plain own plain acted
  · rw [same]
    exact ⟨.refl _, rfl, rfl, rfl⟩

end System

/-- `spawned` are the tasks that have not called `send_msg` yet, `next` is the `i` of the
client's loop, `count` how many slices each receiving loop has got, and `done` whether the
client has received its last one. The u32 of the server does not overflow below 2^32
requests. -/
structure Programs where
  connection : System
  spawned : Side → List Nat
  next : Nat
  count : Side → Nat
  done : Bool

namespace Programs

def new (recvMr sendMr : Side → MR) : Programs where
  connection := .new recvMr sendMr
  spawned := fun _ => []
  next := 0
  count := fun _ => 0
  done := false

inductive Action where
  | spawn
  | start (side : Side) (k : Nat)
  | connection (action : System.Action)

variable (total : Nat) (programs : Programs)

/-- The client's loop spawns the task of its next request. -/
def spawn : Option Programs :=
  if programs.next < total then some { programs with
    spawned := Function.update programs.spawned .client
      (programs.spawned .client ++ [programs.next])
    next := programs.next + 1 }
  else none

/-- A spawned task calls `send_msg`. -/
def start (side : Side) (k : Nat) : Option Programs :=
  match (programs.spawned side)[k]? with
  | some number =>
      (programs.connection.step (.own side (.call (numbered number)))).map fun connection =>
        { programs with
          connection := connection
          spawned := Function.update programs.spawned side ((programs.spawned side).eraseIdx k) }
  | none => none

/-- A receiving loop calls `recv_msg` again when it has released the slice before; that of
the client has ended once it is done. -/
def recv (side : Side) : Option Programs :=
  if (programs.connection side).held = [] ∧ (side = .client → programs.done = false) then
    (programs.connection.step (.own side .recv)).map fun connection =>
      { programs with connection := connection }
  else none

def finish (side : Side) : Option Programs :=
  (programs.connection.step (.own side .finish)).map fun connection =>
    { programs with
      connection := connection
      count := Function.update programs.count side (programs.count side + 1) }

/-- After the release the server spawns the task of its response, and the client compares
its count with `total`. -/
def release (side : Side) : Option Programs :=
  (programs.connection.step (.own side .release)).map fun connection =>
    match side with
    | .client => { programs with
        connection := connection
        done := programs.done || programs.count .client == total }
    | .server => { programs with
        connection := connection
        spawned := Function.update programs.spawned .server
          (programs.spawned .server ++ [programs.count .server]) }

/-- The tasks make the calls; everything else the connection does by itself. -/
def step : Action → Option Programs
  | .spawn => programs.spawn total
  | .start side k => programs.start side k
  | .connection (.own side .recv) => programs.recv side
  | .connection (.own side .finish) => programs.finish side
  | .connection (.own side .release) => programs.release total side
  | .connection (.own _ (.call _)) => none
  | .connection action =>
      (programs.connection.step action).map fun connection =>
        { programs with connection := connection }

/-- No post fails. -/
def Succeeds (_ : Programs) : Action → Prop
  | .connection (.own _ (.postFail _)) => False
  | _ => True

/-- The numbers of all tasks spawned so far: those of the client's loop, and one for each
slice that the server has released. -/
def issued (programs : Programs) : Side → List Nat
  | .client => List.range programs.next
  | .server => List.range' 1 ((programs.connection .server).returned.length -
      (programs.connection .server).held.length)

structure Sound (total : Nat) (programs : Programs) : Prop where
  tasks : ∀ side, ((programs.connection side).submitted ++
    (programs.spawned side).map numbered).Perm ((programs.issued side).map numbered)
  counted : ∀ side, programs.count side = (programs.connection side).returned.length
  single : ∀ side, (programs.connection side).held.length +
    (programs.connection side).receiving.toList.length ≤ 1
  next : programs.next ≤ total
  done : programs.done = true → total ≤ programs.count .client
  undone : programs.done = false → (programs.connection .client).held = [] →
    programs.count .client ≠ total

variable {total} {before after : Programs} {side : Side}

theorem new_sound (positive : 0 < total) (recvMr sendMr : Side → MR) :
    Sound total (new recvMr sendMr) where
  tasks := fun side => by cases side <;> exact .refl _
  counted := fun _ => rfl
  single := fun _ => Nat.zero_le _
  next := Nat.zero_le _
  done := fun finished => absurd finished Bool.false_ne_true
  undone := fun _ _ => Nat.ne_of_lt positive

theorem spawn_sound (sound : Sound total before) (taken : before.spawn total = some after) :
    Sound total after := by
  unfold spawn at taken
  split at taken
  · rename_i below
    cases taken
    refine { sound with tasks := ?_, next := below }
    intro side
    have tasks := sound.tasks side
    cases side with
    | client =>
        unfold issued at tasks ⊢
        dsimp only at tasks ⊢
        rw [Function.update_self, List.map_append, ← List.append_assoc, List.range_succ,
          List.map_append]
        exact tasks.append_right _
    | server =>
        unfold issued at tasks ⊢
        dsimp only at tasks ⊢
        rw [Function.update_of_ne (by decide)]
        exact tasks
  · cases taken

theorem Sound.move (sound : Sound total before) (next : after.next = before.next)
    (count : after.count = before.count) (done : after.done = before.done)
    (same : ∀ side, (after.connection side).returned = (before.connection side).returned ∧
      (after.connection side).held = (before.connection side).held)
    (single : ∀ side, (after.connection side).held.length +
      (after.connection side).receiving.toList.length ≤ 1)
    (tasks : ∀ side, ((after.connection side).submitted ++
      (after.spawned side).map numbered).Perm ((before.issued side).map numbered)) :
    Sound total after where
  tasks := by
    intro side
    have issued : after.issued side = before.issued side := by
      cases side with
      | client => rw [issued, issued, next]
      | server => rw [issued, issued, (same .server).1, (same .server).2]
    rw [issued]
    exact tasks side
  counted := by
    intro side
    rw [count, (same side).1]
    exact sound.counted side
  single := single
  next := by
    rw [next]
    exact sound.next
  done := by
    rw [done, count]
    exact sound.done
  undone := by
    rw [done, count, (same .client).2]
    exact sound.undone

theorem perm_start {submitted submitted' calls : List Msg} {spawned : List Nat} {k number : Nat}
    (called : submitted'.Perm (submitted ++ [numbered number]))
    (entry : spawned[k]? = some number) (kept : (submitted ++ spawned.map numbered).Perm calls) :
    (submitted' ++ (spawned.eraseIdx k).map numbered).Perm calls := by
  obtain ⟨below, rfl⟩ := List.getElem?_eq_some_iff.mp entry
  refine ((called.append_right _).trans ?_).trans kept
  rw [List.append_assoc]
  exact ((List.getElem_cons_eraseIdx_perm below).map numbered).append_left _

theorem start_sound {k : Nat} (sound : Sound total before)
    (taken : before.start side k = some after) : Sound total after := by
  unfold start at taken
  split at taken
  · rename_i number entry
    obtain ⟨connection, acted, rfl⟩ := Option.map_eq_some_iff.mp taken
    obtain ⟨mine, called, rfl⟩ := System.own_cases acted
    have moved := Endpoint.step_tasks (.call (numbered number)) rfl called
    cases called
    refine sound.move rfl rfl rfl ?_ ?_ ?_
    · exact System.forall_join (fun chosen endpoint =>
        endpoint.returned = (before.connection chosen).returned ∧
          endpoint.held = (before.connection chosen).held) ⟨rfl, rfl⟩ ⟨rfl, rfl⟩
    · exact System.forall_join (fun _ endpoint =>
        endpoint.held.length + endpoint.receiving.toList.length ≤ 1)
        (sound.single side) (sound.single side.other)
    · intro chosen
      rcases chosen.eq_or_other side with rfl | rfl
      · dsimp only
        rw [System.join_self, Function.update_self]
        exact perm_start moved entry (sound.tasks chosen)
      · dsimp only
        rw [System.join_other, Function.update_of_ne side.other_ne]
        exact sound.tasks side.other
  · cases taken

theorem plain_sound {action : System.Action} {connection : System} (sound : Sound total before)
    (plain : action.programmed = false) (taken : before.connection.step action = some connection) :
    Sound total { before with connection := connection } := by
  have kept := System.step_plain action plain taken
  refine sound.move rfl rfl rfl ?_ ?_ ?_
  · exact fun side => ⟨(kept side).2.1, (kept side).2.2.1⟩
  · intro side
    dsimp only
    rw [(kept side).2.2.1, (kept side).2.2.2]
    exact sound.single side
  · exact fun side => ((kept side).1.append_right _).trans (sound.tasks side)

theorem recv_sound (sound : Sound total before) (taken : before.recv side = some after) :
    Sound total after := by
  unfold recv at taken
  split at taken
  · rename_i allowed
    obtain ⟨connection, acted, rfl⟩ := Option.map_eq_some_iff.mp taken
    obtain ⟨mine, received, rfl⟩ := System.own_cases acted
    have moved := Endpoint.step_tasks_same .recv rfl rfl received
    obtain ⟨pair, rest, idle, -, rfl⟩ := Endpoint.recv_cases received
    refine sound.move rfl rfl rfl ?_ ?_ ?_
    · exact System.forall_join (fun chosen endpoint =>
        endpoint.returned = (before.connection chosen).returned ∧
          endpoint.held = (before.connection chosen).held) ⟨rfl, rfl⟩ ⟨rfl, rfl⟩
    · refine System.forall_join (fun _ endpoint =>
        endpoint.held.length + endpoint.receiving.toList.length ≤ 1) ?_ (sound.single side.other)
      dsimp only
      rw [allowed.1]
      exact Nat.le_refl _
    · exact System.forall_join (fun chosen endpoint => (endpoint.submitted ++
        (before.spawned chosen).map numbered).Perm ((before.issued chosen).map numbered))
        ((moved.append_right _).trans (sound.tasks side)) (sound.tasks side.other)
  · cases taken

theorem finish_sound (sound : Sound total before) (taken : before.finish side = some after) :
    Sound total after := by
  obtain ⟨connection, acted, rfl⟩ := Option.map_eq_some_iff.mp taken
  obtain ⟨mine, returns, rfl⟩ := System.own_cases acted
  have moved := Endpoint.step_tasks_same .finish rfl rfl returns
  obtain ⟨pair, recvBuf, slice, receiving, -, same⟩ := Endpoint.finish_cases returns
  have empty : (before.connection side).held = [] := by
    have single := sound.single side
    rw [receiving, Option.toList_some, List.length_singleton] at single
    exact List.eq_nil_of_length_eq_zero (by omega)
  have returned : mine.returned.length = (before.connection side).returned.length + 1 := by
    rw [same, List.length_append]
    rfl
  have held : mine.held = [slice] := by
    rw [same, empty]
    rfl
  have idle : mine.receiving = none := by rw [same]
  have issued (chosen : Side) : issued { before with
      connection := System.join side mine (before.connection side.other)
      count := Function.update before.count side (before.count side + 1) } chosen =
      before.issued chosen := by
    cases chosen with
    | client => rfl
    | server =>
        unfold Programs.issued
        dsimp only
        cases side with
        | client => rfl
        | server => rw [System.join_self, returned, held, empty, List.length_singleton,
            Nat.add_sub_cancel, List.length_nil, Nat.sub_zero]
  refine { tasks := ?_, counted := ?_, single := ?_, next := sound.next, done := ?_, undone := ?_ }
  · intro chosen
    rw [issued]
    exact System.forall_join (fun chosen endpoint => (endpoint.submitted ++
      (before.spawned chosen).map numbered).Perm ((before.issued chosen).map numbered))
      ((moved.append_right _).trans (sound.tasks side)) (sound.tasks side.other) chosen
  · refine System.forall_join (fun chosen endpoint =>
      Function.update before.count side (before.count side + 1) chosen =
        endpoint.returned.length) ?_ ?_
    · rw [Function.update_self, sound.counted, returned]
    · rw [Function.update_of_ne side.other_ne]
      exact sound.counted side.other
  · refine System.forall_join (fun _ endpoint =>
      endpoint.held.length + endpoint.receiving.toList.length ≤ 1) ?_ (sound.single side.other)
    rw [held, idle]
    exact Nat.le_refl _
  · intro finished
    have enough := sound.done finished
    cases side with
    | client => exact Nat.le_succ_of_le enough
    | server => exact enough
  · cases side with
    | client =>
        intro _ none
        have nothing : mine.held = [] := none
        rw [held] at nothing
        cases nothing
    | server => exact sound.undone

/-- After a release the server has one more task, and the client has compared its count. -/
theorem release_sound (sound : Sound total before)
    (behind : (before.connection side).held.length ≤ (before.connection side).returned.length)
    (taken : before.release total side = some after) : Sound total after := by
  obtain ⟨connection, acted, same⟩ := Option.map_eq_some_iff.mp taken
  obtain ⟨mine, releases, rfl⟩ := System.own_cases acted
  have moved := Endpoint.step_tasks_same .release rfl rfl releases
  obtain ⟨slice, rest, held, shape⟩ := Endpoint.releaseSlice_cases releases
  have single := sound.single side
  rw [held, List.length_cons] at single behind
  have within : 1 ≤ (before.connection side).returned.length := by omega
  have empty : rest = [] := List.eq_nil_of_length_eq_zero (by omega)
  have idle : (before.connection side).receiving.toList.length = 0 := by omega
  have returned : mine.returned = (before.connection side).returned := by rw [shape]
  have held' : mine.held = [] := by rw [shape, empty]
  have receiving : mine.receiving = (before.connection side).receiving := by rw [shape]
  have single' : ∀ chosen,
      (System.join side mine (before.connection side.other) chosen).held.length +
        (System.join side mine (before.connection side.other) chosen).receiving.toList.length ≤
          1 := by
    refine System.forall_join (fun _ endpoint =>
      endpoint.held.length + endpoint.receiving.toList.length ≤ 1) ?_ (sound.single side.other)
    rw [held', receiving, idle]
    exact Nat.zero_le _
  have counted : ∀ chosen, before.count chosen =
      (System.join side mine (before.connection side.other) chosen).returned.length := by
    refine System.forall_join (fun chosen endpoint => before.count chosen =
      endpoint.returned.length) ?_ (sound.counted side.other)
    rw [returned]
    exact sound.counted side
  have tasks : ∀ chosen, ((System.join side mine (before.connection side.other) chosen).submitted ++
      (before.spawned chosen).map numbered).Perm ((before.issued chosen).map numbered) :=
    System.forall_join (fun chosen endpoint => (endpoint.submitted ++
      (before.spawned chosen).map numbered).Perm ((before.issued chosen).map numbered))
      ((moved.append_right _).trans (sound.tasks side)) (sound.tasks side.other)
  subst same
  cases side with
  | client =>
      refine
        { tasks := ?_
          counted := counted
          single := single'
          next := sound.next
          done := ?_
          undone := ?_ }
      · intro chosen
        have issued := tasks chosen
        cases chosen <;> exact issued
      · intro finished
        rcases Bool.or_eq_true_iff.mp finished with earlier | now
        · exact sound.done earlier
        · exact Nat.le_of_eq (beq_iff_eq.mp now).symm
      · intro going _
        exact beq_eq_false_iff_ne.mp (Bool.or_eq_false_iff.mp going).2
  | server =>
      refine
        { tasks := ?_
          counted := counted
          single := single'
          next := sound.next
          done := sound.done
          undone := sound.undone }
      intro chosen
      have issued := tasks chosen
      cases chosen with
      | client => exact issued
      | server =>
          obtain ⟨others, count⟩ := Nat.exists_eq_add_of_le' within
          unfold Programs.issued at issued ⊢
          dsimp only at issued ⊢
          rw [held, empty, List.length_singleton, count, Nat.add_sub_cancel] at issued
          rw [System.join_self] at issued ⊢
          rw [Function.update_self, held', returned, count, List.length_nil, Nat.sub_zero,
            List.range'_1_concat, List.map_append, List.map_append, ← List.append_assoc,
            sound.counted, count, Nat.add_comm 1 others]
          exact issued.append_right _

end Programs

namespace Linked

variable {mine peer : Endpoint} {limit : Nat}

theorem granted_small (forth : Linked mine peer)
    (small : ∀ msg ∈ mine.submitted, msg.wireLen ≤ limit) :
    ∀ buf ∈ mine.grantedBufs, buf.length ≤ limit := by
  intro buf member
  rcases List.mem_append.mp member with posted | placed
  · obtain ⟨request, entry, rfl⟩ := List.mem_map.mp posted
    rw [forth.flow.posted request entry]
    exact small _ (List.mem_append_left _ (List.mem_map_of_mem entry))
  · unfold Endpoint.placedBuf at placed
    split at placed
    · rename_i msg buf' wrId imm remote holder
      rw [List.mem_singleton.mp placed, forth.flow.placed _ _ _ _ _ holder]
      refine small _ (List.mem_append_right _ ?_)
      unfold Endpoint.pending
      rw [holder]
      exact List.mem_append_right _ List.mem_cons_self
    · cases placed

/-- As long as all a side has ever called fits in the peer's ring, its calls never wait. -/
theorem waits_light {msg : Msg} {buf : LocalBuf} {wrId imm : Nat} {loop : Loop}
    (forth : Linked mine peer) (small : ∀ msg ∈ mine.submitted, msg.wireLen ≤ limit)
    (room : mine.allocator.left + limit * mine.submitted.length + 2 * limit ≤ mine.allocator.right)
    (holder : mine.lock = some ⟨msg, buf, wrId, .placing imm loop⟩) :
    mine.allocator.waits msg.wireLen = false := by
  have bounded := forth.granted_small small
  obtain ⟨updated, batches, withheld, accounts⟩ := forth.flow.accounts
  have lengths : ∀ length ∈ (Endpoint.direction mine peer).lengths.drop updated,
      length ≤ limit := by
    intro length member
    obtain ⟨buf, granted, rfl⟩ := List.mem_map.mp (List.mem_of_mem_drop member)
    exact bounded buf granted
  have waiting : msg ∈ mine.pending := by
    unfold Endpoint.pending
    rw [holder]
    exact List.mem_append_right _ List.mem_cons_self
  refine (Cursors.waits_false_iff _ _).mpr (accounts.holds.admits_short lengths
    (small msg (List.mem_append_right _ waiting)) ?_)
  have total := List.sum_le_card_nsmul _ limit lengths
  rw [nsmul_eq_mul, Nat.cast_id, List.length_drop, Direction.lengths_length, Nat.mul_comm] at total
  have granted : (Endpoint.direction mine peer).granted.length = mine.posted.length := by
    change mine.grantedBufs.length = _
    unfold Endpoint.grantedBufs Endpoint.placedBuf
    rw [holder, List.append_nil, List.length_map]
  have posted : mine.posted.length ≤ mine.submitted.length := by
    unfold Endpoint.submitted
    rw [List.length_append, List.length_map]
    exact Nat.le_add_right _ _
  have below := Nat.mul_le_mul_left limit (show (Endpoint.direction mine peer).granted.length -
    updated ≤ mine.submitted.length by omega)
  have length := small msg (List.mem_append_right _ waiting)
  change mine.allocator.left + _ + limit + msg.wireLen ≤ mine.allocator.right
  omega

end Linked

namespace Programs

/-- The buffers have room for all messages of a run with `total` requests: the local ring for
those that the release task has not retired, the remote one for all. -/
structure Roomy (total : Nat) (recvMr sendMr : Side → MR) : Prop where
  sends : ∀ side, (2 * defaultRqeCount + 3) * 4 ≤ (sendMr side).length.toNat
  receives : ∀ side, 4 * total + 8 ≤ (recvMr side).length.toNat
  notices : ∀ side, (recvMr side).length.toNat <
    minLengthToNotifyRelease * (defaultRqeCount - 1)

/-- The steps of the connection under the programs. -/
def Modest (system : System) (action : System.Action) : Prop :=
  system.RegularBelow .client 4 action ∧ system.RegularBelow .server 4 action

variable {total : Nat} {recvMr sendMr : Side → MR} {programs before after : Programs}
  {side : Side}

theorem modest_below {system : System}
    (run : Runs.Run System.step Modest (System.new recvMr sendMr) system) (side : Side) :
    Runs.Run System.step (System.RegularBelow side 4) (System.new recvMr sendMr) system := by
  cases side with
  | client => exact run.mono fun _ _ => And.left
  | server => exact run.mono fun _ _ => And.right

theorem modest_regular {system : System}
    (run : Runs.Run System.step Modest (System.new recvMr sendMr) system) :
    Runs.Run System.step System.Regular (System.new recvMr sendMr) system :=
  run.mono fun _ _ modest => modest.1.1

theorem Sound.numbered (sound : Sound total programs) (side : Side) :
    ∀ msg ∈ (programs.connection side).submitted, msg.wireLen = 4 := by
  intro msg member
  have issued := (sound.tasks side).subset (List.mem_append_left _ member)
  obtain ⟨number, -, rfl⟩ := List.mem_map.mp issued
  exact numbered_wireLen number

theorem Sound.submitted_length (sound : Sound total programs) (side : Side) :
    (programs.connection side).submitted.length + (programs.spawned side).length =
      (programs.issued side).length := by
  have lengths := (sound.tasks side).length_eq
  rw [List.length_append, List.length_map, List.length_map] at lengths
  exact lengths

/-- Each answer is sent for a request received, and each request for a task of the client. -/
theorem Sound.causal (sound : Sound total programs)
    (run : Runs.Run System.step Modest (System.new recvMr sendMr) programs.connection) :
    (programs.connection .client).returned.length ≤ (programs.connection .server).posted.length ∧
      (programs.connection .server).posted.length + (programs.connection .server).pending.length +
        (programs.spawned .server).length = (programs.connection .server).returned.length -
          (programs.connection .server).held.length ∧
      (programs.connection .server).returned.length ≤ (programs.connection .client).posted.length ∧
      (programs.connection .client).posted.length + (programs.connection .client).pending.length +
        (programs.spawned .client).length = programs.next := by
  have client := System.regular_linked (modest_regular run) .client
  have server := System.regular_linked (modest_regular run) .server
  have requests := sound.submitted_length .client
  have responses := sound.submitted_length .server
  unfold issued at requests responses
  rw [List.length_range] at requests
  rw [List.length_range'] at responses
  unfold Endpoint.submitted at requests responses
  rw [List.length_append, List.length_map] at requests responses
  have back := client.transport.count
  have forth := server.transport.count
  have sent := client.counts.sent
  have sent' := server.counts.sent
  rw [show Side.client.other = .server from rfl] at back
  rw [show Side.server.other = .client from rfl] at forth
  exact ⟨Nat.le_trans back sent', responses, Nat.le_trans forth sent, requests⟩

theorem Sound.passes (sound : Sound total programs) (roomy : Roomy total recvMr sendMr)
    (run : Runs.Run System.step Modest (System.new recvMr sendMr) programs.connection)
    (side : Side) :
    (∀ msg loop, (programs.connection side).allocating = some (msg, loop) →
      (programs.connection side).sendRing.buffer.waits msg.wireLen = false) ∧
    ∀ msg buf wrId imm loop,
      (programs.connection side).lock = some ⟨msg, buf, wrId, .placing imm loop⟩ →
        (programs.connection side).allocator.waits msg.wireLen = false := by
  refine ⟨?_, ?_⟩
  · intro msg loop allocating
    exact System.run_waits_short (roomy.sends side) (modest_below run side) allocating
  · intro msg buf wrId imm loop holder
    have linked := System.regular_linked (modest_regular run) side
    have ring := System.run_allocator_ring run side
    have left := congrArg RingFifo.Ring.left ring
    have right := congrArg RingFifo.Ring.right ring
    change (programs.connection side).allocator.left = _ at left
    change (programs.connection side).allocator.right = _ at right
    dsimp only at left right
    have few : (programs.connection side).submitted.length ≤ total := by
      obtain ⟨-, responses, received, requests⟩ := sound.causal run
      have bounded := sound.next
      unfold Endpoint.submitted
      rw [List.length_append, List.length_map]
      cases side with
      | client => omega
      | server => omega
    have enough := roomy.receives side.other
    exact linked.waits_light (fun msg member => Nat.le_of_eq (sound.numbered side msg member))
      (by omega) holder

/-- A state that the programs can reach. -/
structure Running (total : Nat) (recvMr sendMr : Side → MR) (programs : Programs) : Prop where
  run : Runs.Run System.step Modest (System.new recvMr sendMr) programs.connection
  sound : Sound total programs

theorem Running.modest {action : System.Action} (running : Running total recvMr sendMr programs)
    (roomy : Roomy total recvMr sendMr) (succeeds : programs.Succeeds (.connection action))
    (small : ∀ side msg, action = .own side (.call msg) → msg.totalLen = 4) :
    Modest programs.connection action := by
  have regular : programs.connection.Regular action := by
    cases action with
    | write side i => trivial
    | deliver side => trivial
    | own side action =>
        obtain ⟨near, far⟩ := running.sound.passes roomy running.run side
        cases action with
        | call msg =>
            change msg.totalLen < 2 ^ 32
            rw [small side msg rfl]
            decide
        | localSecond => exact fun msg first waiting _ => near msg _ waiting
        | remoteSecond => exact fun msg buf wrId imm first holder _ => far _ _ _ _ _ holder
        | postFail errno => exact absurd succeeds not_false
        | _ => trivial
  have below : ∀ side own, action = .own side own → Endpoint.CallsBelow 4 own := by
    rintro side own rfl
    cases own with
    | call msg =>
        change msg.wireLen ≤ 4
        rw [Msg.wireLen, small side msg rfl]
        decide
    | _ => trivial
  exact ⟨⟨regular, below .client⟩, ⟨regular, below .server⟩⟩

theorem connection_step (action : Action) (taken : before.step total action = some after) :
    (action = .spawn ∧ after.connection = before.connection) ∨
    (∃ side k number, action = .start side k ∧
      before.connection.step (.own side (.call (numbered number))) = some after.connection) ∨
    ∃ moved, action = .connection moved ∧ (∀ side msg, moved ≠ .own side (.call msg)) ∧
      before.connection.step moved = some after.connection := by
  cases action with
  | spawn =>
      change before.spawn total = some after at taken
      unfold spawn at taken
      split at taken
      · cases taken
        exact .inl ⟨rfl, rfl⟩
      · cases taken
  | start side k =>
      change before.start side k = some after at taken
      unfold start at taken
      split at taken
      · obtain ⟨connection, acted, rfl⟩ := Option.map_eq_some_iff.mp taken
        exact .inr (.inl ⟨side, k, _, rfl, acted⟩)
      · cases taken
  | connection action =>
      refine .inr (.inr ⟨action, rfl, ?_, ?_⟩)
      · rintro side msg rfl
        cases taken
      · cases action with
        | write side i =>
            obtain ⟨connection, acted, rfl⟩ := Option.map_eq_some_iff.mp taken
            exact acted
        | deliver side =>
            obtain ⟨connection, acted, rfl⟩ := Option.map_eq_some_iff.mp taken
            exact acted
        | own side action =>
            cases action with
            | call msg => cases taken
            | recv =>
                change before.recv side = some after at taken
                unfold recv at taken
                split at taken
                · obtain ⟨connection, acted, rfl⟩ := Option.map_eq_some_iff.mp taken
                  exact acted
                · cases taken
            | release =>
                obtain ⟨connection, acted, rfl⟩ := Option.map_eq_some_iff.mp taken
                cases side <;> exact acted
            | _ =>
                obtain ⟨connection, acted, rfl⟩ := Option.map_eq_some_iff.mp taken
                exact acted

theorem sound_step (action : Action) (running : Running total recvMr sendMr before)
    (succeeds : before.Succeeds action) (taken : before.step total action = some after) :
    Sound total after := by
  obtain ⟨run, sound⟩ := running
  cases action with
  | spawn => exact spawn_sound sound taken
  | start side k => exact start_sound sound taken
  | connection action =>
      cases action with
      | write side i =>
          obtain ⟨connection, acted, rfl⟩ := Option.map_eq_some_iff.mp taken
          exact plain_sound sound rfl acted
      | deliver side =>
          obtain ⟨connection, acted, rfl⟩ := Option.map_eq_some_iff.mp taken
          exact plain_sound sound rfl acted
      | own side action =>
          cases action with
          | call msg => cases taken
          | recv => exact recv_sound sound taken
          | finish => exact finish_sound sound taken
          | release =>
              have linked := System.regular_linked (modest_regular run) side.other
              rw [Side.other_other] at linked
              exact release_sound sound linked.flow.held taken
          | postFail errno => exact absurd succeeds not_false
          | _ =>
              obtain ⟨connection, acted, rfl⟩ := Option.map_eq_some_iff.mp taken
              exact plain_sound sound rfl acted

theorem running_step (action : Action) (running : Running total recvMr sendMr before)
    (roomy : Roomy total recvMr sendMr) (succeeds : before.Succeeds action)
    (taken : before.step total action = some after) : Running total recvMr sendMr after := by
  refine ⟨?_, sound_step action running succeeds taken⟩
  rcases connection_step action taken with
    ⟨-, same⟩ | ⟨side, k, number, -, acted⟩ | ⟨moved, rfl, uncalled, acted⟩
  · rw [same]
    exact running.run
  · have succeeds : before.Succeeds (.connection (.own side (.call (numbered number)))) := trivial
    refine running.run.next _ (running.modest roomy succeeds ?_) acted
    intro side' msg same
    cases same
    exact numbered_totalLen number
  · refine running.run.next _ (running.modest roomy succeeds ?_) acted
    exact fun side msg same => absurd same (uncalled side msg)

theorem running_of (positive : 0 < total) (roomy : Roomy total recvMr sendMr)
    (run : Runs.Run (step total) Succeeds (new recvMr sendMr) programs) :
    Running total recvMr sendMr programs :=
  run.invariant (Running total recvMr sendMr) ⟨.refl, new_sound positive recvMr sendMr⟩
    fun _ action _ running succeeds taken => running_step action running roomy succeeds taken

/-- What one side has received are the numbers of tasks of the other, each at most once. -/
theorem Running.received (running : Running total recvMr sendMr programs) (side : Side) :
    (programs.connection side.other).returned.Subperm
      ((programs.issued side).map toBeBytes) := by
  have linked := System.regular_linked (modest_regular running.run) side
  have tasks := (running.sound.tasks side).map Msg.bytes
  have bytes : (programs.issued side).map toBeBytes =
      ((programs.issued side).map numbered).map Msg.bytes := by
    rw [List.map_map]
    exact List.map_congr_left fun number _ => (numbered_bytes number).symm
  have posted : (programs.connection side).posted.map (fun request => request.msg.bytes) =
      ((programs.connection side).posted.map Request.msg).map Msg.bytes := by
    rw [List.map_map]
    rfl
  rw [bytes, linked.arrived.returned, List.map_take, posted]
  refine List.Subperm.trans (List.take_sublist _ _).subperm (List.Subperm.trans ?_ tasks.subperm)
  unfold Endpoint.submitted
  rw [List.append_assoc, List.map_append]
  exact (List.sublist_append_left _ _).subperm

theorem Running.requests (running : Running total recvMr sendMr programs) :
    (programs.connection .server).returned.Subperm ((List.range total).map toBeBytes) := by
  refine (running.received .client).trans (List.Sublist.map _ ?_).subperm
  exact List.range_sublist.mpr running.sound.next

theorem Running.answers (running : Running total recvMr sendMr programs) :
    (programs.connection .client).returned.Subperm ((List.range' 1 total).map toBeBytes) := by
  refine (running.received .server).trans (List.Sublist.map _ ?_).subperm
  obtain ⟨-, -, received, requests⟩ := running.sound.causal running.run
  have bounded := running.sound.next
  exact List.range'_sublist_right.mpr (by omega)

theorem Running.complete (running : Running total recvMr sendMr programs)
    (done : programs.done = true) :
    (programs.connection .server).returned.Perm ((List.range total).map toBeBytes) ∧
      (programs.connection .client).returned.Perm ((List.range' 1 total).map toBeBytes) := by
  obtain ⟨received, responses, -, -⟩ := running.sound.causal running.run
  have enough := running.sound.done done
  rw [running.sound.counted .client] at enough
  refine ⟨running.requests.perm_of_length_le ?_, running.answers.perm_of_length_le ?_⟩
  · rw [List.length_map, List.length_range]
    omega
  · rw [List.length_map, List.length_range']
    exact enough

theorem Roomy.small (roomy : Roomy total recvMr sendMr) : total < 2 ^ 30 := by
  have enough := roomy.receives .client
  have bounded := (recvMr .client).length.toNat_lt
  omega

theorem nodup_toBeBytes {numbers : List Nat} (once : numbers.Nodup)
    (small : ∀ number ∈ numbers, number < 2 ^ 32) : (numbers.map toBeBytes).Nodup :=
  List.Nodup.map_on (fun first member second member' same =>
    toBeBytes_inj (small first member) (small second member') same) once

theorem nodup_of_subperm {Value : Type} {part whole : List Value} (subperm : part.Subperm whole)
    (once : whole.Nodup) : part.Nodup := by
  obtain ⟨middle, perm, sublist⟩ := subperm
  exact perm.nodup_iff.mp (once.sublist sublist)

/-- The answers are right, in every run of the two programs in which no post fails. -/
theorem answers_right (total : Nat) (positive : 0 < total) (recvMr sendMr : Side → MR)
    (roomy : Roomy total recvMr sendMr) (programs : Programs)
    (run : Runs.Run (step total) Succeeds (new recvMr sendMr) programs) :
    (programs.connection .server).returned.Subperm ((List.range total).map toBeBytes) ∧
      (programs.connection .client).returned.Subperm ((List.range' 1 total).map toBeBytes) ∧
      (programs.connection .server).returned.Nodup ∧
      (programs.connection .client).returned.Nodup ∧
      (programs.connection .client).returned.length ≤
        (programs.connection .server).returned.length ∧
      (programs.done = true →
        (programs.connection .server).returned.Perm ((List.range total).map toBeBytes) ∧
        (programs.connection .client).returned.Perm ((List.range' 1 total).map toBeBytes)) := by
  have running := running_of positive roomy run
  have requests := running.requests
  have answers := running.answers
  have small := roomy.small
  obtain ⟨received, responses, -, -⟩ := running.sound.causal running.run
  have once : ((List.range total).map toBeBytes).Nodup :=
    nodup_toBeBytes List.nodup_range fun number member => by
      have below := List.mem_range.mp member
      omega
  have once' : ((List.range' 1 total).map toBeBytes).Nodup :=
    nodup_toBeBytes List.nodup_range' fun number member => by
      have below := List.mem_range'_1.mp member
      omega
  exact ⟨requests, answers, nodup_of_subperm requests once, nodup_of_subperm answers once',
    by omega, running.complete⟩

def exchange (side : Side) : List Action :=
  Action.start side 0 ::
    ([Endpoint.Action.lockIndex 0, .localFirst, .localSecond, .allocLocal, .copy 0, .takeLock 0,
      .load, .count, .popNotice, .remoteFirst, .remoteSecond, .allocRemote, .post,
      .fetch 0].map (System.Action.own side) ++
    [System.Action.write side 0, .deliver side] ++
    [Endpoint.Action.poll 1, .dispatch, .sendPair, .recv, .finish, .release].map
      (System.Action.own side.other)).map Action.connection

theorem answers_right_one : ∃ programs,
    Runs.Run (step 1) Succeeds (new (fun _ => sampleMr) (fun _ => sampleMr)) programs ∧
      programs.done = true ∧
      (programs.connection .client).returned.Perm ((List.range' 1 1).map toBeBytes) := by
  obtain ⟨programs, run, reached⟩ : ∃ programs,
      Runs.Run (step 1) Succeeds (new (fun _ => sampleMr) (fun _ => sampleMr)) programs ∧
        programs.done = true := by
    refine Runs.Run.exists_of_execChecked (fun _ action => match action with
      | .connection (.own _ (.postFail _)) => false
      | _ => true) _ ?_ (.spawn :: exchange .client ++ exchange .server) (by decide +kernel)
    intro programs action holds
    unfold Succeeds
    split
    · cases holds
    · trivial
  have roomy : Roomy 1 (fun _ => sampleMr) (fun _ => sampleMr) :=
    ⟨fun _ => by decide, fun _ => by decide, fun _ => by decide⟩
  exact ⟨programs, run, reached,
    ((answers_right 1 Nat.one_pos _ _ roomy programs run).2.2.2.2.2 reached).2⟩

end Programs

end Ibv
