import Mathlib.Tactic.MkIffOfInductiveProp
import Ibv.Ownership

set_option autoImplicit false

namespace Ibv

open Runs Ownership

/-- What the driver has to be given back, and the `Conn` that owns it. Connections and the
contexts of the `Device`s are numbered. -/
inductive Resource where
  | device (context : Nat)
  | pd (id : Nat)
  | cq (id : Nat)
  | qp (id : Nat)
  | recvBuffer (id : Nat)
  | sendBuffer (id : Nat)
  | conn (id : Nat)
deriving DecidableEq, Repr

namespace Resource

-- The `Device` that the `PD` and the `CQ` of each connection refer to.
variable (deviceOf : Nat → Nat)

/-- In the order of the fields in the source, which is the order of their drops. -/
def fields : Resource → List Resource
  | .device _ => []
  | .pd id => [.device (deviceOf id)]
  | .cq id => [.device (deviceOf id)]
  | .qp id => [.pd id, .cq id]
  | .recvBuffer _ => []
  | .sendBuffer _ => []
  | .conn id => [.recvBuffer id, .sendBuffer id, .qp id]

/-- What stands in an `Arc`, as a `Conn` does in the programs. -/
def shared : Resource → Bool
  | .recvBuffer _ => false
  | .sendBuffer _ => false
  | _ => true

/-- `MR::new` is given the `PD` of the queue pair and keeps nothing of it. -/
def borrows : Resource → List Resource
  | .recvBuffer id => [.qp id]
  | .sendBuffer id => [.qp id]
  | _ => []

def layout : Layout Resource where
  fields := fields deviceOf
  shared := shared
  borrows := borrows
  free := by
    intro resource behindArc
    cases resource <;> simp_all [shared, borrows]
  guarded := by
    intro owner
    cases owner <;> simp [fields, borrows]

/-- What the driver demands: a region or a queue pair that is registered with a protection
domain goes before it, a queue pair before its completion queue, all of them before the
device is closed. -/
inductive DependsOn : Resource → Resource → Prop where
  | recvMr (id : Nat) : DependsOn (.recvBuffer id) (.pd id)
  | sendMr (id : Nat) : DependsOn (.sendBuffer id) (.pd id)
  | qpPd (id : Nat) : DependsOn (.qp id) (.pd id)
  | qpCq (id : Nat) : DependsOn (.qp id) (.cq id)
  | pdDevice (id : Nat) : DependsOn (.pd id) (.device (deviceOf id))
  | cqDevice (id : Nat) : DependsOn (.cq id) (.device (deviceOf id))

/-! The constructors and the functions that call them. A task is the strand of its number;
where one is given a `Device` it is the first thing the strand holds. -/

def deviceNew (context strand : Nat) : List (Action Resource) :=
  [.create (.device context) strand 0]

def pdNew (id strand : Nat) : List (Action Resource) := [.create (.pd id) strand 1]

/-- It clones the `Arc` it is given once more for its field. -/
def cqNew (id strand : Nat) : List (Action Resource) :=
  [.clone (.device (deviceOf id)) strand, .create (.cq id) strand 2, .release strand]

def qpNew (id strand : Nat) : List (Action Resource) :=
  [.clone (.device (deviceOf id)) strand] ++ pdNew id strand ++
    [.clone (.device (deviceOf id)) strand] ++ cqNew deviceOf id strand ++
    [.create (.qp id) strand 3, .release strand]

def exchangeRecvBuf (id strand : Nat) : List (Action Resource) :=
  [.create (.recvBuffer id) strand 0]

/-- The polling task is given a clone of the queue pair: what moves to another task is cloned
there and released here. -/
def connNew (id strand daemon : Nat) : List (Action Resource) :=
  [.create (.sendBuffer id) strand 0, .clone (.qp id) strand, .spawn, .clone (.qp id) daemon,
    .release strand, .create (.conn id) strand 3]

def establish (id strand daemon : Nat) : List (Action Resource) :=
  qpNew deviceOf id strand ++ exchangeRecvBuf id strand ++ connNew id strand daemon

def connect (id strand daemon : Nat) : List (Action Resource) :=
  deviceNew (deviceOf id) strand ++ establish deviceOf id strand daemon

/-- One turn of the loop of `run`. The task keeps its `Device` and sends the `Conn`: a message
in the channel is a strand of its own. -/
def runTurn (id strand daemon : Nat) : List (Action Resource) :=
  [.clone (.device (deviceOf id)) strand] ++ establish deviceOf id strand daemon ++
    [.spawn, .clone (.conn id) (daemon + 1), .release strand]

def accept (id strand message : Nat) : List (Action Resource) :=
  [.clone (.conn id) strand, .release message]

/-- None of a connection is there yet. -/
def Fresh (id : Nat) (heap : Heap Resource) : Prop :=
  ∀ resource ∈ [pd id, cq id, qp id, recvBuffer id, sendBuffer id, conn id],
    resource ∉ heap.alive ∧ resource ∉ heap.dropped

variable {deviceOf : Nat → Nat} {heap : Heap Resource} {id strand daemon : Nat}
  {held : List Resource}

/-- The heap differs only by what is alive and what the strands hold. -/
@[mk_iff]
structure Changed (heap after : Heap Resource) (made : List Resource)
    (strands : List (List Resource)) : Prop where
  alive : after.alive = made ++ heap.alive
  dropped : after.dropped = heap.dropped
  strands : after.strands = strands

theorem qpNew_runs
    (place : heap.strands[strand]? = some (.device (deviceOf id) :: held))
    (alive : .device (deviceOf id) ∈ heap.alive) (fresh : Fresh id heap) :
    ∃ after, exec (layout deviceOf).step heap (qpNew deviceOf id strand) = some after ∧
      Changed heap after [.qp id, .cq id, .pd id] (heap.strands.set strand (.qp id :: held)) := by
  obtain ⟨inside, first⟩ := List.getElem?_eq_some_iff.mp place
  simp only [Fresh, List.mem_cons, List.not_mem_nil, or_false, forall_eq_or_imp, forall_eq] at fresh
  simp [qpNew, pdNew, cqNew, Layout.step, Layout.leftover, layout, fields, shared, borrows, first,
    alive, fresh, inside, List.Perm.swap, changed_iff]

theorem exchangeRecvBuf_runs (place : heap.strands[strand]? = some (.qp id :: held))
    (unborn : .recvBuffer id ∉ heap.alive) (undropped : .recvBuffer id ∉ heap.dropped) :
    ∃ after, exec (layout deviceOf).step heap (exchangeRecvBuf id strand) = some after ∧
      Changed heap after [.recvBuffer id]
        (heap.strands.set strand (.recvBuffer id :: .qp id :: held)) := by
  simp [exchangeRecvBuf, Layout.step, Layout.leftover, layout, fields, borrows, place, unborn,
    undropped, changed_iff]

theorem connNew_runs
    (place : heap.strands[strand]? = some (.recvBuffer id :: .qp id :: held))
    (alive : .qp id ∈ heap.alive) (unborn : .sendBuffer id ∉ heap.alive ∧ .conn id ∉ heap.alive)
    (undropped : .sendBuffer id ∉ heap.dropped ∧ .conn id ∉ heap.dropped) :
    ∃ after, exec (layout deviceOf).step heap (connNew id strand heap.strands.length) =
        some after ∧
      Changed heap after [.conn id, .sendBuffer id]
        (heap.strands.set strand (.conn id :: held) ++ [[.qp id]]) := by
  obtain ⟨inside, first⟩ := List.getElem?_eq_some_iff.mp place
  simp [connNew, Layout.step, Layout.leftover, layout, fields, shared, borrows, first, alive,
    unborn, undropped, inside, List.getElem?_append, List.set_append, List.Perm.swap, changed_iff]

/-- The constructors always get what they need. The strand ends with the `Conn` in the place
of the `Device`, the polling task with the queue pair. -/
theorem establish_runs
    (place : heap.strands[strand]? = some (.device (deviceOf id) :: held))
    (alive : .device (deviceOf id) ∈ heap.alive) (fresh : Fresh id heap) :
    ∃ after, exec (layout deviceOf).step heap
        (establish deviceOf id strand heap.strands.length) = some after ∧
      Changed heap after [.conn id, .sendBuffer id, .recvBuffer id, .qp id, .cq id, .pd id]
        (heap.strands.set strand (.conn id :: held) ++ [[.qp id]]) := by
  obtain ⟨inside, -⟩ := List.getElem?_eq_some_iff.mp place
  obtain ⟨paired, ran, first⟩ := qpNew_runs place alive fresh
  simp only [Fresh, List.mem_cons, List.not_mem_nil, or_false, forall_eq_or_imp, forall_eq] at fresh
  obtain ⟨received, ran', second⟩ : ∃ after, exec (layout deviceOf).step paired
      (exchangeRecvBuf id strand) = some after ∧ Changed paired after [.recvBuffer id]
        (paired.strands.set strand (.recvBuffer id :: .qp id :: held)) := by
    apply exchangeRecvBuf_runs
    · simp [first.strands, inside]
    · simp [first.alive, fresh]
    · simp [first.dropped, fresh]
  obtain ⟨after, ran'', third⟩ : ∃ after, exec (layout deviceOf).step received
      (connNew id strand received.strands.length) = some after ∧
        Changed received after [.conn id, .sendBuffer id]
          (received.strands.set strand (.conn id :: held) ++ [[.qp id]]) := by
    apply connNew_runs
    · simp [second.strands, first.strands, inside]
    · simp [second.alive, first.alive]
    · simp [second.alive, first.alive, fresh]
    · simp [second.dropped, first.dropped, fresh]
  have same : received.strands.length = heap.strands.length := by
    simp [second.strands, first.strands]
  rw [same] at ran''
  refine ⟨after, ?_, ?_, ?_, ?_⟩
  · rw [establish, exec_append, exec_append, ran, Option.bind_some, ran', Option.bind_some, ran'']
  · simp [third.alive, second.alive, first.alive]
  · simp [third.dropped, second.dropped, first.dropped]
  · simp [third.strands, second.strands, first.strands]

theorem connect_runs (place : heap.strands[strand]? = some held) (fresh : Fresh id heap)
    (unborn : .device (deviceOf id) ∉ heap.alive)
    (undropped : .device (deviceOf id) ∉ heap.dropped) :
    ∃ after, exec (layout deviceOf).step heap
        (connect deviceOf id strand heap.strands.length) = some after ∧
      Changed heap after [.conn id, .sendBuffer id, .recvBuffer id, .qp id, .cq id, .pd id,
          .device (deviceOf id)]
        (heap.strands.set strand (.conn id :: held) ++ [[.qp id]]) := by
  obtain ⟨inside, -⟩ := List.getElem?_eq_some_iff.mp place
  obtain ⟨opened, ran, first⟩ : ∃ after, exec (layout deviceOf).step heap
      (deviceNew (deviceOf id) strand) = some after ∧ Changed heap after [.device (deviceOf id)]
        (heap.strands.set strand (.device (deviceOf id) :: held)) := by
    simp [deviceNew, Layout.step, Layout.leftover, layout, fields, borrows, place, unborn,
      undropped, changed_iff]
  obtain ⟨after, ran', second⟩ : ∃ after, exec (layout deviceOf).step opened
      (establish deviceOf id strand opened.strands.length) = some after ∧ Changed opened after
        [.conn id, .sendBuffer id, .recvBuffer id, .qp id, .cq id, .pd id]
        (opened.strands.set strand (.conn id :: held) ++ [[.qp id]]) := by
    apply establish_runs
    · simp [first.strands, inside]
    · simp [first.alive]
    · simpa [Fresh, first.alive, first.dropped] using fresh
  have same : opened.strands.length = heap.strands.length := by simp [first.strands]
  rw [same] at ran'
  refine ⟨after, ?_, ?_, ?_, ?_⟩
  · rw [connect, exec_append, ran, Option.bind_some, ran']
  · simp [second.alive, first.alive]
  · simp [second.dropped, first.dropped]
  · simp [second.strands, first.strands]

theorem DependsOn.needs {later earlier : Resource} (depends : DependsOn deviceOf later earlier) :
    (layout deviceOf).Needs later earlier := by
  cases depends with
  | recvMr id | sendMr id =>
      have owner : (layout deviceOf).Needs (.qp id) (.pd id) :=
        .single (.inl (by simp [layout, fields]))
      exact owner.head (.inr (by simp [layout, borrows]))
  | _ => exact .single (.inl (by simp [layout, fields]))

/-- What the queue pair keeps from being dropped, for a polling task as long as it runs. -/
theorem owns_qp (resource : Resource) : (layout deviceOf).Owns (.qp id) resource ↔
    resource ∈ [.qp id, .pd id, .cq id, .device (deviceOf id)] := by
  constructor
  · intro owns
    induction owns with
    | refl => simp
    | tail _ field ih =>
        simp only [List.mem_cons, List.not_mem_nil, or_false] at ih
        rcases ih with rfl | rfl | rfl | rfl <;> simp [layout, fields] at field ⊢ <;> grind
  · intro member
    have pd : (layout deviceOf).Owns (.qp id) (.pd id) :=
      .single (by simp [layout, fields])
    have cq : (layout deviceOf).Owns (.qp id) (.cq id) :=
      .single (by simp [layout, fields])
    have device : (layout deviceOf).Owns (.qp id) (.device (deviceOf id)) :=
      pd.tail (by simp [layout, fields])
    simp only [List.mem_cons, List.not_mem_nil, or_false] at member
    rcases member with rfl | rfl | rfl | rfl
    · exact .refl
    · exact pd
    · exact cq
    · exact device

/-- In every order in which the tasks set up, share and drop their connections, or end in a
panic, each resource is given back once, and after all that the driver has registered with
it. -/
theorem teardown_order (deviceOf : Nat → Nat) (heap : Heap Resource)
    (run : Run (layout deviceOf).step Any .empty heap) :
    heap.dropped.Nodup ∧
      heap.dropped.Pairwise (fun earlier later => ¬ DependsOn deviceOf later earlier) ∧
      ∀ later earlier, DependsOn deviceOf later earlier → earlier ∈ heap.dropped →
        later ∉ heap.alive := by
  have sound := Layout.run_sound run
  refine ⟨(List.nodup_append.mp sound.once).1, ?_, ?_⟩
  · apply (Layout.run_ordered run).imp
    intro earlier later ordered depends
    exact ordered depends.needs
  · intro later earlier depends dropped alive
    exact sound.dropped_dead dropped (sound.outlived depends.needs alive)

/-- The client's connection, with a device of its own, and two of a server. -/
def sampleDeviceOf (id : Nat) : Nat := if id = 0 then 0 else 1

/-- Task 0 is the client, 1 runs `run` and 2 has accepted the first. The polling tasks are 3, 4
and 6, the messages 5 and 7. -/
def sampleStart : List (Action Resource) :=
  [.spawn, .spawn, .spawn] ++ connect sampleDeviceOf 0 0 3 ++ deviceNew 1 1 ++
    runTurn sampleDeviceOf 1 1 4 ++ runTurn sampleDeviceOf 2 1 6 ++ accept 1 2 5

/-- The client drops its `Conn`, and then its polling task ends. -/
def clientEnd : List (Action Resource) :=
  List.replicate 4 (.release 0) ++ List.replicate 5 (.release 3)

def clientDropped : List Resource :=
  [.conn 0, .recvBuffer 0, .sendBuffer 0, .qp 0, .pd 0, .cq 0, .device 0]

theorem teardown_order_client : ∃ heap,
    Run (layout sampleDeviceOf).step Any .empty heap ∧ heap.dropped = clientDropped ∧
      ∀ later, DependsOn sampleDeviceOf later (.device 0) → later ∉ heap.alive := by
  obtain ⟨heap, run, reached⟩ : ∃ heap, Run (layout sampleDeviceOf).step Any .empty heap ∧
      decide (heap.dropped = clientDropped) = true :=
    Run.exists_of_exec (fun heap : Heap Resource => decide (heap.dropped = clientDropped))
      (sampleStart ++ clientEnd) (by decide +kernel)
  have dropped := of_decide_eq_true reached
  refine ⟨heap, run, dropped, ?_⟩
  intro later depends
  apply (teardown_order sampleDeviceOf heap run).2.2 later (.device 0) depends
  simp [dropped, clientDropped]

/-- Nothing is left with the driver when all tasks have ended: each gives back what it holds,
one reference at a time. While the polling tasks are all that goes on, the queue pairs they
hold are alive with what these own, and nothing else is. -/
theorem teardown_complete (deviceOf : Nat → Nat) (heap after : Heap Resource)
    (actions : List (Action Resource)) (run : Run (layout deviceOf).step Any .empty heap)
    (ending : Trail (layout deviceOf).step Layout.Releases heap actions after) :
    actions.length ≤ ((layout deviceOf).references heap).length ∧
      ((∀ held ∈ after.strands, held = [] ∨ ∃ id, held = [.qp id]) →
        ∀ resource, resource ∈ after.alive ↔ ∃ id, [.qp id] ∈ after.strands ∧
          resource ∈ [.qp id, .pd id, .cq id, .device (deviceOf id)]) ∧
      (Resting (layout deviceOf).step Layout.Releases after →
        actions.length = ((layout deviceOf).references heap).length ∧ after.alive = [] ∧
          ∀ resource ∈ heap.alive, resource ∈ after.dropped) := by
  have sound := Layout.run_sound run
  have drained := sound.drains ending
  have whole := run.trans ending.run.any
  have sound' := Layout.run_sound whole
  refine ⟨by omega, ?_, ?_⟩
  · intro polling resource
    rw [sound'.alive_iff]
    constructor
    · rintro ⟨held, strand, root, member, owns⟩
      rcases polling held strand with rfl | ⟨id, rfl⟩
      · simp at member
      · rw [List.mem_singleton] at member
        subst member
        exact ⟨id, strand, (owns_qp resource).mp owns⟩
    · rintro ⟨id, strand, member⟩
      exact ⟨[.qp id], strand, .qp id, by simp, (owns_qp resource).mpr member⟩
  · intro rests
    have ended := Layout.resting_iff.mp rests
    have strands := List.flatten_eq_nil_iff.mpr ended
    have alive := sound'.ended ended
    refine ⟨?_, alive, ?_⟩
    · simpa [Layout.references, strands, alive] using drained
    · intro resource member
      have kept := Layout.run_kept ending.run.any (List.mem_append_right heap.dropped member)
      simpa [alive] using kept

def releasing : Action Resource → Bool
  | .release _ => true
  | _ => false

theorem releases_of_releasing (heap : Heap Resource) (action : Action Resource)
    (released : releasing action = true) : Layout.Releases heap action := by
  cases action with
  | release strand => exact ⟨strand, rfl⟩
  | _ => cases released

/-- All the others end as well. -/
def sampleEnd : List (Action Resource) :=
  clientEnd ++ [.release 1] ++ List.replicate 4 (.release 2) ++ List.replicate 5 (.release 4) ++
    List.replicate 4 (.release 7) ++ List.replicate 5 (.release 6)

theorem teardown_complete_all : ∃ (heap after : Heap Resource)
    (actions : List (Action Resource)), Run (layout sampleDeviceOf).step Any .empty heap ∧
      Trail (layout sampleDeviceOf).step Layout.Releases heap actions after ∧
      .device 1 ∈ heap.alive ∧ .device 1 ∈ after.dropped := by
  obtain ⟨heap, run, reached⟩ : ∃ heap, Run (layout sampleDeviceOf).step Any .empty heap ∧
      (decide (.device 1 ∈ heap.alive) && (observe (layout sampleDeviceOf).step
        (fun _ => releasing) (fun _ label => [label]) heap sampleEnd).any
          fun result => result.2.strands.all List.isEmpty) = true :=
    Run.exists_of_exec (fun heap : Heap Resource => decide (.device 1 ∈ heap.alive) &&
      (observe (layout sampleDeviceOf).step (fun _ => releasing) (fun _ label => [label]) heap
        sampleEnd).any fun result => result.2.strands.all List.isEmpty)
      sampleStart (by decide +kernel)
  rw [Bool.and_eq_true, decide_eq_true_eq] at reached
  obtain ⟨actions, after, ending, empty⟩ : ∃ actions after,
      Trail (layout sampleDeviceOf).step Layout.Releases heap actions after ∧
        after.strands.all List.isEmpty = true :=
    Observed.exists_of_observe (fun _ => releasing)
      (fun _ (after : Heap Resource) => after.strands.all List.isEmpty)
      releases_of_releasing sampleEnd reached.2
  have ended : ∀ held ∈ after.strands, held = [] := by simpa using empty
  obtain ⟨-, -, all⟩ := (teardown_complete sampleDeviceOf heap after actions run ending).2.2
    (Layout.resting_iff.mpr ended)
  exact ⟨heap, after, actions, run, ending, reached.1, all _ reached.1⟩

end Resource

end Ibv
