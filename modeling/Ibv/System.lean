import Ibv.EndpointSteps
import Ibv.Runs

set_option autoImplicit false

namespace Ibv

/-- `ConnType` -/
inductive Side where
  | client
  | server
deriving DecidableEq, Repr

namespace Side

def other : Side → Side
  | client => server
  | server => client

@[simp] theorem other_other (side : Side) : side.other.other = side := by cases side <;> rfl

@[simp] theorem other_ne (side : Side) : side.other ≠ side := by cases side <;> decide

theorem eq_or_other (side chosen : Side) : side = chosen ∨ side = chosen.other := by
  cases side <;> cases chosen <;> decide

theorem forall_update {State : Type} (holds : Side → State → State → Prop)
    {states : Side → State} {side : Side} {after : State}
    (own : holds side after (states side.other))
    (peer : holds side.other (states side.other) after) (chosen : Side) :
    holds chosen (Function.update states side after chosen)
      (Function.update states side after chosen.other) := by
  have rest : Function.update states side after side.other = states side.other :=
    Function.update_of_ne side.other_ne _ _
  rcases chosen.eq_or_other side with rfl | rfl
  · rw [Function.update_self, rest]
    exact own
  · rw [other_other, Function.update_self, rest]
    exact peer

end Side

abbrev System := Side → Endpoint

namespace System

def new (recvMr sendMr : Side → MR) : System := fun side =>
  .new (recvMr side) (sendMr side) (.fromMr (recvMr side.other))

inductive Action where
  | own (side : Side) (action : Endpoint.Action)
  | write (side : Side) (i : Nat)
  | deliver (side : Side)

/-- The bytes of request `i`, read before, are written to the peer's memory, once. -/
def writeData (sender receiver : Endpoint) (i : Nat) : Option (Endpoint × Endpoint) :=
  match sender.posted[i]?, sender.fetched i with
  | some request, some data =>
      if sender.written i then none
      else some
        ({ sender with written := Function.update sender.written i true },
          { receiver with
            recvMem := ByteMemory.write receiver.recvMem request.remoteBuf.addr data })
  | _, _ => none

/-- The next request consumes a receive of the peer and completes there. At an empty receive
queue it waits, for as long as it takes: the retries that `rnr_retry` allows, after which the
queue pair gives up, are not counted. -/
def deliverNext (sender receiver : Endpoint) : Option (Endpoint × Endpoint) :=
  match sender.posted[sender.delivered]? with
  | some request =>
      if sender.written sender.delivered ∧ 0 < receiver.receives then some
        ({ sender with delivered := sender.delivered + 1 },
          { receiver with
            receives := receiver.receives - 1
            cq := receiver.cq ++ [request.recvWc] })
      else none
  | none => none

def join (side : Side) (mine peer : Endpoint) : System := fun chosen =>
  if chosen = side then mine else peer

def step (system : System) : Action → Option System
  | .own side action => ((system side).step action).map fun after =>
      join side after (system side.other)
  | .write side i => (writeData (system side) (system side.other) i).map fun after =>
      join side after.1 after.2
  | .deliver side => (deliverNext (system side) (system side.other)).map fun after =>
      join side after.1 after.2

@[simp] theorem join_self (side : Side) (mine peer : Endpoint) : join side mine peer side = mine :=
  if_pos rfl

@[simp] theorem join_other (side : Side) (mine peer : Endpoint) :
    join side mine peer side.other = peer := if_neg side.other_ne

theorem join_swap (side : Side) (mine peer : Endpoint) :
    join side.other peer mine = join side mine peer := by
  funext chosen
  rcases chosen.eq_or_other side with rfl | rfl
  · rw [join_self]
    exact if_neg (Ne.symm chosen.other_ne)
  · rw [join_self, join_other]

theorem join_eq (side : Side) (system : System) :
    join side (system side) (system side.other) = system := by
  funext chosen
  rcases chosen.eq_or_other side with rfl | rfl
  · exact join_self _ _ _
  · exact join_other _ _ _

/-- A condition on the steps of the endpoints themselves. -/
def Allowed (allowed : Endpoint → Endpoint → Endpoint.Action → Prop) (system : System) :
    Action → Prop
  | .own side action => allowed (system side) (system side.other) action
  | .write _ _ | .deliver _ => True

theorem step_own {side : Side} {mine peer after : Endpoint} {action : Endpoint.Action}
    (taken : mine.step action = some after) :
    step (join side mine peer) (.own side action) = some (join side after peer) := by
  rw [step, join_self, taken, Option.map_some, join_other]

theorem step_write {side : Side} {mine peer : Endpoint} {i : Nat} {after : Endpoint × Endpoint}
    (taken : writeData mine peer i = some after) :
    step (join side mine peer) (.write side i) = some (join side after.1 after.2) := by
  rw [step, join_self, join_other, taken, Option.map_some]

theorem step_deliver {side : Side} {mine peer : Endpoint} {after : Endpoint × Endpoint}
    (taken : deliverNext mine peer = some after) :
    step (join side mine peer) (.deliver side) = some (join side after.1 after.2) := by
  rw [step, join_self, join_other, taken, Option.map_some]

theorem unrestricted {ok : System → Action → Prop} {start finish : System}
    (run : Runs.Run step ok start finish) :
    Runs.Run step (Allowed fun _ _ _ => True) start finish := by
  refine run.mono ?_
  intro system label _
  cases label <;> exact trivial

variable {allowed : Endpoint → Endpoint → Endpoint.Action → Prop}

/-- An invariant of one endpoint with its peer, shown for one step of either of them and
for the two steps of the wire, holds on both sides in every state of every run. -/
theorem pairwise {start finish : System} (Inv : Side → Endpoint → Endpoint → Prop)
    (run : Runs.Run step (Allowed allowed) start finish)
    (initially : ∀ side, Inv side (start side) (start side.other))
    (own : ∀ side mine peer action after, Inv side mine peer → Inv side.other peer mine →
      allowed mine peer action → mine.step action = some after →
      Inv side after peer ∧ Inv side.other peer after)
    (write : ∀ side sender receiver i after, Inv side sender receiver →
      Inv side.other receiver sender → writeData sender receiver i = some after →
      Inv side after.1 after.2 ∧ Inv side.other after.2 after.1)
    (deliver : ∀ side sender receiver after, Inv side sender receiver →
      Inv side.other receiver sender → deliverNext sender receiver = some after →
      Inv side after.1 after.2 ∧ Inv side.other after.2 after.1) :
    ∀ side, Inv side (finish side) (finish side.other) := by
  refine run.invariant (fun system => ∀ side, Inv side (system side) (system side.other))
    initially ?_
  intro before label after holds permitted taken
  have joined (side : Side) (mine peer : Endpoint)
      (both : Inv side mine peer ∧ Inv side.other peer mine) :
      ∀ chosen, Inv chosen (join side mine peer chosen) (join side mine peer chosen.other) := by
    intro chosen
    rcases chosen.eq_or_other side with rfl | rfl
    · rw [join_self, join_other]
      exact both.1
    · rw [Side.other_other, join_self, join_other]
      exact both.2
  cases label with
  | own side action =>
      obtain ⟨mine, acted, rfl⟩ := Option.map_eq_some_iff.mp taken
      have back := holds side.other
      rw [Side.other_other] at back
      exact joined _ _ _ (own side _ _ action mine (holds side) back permitted acted)
  | write side i =>
      obtain ⟨both, acted, rfl⟩ := Option.map_eq_some_iff.mp taken
      have back := holds side.other
      rw [Side.other_other] at back
      exact joined _ _ _ (write side _ _ i both (holds side) back acted)
  | deliver side =>
      obtain ⟨both, acted, rfl⟩ := Option.map_eq_some_iff.mp taken
      have back := holds side.other
      rw [Side.other_other] at back
      exact joined _ _ _ (deliver side _ _ both (holds side) back acted)

theorem writeData_cases {sender receiver : Endpoint} {i : Nat} {after : Endpoint × Endpoint}
    (taken : writeData sender receiver i = some after) :
    ∃ request data, sender.posted[i]? = some request ∧ sender.fetched i = some data ∧
      sender.written i = false ∧ after =
        ({ sender with written := Function.update sender.written i true },
          { receiver with
            recvMem := ByteMemory.write receiver.recvMem request.remoteBuf.addr data }) := by
  unfold writeData at taken
  split at taken
  · rename_i request data entry fetched
    split at taken
    · cases taken
    · rename_i fresh
      exact ⟨request, data, entry, fetched, Bool.eq_false_iff.mpr fresh,
        (Option.some.inj taken).symm⟩
  · cases taken

theorem deliverNext_cases {sender receiver : Endpoint} {after : Endpoint × Endpoint}
    (taken : deliverNext sender receiver = some after) :
    ∃ request, sender.posted[sender.delivered]? = some request ∧
      sender.written sender.delivered = true ∧ 0 < receiver.receives ∧ after =
        ({ sender with delivered := sender.delivered + 1 },
          { receiver with
            receives := receiver.receives - 1
            cq := receiver.cq ++ [request.recvWc] }) := by
  unfold deliverNext at taken
  split at taken
  · rename_i request entry
    split at taken
    · rename_i ready
      exact ⟨request, entry, ready.1, ready.2, (Option.some.inj taken).symm⟩
    · cases taken
  · cases taken

/-- What a step of the connection does to one side: a step of its own, or at most what the
transport does there. -/
theorem step_side {system after : System} {label : Action} (side : Side)
    (taken : step system label = some after) :
    (∃ action, label = .own side action ∧ (system side).step action = some (after side)) ∨
      ((∀ action, label ≠ .own side action) ∧
        ∃ written delivered receives cq recvMem, after side = { system side with
          written := written
          delivered := delivered
          receives := receives
          cq := cq
          recvMem := recvMem }) := by
  cases label with
  | own chosen action =>
      obtain ⟨mine, acted, rfl⟩ := Option.map_eq_some_iff.mp taken
      rcases side.eq_or_other chosen with rfl | rfl
      · left
        exact ⟨action, rfl, by rw [join_self, acted]⟩
      · right
        refine ⟨?_, _, _, _, _, _, join_other _ _ _⟩
        rintro own same
        exact chosen.other_ne (Action.own.inj same).1.symm
  | write chosen i =>
      obtain ⟨both, acted, rfl⟩ := Option.map_eq_some_iff.mp taken
      obtain ⟨request, data, -, -, -, rfl⟩ := writeData_cases acted
      right
      rcases side.eq_or_other chosen with rfl | rfl
      · exact ⟨by simp, _, _, _, _, _, join_self _ _ _⟩
      · exact ⟨by simp, _, _, _, _, _, join_other _ _ _⟩
  | deliver chosen =>
      obtain ⟨both, acted, rfl⟩ := Option.map_eq_some_iff.mp taken
      obtain ⟨request, -, -, -, rfl⟩ := deliverNext_cases acted
      right
      rcases side.eq_or_other chosen with rfl | rfl
      · exact ⟨by simp, _, _, _, _, _, join_self _ _ _⟩
      · exact ⟨by simp, _, _, _, _, _, join_other _ _ _⟩

/-- An invariant of one endpoint that the transport cannot break, shown for one step of its
own, holds on both sides in every state of every run. -/
theorem alone {start finish : System} (Inv : Side → Endpoint → Prop)
    (run : Runs.Run step (Allowed allowed) start finish) (initially : ∀ side, Inv side (start side))
    (own : ∀ side mine peer action after, Inv side mine → allowed mine peer action →
      mine.step action = some after → Inv side after)
    (wire : ∀ side mine written delivered receives cq recvMem, Inv side mine →
      Inv side { mine with
        written := written
        delivered := delivered
        receives := receives
        cq := cq
        recvMem := recvMem }) (side : Side) : Inv side (finish side) := by
  refine run.invariant (fun system => ∀ side, Inv side (system side)) initially ?_ side
  intro before label after holds permitted taken side
  rcases step_side side taken with ⟨action, rfl, acted⟩ | ⟨-, _, _, _, _, _, same⟩
  · exact own side _ _ action _ (holds side) permitted acted
  · rw [same]
    exact wire side _ _ _ _ _ _ (holds side)

end System

end Ibv
