import Ibv.Mr
import Ibv.Runs

set_option autoImplicit false

namespace Ibv

open RingFifo

/-- `granted` lists every region allocated so far, `retired` counts those the release
task has retired. -/
structure LocalRing where
  buffer : SendBuffer
  granted : List LocalBuf
  retired : Nat

namespace LocalRing

def new (mr : MR) : LocalRing := ⟨.new mr, [], 0⟩

inductive Action where
  | alloc (length : Nat)
  | clear (wrId : Nat)
  | popRelease
  | releaseDone
deriving DecidableEq, Repr

def take (ring : LocalRing) (length : Nat) : LocalRing :=
  { ring with
    buffer := (ring.buffer.take length).1
    granted := ring.granted ++ [(ring.buffer.take length).2.1] }

def step (ring : LocalRing) : Action → Option LocalRing
  | .alloc length => if ring.buffer.waits length then none else some (ring.take length)
  | .clear wrId => some { ring with buffer := ring.buffer.clear wrId }
  | .popRelease => ring.buffer.popRelease.map fun buffer => { ring with buffer := buffer }
  | .releaseDone => ring.buffer.releaseDone.map fun buffer =>
      { ring with buffer := buffer, retired := ring.retired + 1 }

def addresses (ring : LocalRing) : Ring := ring.buffer.ring

/-- The queue of the release task lists the allocations not yet retired, under their
own numbers, and the cursors hold exactly their lengths. -/
structure Accounts (ring : LocalRing) : Prop where
  fresh : ring.buffer.fresh = ring.granted.length
  ids : ring.buffer.queue.map Prod.fst = List.range' ring.retired ring.buffer.queue.length
  count : ring.retired + ring.buffer.queue.length = ring.granted.length
  holds : ring.addresses.Holds ring.buffer.done (ring.buffer.queue.map Prod.snd)
    ring.buffer.index
  placed : (ring.granted.drop ring.retired).map LocalBuf.region =
    ring.addresses.regions ring.buffer.done (ring.buffer.queue.map Prod.snd)

theorem new_accounts (mr : MR) : Accounts (new mr) where
  fresh := rfl
  ids := rfl
  count := rfl
  holds := Ring.Holds.empty (Nat.le_refl _) (Nat.le_add_right _ _)
  placed := rfl

variable {ring after : LocalRing}

theorem take_accounts {length : Nat} (accounts : Accounts ring)
    (room : ring.addresses.Admits ring.buffer.done ring.buffer.index length) :
    Accounts (ring.take length) := by
  have count := accounts.count
  have within : ring.retired ≤ ring.granted.length := by omega
  have shape : ring.take length = { ring with
      buffer := (ring.buffer.take length).1
      granted := ring.granted ++ [(ring.buffer.take length).2.1] } := rfl
  rw [SendBuffer.take_eq] at shape
  have queue : (ring.take length).buffer.queue =
      ring.buffer.queue ++ [(ring.buffer.fresh, length)] := by
    rw [shape, SendBuffer.queue, SendBuffer.queue, List.append_assoc]
  have granted : (ring.take length).granted = ring.granted ++
      [⟨ring.addresses.place ring.buffer.index length, length, ring.buffer.mr.lkey⟩] := by
    rw [shape]
    rfl
  have lengths : (ring.take length).buffer.queue.map Prod.snd =
      ring.buffer.queue.map Prod.snd ++ [length] := by rw [queue, List.map_append]; rfl
  have done : (ring.take length).buffer.done = ring.buffer.done := by rw [shape]
  have index : (ring.take length).buffer.index =
      ring.addresses.advance ring.buffer.index length := by rw [shape]; rfl
  have same : (ring.take length).addresses = ring.addresses := by rw [shape]; rfl
  have retired : (ring.take length).retired = ring.retired := rfl
  refine
    { fresh := ?_
      ids := ?_
      count := ?_
      holds := ?_
      placed := ?_ }
  · rw [granted, List.length_append, List.length_singleton, ← accounts.fresh, shape]
  · rw [queue, retired, List.map_append, List.length_append, List.length_singleton,
      List.range'_concat, accounts.ids, List.map_singleton, accounts.fresh, ← count]
    simp only [Nat.one_mul]
  · rw [queue, granted, retired, List.length_append, List.length_append, List.length_singleton,
      List.length_singleton, ← Nat.add_assoc, count]
  · rw [same, done, index, lengths]
    exact accounts.holds.push length room
  · rw [same, done, lengths, granted, retired, List.drop_append_of_le_length within,
      List.map_append, accounts.placed, Ring.regions_append, accounts.holds.cursor]
    rfl

theorem clear_accounts (wrId : Nat) (accounts : Accounts ring) :
    Accounts { ring with buffer := ring.buffer.clear wrId } :=
  ⟨accounts.fresh, accounts.ids, accounts.count, accounts.holds, accounts.placed⟩

theorem popRelease_accounts {buffer : SendBuffer} (accounts : Accounts ring)
    (taken : ring.buffer.popRelease = some buffer) :
    Accounts { ring with buffer := buffer } := by
  obtain ⟨pair, rest, idle, queued, rfl⟩ := SendBuffer.popRelease_cases taken
  have same : SendBuffer.queue { ring.buffer with releasing := some pair, toRelease := rest } =
      ring.buffer.queue := by
    simp only [SendBuffer.queue, idle, queued, Option.toList_some, Option.toList_none,
      List.nil_append, List.singleton_append]
  exact
    { fresh := accounts.fresh
      ids := by rw [same]; exact accounts.ids
      count := by rw [same]; exact accounts.count
      holds := by rw [same]; exact accounts.holds
      placed := by rw [same]; exact accounts.placed }

theorem releaseDone_accounts {buffer : SendBuffer} (accounts : Accounts ring)
    (taken : ring.buffer.releaseDone = some buffer) :
    Accounts { ring with buffer := buffer, retired := ring.retired + 1 } := by
  obtain ⟨wrId, length, waiting, -, rfl⟩ := SendBuffer.releaseDone_cases taken
  have queue : ring.buffer.queue = (wrId, length) :: ring.buffer.toRelease := by
    rw [SendBuffer.queue, waiting, Option.toList_some, List.singleton_append]
  have ids := accounts.ids
  have count := accounts.count
  have holds := accounts.holds
  have placed := congrArg (List.drop 1) accounts.placed
  rw [queue] at ids count holds placed
  rw [List.map_cons, List.length_cons, List.range'_succ, List.cons.injEq] at ids
  rw [← List.map_drop, List.drop_drop] at placed
  refine
    { fresh := accounts.fresh
      ids := ids.2
      count := ?_
      holds := holds.pop
      placed := placed }
  rw [List.length_cons] at count
  change ring.retired + 1 + ring.buffer.toRelease.length = ring.granted.length
  omega

theorem step_accounts (action : Action) (accounts : Accounts ring)
    (taken : step ring action = some after) : Accounts after := by
  cases action with
  | alloc length =>
      unfold step at taken
      dsimp only at taken
      split at taken
      · cases taken
      · rename_i free
        cases taken
        exact take_accounts accounts ((Cursors.waits_false_iff _ _).mp (by simpa using free))
  | clear wrId =>
      cases taken
      exact clear_accounts wrId accounts
  | popRelease =>
      obtain ⟨buffer, popped, rfl⟩ := Option.map_eq_some_iff.mp taken
      exact popRelease_accounts accounts popped
  | releaseDone =>
      obtain ⟨buffer, done, rfl⟩ := Option.map_eq_some_iff.mp taken
      exact releaseDone_accounts accounts done

theorem run_accounts {mr : MR} {ok : LocalRing → Action → Prop}
    (run : Runs.Run step ok (new mr) ring) : Accounts ring :=
  run.invariant _ (new_accounts mr) fun _ action _ accounts _ taken =>
    step_accounts action accounts taken

theorem Accounts.releasing_oldest {wrId length : Nat} (accounts : Accounts ring)
    (releasing : ring.buffer.releasing = some (wrId, length)) :
    wrId = ring.retired ∧ wrId < ring.buffer.fresh := by
  have ids := accounts.ids
  have count := accounts.count
  have fresh := accounts.fresh
  rw [SendBuffer.queue, releasing, Option.toList_some, List.singleton_append] at ids count
  rw [List.map_cons, List.length_cons, List.range'_succ, List.cons.injEq] at ids
  rw [List.length_cons] at count
  exact ⟨ids.1, by omega⟩

theorem Accounts.grant_apart {length : Nat} (accounts : Accounts ring)
    (room : ring.addresses.Admits ring.buffer.done ring.buffer.index length) :
    ∀ old ∈ ring.granted.drop ring.retired,
      Region.Apart ⟨ring.addresses.place ring.buffer.index length, length⟩ old.region := by
  intro old member
  apply accounts.holds.grant_apart room
  rw [← accounts.placed]
  exact List.mem_map_of_mem member

/-- The regions not yet retired are pairwise apart. -/
theorem Accounts.apart (accounts : Accounts ring) :
    ((ring.granted.drop ring.retired).map LocalBuf.region).Pairwise Region.Apart := by
  rw [accounts.placed]
  exact accounts.holds.regions_apart

end LocalRing

end Ibv
