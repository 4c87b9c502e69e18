import Ibv.LocalRing

set_option autoImplicit false

namespace Ibv

open RingFifo Runs

namespace SendBuffer

/-- `alloc` from the end of its wait to the flag that `add_to_release` makes. -/
def place (buffer : SendBuffer) (length : Nat) : SendBuffer × LocalBuf × Nat :=
  let granted := buffer.toCursors.grant length
  ({ buffer with
      toCursors := granted.1
      inUse := Function.update buffer.inUse buffer.fresh true
      fresh := buffer.fresh + 1 }, ⟨granted.2, length, buffer.mr.lkey⟩, buffer.fresh)

/-- `MyQueue::push`; `none` while the channel is full. -/
def push (buffer : SendBuffer) (pair : Nat × Nat) : Option SendBuffer :=
  if buffer.toRelease.length < 2 * defaultRqeCount then
    some { buffer with toRelease := buffer.toRelease ++ [pair] }
  else none

/-- The buffer with pairs that are still to be pushed. -/
def withPairs (buffer : SendBuffer) (pairs : List (Nat × Nat)) : SendBuffer :=
  { buffer with toRelease := buffer.toRelease ++ pairs }

variable {buffer after : SendBuffer} {length : Nat}

@[simp] theorem withPairs_nil : buffer.withPairs [] = buffer := by
  rw [withPairs, List.append_nil]

/-- A region placed and its pair queued are an allocation in one step. -/
theorem place_withPairs :
    (buffer.place length).1.withPairs [(buffer.fresh, length)] = (buffer.take length).1 := rfl

theorem push_cases {pair : Nat × Nat} (pushed : buffer.push pair = some after) :
    after = buffer.withPairs [pair] := by
  unfold push at pushed
  split at pushed
  · exact (Option.some.inj pushed).symm
  · cases pushed

theorem popRelease_withPairs (pairs : List (Nat × Nat)) (taken : buffer.popRelease = some after) :
    (buffer.withPairs pairs).popRelease = some (after.withPairs pairs) := by
  obtain ⟨pair, rest, idle, queued, rfl⟩ := popRelease_cases taken
  simp only [popRelease, withPairs, idle, queued, List.cons_append]

theorem releaseDone_withPairs (pairs : List (Nat × Nat))
    (taken : buffer.releaseDone = some after) :
    (buffer.withPairs pairs).releaseDone = some (after.withPairs pairs) := by
  obtain ⟨wrId, length, waiting, cleared, rfl⟩ := releaseDone_cases taken
  simp only [releaseDone, withPairs, waiting, cleared, Cursors.retire_eq, Bool.false_eq_true,
    ↓reduceIte, Cursors.ring]

end SendBuffer

/-- Where the call that holds the index lock is: in the wait loop, behind it, or sending the
pair of its region to the release task. -/
inductive Holder where
  | waiting (length : Nat)
  | admitted (length : Nat)
  | queueing (flag length : Nat)
deriving DecidableEq, Repr

/-- `calls` are the lengths of the calls that wait for the index lock. `granted` lists all
regions with their flags and `indices` the values `index` took with them; `returned`,
`cleared` and `retired` are the flags that `alloc` has returned, that completions have
cleared and that the release task has done with, each in order. -/
structure SendRing where
  buffer : SendBuffer
  calls : List Nat
  holder : Option Holder
  granted : List (LocalBuf × Nat)
  indices : List Nat
  returned : List Nat
  cleared : List Nat
  retired : List Nat

namespace SendRing

def new (mr : MR) : SendRing where
  buffer := .new mr
  calls := []
  holder := none
  granted := []
  indices := []
  returned := []
  cleared := []
  retired := []

inductive Action where
  | call (length : Nat)
  | lock (i : Nat)
  | endWait
  | place
  | push
  | clear (flag : Nat)
  | popRelease
  | releaseDone
deriving DecidableEq, Repr

/-- One of the waiting calls takes the index lock. -/
def lock (ring : SendRing) (i : Nat) : Option SendRing :=
  match ring.holder, ring.calls[i]? with
  | none, some length => some { ring with
      calls := ring.calls.eraseIdx i
      holder := some (.waiting length) }
  | _, _ => none

/-- The wait condition is false for one snapshot of `done`. -/
def endWait (ring : SendRing) : Option SendRing :=
  match ring.holder with
  | some (.waiting length) =>
      if ring.buffer.waits length then none
      else some { ring with holder := some (.admitted length) }
  | _ => none

def place (ring : SendRing) : Option SendRing :=
  match ring.holder with
  | some (.admitted length) =>
      let placed := ring.buffer.place length
      some { ring with
        buffer := placed.1
        holder := some (.queueing placed.2.2 length)
        granted := ring.granted ++ [placed.2]
        indices := ring.indices ++ [placed.1.index] }
  | _ => none

/-- The pair is queued, the lock released and the region returned. -/
def push (ring : SendRing) : Option SendRing :=
  match ring.holder with
  | some (.queueing flag length) =>
      (ring.buffer.push (flag, length)).map fun buffer =>
        { ring with
          buffer := buffer
          holder := none
          returned := ring.returned ++ [flag] }
  | _ => none

/-- The completion of the send that was given this flag. -/
def clear (ring : SendRing) (flag : Nat) : Option SendRing :=
  if flag ∈ ring.returned ∧ flag ∉ ring.cleared then some { ring with
    buffer := ring.buffer.clear flag
    cleared := ring.cleared ++ [flag] }
  else none

def releaseDone (ring : SendRing) : Option SendRing :=
  ring.buffer.releaseDone.map fun buffer =>
    { ring with
      buffer := buffer
      retired := ring.retired ++ ring.buffer.releasing.toList.map Prod.fst }

def step (ring : SendRing) : Action → Option SendRing
  | .call length => some { ring with calls := ring.calls ++ [length] }
  | .lock i => ring.lock i
  | .endWait => ring.endWait
  | .place => ring.place
  | .push => ring.push
  | .clear flag => ring.clear flag
  | .popRelease => ring.buffer.popRelease.map fun buffer => { ring with buffer := buffer }
  | .releaseDone => ring.releaseDone

def addresses (ring : SendRing) : Ring := ring.buffer.ring

/-- The pair whose region is granted and that is not queued yet. -/
def queueing (ring : SendRing) : List (Nat × Nat) :=
  match ring.holder with
  | some (.queueing flag length) => [(flag, length)]
  | _ => []

/-- The ring as it is once the holder of the lock has queued its pair. -/
def settled (ring : SendRing) : LocalRing where
  buffer := ring.buffer.withPairs ring.queueing
  granted := ring.granted.map Prod.fst
  retired := ring.retired.length

end SendRing

end Ibv
