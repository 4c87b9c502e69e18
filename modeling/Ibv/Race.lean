import Ibv.DirectionInvariant
import Ibv.LocalRing

set_option autoImplicit false

/- The wait loops of both allocators against the agent that moves `done`, one load or
store of `done` at a time. `index` is written by the allocating task alone, so its loads
are part of the step that compares them. -/
namespace Ibv

open RingFifo

/-- In the wrap branch the first comparison would still pass on the value of `done` that
lets the second one leave the loop. -/
def Cursors.SecondLoadAgrees (cursors : Cursors) (length : Nat) : Prop :=
  cursors.secondLoad = .exited → cursors.right < cursors.index + length →
    cursors.left + length < cursors.done

instance (cursors : Cursors) (length : Nat) : Decidable (cursors.SecondLoadAgrees length) := by
  unfold Cursors.SecondLoadAgrees
  infer_instance

/-- One direction with the steps of `alloc` and `update` taken apart. `waiting` is the
length and the place of the allocating task in its loop, `rewound` the index that the
wrap branch has just overwritten, `updating` what `update` decided on its load of `done`. -/
structure RemoteRace where
  direction : Direction
  waiting : Option (Nat × Loop)
  rewound : Option Nat
  updating : Option Bool
deriving DecidableEq, Repr

namespace RemoteRace

def new (mr : MR) : RemoteRace := ⟨.new mr, none, none, none⟩

inductive Action where
  | call (length : Nat)
  | firstLoad
  | secondLoad
  | store
  | fetchAdd
  | read
  | release
  | carry
  | updateLoad
  | updateStore
deriving DecidableEq, Repr

def allocator (race : RemoteRace) : RemoteBufManager := race.direction.allocator

/-- `index.fetch_add(length)`, with which `alloc` returns. -/
def finish (race : RemoteRace) (length : Nat) : RemoteRace :=
  let added := race.allocator.fetchAdd length
  { race with
    direction := { race.direction with
      allocator := { race.allocator with toCursors := added.1 }
      granted := race.direction.granted ++ [⟨added.2, length, race.allocator.mr.rkey⟩] }
    waiting := none
    rewound := none }

def step (race : RemoteRace) : Action → Option RemoteRace
  | .call length =>
      match race.waiting with
      | none => some { race with waiting := some (length, .head) }
      | some _ => none
  | .firstLoad =>
      match race.waiting with
      | some (length, .head) =>
          some { race with waiting := some (length, race.allocator.firstLoad length) }
      | _ => none
  | .secondLoad =>
      match race.waiting with
      | some (length, .tested _) =>
          some { race with waiting := some (length, race.allocator.secondLoad) }
      | _ => none
  | .store =>
      match race.waiting, race.rewound with
      | some (length, .exited), none =>
          if race.allocator.index + length > race.allocator.right then
            some { race with
              direction := { race.direction with
                allocator := { race.allocator with toCursors := race.allocator.rewind } }
              rewound := some race.allocator.index }
          else none
      | _, _ => none
  | .fetchAdd =>
      match race.waiting, race.rewound with
      | some (length, .exited), none =>
          if race.allocator.index + length > race.allocator.right then none
          else some (race.finish length)
      | some (length, .exited), some _ => some (race.finish length)
      | _, _ => none
  | .read => race.direction.read.map fun after => { race with direction := after }
  | .release => race.direction.release.map fun after => { race with direction := after }
  | .carry => some { race with direction := race.direction.carry }
  | .updateLoad =>
      match race.updating, race.direction.riding with
      | none, imm :: _ =>
          if imm ≠ 0 then
            some { race with
              updating := some (race.allocator.done + imm > race.allocator.right) }
          else race.direction.update.map fun after => { race with direction := after }
      | _, _ => none
  | .updateStore =>
      match race.updating, race.direction.riding with
      | some crosses, imm :: rest =>
          some { race with
            direction := { race.direction with
              allocator := { race.allocator with
                done := (if crosses then race.allocator.left else race.allocator.done) + imm }
              riding := rest
              reported := race.direction.reported + imm }
            updating := none }
      | _, _ => none

/-- The condition under which splitting the wait condition into two loads is harmless. -/
def Consistent (race : RemoteRace) : Action → Prop
  | .secondLoad => ∀ waiting ∈ race.waiting, race.allocator.SecondLoadAgrees waiting.1
  | _ => True

instance (race : RemoteRace) (action : Action) : Decidable (race.Consistent action) :=
  match action with
  | .secondLoad =>
      inferInstanceAs (Decidable (∀ waiting ∈ race.waiting,
        race.allocator.SecondLoadAgrees waiting.1))
  | .call _ | .firstLoad | .store | .fetchAdd | .read | .release | .carry | .updateLoad
  | .updateStore => isTrue trivial

/-- The direction as it stands for the coarser machine: between its last two steps the
wrap branch of `alloc` has not granted anything yet. -/
def settled (race : RemoteRace) : Direction :=
  { race.direction with
    allocator := { race.allocator with index := race.rewound.getD race.allocator.index } }

/-- What the fine steps keep: the accounts of the settled direction, the room behind a
loop that was left, and what the two tasks remember of their loads. -/
structure Sound (race : RemoteRace) : Prop where
  accounts : ∃ updated batches withheld, race.settled.Accounts updated batches withheld
  room : ∀ length, race.waiting = some (length, .exited) →
    race.settled.ring.Admits race.settled.allocator.done race.settled.allocator.index length
  rewound : ∀ before, race.rewound = some before → ∃ length,
    race.waiting = some (length, .exited) ∧ race.allocator.right < before + length ∧
      race.allocator.index = race.allocator.left
  updating : ∀ crosses, race.updating = some crosses → ∃ imm rest,
    race.direction.riding = imm :: rest ∧ imm ≠ 0 ∧
      crosses = decide (race.allocator.done + imm > race.allocator.right)

variable {race after : RemoteRace} {ok : RemoteRace → Action → Prop}

theorem new_sound (mr : MR) : Sound (new mr) where
  accounts := ⟨0, [], [], Direction.new_accounts mr⟩
  room := by
    intro length waiting
    cases waiting
  rewound := by
    intro before rewound
    cases rewound
  updating := by
    intro crosses updating
    cases updating

theorem settled_eq (kept : race.rewound = none) : race.settled = race.direction := by
  rw [settled, kept]
  rfl

theorem Sound.not_rewound {length : Nat} {loop : Loop} (sound : Sound race)
    (waiting : race.waiting = some (length, loop)) (inside : loop ≠ .exited) :
    race.rewound = none := by
  cases rewound : race.rewound with
  | none => rfl
  | some before =>
      obtain ⟨length', exited, -⟩ := sound.rewound before rewound
      rw [waiting] at exited
      cases exited
      exact absurd rfl inside

/-- A load inside the loop, which leaves it only when there is room. -/
theorem Sound.load {length : Nat} {loop next : Loop} (sound : Sound race)
    (waiting : race.waiting = some (length, loop)) (inside : loop ≠ .exited)
    (room : next = .exited →
      race.allocator.ring.Admits race.allocator.done race.allocator.index length) :
    Sound { race with waiting := some (length, next) } := by
  have kept := sound.not_rewound waiting inside
  refine
    { accounts := sound.accounts
      room := ?_
      rewound := ?_
      updating := sound.updating }
  · intro length' exited
    cases exited
    have same : ({ race with waiting := some (length, .exited) } : RemoteRace).settled =
        race.direction := settled_eq kept
    rw [same]
    exact room rfl
  · intro before rewound
    rw [kept] at rewound
    cases rewound

theorem finish_settled {length : Nat} (sound : Sound race)
    (waiting : race.waiting = some (length, .exited))
    (placed : race.rewound = none → race.allocator.index + length ≤ race.allocator.right) :
    race.settled.grant length = some (race.finish length).direction := by
  refine Direction.grant_eq_some_iff.mpr ⟨sound.room length waiting, ?_⟩
  rw [RemoteBufManager.take_eq]
  cases rewound : race.rewound with
  | none =>
      have fits : race.direction.allocator.index + length ≤ race.direction.allocator.ring.right :=
        placed rewound
      rw [settled_eq rewound, Ring.advance_fits fits, Ring.place_fits fits]
      rfl
  | some before =>
      obtain ⟨length', same, wraps, index⟩ := sound.rewound before rewound
      rw [waiting] at same
      cases same
      have crosses : race.settled.allocator.ring.right < race.settled.allocator.index + length := by
        rw [settled, rewound]
        exact wraps
      rw [Ring.advance_wraps crosses, Ring.place_wraps crosses]
      unfold finish allocator Cursors.fetchAdd
      rw [show race.direction.allocator.index = race.direction.allocator.left from index]
      rfl

theorem finish_sound {length : Nat} (sound : Sound race)
    (waiting : race.waiting = some (length, .exited))
    (placed : race.rewound = none → race.allocator.index + length ≤ race.allocator.right) :
    Sound (race.finish length) := by
  obtain ⟨updated, batches, withheld, accounts⟩ := sound.accounts
  have granted := Direction.grant_accounts accounts (finish_settled sound waiting placed)
  exact
    { accounts := ⟨updated, batches, withheld, granted⟩
      room := by
        intro length' exited
        cases exited
      rewound := by
        intro before rewound
        cases rewound
      updating := sound.updating }

theorem Sound.peer {direction : Direction} (sound : Sound race)
    (allocator : direction.allocator = race.direction.allocator)
    (accounts : ∃ updated batches withheld,
      ({ race with direction := direction } : RemoteRace).settled.Accounts updated batches withheld)
    (riding : ∃ added, direction.riding = race.direction.riding ++ added) :
    Sound { race with direction := direction } := by
  obtain ⟨added, riding⟩ := riding
  refine
    { accounts := accounts
      room := ?_
      rewound := ?_
      updating := ?_ }
  · intro length waiting
    have room := sound.room length waiting
    unfold settled RemoteRace.allocator Direction.ring at room ⊢
    dsimp only
    rw [allocator]
    exact room
  · intro before rewound
    have kept := sound.rewound before rewound
    unfold RemoteRace.allocator at kept ⊢
    dsimp only
    rw [allocator]
    exact kept
  · intro crosses updating
    obtain ⟨imm, rest, oldest, positive, decided⟩ := sound.updating crosses updating
    refine ⟨imm, rest ++ added, ?_, positive, ?_⟩
    · change direction.riding = imm :: (rest ++ added)
      rw [riding, oldest]
      rfl
    · unfold RemoteRace.allocator at decided ⊢
      dsimp only
      rw [allocator]
      exact decided

theorem read_sound (sound : Sound race) (taken : race.step .read = some after) : Sound after := by
  obtain ⟨direction, read, rfl⟩ := Option.map_eq_some_iff.mp taken
  obtain ⟨updated, batches, withheld, accounts⟩ := sound.accounts
  have settledRead : race.settled.read =
      some ({ race with direction := direction } : RemoteRace).settled := by
    unfold Direction.read at read ⊢
    obtain ⟨buf, next, rest⟩ := Option.bind_eq_some_iff.mp read
    obtain ⟨result, slice, same⟩ := Option.bind_eq_some_iff.mp rest
    cases same
    refine Option.bind_eq_some_iff.mpr ⟨buf, next, Option.bind_eq_some_iff.mpr ⟨result, slice, ?_⟩⟩
    rfl
  have shape : direction.allocator = race.direction.allocator ∧
      direction.riding = race.direction.riding := by
    obtain ⟨buf, next, rest⟩ := Option.bind_eq_some_iff.mp read
    obtain ⟨result, slice, same⟩ := Option.bind_eq_some_iff.mp rest
    cases same
    exact ⟨rfl, rfl⟩
  exact sound.peer shape.1 ⟨_, _, _, Direction.read_accounts accounts settledRead⟩
    ⟨[], by rw [shape.2, List.append_nil]⟩

theorem release_sound (sound : Sound race) (taken : race.step .release = some after) :
    Sound after := by
  obtain ⟨direction, release, rfl⟩ := Option.map_eq_some_iff.mp taken
  obtain ⟨updated, batches, withheld, accounts⟩ := sound.accounts
  obtain ⟨slice, rest, held, rfl⟩ := Direction.release_cases release
  have settledRelease : race.settled.release = some ({ race with
      direction := { race.direction with
        recvBuf := (race.direction.recvBuf.notifyRelease slice.length).1
        held := rest
        released := race.direction.released + 1
        queued := race.direction.queued ++
          (race.direction.recvBuf.notifyRelease slice.length).2.toList } } : RemoteRace).settled := by
    unfold Direction.release
    rw [show race.settled.held = slice :: rest from held]
    rfl
  obtain ⟨batches', withheld', kept⟩ := Direction.release_accounts accounts settledRelease
  exact sound.peer rfl ⟨_, _, _, kept⟩ ⟨[], (List.append_nil _).symm⟩

theorem carry_settled (race : RemoteRace) :
    ({ race with direction := race.direction.carry } : RemoteRace).settled = race.settled.carry := by
  unfold settled Direction.carry allocator
  dsimp only
  cases race.direction.queued <;> rfl

theorem carry_sound (sound : Sound race) : Sound { race with direction := race.direction.carry } := by
  obtain ⟨updated, batches, withheld, accounts⟩ := sound.accounts
  obtain ⟨batches', kept⟩ := Direction.carry_accounts accounts
  refine sound.peer ?_ ⟨updated, batches', withheld, ?_⟩ ?_
  · unfold Direction.carry
    split <;> rfl
  · rw [carry_settled]
    exact kept
  · unfold Direction.carry
    split
    · rename_i notice rest queued
      exact ⟨[notice], rfl⟩
    · exact ⟨[0], rfl⟩

/-- Both ways of `recv_msg` past `update` are the update of the coarser machine, which
leaves the room behind a loop in place. -/
theorem Sound.updated {direction : Direction} (sound : Sound race)
    (taken : race.settled.update = some
      ({ race with direction := direction, updating := none } : RemoteRace).settled)
    (index : direction.allocator.index = race.allocator.index)
    (left : direction.allocator.left = race.allocator.left)
    (right : direction.allocator.right = race.allocator.right) :
    Sound { race with direction := direction, updating := none } := by
  obtain ⟨updated, batches, withheld, accounts⟩ := sound.accounts
  obtain ⟨updated', batches', kept⟩ := Direction.update_accounts accounts taken
  refine
    { accounts := ⟨updated', batches', withheld, kept⟩
      room := ?_
      rewound := ?_
      updating := ?_ }
  · intro length waiting
    exact Direction.update_admits accounts taken (sound.room length waiting)
  · intro before rewound
    obtain ⟨length, waiting, wraps, rewindIndex⟩ := sound.rewound before rewound
    refine ⟨length, waiting, ?_, ?_⟩
    · change direction.allocator.right < before + length
      rw [right]
      exact wraps
    · change direction.allocator.index = direction.allocator.left
      rw [index, left]
      exact rewindIndex
  · intro crosses updating
    cases updating

theorem updateLoad_sound (sound : Sound race) (taken : race.step .updateLoad = some after) :
    Sound after := by
  unfold step at taken
  dsimp only at taken
  split at taken
  · rename_i imm rest idle riding
    split at taken
    · -- the new value is decided here and stored by the next step
      rename_i positive
      cases taken
      exact { sound with
        updating := by
          intro crosses same
          cases same
          exact ⟨imm, rest, riding, positive, rfl⟩ }
    · rename_i zero
      obtain ⟨direction, update, rfl⟩ := Option.map_eq_some_iff.mp taken
      have same : ({ race with direction := direction } : RemoteRace) =
          { race with direction := direction, updating := none } := by rw [← idle]
      obtain ⟨imm', rest', riding', rfl⟩ := Direction.update_cases update
      rw [riding] at riding'
      cases riding'
      rw [same]
      refine sound.updated ?_ ?_ ?_ ?_
      · unfold Direction.update
        rw [show race.settled.riding = imm :: rest from riding]
        simp only [zero, ↓reduceIte]
        rfl
      all_goals
        simp only [zero, ↓reduceIte]
        rfl
  · cases taken

theorem updateStore_sound (sound : Sound race) (taken : race.step .updateStore = some after) :
    Sound after := by
  unfold step at taken
  dsimp only at taken
  split at taken
  · rename_i crosses imm rest updating riding
    cases taken
    obtain ⟨imm', rest', riding', positive, decided⟩ := sound.updating crosses updating
    rw [riding] at riding'
    cases riding'
    refine sound.updated ?_ rfl rfl rfl
    unfold Direction.update
    rw [show race.settled.riding = imm :: rest from riding]
    have retired : race.settled.allocator.update imm = { race.settled.allocator with
        done := (if crosses then race.allocator.left else race.allocator.done) + imm } := by
      unfold RemoteBufManager.update Cursors.retire
      rw [decided]
      by_cases wraps : race.allocator.done + imm > race.allocator.right
      · simp only [wraps, decide_true, ↓reduceIte]
        rw [if_pos (show race.settled.allocator.done + imm > race.settled.allocator.right
          from wraps)]
        rfl
      · simp only [wraps, decide_false, Bool.false_eq_true, ↓reduceIte]
        rw [if_neg (show ¬ race.settled.allocator.done + imm > race.settled.allocator.right
          from wraps)]
        rfl
    simp only [ne_eq, positive, not_false_eq_true, ↓reduceIte, retired]
    rfl
  · cases taken

theorem step_sound (action : Action) (sound : Sound race) (consistent : race.Consistent action)
    (taken : race.step action = some after) : Sound after := by
  cases action with
  | call length =>
      unfold step at taken
      dsimp only at taken
      split at taken
      · rename_i idle
        cases taken
        exact { sound with
          room := by
            intro length' exited
            cases exited
          rewound := by
            intro before rewound
            obtain ⟨length', exited, -⟩ := sound.rewound before rewound
            rw [idle] at exited
            cases exited }
      · cases taken
  | firstLoad =>
      unfold step at taken
      dsimp only at taken
      split at taken
      · rename_i length waiting
        cases taken
        exact sound.load waiting (by intro same; cases same)
          (race.allocator.firstLoad_exits length)
      · cases taken
  | secondLoad =>
      unfold step at taken
      dsimp only at taken
      split at taken
      · rename_i length first waiting
        cases taken
        refine sound.load waiting (by intro same; cases same) ?_
        intro exits
        exact race.allocator.secondLoad_exits length exits
          (consistent (length, .tested first) waiting exits)
      · cases taken
  | store =>
      unfold step at taken
      dsimp only at taken
      split at taken
      · rename_i length waiting kept
        split at taken
        · rename_i wraps
          cases taken
          have accounts := sound.accounts
          have room := sound.room length waiting
          rw [settled_eq kept] at accounts room
          exact
            { accounts := accounts
              room := by
                intro length' exited
                rw [waiting] at exited
                cases exited
                exact room
              rewound := by
                intro before rewound
                cases rewound
                exact ⟨length, waiting, wraps, rfl⟩
              updating := sound.updating }
        · cases taken
      · cases taken
  | fetchAdd =>
      unfold step at taken
      dsimp only at taken
      split at taken
      · rename_i length waiting kept
        split at taken
        · cases taken
        · rename_i fits
          cases taken
          exact finish_sound sound waiting fun _ => Nat.not_lt.mp fits
      · rename_i length before waiting rewound
        cases taken
        refine finish_sound sound waiting fun kept => ?_
        rw [rewound] at kept
        cases kept
      · cases taken
  | read => exact read_sound sound taken
  | release => exact release_sound sound taken
  | carry =>
      cases taken
      exact carry_sound sound
  | updateLoad => exact updateLoad_sound sound taken
  | updateStore => exact updateStore_sound sound taken

theorem run_sound {mr : MR} (run : Runs.Run step Consistent (new mr) race) : Sound race :=
  run.invariant _ (new_sound mr) fun _ action _ sound consistent taken =>
    step_sound action sound consistent taken

/-- The region `alloc` returns is apart from every message that no `update` has covered. -/
theorem fetchAdd_apart (sound : Sound race) (taken : race.step .fetchAdd = some after) :
    ∃ buf, after.direction.granted = race.direction.granted ++ [buf] ∧ ∃ updated,
      (race.direction.lengths.take updated).sum = race.direction.reported ∧
      ∀ old ∈ race.direction.granted.drop updated, buf.region.Apart old.region := by
  obtain ⟨updated, batches, withheld, accounts⟩ := sound.accounts
  have granting : ∃ length, race.settled.grant length = some after.direction := by
    unfold step at taken
    dsimp only at taken
    split at taken
    · rename_i length waiting kept
      split at taken
      · cases taken
      · rename_i fits
        cases taken
        exact ⟨length, finish_settled sound waiting fun _ => Nat.not_lt.mp fits⟩
    · rename_i length before waiting rewound
      cases taken
      refine ⟨length, finish_settled sound waiting fun kept => ?_⟩
      rw [rewound] at kept
      cases kept
    · cases taken
  obtain ⟨length, granted⟩ := granting
  obtain ⟨room, shape⟩ := Direction.grant_eq_some_iff.mp granted
  refine ⟨(race.settled.allocator.take length).2, ?_, updated, accounts.reports, ?_⟩
  · rw [shape]
    rfl
  · exact accounts.grant_apart room

end RemoteRace

/-- The local ring with the steps of `alloc` and of the release task taken apart. -/
structure LocalRace where
  ring : LocalRing
  waiting : Option (Nat × Loop)
  retiring : Option Bool

namespace LocalRace

def new (mr : MR) : LocalRace := ⟨.new mr, none, none⟩

inductive Action where
  | call (length : Nat)
  | firstLoad
  | secondLoad
  | take
  | clear (wrId : Nat)
  | popRelease
  | releaseLoad
  | releaseStore
deriving DecidableEq, Repr

def buffer (race : LocalRace) : SendBuffer := race.ring.buffer

def step (race : LocalRace) : Action → Option LocalRace
  | .call length =>
      match race.waiting with
      | none => some { race with waiting := some (length, .head) }
      | some _ => none
  | .firstLoad =>
      match race.waiting with
      | some (length, .head) =>
          some { race with waiting := some (length, race.buffer.firstLoad length) }
      | _ => none
  | .secondLoad =>
      match race.waiting with
      | some (length, .tested _) =>
          some { race with waiting := some (length, race.buffer.secondLoad) }
      | _ => none
  | .take =>
      match race.waiting with
      | some (length, .exited) => some { race with ring := race.ring.take length, waiting := none }
      | _ => none
  | .clear wrId =>
      some { race with ring := { race.ring with buffer := race.buffer.clear wrId } }
  | .popRelease => race.buffer.popRelease.map fun buffer =>
      { race with ring := { race.ring with buffer := buffer } }
  | .releaseLoad =>
      match race.retiring, race.buffer.releasing with
      | none, some (wrId, length) =>
          if race.buffer.inUse wrId then none
          else some { race with
            retiring := some (race.buffer.done + length > race.buffer.right) }
      | _, _ => none
  | .releaseStore =>
      match race.retiring, race.buffer.releasing with
      | some crosses, some (_, length) =>
          some { race with
            ring := { race.ring with
              buffer := { race.buffer with
                done := (if crosses then race.buffer.left else race.buffer.done) + length
                releasing := none }
              retired := race.ring.retired + 1 }
            retiring := none }
      | _, _ => none

def Consistent (race : LocalRace) : Action → Prop
  | .secondLoad => ∀ waiting ∈ race.waiting, race.buffer.SecondLoadAgrees waiting.1
  | _ => True

instance (race : LocalRace) (action : Action) : Decidable (race.Consistent action) :=
  match action with
  | .secondLoad =>
      inferInstanceAs (Decidable (∀ waiting ∈ race.waiting,
        race.buffer.SecondLoadAgrees waiting.1))
  | .call _ | .firstLoad | .take | .clear _ | .popRelease | .releaseLoad | .releaseStore =>
      isTrue trivial

structure Sound (race : LocalRace) : Prop where
  accounts : race.ring.Accounts
  room : ∀ length, race.waiting = some (length, .exited) →
    race.ring.addresses.Admits race.buffer.done race.buffer.index length
  retiring : ∀ crosses, race.retiring = some crosses → ∃ wrId length,
    race.buffer.releasing = some (wrId, length) ∧ race.buffer.inUse wrId = false ∧
      crosses = decide (race.buffer.done + length > race.buffer.right)

variable {race after : LocalRace}

theorem new_sound (mr : MR) : Sound (new mr) where
  accounts := LocalRing.new_accounts mr
  room := by
    intro length waiting
    cases waiting
  retiring := by
    intro crosses retiring
    cases retiring

theorem Sound.load {length : Nat} {next : Loop} (sound : Sound race)
    (room : next = .exited →
      race.ring.addresses.Admits race.buffer.done race.buffer.index length) :
    Sound { race with waiting := some (length, next) } :=
  { sound with
    room := by
      intro length' exited
      cases exited
      exact room rfl }

/-- The release task retires the oldest region, which leaves the room behind a loop in
place. -/
theorem Sound.releaseDone {buffer : SendBuffer} (sound : Sound race)
    (taken : race.ring.buffer.releaseDone = some buffer) :
    Sound { race with
      ring := { race.ring with
        buffer := buffer
        retired := race.ring.retired + 1 }
      retiring := none } := by
  have accounts := LocalRing.releaseDone_accounts sound.accounts taken
  obtain ⟨wrId, length, releasing, -, rfl⟩ := SendBuffer.releaseDone_cases taken
  refine
    { accounts := accounts
      room := ?_
      retiring := ?_ }
  · intro length' exited
    have queue : race.ring.buffer.queue = (wrId, length) :: race.ring.buffer.toRelease := by
      rw [SendBuffer.queue, releasing]
      rfl
    have holds : race.ring.addresses.Holds race.ring.buffer.done
        ([length] ++ race.ring.buffer.toRelease.map Prod.snd) race.ring.buffer.index := by
      have outstanding := sound.accounts.holds
      rw [queue] at outstanding
      exact outstanding
    exact holds.admits_retired (sound.room length' exited)
  · intro crosses retiring
    cases retiring

theorem releaseStore_sound (sound : Sound race) (taken : race.step .releaseStore = some after) :
    Sound after := by
  unfold step at taken
  dsimp only at taken
  split at taken
  · rename_i crosses wrId length retiring releasing
    cases taken
    obtain ⟨wrId', length', same, cleared, decided⟩ := sound.retiring crosses retiring
    rw [releasing] at same
    cases same
    have advanced : (if crosses then race.buffer.left else race.buffer.done) + length =
        race.ring.addresses.advance race.buffer.done length := by
      rw [decided]
      by_cases wraps : race.buffer.done + length > race.buffer.right
      · simp only [wraps, decide_true, ↓reduceIte]
        exact (Ring.advance_wraps (show race.ring.addresses.right < _ from wraps)).symm
      · simp only [wraps, decide_false, Bool.false_eq_true, ↓reduceIte]
        exact (Ring.advance_fits
          (show _ ≤ race.ring.addresses.right from Nat.not_lt.mp wraps)).symm
    have done : race.ring.buffer.releaseDone = some { race.buffer with
        done := (if crosses then race.buffer.left else race.buffer.done) + length
        releasing := none } := by
      unfold SendBuffer.releaseDone
      rw [show race.ring.buffer.releasing = some (wrId, length) from releasing]
      dsimp only
      rw [show race.ring.buffer.inUse wrId = false from cleared, advanced]
      simp only [Bool.false_eq_true, ↓reduceIte, Cursors.retire_eq]
      rfl
    exact sound.releaseDone done
  · cases taken

theorem step_sound (action : Action) (sound : Sound race) (consistent : race.Consistent action)
    (taken : race.step action = some after) : Sound after := by
  cases action with
  | call length =>
      unfold step at taken
      dsimp only at taken
      split at taken
      · cases taken
        exact sound.load (by intro same; cases same)
      · cases taken
  | firstLoad =>
      unfold step at taken
      dsimp only at taken
      split at taken
      · rename_i length waiting
        cases taken
        exact sound.load (race.buffer.firstLoad_exits length)
      · cases taken
  | secondLoad =>
      unfold step at taken
      dsimp only at taken
      split at taken
      · rename_i length first waiting
        cases taken
        refine sound.load fun exits => ?_
        exact race.buffer.secondLoad_exits length exits
          (consistent (length, .tested first) waiting exits)
      · cases taken
  | take =>
      unfold step at taken
      dsimp only at taken
      split at taken
      · rename_i length waiting
        cases taken
        exact
          { accounts := LocalRing.take_accounts sound.accounts (sound.room length waiting)
            room := by
              intro length' exited
              cases exited
            retiring := by
              intro crosses retiring
              obtain ⟨wrId, length', releasing, cleared, decided⟩ := sound.retiring crosses retiring
              have below := (sound.accounts.releasing_oldest releasing).2
              have other : wrId ≠ race.ring.buffer.fresh := Nat.ne_of_lt below
              unfold LocalRace.buffer LocalRing.take
              dsimp only
              rw [SendBuffer.take_eq]
              refine ⟨wrId, length', releasing, ?_, decided⟩
              dsimp only
              rw [Function.update_of_ne other]
              exact cleared }
      · cases taken
  | clear wrId =>
      cases taken
      exact
        { accounts := LocalRing.clear_accounts wrId sound.accounts
          room := sound.room
          retiring := by
            intro crosses retiring
            obtain ⟨wrId', length, releasing, cleared, decided⟩ := sound.retiring crosses retiring
            refine ⟨wrId', length, releasing, ?_, decided⟩
            change Function.update race.buffer.inUse wrId false wrId' = false
            by_cases same : wrId' = wrId
            · rw [same, Function.update_self]
            · rw [Function.update_of_ne same]
              exact cleared }
  | popRelease =>
      obtain ⟨buffer, popped, rfl⟩ := Option.map_eq_some_iff.mp taken
      have accounts := LocalRing.popRelease_accounts sound.accounts popped
      obtain ⟨pair, rest, idle, queued, rfl⟩ := SendBuffer.popRelease_cases popped
      exact
        { accounts := accounts
          room := sound.room
          retiring := by
            intro crosses retiring
            obtain ⟨wrId, length, releasing, -⟩ := sound.retiring crosses retiring
            rw [idle] at releasing
            cases releasing }
  | releaseLoad =>
      unfold step at taken
      dsimp only at taken
      split at taken
      · rename_i wrId length idle releasing
        split at taken
        · cases taken
        · rename_i cleared
          cases taken
          exact { sound with
            retiring := by
              intro crosses retiring
              cases retiring
              exact ⟨wrId, length, releasing, Bool.eq_false_iff.mpr cleared, rfl⟩ }
      · cases taken
  | releaseStore => exact releaseStore_sound sound taken

theorem run_sound {mr : MR} (run : Runs.Run step Consistent (new mr) race) : Sound race :=
  run.invariant _ (new_sound mr) fun _ action _ sound consistent taken =>
    step_sound action sound consistent taken

theorem take_apart (sound : Sound race) (taken : race.step .take = some after) :
    ∃ buf, after.ring.granted = race.ring.granted ++ [buf] ∧
      ∀ old ∈ race.ring.granted.drop race.ring.retired, buf.region.Apart old.region := by
  unfold step at taken
  dsimp only at taken
  split at taken
  · rename_i length waiting
    cases taken
    refine ⟨(race.ring.buffer.take length).2.1, rfl, ?_⟩
    rw [SendBuffer.take_eq]
    exact sound.accounts.grant_apart (sound.room length waiting)
  · cases taken

end LocalRace

end Ibv
