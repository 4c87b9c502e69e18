import Ibv.RemoteRing
import Ibv.SendRing

set_option autoImplicit false

namespace Ibv

open RingFifo Runs
open Direction (sampleMr)

namespace SendRing

def lengths (ring : SendRing) : List Nat := ring.granted.map fun entry => entry.1.length

/-- What every state of the ring has in common. `settled` is a state of the ring with
indivisible allocations; the rest is about what the records of the run say. -/
structure Inv (mr : MR) (ring : SendRing) : Prop where
  reached : Run LocalRing.step Any (.new mr) ring.settled
  start : ring.addresses = ⟨mr.addr.toNat, mr.addr.toNat + mr.length.toNat⟩
  admitted : ∀ length, ring.holder = some (.admitted length) →
    ring.addresses.Admits ring.buffer.done ring.buffer.index length
  flags : ring.granted.map Prod.snd = List.range ring.granted.length
  order : ring.retired = List.range ring.retired.length
  cleared : ∀ flag < ring.buffer.fresh, ring.buffer.inUse flag = false → flag ∈ ring.cleared
  own : ∀ flag ∈ ring.retired, flag ∈ ring.cleared
  counted : ring.indices.length = ring.granted.length
  positions : ∀ k ≤ ring.granted.length, (mr.addr.toNat :: ring.indices)[k]? =
    some (ring.addresses.cursor mr.addr.toNat (ring.lengths.take k))
  done : ring.buffer.done =
    ring.addresses.cursor mr.addr.toNat (ring.lengths.take ring.retired.length)

variable {mr : MR} {ring after : SendRing}

theorem lengths_length (ring : SendRing) : ring.lengths.length = ring.granted.length :=
  List.length_map _

theorem new_inv (mr : MR) : Inv mr (new mr) where
  reached := .refl
  start := rfl
  admitted := fun _ held => nomatch held
  flags := rfl
  order := rfl
  cleared := fun _ below => absurd below (Nat.not_lt_zero _)
  own := fun _ member => nomatch member
  counted := rfl
  positions := by
    intro k within
    have zero : k = 0 := Nat.le_zero.mp within
    subst zero
    rfl
  done := rfl

namespace Inv

theorem accounts (inv : Inv mr ring) : ring.settled.Accounts := LocalRing.run_accounts inv.reached

theorem outstanding (inv : Inv mr ring) :
    ring.settled.buffer.queue.map Prod.snd = ring.lengths.drop ring.retired.length := by
  have placed := congrArg (List.map Region.length) inv.accounts.placed
  rw [Ring.regions_map_length] at placed
  rw [← placed, lengths, ← List.map_drop]
  simp only [settled, ← List.map_drop, List.map_map]
  rfl

theorem retired_le (inv : Inv mr ring) : ring.retired.length ≤ ring.lengths.length := by
  have count := inv.accounts.count
  simp only [settled, List.length_map] at count
  rw [lengths_length]
  omega

theorem index (inv : Inv mr ring) :
    ring.buffer.index = ring.addresses.cursor mr.addr.toNat ring.lengths := by
  have cursor := inv.accounts.holds.cursor
  rw [inv.outstanding] at cursor
  change ring.addresses.cursor ring.buffer.done _ = ring.buffer.index at cursor
  rw [inv.done, ← Ring.cursor_append, List.take_append_drop] at cursor
  exact cursor.symm

end Inv

theorem lock_inv {i : Nat} (inv : Inv mr ring) (taken : ring.lock i = some after) :
    Inv mr after := by
  unfold lock at taken
  split at taken
  · rename_i length free waiting
    cases taken
    have same : SendRing.settled { ring with
        calls := ring.calls.eraseIdx i
        holder := some (.waiting length) } = ring.settled := by
      simp only [settled, queueing, free]
    exact
      { inv with
        reached := by rw [same]; exact inv.reached
        admitted := fun _ held => nomatch held }
  · cases taken

theorem endWait_inv (inv : Inv mr ring) (taken : ring.endWait = some after) : Inv mr after := by
  unfold endWait at taken
  split at taken
  · rename_i length waiting
    split at taken
    · cases taken
    · rename_i room
      cases taken
      have same : SendRing.settled { ring with holder := some (.admitted length) } =
          ring.settled := by
        simp only [settled, queueing, waiting]
      refine
        { inv with
          reached := by rw [same]; exact inv.reached
          admitted := ?_ }
      intro length' held
      cases held
      exact (Cursors.waits_false_iff _ _).mp (by simpa using room)
  · cases taken

theorem place_cases (taken : ring.place = some after) :
    ∃ length, ring.holder = some (.admitted length) ∧ after = { ring with
      buffer := (ring.buffer.place length).1
      holder := some (.queueing ring.buffer.fresh length)
      granted := ring.granted ++ [(ring.buffer.place length).2]
      indices := ring.indices ++ [(ring.buffer.place length).1.index] } := by
  unfold place at taken
  split at taken
  · rename_i length admitted
    exact ⟨length, admitted, (Option.some.inj taken).symm⟩
  · cases taken

theorem place_eq (buffer : SendBuffer) (length : Nat) : buffer.place length =
    ({ buffer with
        index := buffer.ring.advance buffer.index length
        inUse := Function.update buffer.inUse buffer.fresh true
        fresh := buffer.fresh + 1 },
      ⟨buffer.ring.place buffer.index length, length, buffer.mr.lkey⟩, buffer.fresh) := by
  rw [SendBuffer.place, Cursors.grant_eq]

theorem settled_admitted {length : Nat} (held : ring.holder = some (.admitted length)) :
    ring.settled = ⟨ring.buffer, ring.granted.map Prod.fst, ring.retired.length⟩ := by
  simp only [settled, queueing, held, SendBuffer.withPairs_nil]

theorem place_settled {length : Nat} (held : ring.holder = some (.admitted length))
    (room : ring.addresses.Admits ring.buffer.done ring.buffer.index length)
    (taken : ring.place = some after) :
    ring.settled.step (.alloc length) = some after.settled := by
  obtain ⟨length', held', rfl⟩ := place_cases taken
  cases held.symm.trans held'
  have free : ring.settled.buffer.waits length = false := by
    rw [settled_admitted held]
    exact (Cursors.waits_false_iff _ _).mpr room
  rw [LocalRing.step, free]
  simp only [Bool.false_eq_true, ↓reduceIte, settled, queueing, held,
    SendBuffer.place_withPairs, LocalRing.take, SendBuffer.withPairs_nil, List.map_append]
  rfl

theorem Inv.positions_push (inv : Inv mr ring) (length k : Nat)
    (within : k ≤ ring.granted.length + 1) :
    (mr.addr.toNat :: (ring.indices ++ [ring.addresses.advance ring.buffer.index length]))[k]? =
      some (ring.addresses.cursor mr.addr.toNat ((ring.lengths ++ [length]).take k)) := by
  have position : ring.addresses.advance ring.buffer.index length =
      ring.addresses.cursor mr.addr.toNat (ring.lengths ++ [length]) := by
    rw [Ring.cursor_append, ← inv.index]
    rfl
  rw [← List.cons_append]
  by_cases old : k ≤ ring.granted.length
  · rw [List.getElem?_append_left (by rw [List.length_cons, inv.counted]; omega),
      inv.positions k old, List.take_append_of_le_length (by rw [lengths_length]; exact old)]
  · have last : k = ring.granted.length + 1 := by omega
    rw [last, List.getElem?_append_right (by rw [List.length_cons, inv.counted]),
      List.length_cons, inv.counted, Nat.sub_self, List.getElem?_cons_zero, position,
      List.take_of_length_le (by
        rw [List.length_append, List.length_singleton, lengths_length])]

theorem place_inv (inv : Inv mr ring) (taken : ring.place = some after) : Inv mr after := by
  obtain ⟨length, held, shape⟩ := place_cases taken
  have allocated := place_settled held (inv.admitted length held) taken
  have fresh : ring.buffer.fresh = ring.granted.length := by
    have fresh := inv.accounts.fresh
    rw [settled_admitted held] at fresh
    simpa only [List.length_map] using fresh
  rw [place_eq] at shape
  have lengths : after.lengths = ring.lengths ++ [length] := by
    rw [SendRing.lengths, shape, List.map_append]
    rfl
  have granted : after.granted.length = ring.granted.length + 1 := by
    rw [shape, List.length_append, List.length_singleton]
  have same : after.addresses = ring.addresses := by rw [shape]; rfl
  have retired : after.retired = ring.retired := by rw [shape]
  refine
    { reached := inv.reached.next _ trivial allocated
      start := same.trans inv.start
      admitted := ?_
      flags := ?_
      order := by rw [retired]; exact inv.order
      cleared := ?_
      own := by rw [shape]; exact inv.own
      counted := ?_
      positions := ?_
      done := ?_ }
  · intro length' held'
    rw [shape] at held'
    cases held'
  · rw [granted, List.range_succ, ← inv.flags, shape, List.map_append, List.map_singleton, fresh]
  · intro flag below unused
    rw [shape] at below unused ⊢
    dsimp only at below unused ⊢
    by_cases new : flag = ring.buffer.fresh
    · rw [new, Function.update_self] at unused
      cases unused
    · rw [Function.update_of_ne new] at unused
      exact inv.cleared flag (by omega) unused
  · rw [granted, shape, List.length_append, List.length_singleton, inv.counted]
  · intro k within
    rw [granted] at within
    rw [same, lengths, shape]
    exact inv.positions_push length k within
  · rw [same, lengths, retired, List.take_append_of_le_length inv.retired_le, ← inv.done, shape]

theorem push_inv (inv : Inv mr ring) (taken : ring.push = some after) : Inv mr after := by
  unfold push at taken
  split at taken
  · rename_i flag length held
    obtain ⟨buffer, pushed, rfl⟩ := Option.map_eq_some_iff.mp taken
    have moved := SendBuffer.push_cases pushed
    subst moved
    have same : SendRing.settled { ring with
        buffer := ring.buffer.withPairs [(flag, length)]
        holder := none
        returned := ring.returned ++ [flag] } = ring.settled := by
      simp only [settled, queueing, held, SendBuffer.withPairs_nil]
    exact
      { inv with
        reached := by rw [same]; exact inv.reached
        admitted := fun _ held => nomatch held }
  · cases taken

theorem clear_inv {flag : Nat} (inv : Inv mr ring) (taken : ring.clear flag = some after) :
    Inv mr after := by
  unfold clear at taken
  split at taken
  · cases taken
    refine
      { inv with
        reached := inv.reached.next (.clear flag) trivial rfl
        cleared := ?_
        own := fun flag' member => List.mem_append_left _ (inv.own flag' member) }
    intro flag' below unused
    by_cases same : flag' = flag
    · rw [same]
      exact List.mem_append_right _ List.mem_cons_self
    · apply List.mem_append_left
      apply inv.cleared flag' below
      rw [← unused]
      exact (Function.update_of_ne same _ _).symm
  · cases taken

theorem popRelease_inv {buffer : SendBuffer} (inv : Inv mr ring)
    (taken : ring.buffer.popRelease = some buffer) : Inv mr { ring with buffer := buffer } := by
  have popped := SendBuffer.popRelease_withPairs ring.queueing taken
  have below : ring.settled.step .popRelease =
      some (SendRing.settled { ring with buffer := buffer }) := by
    rw [LocalRing.step, settled, popped, Option.map_some]
    rfl
  obtain ⟨pair, rest, -, -, rfl⟩ := SendBuffer.popRelease_cases taken
  exact { inv with reached := inv.reached.next _ trivial below }

theorem Inv.oldest {flag length : Nat} (inv : Inv mr ring)
    (waiting : ring.buffer.releasing = some (flag, length)) :
    (flag = ring.retired.length ∧ flag < ring.buffer.fresh) ∧
      ring.settled.buffer.queue =
        (flag, length) :: (ring.buffer.withPairs ring.queueing).toRelease ∧
      ring.lengths.take (ring.retired.length + 1) =
        ring.lengths.take ring.retired.length ++ [length] := by
  have releasing : ring.settled.buffer.releasing = some (flag, length) := waiting
  have queue : ring.settled.buffer.queue =
      (flag, length) :: (ring.buffer.withPairs ring.queueing).toRelease := by
    rw [SendBuffer.queue, releasing]
    rfl
  have outstanding := inv.outstanding
  rw [queue, List.map_cons] at outstanding
  refine ⟨inv.accounts.releasing_oldest releasing, queue, ?_⟩
  rw [List.take_add_one, ← List.head?_drop, ← outstanding, List.head?_cons]
  rfl

theorem releaseDone_settled (taken : ring.releaseDone = some after) :
    ring.settled.step .releaseDone = some after.settled := by
  obtain ⟨buffer, released, rfl⟩ := Option.map_eq_some_iff.mp taken
  have retires := SendBuffer.releaseDone_withPairs ring.queueing released
  obtain ⟨flag, length, waiting, -, -⟩ := SendBuffer.releaseDone_cases released
  rw [LocalRing.step, settled, retires, Option.map_some]
  simp only [settled, queueing, waiting, Option.toList_some, List.map_cons, List.map_nil,
    List.length_append, List.length_singleton]

theorem releaseDone_inv (inv : Inv mr ring) (taken : ring.releaseDone = some after) :
    Inv mr after := by
  have stepped := releaseDone_settled taken
  obtain ⟨buffer, released, rfl⟩ := Option.map_eq_some_iff.mp taken
  obtain ⟨flag, length, waiting, unused, rfl⟩ := SendBuffer.releaseDone_cases released
  obtain ⟨⟨oldest, below⟩, queue, next⟩ := inv.oldest waiting
  have retired : ring.retired ++ ring.buffer.releasing.toList.map Prod.fst =
      ring.retired ++ [flag] := by rw [waiting]; rfl
  rw [retired] at stepped ⊢
  refine
    { inv with
      reached := inv.reached.next _ trivial stepped
      admitted := ?_
      order := ?_
      own := ?_
      done := ?_ }
  · intro length' held
    have holds := inv.accounts.holds
    rw [queue, List.map_cons] at holds
    exact Ring.Holds.admits_retired
      (show ring.addresses.Holds ring.buffer.done ([length] ++ _) ring.buffer.index from holds)
      (inv.admitted length' held)
  · rw [List.length_append, List.length_singleton, List.range_succ, ← inv.order, oldest]
  · intro flag' member
    rcases List.mem_append.mp member with old | new
    · exact inv.own flag' old
    · rw [List.mem_singleton.mp new]
      exact inv.cleared flag below unused
  · rw [List.length_append, List.length_singleton]
    change ring.addresses.advance ring.buffer.done length =
      ring.addresses.cursor mr.addr.toNat (ring.lengths.take (ring.retired.length + 1))
    rw [next, Ring.cursor_append, ← inv.done]
    rfl

theorem step_inv (action : Action) (inv : Inv mr ring) (taken : ring.step action = some after) :
    Inv mr after := by
  cases action with
  | call length =>
      cases taken
      exact { inv with }
  | lock i => exact lock_inv inv taken
  | endWait => exact endWait_inv inv taken
  | place => exact place_inv inv taken
  | push => exact push_inv inv taken
  | clear flag => exact clear_inv inv taken
  | popRelease =>
      obtain ⟨buffer, popped, rfl⟩ := Option.map_eq_some_iff.mp taken
      exact popRelease_inv inv popped
  | releaseDone => exact releaseDone_inv inv taken

theorem run_inv {ok : SendRing → Action → Prop} (run : Run step ok (new mr) ring) : Inv mr ring :=
  run.invariant _ (new_inv mr) fun _ action _ inv _ taken => step_inv action inv taken

/-- Exclusivity and order of the local ring. The sums are the u64 sums of the source for
regions that end 4 GiB below the top of the address space (`System.rings_in_words`). -/
theorem send_ring_ordered (mr : MR) (ring : SendRing) (run : Run step Any (new mr) ring) :
    (ring.granted.map Prod.snd).Nodup ∧ ring.retired <+: ring.granted.map Prod.snd ∧
    (∀ flag ∈ ring.retired, flag ∈ ring.cleared) ∧
    (mr.addr.toNat :: ring.indices)[ring.retired.length]? = some ring.buffer.done ∧
    (∀ after, ring.step .place = some after →
      ∃ buf flag, after.granted = ring.granted ++ [(buf, flag)] ∧
        after.indices = ring.indices ++ [after.buffer.index] ∧
        ring.holder = some (.admitted buf.length) ∧
        buf.region.Within mr.addr.toNat (mr.addr.toNat + mr.length.toNat) ∧
        ∀ old ∈ ring.granted.drop ring.retired.length, buf.region.Apart old.1.region) := by
  have inv := run_inv run
  have within := inv.retired_le
  rw [lengths_length] at within
  refine ⟨?_, ?_, inv.own, ?_, ?_⟩
  · rw [inv.flags]
    exact List.nodup_range
  · rw [inv.flags, inv.order, ← Nat.add_sub_of_le within, List.range_add]
    exact List.prefix_append _ _
  · rw [inv.positions _ within, ← inv.done]
  · intro after taken
    obtain ⟨length, held, shape⟩ := place_cases taken
    have accounts := inv.accounts
    have room := inv.admitted length held
    have bounds := accounts.holds.bounds
    have fresh := (room.fresh bounds.2.1 bounds.1).1
    have left : ring.addresses.left = mr.addr.toNat := congrArg Ring.left inv.start
    have right : ring.addresses.right = mr.addr.toNat + mr.length.toNat :=
      congrArg Ring.right inv.start
    rw [left, right] at fresh
    rw [place_eq] at shape
    subst shape
    refine ⟨_, _, rfl, rfl, held, fresh, fun old member => ?_⟩
    apply accounts.grant_apart room
    simp only [settled, ← List.map_drop]
    exact List.mem_map_of_mem member

/-- 40 and 20 MiB are granted, their flags cleared in the other order, the 40 MiB retired. -/
def sampleActions : List Action :=
  [.call 0x2800000, .call 0x1400000, .lock 0, .endWait, .place, .push, .lock 0, .endWait, .place,
    .push, .clear 1, .clear 0, .popRelease, .releaseDone, .call 0xc00000, .lock 0, .endWait]

/-- The next 12 MiB skip the gap of 4 MiB at the right end. -/
theorem send_ring_ordered_over_the_end :
    ∃ ring, Run step Any (new sampleMr) ring ∧ ring.retired = [0] ∧
      (sampleMr.addr.toNat :: ring.indices)[1]? = some ring.buffer.done ∧
      ∃ after buf flag, ring.step .place = some after ∧
        after.granted = ring.granted ++ [(buf, flag)] ∧ buf.length = 0xc00000 ∧
        ∀ old ∈ ring.granted.drop 1, buf.region.Apart old.1.region := by
  obtain ⟨ring, run, reached⟩ : ∃ ring, Run step Any (new sampleMr) ring ∧
      (decide (ring.retired = [0] ∧ ring.holder = some (.admitted 0xc00000)) &&
        (ring.step .place).isSome) = true :=
    Run.exists_of_exec _ sampleActions (by decide +kernel)
  obtain ⟨known, enabled⟩ := Bool.and_eq_true_iff.mp reached
  obtain ⟨retired, admitted⟩ := of_decide_eq_true known
  obtain ⟨after, taken⟩ := Option.isSome_iff_exists.mp enabled
  obtain ⟨-, -, -, done, apart⟩ := send_ring_ordered sampleMr ring run
  obtain ⟨buf, flag, granted, -, held, -, apart⟩ := apart after taken
  rw [retired] at done apart
  rw [admitted] at held
  have length : buf.length = 0xc00000 := (Holder.admitted.inj (Option.some.inj held)).symm
  exact ⟨ring, run, retired, done, after, buf, flag, taken, granted, length, apart⟩

end SendRing

end Ibv
