import Ibv.Direction

set_option autoImplicit false

namespace Ibv

open RingFifo

namespace Direction

/-- How the four cursors and the notices of a direction belong together. The first
`updated` messages have been handed to `update`; `batches` are the lengths behind the
notices on their way, `withheld` those released and not reported. -/
structure Accounts (direction : Direction) (updated : Nat) (batches : List (List Nat))
    (withheld : List Nat) : Prop where
  sameRing : direction.recvBuf.ring = direction.ring
  backed : direction.recvBuf.mr.addr.toNat = direction.ring.left ∧
    direction.ring.left + direction.recvBuf.mr.length.toNat = direction.ring.right
  returned : direction.released + direction.held.length ≤ direction.granted.length
  count : updated + (batches.flatten ++ withheld).length = direction.released
  split : direction.lengths.drop updated =
    batches.flatten ++ withheld ++ direction.lengths.drop direction.released
  notices : direction.riding ++ direction.queued = batches.map List.sum
  reports : (direction.lengths.take updated).sum = direction.reported
  holds : direction.ring.Holds direction.allocator.done (direction.lengths.drop updated)
    direction.allocator.index
  placed : (direction.granted.drop updated).map RemoteBuf.region =
    direction.ring.regions direction.allocator.done (direction.lengths.drop updated)
  batched : direction.ring.Batches direction.allocator.done batches
  withholding : RecvBuffer.Withholds direction.ring
    (direction.ring.cursor direction.allocator.done batches.flatten) withheld
    direction.recvBuf.done direction.recvBuf.released
  reading : direction.recvBuf.index = direction.ring.cursor direction.allocator.done
    (batches.flatten ++ withheld ++ direction.held.map Region.length)
  slices : direction.held =
    ((direction.granted.drop direction.released).map RemoteBuf.region).take direction.held.length

variable {direction after : Direction} {updated : Nat} {batches : List (List Nat)}
  {withheld : List Nat}

theorem lengths_length (direction : Direction) :
    direction.lengths.length = direction.granted.length := List.length_map _

theorem region_lengths (bufs : List RemoteBuf) :
    (bufs.map RemoteBuf.region).map Region.length = bufs.map RemoteBuf.length := by
  rw [List.map_map]
  rfl

theorem Accounts.updated_le (accounts : Accounts direction updated batches withheld) :
    updated ≤ direction.released := by
  have count := accounts.count
  omega

theorem Accounts.held_lengths (accounts : Accounts direction updated batches withheld) :
    direction.held.map Region.length =
      (direction.lengths.drop direction.released).take direction.held.length := by
  conv_lhs => rw [accounts.slices]
  rw [List.map_take, region_lengths, lengths, List.map_drop]

theorem new_accounts (mr : MR) : Accounts (new mr) 0 [] [] where
  sameRing := rfl
  backed := ⟨rfl, rfl⟩
  returned := Nat.le_refl _
  count := rfl
  split := rfl
  notices := rfl
  reports := rfl
  holds := Ring.Holds.empty (Nat.le_refl _) (Nat.le_add_right _ _)
  placed := rfl
  batched := trivial
  withholding := ⟨rfl, .inl ⟨rfl, Nat.le_add_right _ _⟩⟩
  reading := rfl
  slices := rfl

theorem grant_eq_some_iff {length : Nat} : direction.grant length = some after ↔
    direction.ring.Admits direction.allocator.done direction.allocator.index length ∧
      after = { direction with
        allocator := (direction.allocator.take length).1
        granted := direction.granted ++ [(direction.allocator.take length).2] } := by
  rw [grant, Option.map_eq_some_iff]
  constructor
  · rintro ⟨granted, success, rfl⟩
    obtain ⟨room, same⟩ := RemoteBufManager.alloc_eq_some_iff.mp success
    exact ⟨room, by rw [same]⟩
  · rintro ⟨room, rfl⟩
    exact ⟨_, RemoteBufManager.alloc_eq_some_iff.mpr ⟨room, rfl⟩, rfl⟩

theorem take_region (direction : Direction) (length : Nat) :
    (direction.allocator.take length).2.region =
      ⟨direction.ring.place direction.allocator.index length, length⟩ := by
  rw [RemoteBufManager.take_eq]
  rfl

theorem grant_accounts {length : Nat} (accounts : Accounts direction updated batches withheld)
    (taken : direction.grant length = some after) : Accounts after updated batches withheld := by
  obtain ⟨room, shape⟩ := grant_eq_some_iff.mp taken
  have early := accounts.updated_le
  have late := accounts.returned
  have within : updated ≤ direction.lengths.length := by rw [lengths_length]; omega
  have released : direction.released ≤ direction.lengths.length := by rw [lengths_length]; omega
  have granted : after.granted =
      direction.granted ++ [(direction.allocator.take length).2] := by rw [shape]
  have lengths : after.lengths = direction.lengths ++ [length] := by
    rw [Direction.lengths, granted, List.map_append, RemoteBufManager.take_eq]
    rfl
  rw [RemoteBufManager.take_eq] at shape
  have ring : after.ring = direction.ring := by rw [shape]; rfl
  have done : after.allocator.done = direction.allocator.done := by rw [shape]
  have index : after.allocator.index =
      direction.ring.advance direction.allocator.index length := by rw [shape]; rfl
  have held : after.held = direction.held := by rw [shape]
  have count : after.released = direction.released := by rw [shape]
  have recvBuf : after.recvBuf = direction.recvBuf := by rw [shape]
  refine
    { sameRing := by rw [recvBuf, ring]; exact accounts.sameRing
      backed := by rw [recvBuf, ring]; exact accounts.backed
      returned := ?_
      count := by rw [count]; exact accounts.count
      split := ?_
      notices := by rw [shape]; exact accounts.notices
      reports := ?_
      holds := ?_
      placed := ?_
      batched := by rw [ring, done]; exact accounts.batched
      withholding := by rw [recvBuf, ring, done]; exact accounts.withholding
      reading := by rw [recvBuf, ring, done, held]; exact accounts.reading
      slices := ?_ }
  · rw [held, count, granted, List.length_append, List.length_singleton]
    omega
  · rw [lengths, count, List.drop_append_of_le_length within,
      List.drop_append_of_le_length released, accounts.split, List.append_assoc]
  · rw [lengths, List.take_append_of_le_length within, shape]
    exact accounts.reports
  · rw [ring, done, index, lengths, List.drop_append_of_le_length within]
    exact accounts.holds.push length room
  · rw [ring, done, lengths, granted, List.drop_append_of_le_length within,
      List.drop_append_of_le_length (by omega), List.map_append, accounts.placed,
      Ring.regions_append, accounts.holds.cursor, List.map_singleton, take_region]
    rfl
  · rw [held, count, granted, List.drop_append_of_le_length (by omega), List.map_append,
      List.take_append_of_le_length (by
        rw [List.length_map, List.length_drop]
        omega)]
    exact accounts.slices

theorem Accounts.next_split {buf : RemoteBuf} (accounts : Accounts direction updated batches withheld)
    (next : direction.granted[direction.released + direction.held.length]? = some buf) :
    direction.lengths.drop updated =
      batches.flatten ++ withheld ++ direction.held.map Region.length ++
        buf.length :: direction.lengths.drop (direction.released + direction.held.length + 1) := by
  have entry : direction.lengths[direction.released + direction.held.length]? =
      some buf.length := by
    rw [lengths, List.getElem?_map, next, Option.map_some]
  obtain ⟨bound, value⟩ := List.getElem?_eq_some_iff.mp entry
  have rest : direction.lengths.drop direction.released =
      direction.held.map Region.length ++
        buf.length :: direction.lengths.drop (direction.released + direction.held.length + 1) := by
    conv_lhs => rw [← List.take_append_drop direction.held.length
      (direction.lengths.drop direction.released)]
    rw [← accounts.held_lengths, List.drop_drop, List.drop_eq_getElem_cons bound, value]
  rw [accounts.split, rest, List.append_assoc _ (direction.held.map Region.length)]

/-- The receiver's cursor stands where the sender has placed the next message. -/
theorem Accounts.next_region {buf : RemoteBuf}
    (accounts : Accounts direction updated batches withheld)
    (next : direction.granted[direction.released + direction.held.length]? = some buf) :
    buf.region = ⟨direction.ring.place direction.recvBuf.index buf.length, buf.length⟩ ∧
      buf.region.Within direction.ring.left direction.ring.right := by
  have split := accounts.next_split next
  have placed := accounts.placed
  rw [split, Ring.regions_append, ← accounts.reading, Ring.regions_cons] at placed
  have count := accounts.count
  have early : (batches.flatten ++ withheld ++ direction.held.map Region.length).length =
      direction.released + direction.held.length - updated := by
    rw [List.length_append, List.length_map]
    omega
  have entry := congrArg
    (fun regions => regions[direction.released + direction.held.length - updated]?) placed
  rw [List.getElem?_append_right (Nat.le_of_eq (by rw [Ring.regions_length, early])),
    Ring.regions_length, early, Nat.sub_self, List.getElem?_cons_zero, List.getElem?_map, List.getElem?_drop,
    show updated + (direction.released + direction.held.length - updated) =
      direction.released + direction.held.length by omega, next, Option.map_some] at entry
  have same := Option.some.inj entry
  refine ⟨same, ?_⟩
  have member : buf.region ∈ direction.ring.regions direction.allocator.done
      (direction.lengths.drop updated) := by
    rw [← accounts.placed]
    apply List.mem_map_of_mem
    rw [List.mem_iff_getElem?]
    refine ⟨direction.released + direction.held.length - updated, ?_⟩
    rw [List.getElem?_drop, show updated + (direction.released + direction.held.length - updated) =
      direction.released + direction.held.length by omega]
    exact next
  exact (accounts.holds.regions_occupied _ member).1

theorem Accounts.read_succeeds {buf : RemoteBuf}
    (accounts : Accounts direction updated batches withheld)
    (next : direction.granted[direction.released + direction.held.length]? = some buf) :
    direction.recvBuf.read buf.length =
      some ({ direction.recvBuf with
        index := direction.ring.advance direction.recvBuf.index buf.length }, buf.region) := by
  obtain ⟨same, within⟩ := accounts.next_region next
  have backed := accounts.backed
  have ring : direction.recvBuf.ring = direction.ring := accounts.sameRing
  rw [same] at within ⊢
  unfold Region.Within at within
  dsimp only at within
  have stop : direction.ring.advance direction.recvBuf.index buf.length =
      direction.ring.place direction.recvBuf.index buf.length + buf.length := rfl
  rw [RecvBuffer.read_eq, ring]
  exact if_pos (by omega)

theorem read_cases (accounts : Accounts direction updated batches withheld)
    (taken : direction.read = some after) :
    ∃ buf, direction.granted[direction.released + direction.held.length]? = some buf ∧
      after = { direction with
        recvBuf := { direction.recvBuf with
          index := direction.ring.advance direction.recvBuf.index buf.length }
        held := direction.held ++ [buf.region] } := by
  unfold read at taken
  obtain ⟨buf, next, rest⟩ := Option.bind_eq_some_iff.mp taken
  rw [accounts.read_succeeds next] at rest
  exact ⟨buf, next, (Option.some.inj rest).symm⟩

theorem read_accounts (accounts : Accounts direction updated batches withheld)
    (taken : direction.read = some after) : Accounts after updated batches withheld := by
  obtain ⟨buf, next, rfl⟩ := read_cases accounts taken
  have bound := (List.getElem?_eq_some_iff.mp next).1
  refine
    { sameRing := accounts.sameRing
      backed := accounts.backed
      returned := ?_
      count := accounts.count
      split := accounts.split
      notices := accounts.notices
      reports := accounts.reports
      holds := accounts.holds
      placed := accounts.placed
      batched := accounts.batched
      withholding := accounts.withholding
      reading := ?_
      slices := ?_ }
  · rw [List.length_append, List.length_singleton, ← Nat.add_assoc]
    exact bound
  · change direction.ring.advance direction.recvBuf.index buf.length = direction.ring.cursor _ _
    rw [List.map_append, ← List.append_assoc, Ring.cursor_append, ← accounts.reading]
    rfl
  · rw [List.length_append, List.length_singleton, List.take_add_one, ← accounts.slices,
      List.getElem?_map, List.getElem?_drop, next]
    rfl

theorem Accounts.oldest {slice : Region} {rest : List Region}
    (accounts : Accounts direction updated batches withheld)
    (held : direction.held = slice :: rest) :
    direction.lengths.drop direction.released =
        slice.length :: direction.lengths.drop (direction.released + 1) ∧
      rest = ((direction.granted.drop (direction.released + 1)).map RemoteBuf.region).take
        rest.length ∧
      slice.Within direction.ring.left direction.ring.right := by
  have returned := accounts.returned
  have slices := accounts.slices
  rw [held, List.length_cons] at returned slices
  have bound : direction.released < direction.granted.length := by omega
  rw [List.drop_eq_getElem_cons bound, List.map_cons, List.take_succ_cons, List.cons.injEq]
    at slices
  refine ⟨?_, slices.2, ?_⟩
  · rw [List.drop_eq_getElem_cons (by rw [lengths_length]; exact bound), slices.1]
    simp only [lengths, List.getElem_map]
    rfl
  · have count := accounts.count
    have member : slice ∈ direction.ring.regions direction.allocator.done
        (direction.lengths.drop updated) := by
      rw [← accounts.placed, slices.1]
      apply List.mem_map_of_mem
      rw [List.mem_iff_getElem?]
      refine ⟨direction.released - updated, ?_⟩
      rw [List.getElem?_drop, show updated + (direction.released - updated) =
        direction.released by omega]
      exact List.getElem?_eq_getElem bound
    exact (accounts.holds.regions_occupied _ member).1

theorem release_cases (taken : direction.release = some after) :
    ∃ slice rest, direction.held = slice :: rest ∧ after = { direction with
      recvBuf := (direction.recvBuf.notifyRelease slice.length).1
      held := rest
      released := direction.released + 1
      queued := direction.queued ++
        (direction.recvBuf.notifyRelease slice.length).2.toList } := by
  unfold release at taken
  split at taken
  · rename_i slice rest held
    exact ⟨slice, rest, held, (Option.some.inj taken).symm⟩
  · cases taken

theorem release_accounts (accounts : Accounts direction updated batches withheld)
    (taken : direction.release = some after) :
    ∃ batches' withheld', Accounts after updated batches' withheld' := by
  obtain ⟨slice, rest, held, rfl⟩ := release_cases taken
  obtain ⟨oldest, rest_slices, within⟩ := accounts.oldest held
  have inside : direction.recvBuf.left + slice.length ≤ direction.recvBuf.right := by
    have ring := accounts.sameRing
    have left : direction.recvBuf.left = direction.ring.left := congrArg Ring.left ring
    have right : direction.recvBuf.right = direction.ring.right := congrArg Ring.right ring
    unfold Region.Within at within
    omega
  have withholding := accounts.withholding
  rw [← accounts.sameRing] at withholding
  obtain ⟨reports, gathered, split, notices, batched, remaining⟩ :=
    RecvBuffer.notifyRelease_spec direction.recvBuf _ slice.length withheld withholding inside
  rw [accounts.sameRing] at batched remaining
  have moved (tail : List Nat) :
      withheld ++ slice.length :: tail = reports.flatten ++ (gathered ++ tail) := by
    rw [← List.append_assoc, ← split, List.append_assoc, List.singleton_append]
  refine ⟨batches ++ reports, gathered,
    { sameRing := ?_
      backed := ?_
      returned := ?_
      count := ?_
      split := ?_
      notices := ?_
      reports := accounts.reports
      holds := accounts.holds
      placed := accounts.placed
      batched := ?_
      withholding := ?_
      reading := ?_
      slices := rest_slices }⟩
  · exact (RecvBuffer.notifyRelease_ring _ _).trans accounts.sameRing
  · rw [RecvBuffer.notifyRelease_mr]
    exact accounts.backed
  · have returned := accounts.returned
    rw [held, List.length_cons] at returned
    dsimp only
    omega
  · have count := accounts.count
    have lengths := congrArg List.length split
    simp only [List.length_append, List.flatten_append, List.length_singleton] at count lengths ⊢
    omega
  · change direction.lengths.drop updated = _ ++ direction.lengths.drop (direction.released + 1)
    rw [accounts.split, oldest, List.append_assoc, moved]
    simp only [List.flatten_append, List.append_assoc]
  · rw [← List.append_assoc, accounts.notices, notices, List.map_append]
  · exact (Ring.batches_append _ _ _).mpr ⟨accounts.batched, batched⟩
  · rw [List.flatten_append, Ring.cursor_append]
    exact remaining
  · rw [RecvBuffer.notifyRelease_index, accounts.reading, held, List.map_cons,
      List.append_assoc, moved]
    simp only [List.flatten_append, List.append_assoc]
    rfl

theorem carry_accounts (accounts : Accounts direction updated batches withheld) :
    ∃ batches', Accounts direction.carry updated batches' withheld := by
  unfold carry
  split
  · rename_i notice rest queued
    have notices := accounts.notices
    rw [queued] at notices
    exact ⟨batches, { accounts with
      notices := by rw [← notices, List.append_assoc, List.singleton_append] }⟩
  · -- nothing is queued: the reverse message reports an empty batch
    rename_i queued
    have holds := accounts.holds
    rw [accounts.split, List.append_assoc] at holds
    have bounds := holds.pop_all.bounds
    have notices := accounts.notices
    rw [queued, List.append_nil] at notices
    have flat : (batches ++ [[]]).flatten = batches.flatten := by
      rw [List.flatten_append, List.flatten_singleton, List.append_nil]
    refine ⟨batches ++ [[]], { accounts with
      count := by rw [flat]; exact accounts.count
      split := by rw [flat]; exact accounts.split
      notices := ?_
      batched := ?_
      withholding := by rw [flat]; exact accounts.withholding
      reading := by rw [flat]; exact accounts.reading }⟩
    · rw [queued, List.append_nil, notices, List.map_append]
      rfl
    · refine (Ring.batches_append _ _ _).mpr ⟨accounts.batched, .inl ?_, trivial⟩
      rw [List.sum_nil, Nat.add_zero]
      exact bounds.1

theorem update_cases (taken : direction.update = some after) :
    ∃ imm rest, direction.riding = imm :: rest ∧ after = { direction with
      allocator := if imm ≠ 0 then direction.allocator.update imm else direction.allocator
      riding := rest
      reported := direction.reported + imm } := by
  unfold update at taken
  split at taken
  · rename_i imm rest riding
    exact ⟨imm, rest, riding, (Option.some.inj taken).symm⟩
  · cases taken

/-- Skipping the call of `update` for a zero notice makes no difference. -/
theorem update_allocator {allocator : RemoteBufManager} (upper : allocator.done ≤ allocator.right)
    (imm : Nat) : (if imm ≠ 0 then allocator.update imm else allocator) =
      { allocator with done := allocator.ring.advance allocator.done imm } := by
  split
  · rw [RemoteBufManager.update, Cursors.retire_eq]
  · rename_i zero
    have zero : imm = 0 := by simpa using zero
    have fits : allocator.done + 0 ≤ allocator.ring.right := upper
    rw [zero, Ring.advance_fits fits, Nat.add_zero]

theorem update_accounts (accounts : Accounts direction updated batches withheld)
    (taken : direction.update = some after) :
    ∃ updated' batches', Accounts after updated' batches' withheld := by
  obtain ⟨imm, rest, riding, shape⟩ := update_cases taken
  have notices := accounts.notices
  rw [riding] at notices
  cases batches with
  | nil => cases notices
  | cons batch batches =>
      rw [List.map_cons, List.cons_append, List.cons.injEq] at notices
      obtain ⟨sum, notices⟩ := notices
      rw [update_allocator accounts.holds.bounds.1, sum] at shape
      have advance := accounts.batched.1.advance
      have split := accounts.split
      rw [List.flatten_cons, List.append_assoc, List.append_assoc] at split
      have dropped : direction.lengths.drop (updated + batch.length) =
          batches.flatten ++ withheld ++ direction.lengths.drop direction.released := by
        rw [← List.drop_drop, split, List.drop_left, List.append_assoc]
      have done : after.allocator.done = direction.ring.cursor direction.allocator.done batch := by
        rw [shape]
        exact advance
      have ring : after.ring = direction.ring := by rw [shape]; rfl
      have index : after.allocator.index = direction.allocator.index := by rw [shape]
      have lengths : after.lengths = direction.lengths := by rw [shape]; rfl
      have granted : after.granted = direction.granted := by rw [shape]
      have released : after.released = direction.released := by rw [shape]
      have held : after.held = direction.held := by rw [shape]
      have recvBuf : after.recvBuf = direction.recvBuf := by rw [shape]
      refine ⟨updated + batch.length, batches,
        { sameRing := by rw [recvBuf, ring]; exact accounts.sameRing
          backed := by rw [recvBuf, ring]; exact accounts.backed
          returned := by rw [held, released, granted]; exact accounts.returned
          count := ?_
          split := by rw [lengths, released]; exact dropped
          notices := by rw [shape]; exact notices
          reports := ?_
          holds := ?_
          placed := ?_
          batched := by rw [ring, done]; exact accounts.batched.2
          withholding := ?_
          reading := ?_
          slices := by rw [held, released, granted]; exact accounts.slices }⟩
      · have count := accounts.count
        simp only [List.flatten_cons, List.length_append] at count ⊢
        rw [released]
        omega
      · rw [lengths, List.take_add, List.sum_append, accounts.reports, split, List.take_left, shape]
      · have holds := accounts.holds
        rw [split] at holds
        rw [ring, done, index, lengths, dropped, List.append_assoc]
        exact holds.pop_all
      · have placed := congrArg (List.drop batch.length) accounts.placed
        rw [split, Ring.regions_append, List.drop_left' (Ring.regions_length _ _), ← List.map_drop,
          List.drop_drop] at placed
        rw [ring, done, lengths, granted, dropped, List.append_assoc]
        exact placed
      · have withholding := accounts.withholding
        rw [List.flatten_cons, Ring.cursor_append] at withholding
        rw [ring, done, recvBuf]
        exact withholding
      · have reading := accounts.reading
        rw [List.flatten_cons, List.append_assoc, List.append_assoc, Ring.cursor_append] at reading
        rw [ring, done, recvBuf, held, reading, List.append_assoc]

/-- An update leaves the room that a waiting grant has found. -/
theorem update_admits {length : Nat} (accounts : Accounts direction updated batches withheld)
    (taken : direction.update = some after)
    (room : direction.ring.Admits direction.allocator.done direction.allocator.index length) :
    after.ring.Admits after.allocator.done after.allocator.index length := by
  obtain ⟨imm, rest, riding, shape⟩ := update_cases taken
  have notices := accounts.notices
  rw [riding] at notices
  cases batches with
  | nil => cases notices
  | cons batch batches =>
      rw [List.map_cons, List.cons_append, List.cons.injEq] at notices
      rw [update_allocator accounts.holds.bounds.1, notices.1] at shape
      have holds := accounts.holds
      rw [accounts.split, List.flatten_cons, List.append_assoc, List.append_assoc] at holds
      have kept := holds.admits_retired room
      rw [← accounts.batched.1.advance] at kept
      rw [shape]
      exact kept

theorem step_accounts (action : Action)
    (accounts : ∃ updated batches withheld, Accounts direction updated batches withheld)
    (taken : step direction action = some after) :
    ∃ updated batches withheld, Accounts after updated batches withheld := by
  obtain ⟨updated, batches, withheld, accounts⟩ := accounts
  cases action with
  | grant length => exact ⟨_, _, _, grant_accounts accounts taken⟩
  | read => exact ⟨_, _, _, read_accounts accounts taken⟩
  | release =>
      obtain ⟨batches', withheld', kept⟩ := release_accounts accounts taken
      exact ⟨_, _, _, kept⟩
  | carry =>
      obtain ⟨batches', kept⟩ := carry_accounts accounts
      cases taken
      exact ⟨_, _, _, kept⟩
  | update =>
      obtain ⟨updated', batches', kept⟩ := update_accounts accounts taken
      exact ⟨_, _, _, kept⟩

theorem step_ring (action : Action) (taken : step direction action = some after) :
    after.ring = direction.ring := by
  cases action with
  | grant length =>
      obtain ⟨-, rfl⟩ := grant_eq_some_iff.mp taken
      rw [RemoteBufManager.take_eq]
      rfl
  | read =>
      obtain ⟨buf, -, rest⟩ := Option.bind_eq_some_iff.mp taken
      obtain ⟨result, -, same⟩ := Option.bind_eq_some_iff.mp rest
      cases same
      rfl
  | release =>
      obtain ⟨slice, rest, -, rfl⟩ := release_cases taken
      rfl
  | carry =>
      cases taken
      unfold carry
      split <;> rfl
  | update =>
      obtain ⟨imm, rest, -, rfl⟩ := update_cases taken
      unfold ring
      dsimp only
      split
      · exact Cursors.retire_ring _ _
      · rfl

theorem run_ring {mr : MR} {ok : Direction → Action → Prop}
    (run : Runs.Run step ok (new mr) direction) :
    direction.ring = ⟨mr.addr.toNat, mr.addr.toNat + mr.length.toNat⟩ :=
  run.invariant (fun state => state.ring = (new mr).ring) rfl
    fun _ action _ same _ taken => (step_ring action taken).trans same

theorem run_accounts {mr : MR} {ok : Direction → Action → Prop}
    (run : Runs.Run step ok (new mr) direction) :
    ∃ updated batches withheld, Accounts direction updated batches withheld :=
  run.invariant _ ⟨0, [], [], new_accounts mr⟩
    fun _ action _ accounts _ taken => step_accounts action accounts taken

theorem Accounts.grant_apart {length : Nat} (accounts : Accounts direction updated batches withheld)
    (room : direction.ring.Admits direction.allocator.done direction.allocator.index length) :
    ∀ old ∈ direction.granted.drop updated,
      ((direction.allocator.take length).2.region).Apart old.region := by
  intro old member
  rw [take_region]
  apply accounts.holds.grant_apart room
  rw [← accounts.placed]
  exact List.mem_map_of_mem member

/-- The regions that the sender does not know to be released are pairwise apart. -/
theorem Accounts.granted_apart {i j : Nat} {first second : RemoteBuf}
    (accounts : Accounts direction updated batches withheld)
    (entry : direction.granted[i]? = some first) (entry' : direction.granted[j]? = some second)
    (late : updated ≤ i) (late' : updated ≤ j) (other : i ≠ j) :
    first.region.Apart second.region := by
  have apart := accounts.holds.regions_apart
  rw [← accounts.placed] at apart
  have place : ∀ (k : Nat) (buf : RemoteBuf), direction.granted[k]? = some buf → updated ≤ k →
      ((direction.granted.drop updated).map RemoteBuf.region)[k - updated]? = some buf.region := by
    intro k buf some late
    rw [List.getElem?_map, List.getElem?_drop, Nat.add_sub_cancel' late, some, Option.map_some]
  exact Region.apart_of_pairwise apart (place i first entry late) (place j second entry' late')
    (by omega)

/-- Nothing is outstanding when `done` has caught up with `index`. -/
theorem Accounts.all_reported (accounts : Accounts direction updated batches withheld)
    (empty : direction.allocator.done = direction.allocator.index) :
    direction.lengths.sum = direction.reported := by
  have reach := (accounts.holds.straight (by omega)).1
  rw [← List.sum_take_add_sum_drop direction.lengths updated, accounts.reports]
  omega

end Direction

end Ibv
