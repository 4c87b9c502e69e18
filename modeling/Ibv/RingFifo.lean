import Mathlib.Data.List.Basic
import Mathlib.Data.List.Pairwise
import Mathlib.Algebra.BigOperators.Group.List.Basic
import Mathlib.Algebra.Ring.Nat

set_option autoImplicit false

namespace RingFifo

structure Region where
  start : Nat
  length : Nat
deriving DecidableEq, Repr

def Region.Contains (region : Region) (address : Nat) : Prop :=
  region.start ≤ address ∧ address < region.start + region.length

/-- No address lies in both. An empty region is apart from every region. -/
def Region.Apart (first second : Region) : Prop :=
  ∀ address, first.Contains address → ¬ second.Contains address

def Region.Within (region : Region) (low high : Nat) : Prop :=
  low ≤ region.start ∧ region.start + region.length ≤ high

theorem Region.Apart.symm {first second : Region} (apart : first.Apart second) :
    second.Apart first :=
  fun address inSecond inFirst => apart address inFirst inSecond

theorem Region.apart_of_ordered {first second : Region}
    (ordered : first.start + first.length ≤ second.start) : first.Apart second := by
  intro address inFirst inSecond
  unfold Region.Contains at inFirst inSecond
  omega

theorem Region.apart_of_empty {first second : Region} (empty : first.length = 0) :
    first.Apart second := by
  intro address inFirst
  unfold Region.Contains at inFirst
  omega

theorem Region.Apart.part {whole part other : Region} (apart : whole.Apart other)
    (within : part.Within whole.start (whole.start + whole.length)) : part.Apart other := by
  intro address inPart
  apply apart address
  unfold Region.Within at within
  unfold Region.Contains at inPart ⊢
  omega

theorem Region.apart_of_pairwise {regions : List Region} {first second : Region} {i j : Nat}
    (apart : regions.Pairwise Region.Apart) (entry : regions[i]? = some first)
    (entry' : regions[j]? = some second) (other : i ≠ j) : first.Apart second := by
  obtain ⟨inside, rfl⟩ := List.getElem?_eq_some_iff.mp entry
  obtain ⟨inside', rfl⟩ := List.getElem?_eq_some_iff.mp entry'
  have ordered := List.pairwise_iff_getElem.mp apart
  rcases Nat.lt_or_gt_of_ne other with before | behind
  · exact ordered _ _ inside inside' before
  · exact (ordered _ _ inside' inside behind).symm

theorem Region.apart_iff {first second : Region} : first.Apart second ↔
    first.length = 0 ∨ second.length = 0 ∨ first.start + first.length ≤ second.start ∨
      second.start + second.length ≤ first.start := by
  constructor
  · intro apart
    have low := apart first.start
    have high := apart second.start
    unfold Region.Contains at low high
    omega
  · rintro (empty | empty | ordered | ordered)
    · exact apart_of_empty empty
    · exact (apart_of_empty empty).symm
    · exact apart_of_ordered ordered
    · exact (apart_of_ordered ordered).symm

instance (first second : Region) : Decidable (first.Apart second) :=
  decidable_of_iff' _ Region.apart_iff

structure Ring where
  left : Nat
  right : Nat
deriving DecidableEq, Repr

namespace Ring

variable (ring : Ring)

/-- Where a region of this length starts when the cursor stands at `position`. -/
def place (position length : Nat) : Nat :=
  if ring.right < position + length then ring.left else position

/-- The cursor after that region. -/
def advance (position length : Nat) : Nat := ring.place position length + length

/-- The cursor after a sequence of regions. -/
def cursor (position : Nat) (lengths : List Nat) : Nat := lengths.foldl ring.advance position

/-- The regions themselves. -/
def regions : Nat → List Nat → List Region
  | _, [] => []
  | position, length :: lengths =>
      ⟨ring.place position length, length⟩ :: regions (ring.advance position length) lengths

variable {ring}

theorem place_fits {position length : Nat} (fits : position + length ≤ ring.right) :
    ring.place position length = position := by
  simp only [place, Nat.not_lt.mpr fits, ↓reduceIte]

theorem place_wraps {position length : Nat} (wraps : ring.right < position + length) :
    ring.place position length = ring.left := by
  simp only [place, wraps, ↓reduceIte]

theorem advance_fits {position length : Nat} (fits : position + length ≤ ring.right) :
    ring.advance position length = position + length := by
  rw [advance, place_fits fits]

theorem advance_wraps {position length : Nat} (wraps : ring.right < position + length) :
    ring.advance position length = ring.left + length := by
  rw [advance, place_wraps wraps]

@[simp] theorem cursor_nil (position : Nat) : ring.cursor position [] = position := rfl

@[simp] theorem cursor_cons (position length : Nat) (lengths : List Nat) :
    ring.cursor position (length :: lengths) =
      ring.cursor (ring.advance position length) lengths := rfl

theorem cursor_append (position : Nat) (first second : List Nat) :
    ring.cursor position (first ++ second) = ring.cursor (ring.cursor position first) second := by
  simp only [cursor, List.foldl_append]

@[simp] theorem regions_cons (position length : Nat) (lengths : List Nat) :
    ring.regions position (length :: lengths) =
      ⟨ring.place position length, length⟩ ::
        ring.regions (ring.advance position length) lengths := rfl

theorem regions_append (position : Nat) (first second : List Nat) :
    ring.regions position (first ++ second) =
      ring.regions position first ++ ring.regions (ring.cursor position first) second := by
  induction first generalizing position with
  | nil => rfl
  | cons length lengths ih => simp only [List.cons_append, regions_cons, ih, cursor_cons]

@[simp] theorem regions_length (position : Nat) (lengths : List Nat) :
    (ring.regions position lengths).length = lengths.length := by
  induction lengths generalizing position with
  | nil => rfl
  | cons length lengths ih => simp only [regions_cons, List.length_cons, ih]

theorem regions_map_length (position : Nat) (lengths : List Nat) :
    (ring.regions position lengths).map Region.length = lengths := by
  induction lengths generalizing position with
  | nil => rfl
  | cons length lengths ih => simp only [regions_cons, List.map_cons, ih]

/-- As long as nothing is skipped, the cursor moves by the sum of the lengths. -/
theorem cursor_fits (position : Nat) (lengths : List Nat)
    (fits : position + lengths.sum ≤ ring.right) :
    ring.cursor position lengths = position + lengths.sum := by
  induction lengths generalizing position with
  | nil => rfl
  | cons length lengths ih =>
      simp only [List.sum_cons] at fits ⊢
      rw [cursor_cons, advance_fits (by omega), ih _ (by omega)]
      omega

theorem regions_fit_within (ring : Ring) (position : Nat) (lengths : List Nat)
    (fits : position + lengths.sum ≤ ring.right) :
    ∀ region ∈ ring.regions position lengths,
      region.Within position (position + lengths.sum) := by
  induction lengths generalizing position with
  | nil =>
      intro region member
      cases member
  | cons length lengths ih =>
      intro region member
      simp only [List.sum_cons] at fits ⊢
      rw [regions_cons, place_fits (by omega), advance_fits (by omega)] at member
      rcases List.mem_cons.mp member with rfl | member
      · unfold Region.Within
        dsimp only
        omega
      · have within := ih (position + length) (by omega) region member
        unfold Region.Within at within ⊢
        omega

theorem regions_fit_apart (ring : Ring) (position : Nat) (lengths : List Nat)
    (fits : position + lengths.sum ≤ ring.right) :
    (ring.regions position lengths).Pairwise Region.Apart := by
  induction lengths generalizing position with
  | nil => exact .nil
  | cons length lengths ih =>
      simp only [List.sum_cons] at fits
      rw [regions_cons, place_fits (by omega), advance_fits (by omega)]
      refine List.pairwise_cons.mpr ⟨?_, ih _ (by omega)⟩
      intro region member
      have within := regions_fit_within ring (position + length) lengths (by omega)
        region member
      exact Region.apart_of_ordered within.1

/-- The addresses between the two cursors of a ring: those from `tail` up to
`head`, or, when `head` has passed the end, the two pieces at the ends. -/
def Occupied (ring : Ring) (tail head address : Nat) : Prop :=
  if tail ≤ head then tail ≤ address ∧ address < head
  else (tail ≤ address ∧ address < ring.right) ∨ (ring.left ≤ address ∧ address < head)

/-- The room a region of this length needs, judged on one reading of both cursors. -/
def Admits (ring : Ring) (tail head length : Nat) : Prop :=
  if ring.right < head + length then ring.left + length < tail ∧ tail ≤ head
  else head + length < tail ∨ tail ≤ head

instance (ring : Ring) (tail head length : Nat) : Decidable (ring.Admits tail head length) := by
  unfold Admits
  infer_instance

/-- The outstanding lengths lie in one piece between the cursors. -/
def Straight (ring : Ring) (tail : Nat) (lengths : List Nat) (head : Nat) : Prop :=
  tail + lengths.sum = head ∧ head ≤ ring.right

/-- The outstanding lengths go over the end of the ring once, and the head stays
below the tail. -/
def Wrapped (ring : Ring) (tail : Nat) (lengths : List Nat) (head : Nat) : Prop :=
  ∃ front first back, lengths = front ++ first :: back ∧ tail + front.sum ≤ ring.right ∧
    ring.right < tail + front.sum + first ∧ ring.left + (first + back.sum) = head ∧ head < tail

/-- The lengths granted and not retired, oldest first, are what the cursors hold. -/
structure Holds (ring : Ring) (tail : Nat) (lengths : List Nat) (head : Nat) : Prop where
  lower : ring.left ≤ tail
  shape : ring.Straight tail lengths head ∨ ring.Wrapped tail lengths head

theorem Holds.empty {position : Nat} (lower : ring.left ≤ position)
    (upper : position ≤ ring.right) : ring.Holds position [] position :=
  ⟨lower, .inl ⟨rfl, upper⟩⟩

theorem Holds.bounds {tail head : Nat} {lengths : List Nat}
    (holds : ring.Holds tail lengths head) :
    tail ≤ ring.right ∧ ring.left ≤ head ∧ head ≤ ring.right := by
  have lower := holds.lower
  rcases holds.shape with ⟨reach, upper⟩ | ⟨front, first, back, -, upper, -, reach, below⟩ <;> omega

theorem Holds.straight {tail head : Nat} {lengths : List Nat}
    (holds : ring.Holds tail lengths head) (order : tail ≤ head) :
    ring.Straight tail lengths head := by
  rcases holds.shape with straight | ⟨front, first, back, -, -, -, -, below⟩
  · exact straight
  · omega

theorem Holds.wrapped {tail head : Nat} {lengths : List Nat}
    (holds : ring.Holds tail lengths head) (order : head < tail) :
    ring.Wrapped tail lengths head := by
  rcases holds.shape with ⟨reach, -⟩ | wrapped
  · omega
  · exact wrapped

theorem Holds.cursor {tail head : Nat} {lengths : List Nat}
    (holds : ring.Holds tail lengths head) : ring.cursor tail lengths = head := by
  have lower := holds.lower
  rcases holds.shape with ⟨reach, upper⟩ | ⟨front, first, back, rfl, upper, wraps, reach, below⟩
  · rw [cursor_fits _ _ (by omega), reach]
  · rw [cursor_append, cursor_fits _ _ upper, cursor_cons, advance_wraps wraps,
      cursor_fits _ _ (by omega)]
    omega

theorem Holds.push {tail head : Nat} {lengths : List Nat} (holds : ring.Holds tail lengths head)
    (length : Nat) (room : ring.Admits tail head length) :
    ring.Holds tail (lengths ++ [length]) (ring.advance head length) := by
  have bounds := holds.bounds
  refine ⟨holds.lower, ?_⟩
  unfold Admits at room
  split at room
  · -- the region is placed at the left end, below the tail
    rename_i wraps
    obtain ⟨reach, -⟩ := holds.straight room.2
    rw [advance_wraps wraps]
    refine .inr ⟨lengths, length, [], rfl, by omega, by omega, ?_, room.1⟩
    simp only [List.sum_nil, Nat.add_zero]
  · rename_i fits
    rw [advance_fits (by omega)]
    rcases holds.shape with ⟨reach, upper⟩ | ⟨front, first, back, rfl, upper, wraps, reach, below⟩
    · refine .inl ⟨?_, by omega⟩
      simp only [List.sum_append, List.sum_singleton]
      omega
    · refine .inr ⟨front, first, back ++ [length], by simp, upper, wraps, ?_, by omega⟩
      simp only [List.sum_append, List.sum_singleton]
      omega

theorem Holds.pop {tail head length : Nat} {lengths : List Nat}
    (holds : ring.Holds tail (length :: lengths) head) :
    ring.Holds (ring.advance tail length) lengths head := by
  have lower := holds.lower
  rcases holds.shape with ⟨reach, upper⟩ | ⟨front, first, back, split, upper, wraps, reach, below⟩
  · simp only [List.sum_cons] at reach
    rw [advance_fits (by omega)]
    exact ⟨by omega, .inl ⟨by omega, upper⟩⟩
  · cases front with
    | nil =>
        -- the oldest region is the one at the left end
        simp only [List.nil_append, List.cons.injEq] at split
        obtain ⟨rfl, rfl⟩ := split
        simp only [List.sum_nil, Nat.add_zero] at upper wraps
        rw [advance_wraps wraps]
        exact ⟨by omega, .inl ⟨by omega, by omega⟩⟩
    | cons oldest front =>
        simp only [List.cons_append, List.cons.injEq] at split
        obtain ⟨rfl, rfl⟩ := split
        simp only [List.sum_cons] at upper wraps
        rw [advance_fits (by omega)]
        exact ⟨by omega, .inr ⟨front, first, back, rfl, by omega, by omega, reach, by omega⟩⟩

theorem Holds.pop_all {tail head : Nat} {retired lengths : List Nat}
    (holds : ring.Holds tail (retired ++ lengths) head) :
    ring.Holds (ring.cursor tail retired) lengths head := by
  induction retired generalizing tail with
  | nil => exact holds
  | cons length retired ih => exact ih holds.pop

theorem Holds.regions_occupied {tail head : Nat} {lengths : List Nat}
    (holds : ring.Holds tail lengths head) :
    ∀ region ∈ ring.regions tail lengths, region.Within ring.left ring.right ∧
      ∀ address, region.Contains address → ring.Occupied tail head address := by
  intro region member
  have lower := holds.lower
  rcases holds.shape with ⟨reach, upper⟩ | ⟨front, first, back, rfl, upper, wraps, reach, below⟩
  · have within := regions_fit_within ring tail lengths (by omega) region member
    unfold Region.Within at within ⊢
    refine ⟨by omega, fun address inside => ?_⟩
    unfold Region.Contains at inside
    rw [Occupied, if_pos (by omega)]
    omega
  · rw [regions_append, cursor_fits _ _ upper, regions_cons, place_wraps wraps,
      advance_wraps wraps, List.mem_append, List.mem_cons] at member
    have piece : region.Within tail ring.right ∨ region.Within ring.left head := by
      rcases member with member | rfl | member
      · have within := regions_fit_within ring tail front upper region member
        exact .inl ⟨within.1, by have := within.2; omega⟩
      · exact .inr ⟨Nat.le_refl _, by dsimp only; omega⟩
      · have within := regions_fit_within ring _ back (by omega) region member
        exact .inr ⟨by have := within.1; omega, by have := within.2; omega⟩
    unfold Region.Within at piece ⊢
    refine ⟨by omega, fun address inside => ?_⟩
    unfold Region.Contains at inside
    rw [Occupied, if_neg (by omega)]
    omega

/-- The outstanding regions are pairwise apart. -/
theorem Holds.regions_apart {tail head : Nat} {lengths : List Nat}
    (holds : ring.Holds tail lengths head) :
    (ring.regions tail lengths).Pairwise Region.Apart := by
  have lower := holds.lower
  rcases holds.shape with ⟨reach, upper⟩ | ⟨front, first, back, rfl, upper, wraps, reach, below⟩
  · exact regions_fit_apart ring tail lengths (by omega)
  · rw [regions_append, cursor_fits _ _ upper, regions_cons, place_wraps wraps,
      advance_wraps wraps]
    refine List.pairwise_append.mpr ⟨regions_fit_apart ring tail front upper,
      List.pairwise_cons.mpr ⟨?_, regions_fit_apart ring _ back (by omega)⟩, ?_⟩
    · intro region member
      exact Region.apart_of_ordered
        (regions_fit_within ring _ back (by omega) region member).1
    · -- the regions at the left end stay below the head, hence below the tail
      intro old inFront new inBack
      have high := (regions_fit_within ring tail front upper old inFront).1
      apply Region.Apart.symm
      apply Region.apart_of_ordered
      rcases List.mem_cons.mp inBack with rfl | inBack
      · dsimp only
        omega
      · have within := (regions_fit_within ring _ back (by omega) new inBack).2
        omega

/-- A region for which there was room lies in the ring and touches no occupied
address, whatever is outstanding. -/
theorem Admits.fresh {tail head length : Nat} (room : ring.Admits tail head length)
    (lower : ring.left ≤ head) (upper : tail ≤ ring.right) :
    Region.Within ⟨ring.place head length, length⟩ ring.left ring.right ∧
      ∀ address, ring.Occupied tail head address →
        ¬ Region.Contains ⟨ring.place head length, length⟩ address := by
  unfold Admits at room
  unfold Region.Within Region.Contains Occupied
  split at room
  · rename_i wraps
    rw [place_wraps wraps]
    refine ⟨by dsimp only; omega, fun address occupied => ?_⟩
    split at occupied <;> dsimp only <;> omega
  · rename_i fits
    rw [place_fits (by omega)]
    refine ⟨by dsimp only; omega, fun address occupied => ?_⟩
    split at occupied <;> dsimp only <;> omega

/-- A granted region is apart from every outstanding one. -/
theorem Holds.grant_apart {tail head length : Nat} {lengths : List Nat}
    (holds : ring.Holds tail lengths head) (room : ring.Admits tail head length) :
    ∀ old ∈ ring.regions tail lengths, Region.Apart ⟨ring.place head length, length⟩ old := by
  intro old member address inNew inOld
  have occupied := (holds.regions_occupied old member).2 address inOld
  exact (room.fresh holds.bounds.2.1 holds.bounds.1).2 address occupied inNew

/-- The head passes neither over the tail from below nor onto it. -/
theorem Admits.head_below {tail head length : Nat} (room : ring.Admits tail head length) :
    (head < tail → ring.advance head length < tail) ∧
      (ring.advance head length < head → ring.advance head length < tail) := by
  unfold Admits at room
  unfold advance place
  split at room <;> rename_i order <;> simp only [order, ↓reduceIte] <;> omega

theorem Holds.sum_le {tail head : Nat} {lengths : List Nat}
    (holds : ring.Holds tail lengths head) : ring.left + lengths.sum ≤ ring.right := by
  have lower := holds.lower
  rcases holds.shape with ⟨reach, upper⟩ | ⟨front, first, back, rfl, upper, -, reach, below⟩
  · omega
  · rw [List.sum_append, List.sum_cons]
    omega

theorem Holds.not_admits {tail head length : Nat} {lengths : List Nat}
    (holds : ring.Holds tail lengths head) (long : ring.right < ring.left + length) :
    ¬ ring.Admits tail head length := by
  have bounds := holds.bounds
  have lower := holds.lower
  unfold Admits
  split <;> omega

/-- Skipping the end of the ring wastes less than one region, so that there is room as long
as what is outstanding leaves space for two of the longest. -/
theorem Holds.admits_short {tail head length longest : Nat} {lengths : List Nat}
    (holds : ring.Holds tail lengths head) (short : ∀ other ∈ lengths, other ≤ longest)
    (short' : length ≤ longest)
    (room : ring.left + lengths.sum + longest + length ≤ ring.right) :
    ring.Admits tail head length := by
  have lower := holds.lower
  unfold Admits
  rcases holds.shape with ⟨reach, upper⟩ | ⟨front, first, back, rfl, upper, wraps, reach, below⟩
  · split <;> omega
  · have bound := short first (List.mem_append_right _ List.mem_cons_self)
    rw [List.sum_append, List.sum_cons] at room
    rw [if_neg (by omega)]
    omega

/-- A batch of regions whose lengths may be retired by their sum: either nothing
is skipped before any of them, or only before the first. -/
def Batch (ring : Ring) (position : Nat) (lengths : List Nat) : Prop :=
  position + lengths.sum ≤ ring.right ∨
    ∃ first rest, lengths = first :: rest ∧ ring.right < position + first ∧
      ring.left + lengths.sum ≤ ring.right

/-- Retiring a batch by its sum is retiring its regions one by one. -/
theorem Batch.advance {position : Nat} {lengths : List Nat} (batch : ring.Batch position lengths) :
    ring.advance position lengths.sum = ring.cursor position lengths := by
  rcases batch with fits | ⟨first, rest, rfl, wraps, fits⟩
  · rw [advance_fits fits, cursor_fits _ _ fits]
  · simp only [List.sum_cons] at fits ⊢
    rw [advance_wraps (by omega), cursor_cons, advance_wraps wraps, cursor_fits _ _ (by omega)]
    omega

/-- Consecutive batches, the first one starting at `position`. -/
def Batches (ring : Ring) : Nat → List (List Nat) → Prop
  | _, [] => True
  | position, batch :: batches =>
      ring.Batch position batch ∧ Batches ring (ring.cursor position batch) batches

theorem batches_append (position : Nat) (first second : List (List Nat)) :
    ring.Batches position (first ++ second) ↔
      ring.Batches position first ∧ ring.Batches (ring.cursor position first.flatten) second := by
  induction first generalizing position with
  | nil => simp only [List.nil_append, Batches, List.flatten_nil, cursor_nil, true_and]
  | cons batch batches ih =>
      simp only [List.cons_append, Batches, ih, List.flatten_cons, cursor_append, and_assoc]

theorem Batches.cursor {position : Nat} {batches : List (List Nat)}
    (batched : ring.Batches position batches) :
    ring.cursor position (batches.map List.sum) = ring.cursor position batches.flatten := by
  induction batches generalizing position with
  | nil => rfl
  | cons batch batches ih =>
      rw [List.map_cons, cursor_cons, List.flatten_cons, cursor_append, batched.1.advance,
        ih batched.2]

theorem Batches.take {position : Nat} {batches : List (List Nat)}
    (batched : ring.Batches position batches) (count : Nat) :
    ring.Batches position (batches.take count) := by
  rw [← List.take_append_drop count batches] at batched
  exact ((batches_append _ _ _).mp batched).1

theorem advance_inside {position length : Nat} (lower : ring.left ≤ position)
    (inside : ring.left + length ≤ ring.right) :
    ring.left ≤ ring.advance position length ∧ ring.advance position length ≤ ring.right := by
  unfold advance place
  split <;> omega

theorem place_inside {position length : Nat} (lower : ring.left ≤ position)
    (inside : ring.left + length ≤ ring.right) :
    Region.Within ⟨ring.place position length, length⟩ ring.left ring.right := by
  refine ⟨?_, (advance_inside lower inside).2⟩
  dsimp only [place]
  split <;> omega

theorem Batches.inside {position : Nat} {batches : List (List Nat)}
    (batched : ring.Batches position batches) (lower : ring.left ≤ position) :
    ∀ batch ∈ batches, ring.left + batch.sum ≤ ring.right := by
  induction batches generalizing position with
  | nil => exact fun _ member => nomatch member
  | cons batch batches ih =>
      have fits : ring.left + batch.sum ≤ ring.right := by
        rcases batched.1 with fits | ⟨-, -, -, -, fits⟩ <;> omega
      have bounds := (advance_inside lower fits).1
      rw [batched.1.advance] at bounds
      intro other member
      rcases List.mem_cons.mp member with rfl | member
      · exact fits
      · exact ih batched.2 bounds other member

theorem cursor_skip_zero {position : Nat} {lengths : List Nat} (lower : ring.left ≤ position)
    (upper : position ≤ ring.right)
    (inside : ∀ length ∈ lengths, ring.left + length ≤ ring.right) :
    ring.cursor position (lengths.filter (· ≠ 0)) = ring.cursor position lengths := by
  induction lengths generalizing position with
  | nil => rfl
  | cons length lengths ih =>
      have rest := fun other member => inside other (List.mem_cons_of_mem length member)
      by_cases zero : length = 0
      · subst zero
        rw [List.filter_cons_of_neg (by decide), cursor_cons,
          advance_fits (show position + 0 ≤ ring.right from upper), Nat.add_zero,
          ih lower upper rest]
      · have bounds := advance_inside lower (inside length List.mem_cons_self)
        rw [List.filter_cons_of_pos (by simpa using zero), cursor_cons, cursor_cons,
          ih bounds.1 bounds.2 rest]

/-- Room once found stays: retiring more regions never takes it away. -/
theorem Holds.admits_retired {tail head length : Nat} {retired lengths : List Nat}
    (holds : ring.Holds tail (retired ++ lengths) head) (room : ring.Admits tail head length) :
    ring.Admits (ring.cursor tail retired) head length := by
  induction retired generalizing tail with
  | nil => exact room
  | cons oldest retired ih =>
      refine ih holds.pop ?_
      have lower := holds.lower
      unfold Admits at room ⊢
      rcases holds.shape with ⟨reach, upper⟩ | ⟨front, first, back, split, upper, wraps, reach, below⟩
      · simp only [List.cons_append, List.sum_cons] at reach
        rw [advance_fits (by omega)]
        split at room <;> rename_i order <;> simp only [order, ↓reduceIte] <;> omega
      · cases front with
        | nil =>
            simp only [List.cons_append, List.nil_append, List.cons.injEq] at split
            obtain ⟨rfl, rfl⟩ := split
            simp only [List.sum_nil, Nat.add_zero] at wraps
            rw [advance_wraps wraps]
            split at room <;> rename_i order <;> simp only [order, ↓reduceIte] <;> omega
        | cons oldest' front =>
            simp only [List.cons_append, List.cons.injEq] at split
            obtain ⟨rfl, -⟩ := split
            simp only [List.sum_cons] at upper
            rw [advance_fits (by omega)]
            split at room <;> rename_i order <;> simp only [order, ↓reduceIte] <;> omega

end Ring

end RingFifo
