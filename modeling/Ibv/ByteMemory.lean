import Ibv.RingFifo

set_option autoImplicit false

namespace ByteMemory

open RingFifo (Region)

variable {Cell : Type}

/-- Copy `cells` to consecutive addresses. -/
def write (memory : Nat → Cell) (address : Nat) (cells : List Cell) : Nat → Cell :=
  fun target =>
    if address ≤ target then (cells[target - address]?).getD (memory target) else memory target

/-- The contents of `length` consecutive addresses. -/
def read (memory : Nat → Cell) (address length : Nat) : List Cell :=
  (List.range length).map fun offset => memory (address + offset)

@[simp] theorem read_length (memory : Nat → Cell) (address length : Nat) :
    (read memory address length).length = length := by
  simp only [read, List.length_map, List.length_range]

theorem write_inside (memory : Nat → Cell) (address offset : Nat) (cells : List Cell)
    (inside : offset < cells.length) : write memory address cells (address + offset) =
      cells[offset] := by
  simp only [write, Nat.le_add_right, ↓reduceIte, Nat.add_sub_cancel_left,
    List.getElem?_eq_getElem inside, Option.getD_some]

theorem write_outside (memory : Nat → Cell) (address target : Nat) (cells : List Cell)
    (outside : ¬ Region.Contains ⟨address, cells.length⟩ target) :
    write memory address cells target = memory target := by
  unfold Region.Contains at outside
  dsimp only at outside
  by_cases lower : address ≤ target
  · have beyond : cells.length ≤ target - address := by omega
    simp only [write, lower, ↓reduceIte, List.getElem?_eq_none beyond, Option.getD_none]
  · simp only [write, lower, ↓reduceIte]

theorem read_write (memory : Nat → Cell) (address : Nat) (cells : List Cell) :
    read (write memory address cells) address cells.length = cells := by
  apply List.ext_getElem
  · exact read_length _ _ _
  · intro offset inRead inside
    simp only [read, List.getElem_map, List.getElem_range]
    exact write_inside memory address offset cells inside

theorem read_write_apart (memory : Nat → Cell) (address target length : Nat) (cells : List Cell)
    (apart : Region.Apart ⟨target, length⟩ ⟨address, cells.length⟩) :
    read (write memory address cells) target length = read memory target length := by
  apply List.map_congr_left
  intro offset member
  apply write_outside
  apply apart
  have below := List.mem_range.mp member
  unfold Region.Contains
  dsimp only
  omega

theorem read_add (memory : Nat → Cell) (address first second : Nat) :
    read memory address (first + second) =
      read memory address first ++ read memory (address + first) second := by
  unfold read
  rw [List.range_add, List.map_append, List.map_map]
  simp only [Function.comp_def, Nat.add_assoc]

theorem read_write_behind (memory : Nat → Cell) (address : Nat) (front cells : List Cell)
    (stored : read memory address front.length = front) :
    read (write memory (address + front.length) cells) address (front ++ cells).length =
      front ++ cells := by
  rw [List.length_append, read_add, read_write, read_write_apart, stored]
  apply Region.apart_of_ordered
  exact Nat.le_refl _

end ByteMemory
