import Ibv.ByteMemory
import Mathlib.Algebra.Ring.Nat

set_option autoImplicit false

namespace WordMemory

variable {Cell : Type}

/-- How far `target` lies behind `address`. -/
def offset (address target : UInt64) : Nat := (target - address).toNat

def write (memory : UInt64 → Cell) (address : UInt64) (cells : List Cell) : UInt64 → Cell :=
  fun target => (cells[offset address target]?).getD (memory target)

def read (memory : UInt64 → Cell) (address : UInt64) (length : Nat) : List Cell :=
  (List.range length).map fun i => memory (address + UInt64.ofNat i)

theorem offset_lt (address target : UInt64) : offset address target < 2 ^ 64 :=
  (target - address).toNat_lt

theorem offset_add (address : UInt64) (i : Nat) (small : i < 2 ^ 64) :
    offset address (address + UInt64.ofNat i) = i := by
  rw [offset, UInt64.add_comm, UInt64.add_sub_cancel, UInt64.toNat_ofNat_of_lt' small]

theorem offset_behind (address target : UInt64) (count : Nat) (small : count < 2 ^ 64) :
    offset (address + UInt64.ofNat count) target =
      if count ≤ offset address target then offset address target - count
      else offset address target + 2 ^ 64 - count := by
  have step : (UInt64.ofNat count).toNat = count := UInt64.toNat_ofNat_of_lt' small
  have start := address.toNat_lt
  have stop := target.toNat_lt
  unfold offset
  rw [UInt64.toNat_sub, UInt64.toNat_sub, UInt64.toNat_add, step]
  split <;> omega

theorem write_outside (memory : UInt64 → Cell) (address target : UInt64) (cells : List Cell)
    (outside : cells.length ≤ offset address target) :
    write memory address cells target = memory target := by
  rw [write, List.getElem?_eq_none outside, Option.getD_none]

theorem write_inside (memory : UInt64 → Cell) (address : UInt64) (i : Nat) (cells : List Cell)
    (inside : i < cells.length) (small : i < 2 ^ 64) :
    write memory address cells (address + UInt64.ofNat i) = cells[i] := by
  rw [write, offset_add address i small, List.getElem?_eq_getElem inside, Option.getD_some]

/-- A copy behind a copy is one copy, as long as the two do not overtake each other. -/
theorem write_behind (memory : UInt64 → Cell) (address : UInt64) (front back : List Cell)
    (fits : front.length + back.length ≤ 2 ^ 64) (small : front.length < 2 ^ 64) :
    write (write memory address front) (address + UInt64.ofNat front.length) back =
      write memory address (front ++ back) := by
  funext target
  have whole := offset_lt address target
  have behind := offset_behind address target front.length small
  unfold write
  rw [behind]
  split
  · rename_i inBack
    rw [List.getElem?_append_right inBack, List.getElem?_eq_none inBack, Option.getD_none]
  · rename_i inFront
    rw [List.getElem?_append_left (Nat.not_le.mp inFront),
      List.getElem?_eq_none (show back.length ≤ _ by omega), Option.getD_none]

theorem read_write (memory : UInt64 → Cell) (address : UInt64) (cells : List Cell)
    (fits : cells.length ≤ 2 ^ 64) :
    read (write memory address cells) address cells.length = cells := by
  apply List.ext_getElem
  · simp only [read, List.length_map, List.length_range]
  · intro i inRead inside
    simp only [read, List.getElem_map, List.getElem_range]
    exact write_inside memory address i cells inside (by omega)

theorem write_eq (memory : Nat → Cell) (address : Nat) (cells : List Cell)
    (inside : address + cells.length ≤ 2 ^ 64) (small : address < 2 ^ 64) :
    write (fun word => memory word.toNat) (UInt64.ofNat address) cells =
      fun word => ByteMemory.write memory address cells word.toNat := by
  funext target
  have start : (UInt64.ofNat address).toNat = address := UInt64.toNat_ofNat_of_lt' small
  have below := target.toNat_lt
  unfold write ByteMemory.write offset
  split
  · rename_i behind
    rw [UInt64.toNat_sub_of_le _ _ (UInt64.le_iff_toNat_le.mpr (by rw [start]; exact behind)),
      start]
  · rename_i before
    rw [UInt64.toNat_sub, start, List.getElem?_eq_none (by omega), Option.getD_none]

end WordMemory
