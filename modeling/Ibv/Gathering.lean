import Ibv.RingFifo

set_option autoImplicit false

namespace RingFifo

namespace Ring

variable {ring : Ring} {enough position : Nat}

/-- Each but the last of the reports is at least `enough`, or the next one would go over
the right end. -/
def Gathered (ring : Ring) (enough : Nat) : Nat → List Nat → Prop
  | position, report :: next :: rest =>
      (enough ≤ report ∨ ring.right < ring.advance position report + next) ∧
        Gathered ring enough (ring.advance position report) (next :: rest)
  | _, _ => True

theorem Gathered.pop {report : Nat} {rest : List Nat}
    (gathered : ring.Gathered enough position (report :: rest)) :
    ring.Gathered enough (ring.advance position report) rest := by
  cases rest with
  | nil => trivial
  | cons next rest => exact gathered.2

theorem Gathered.grow {reports : List Nat} {last bigger : Nat} (grows : last ≤ bigger)
    (gathered : ring.Gathered enough position (reports ++ [last])) :
    ring.Gathered enough position (reports ++ [bigger]) := by
  induction reports generalizing position with
  | nil => trivial
  | cons report reports ih =>
      cases reports with
      | nil =>
          obtain ⟨big | wraps, -⟩ := gathered
          · exact ⟨.inl big, trivial⟩
          · exact ⟨.inr (by omega), trivial⟩
      | cons next reports => exact ⟨gathered.1, ih gathered.2⟩

theorem Gathered.close {reports : List Nat} {last next : Nat}
    (gathered : ring.Gathered enough position (reports ++ [last]))
    (closes : enough ≤ last ∨ ring.right < ring.cursor position (reports ++ [last]) + next) :
    ring.Gathered enough position (reports ++ [last] ++ [next]) := by
  induction reports generalizing position with
  | nil => exact ⟨closes, trivial⟩
  | cons report reports ih =>
      cases reports with
      | nil => exact ⟨gathered.1, closes, trivial⟩
      | cons second reports => exact ⟨gathered.1, ih gathered.2 closes⟩

theorem Gathered.count_straight {reports : List Nat} (fits : position + reports.sum ≤ ring.right)
    (gathered : ring.Gathered enough position reports) :
    enough * reports.length ≤ reports.sum + enough := by
  induction reports generalizing position with
  | nil => exact Nat.zero_le _
  | cons report reports ih =>
      cases reports with
      | nil =>
          rw [List.length_singleton, Nat.mul_one]
          exact Nat.le_add_left _ _
      | cons next rest =>
          obtain ⟨closes, gathered⟩ := gathered
          simp only [List.sum_cons] at fits
          rw [advance_fits (by omega)] at closes gathered
          have big : enough ≤ report := closes.resolve_right (by omega)
          have counted := ih (by simp only [List.sum_cons]; omega) gathered
          simp only [List.length_cons, List.sum_cons, Nat.mul_add, Nat.mul_one] at counted ⊢
          omega

/-- Reports that fill the ring no more than once go over the right end once at most. -/
theorem Gathered.count {reports : List Nat} (fits : ring.left + reports.sum ≤ ring.right)
    (gathered : ring.Gathered enough position reports) :
    enough * reports.length ≤ reports.sum + 2 * enough := by
  induction reports generalizing position with
  | nil => exact Nat.zero_le _
  | cons report reports ih =>
      cases reports with
      | nil =>
          rw [List.length_singleton, Nat.mul_one]
          omega
      | cons next rest =>
          obtain ⟨closes, gathered⟩ := gathered
          rw [List.sum_cons] at fits
          rcases closes with big | wraps
          · have counted := ih (by omega) gathered
            simp only [List.length_cons, List.sum_cons, Nat.mul_add, Nat.mul_one] at counted ⊢
            omega
          · -- from here on the reports lie behind the left end
            have straight : ring.Gathered enough ring.left (next :: rest) := by
              cases rest with
              | nil => trivial
              | cons third rest =>
                  simp only [List.sum_cons] at fits
                  have same : ring.advance ring.left next =
                      ring.advance (ring.advance position report) next := by
                    rw [advance_wraps wraps, advance_fits (by omega)]
                  unfold Gathered
                  rw [same]
                  exact gathered
            have counted := straight.count_straight (by omega)
            simp only [List.length_cons, List.sum_cons, Nat.mul_add, Nat.mul_one] at counted ⊢
            omega

theorem advance_add {first second reached : Nat} (passed : ring.advance position first = reached)
    (fits : reached + second ≤ ring.right) :
    ring.advance position (first + second) = reached + second := by
  subst passed
  by_cases wraps : ring.right < position + first
  · rw [advance_wraps wraps] at fits ⊢
    rw [advance_wraps (by omega), Nat.add_assoc]
  · rw [advance_fits (Nat.not_lt.mp wraps)] at fits ⊢
    rw [advance_fits (by omega), Nat.add_assoc]

end Ring

end RingFifo
