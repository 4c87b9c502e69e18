import Mathlib.Data.List.Basic

set_option autoImplicit false

namespace SegmentStream

variable {Byte : Type}

/-- Fill a buffer of `length` bytes: each arriving segment is taken as far as it is needed.
`none` when the stream ends before the buffer is full. -/
def readExact : Nat → List (List Byte) → Option (List Byte × List (List Byte))
  | length, [] => if length = 0 then some ([], []) else none
  | length, segment :: segments =>
      if length ≤ segment.length then
        some (segment.take length, segment.drop length :: segments)
      else
        (readExact (length - segment.length) segments).map fun read =>
          (segment ++ read.1, read.2)

/-- An exact read sees the stream and not the segments. -/
theorem readExact_enough (length : Nat) (segments : List (List Byte))
    (enough : length ≤ segments.flatten.length) :
    ∃ unread, readExact length segments = some (segments.flatten.take length, unread) ∧
      unread.flatten = segments.flatten.drop length := by
  induction segments generalizing length with
  | nil =>
      have zero : length = 0 := Nat.le_zero.mp enough
      subst zero
      exact ⟨[], rfl, rfl⟩
  | cons segment segments ih =>
      rw [List.flatten_cons] at enough ⊢
      by_cases inside : length ≤ segment.length
      · refine ⟨segment.drop length :: segments, ?_, ?_⟩
        · rw [readExact, if_pos inside, List.take_append_of_le_length inside]
        · rw [List.flatten_cons, List.drop_append_of_le_length inside]
      · rw [List.length_append] at enough
        obtain ⟨unread, read, left⟩ := ih (length - segment.length) (by omega)
        have whole : segment.length ≤ length := by omega
        refine ⟨unread, ?_, ?_⟩
        · rw [readExact, if_neg inside, read, Option.map_some, List.take_append,
            List.take_of_length_le whole]
        · rw [left, List.drop_append, List.drop_of_length_le whole, List.nil_append]

theorem readExact_short (length : Nat) (segments : List (List Byte))
    (short : segments.flatten.length < length) : readExact length segments = none := by
  induction segments generalizing length with
  | nil =>
      have positive : length ≠ 0 := Nat.ne_of_gt short
      rw [readExact, if_neg positive]
  | cons segment segments ih =>
      rw [List.flatten_cons, List.length_append] at short
      rw [readExact, if_neg (by omega), ih _ (by omega), Option.map_none]

theorem readExact_front {segments : List (List Byte)} {front rest : List Byte}
    (arrives : segments.flatten = front ++ rest) :
    ∃ unread, readExact front.length segments = some (front, unread) ∧ unread.flatten = rest := by
  obtain ⟨unread, read, left⟩ := readExact_enough front.length segments (by
    rw [arrives, List.length_append]
    exact Nat.le_add_right _ _)
  rw [arrives, List.take_left] at read
  rw [arrives, List.drop_left] at left
  exact ⟨unread, read, left⟩

end SegmentStream
