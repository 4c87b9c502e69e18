import Mathlib.Algebra.BigOperators.Group.List.Basic
import Mathlib.Algebra.Ring.Nat
import Ibv.Runs

set_option autoImplicit false

namespace Runs

variable {State Label Seen : Type} {step : State → Label → Option State}
  {ok : State → Label → Prop} {see : State → Label → List Seen} {start finish : State}
  {seen : List Seen}

/-- A run together with what `see` shows of its steps, in their order. -/
inductive Observed (step : State → Label → Option State) (ok : State → Label → Prop)
    (see : State → Label → List Seen) (start : State) : List Seen → State → Prop where
  | refl : Observed step ok see start [] start
  | next {seen : List Seen} {before after : State} (run : Observed step ok see start seen before)
      (label : Label) (allowed : ok before label) (taken : step before label = some after) :
      Observed step ok see start (seen ++ see before label) after

theorem Observed.run (run : Observed step ok see start seen finish) :
    Run step ok start finish := by
  induction run with
  | refl => exact .refl
  | next run label allowed taken ih => exact ih.next label allowed taken

theorem Run.observed (see : State → Label → List Seen) (run : Run step ok start finish) :
    ∃ seen, Observed step ok see start seen finish := by
  induction run with
  | refl => exact ⟨[], .refl⟩
  | next run label allowed taken ih =>
      obtain ⟨seen, observed⟩ := ih
      exact ⟨_, observed.next label allowed taken⟩

theorem Observed.invariant (Inv : List Seen → State → Prop)
    (run : Observed step ok see start seen finish) (initially : Inv [] start)
    (kept : ∀ seen before label after, Run step ok start before → Inv seen before →
      ok before label → step before label = some after → Inv (seen ++ see before label) after) :
    Inv seen finish := by
  induction run with
  | refl => exact initially
  | next run label allowed taken ih => exact kept _ _ _ _ run.run ih allowed taken

theorem Observed.strengthen {stronger : State → Label → Prop}
    (run : Observed step ok see start seen finish)
    (implied : ∀ state label after, Run step ok start state → ok state label →
      step state label = some after → stronger state label) :
    Observed step stronger see start seen finish := by
  induction run with
  | refl => exact .refl
  | next run label allowed taken ih =>
      exact ih.next label (implied _ _ _ run.run allowed taken) taken

theorem Run.strengthen {stronger : State → Label → Prop} (run : Run step ok start finish)
    (implied : ∀ state label after, Run step ok start state → ok state label →
      step state label = some after → stronger state label) :
    Run step stronger start finish := by
  induction run with
  | refl => exact .refl
  | next run label allowed taken ih => exact ih.next label (implied _ _ _ run allowed taken) taken

theorem Observed.trans {middle : State} {seen' : List Seen}
    (first : Observed step ok see start seen middle)
    (second : Observed step ok see middle seen' finish) :
    Observed step ok see start (seen ++ seen') finish := by
  induction second with
  | refl =>
      rw [List.append_nil]
      exact first
  | next run label allowed taken ih =>
      rw [← List.append_assoc]
      exact ih.next label allowed taken

/-- A simulation with stutters that keeps what is observed: seen through `view`, each step is
one of another machine with the same observations, or none and shows nothing. -/
theorem Observed.simulates {View ViewLabel : Type} {viewStep : View → ViewLabel → Option View}
    {viewOk : View → ViewLabel → Prop} {viewSee : View → ViewLabel → List Seen}
    (view : State → View) (run : Observed step ok see start seen finish)
    (each : ∀ before label after, Run step ok start before → ok before label →
      step before label = some after →
        (view after = view before ∧ see before label = []) ∨
          ∃ viewLabel, viewOk (view before) viewLabel ∧
            viewStep (view before) viewLabel = some (view after) ∧
            viewSee (view before) viewLabel = see before label) :
    Observed viewStep viewOk viewSee (view start) seen (view finish) := by
  induction run with
  | refl => exact .refl
  | next run label allowed taken ih =>
      rcases each _ _ _ run.run allowed taken with
        ⟨same, silent⟩ | ⟨viewLabel, allowed', taken', shown⟩
      · rw [same, silent, List.append_nil]
        exact ih
      · rw [← shown]
        exact ih.next viewLabel allowed' taken'

/-- Execution of a list of labels, each checked and observed. -/
def observe (step : State → Label → Option State) (check : State → Label → Bool)
    (see : State → Label → List Seen) : State → List Label → Option (List Seen × State)
  | state, [] => some ([], state)
  | state, label :: labels =>
      if check state label then
        (step state label).bind fun after =>
          (observe step check see after labels).map fun rest =>
            (see state label ++ rest.1, rest.2)
      else none

theorem Observed.of_observe {check : State → Label → Bool}
    (sound : ∀ state label, check state label = true → ok state label) (labels : List Label)
    (executed : observe step check see start labels = some (seen, finish)) :
    Observed step ok see start seen finish := by
  induction labels generalizing start seen with
  | nil =>
      cases executed
      exact .refl
  | cons label labels ih =>
      unfold observe at executed
      split at executed
      · rename_i checked
        obtain ⟨after, taken, rest⟩ := Option.bind_eq_some_iff.mp executed
        obtain ⟨later, observed, same⟩ := Option.map_eq_some_iff.mp rest
        cases same
        exact (Observed.refl.next label (sound _ _ checked) taken).trans (ih observed)
      · cases executed

theorem Observed.exists_of_observe (check : State → Label → Bool)
    (reached : List Seen → State → Bool)
    (sound : ∀ state label, check state label = true → ok state label) (labels : List Label)
    (executed : (observe step check see start labels).any
      (fun result => reached result.1 result.2) = true) :
    ∃ seen finish, Observed step ok see start seen finish ∧ reached seen finish = true := by
  obtain ⟨⟨seen, finish⟩, same, holds⟩ := (Option.any_eq_true _ _).mp executed
  exact ⟨seen, finish, .of_observe sound labels same, holds⟩

abbrev Trail (step : State → Label → Option State) (ok : State → Label → Prop) (start : State) :
    List Label → State → Prop :=
  Observed step ok (fun _ label => [label]) start

/-- Each step spends some of the work to do, and brings as much as its label costs. So the
number of steps is bounded by the work there was and what the labels brought. -/
theorem Observed.amortized {labels : List Label} (work : State → Nat) (cost : Label → Nat)
    (run : Trail step ok start labels finish)
    (spends : ∀ before label after, ok before label → step before label = some after →
      work after + 1 ≤ work before + cost label) :
    labels.length + work finish ≤ work start + (labels.map cost).sum := by
  induction run with
  | refl => exact Nat.le_of_eq (Nat.zero_add _)
  | next run label allowed taken ih =>
      have spent := spends _ _ _ allowed taken
      rw [List.length_append, List.map_append, List.sum_append, List.map_singleton,
        List.sum_singleton, List.length_singleton]
      omega

theorem Observed.bounded {labels : List Label} (work : State → Nat)
    (run : Trail step ok start labels finish)
    (spends : ∀ before label after, ok before label → step before label = some after →
      work after < work before) : labels.length + work finish ≤ work start := by
  have paid := run.amortized work (fun _ => 0) spends
  rw [List.map_const', List.sum_replicate, nsmul_zero] at paid
  exact paid

def Resting (step : State → Label → Option State) (ok : State → Label → Prop) (state : State) :
    Prop :=
  ∀ label, ok state label → step state label = none

/-- Steps that all spend work end at rest, whatever they are. -/
theorem exists_resting (work : State → Nat)
    (spends : ∀ before label after, ok before label → step before label = some after →
      work after < work before) (start : State) :
    ∃ finish, Run step ok start finish ∧ Resting step ok finish := by
  induction left : work start using Nat.strongRecOn generalizing start with
  | ind left ih =>
      by_cases rests : Resting step ok start
      · exact ⟨start, .refl, rests⟩
      · unfold Resting at rests
        push Not at rests
        obtain ⟨label, allowed, enabled⟩ := rests
        obtain ⟨after, taken⟩ := Option.ne_none_iff_exists'.mp enabled
        have less := spends _ _ _ allowed taken
        rw [left] at less
        obtain ⟨finish, run, rests⟩ := ih (work after) less after rfl
        exact ⟨finish, (Run.single label allowed taken).trans run, rests⟩

theorem not_endless (work : State → Nat)
    (spends : ∀ before label after, ok before label → step before label = some after →
      work after < work before) (states : Nat → State) (labels : Nat → Label) :
    ¬ ∀ n, ok (states n) (labels n) ∧ step (states n) (labels n) = some (states (n + 1)) := by
  intro endless
  have falls : ∀ n, work (states n) + n ≤ work (states 0) := by
    intro n
    induction n with
    | zero => exact Nat.le_refl _
    | succ n ih =>
        have less := spends _ _ _ (endless n).1 (endless n).2
        omega
  have last := falls (work (states 0) + 1)
  omega

end Runs
