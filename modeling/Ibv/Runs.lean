import Mathlib.Data.List.Basic

set_option autoImplicit false

namespace Runs

variable {State Label : Type}

abbrev Any (_ : State) (_ : Label) : Prop := True

/-- A finite run from `start`, each step of which meets `ok` in the state it
leaves. -/
inductive Run (step : State → Label → Option State) (ok : State → Label → Prop)
    (start : State) : State → Prop where
  | refl : Run step ok start start
  | next {before after : State} (run : Run step ok start before) (label : Label)
      (allowed : ok before label) (taken : step before label = some after) :
      Run step ok start after

variable {step : State → Label → Option State} {ok : State → Label → Prop}
  {start middle finish : State}

theorem Run.invariant (Inv : State → Prop) (run : Run step ok start finish)
    (initially : Inv start)
    (kept : ∀ before label after, Inv before → ok before label →
      step before label = some after → Inv after) : Inv finish := by
  induction run with
  | refl => exact initially
  | next run label allowed taken ih => exact kept _ label _ ih allowed taken

theorem Run.trans (first : Run step ok start middle) (second : Run step ok middle finish) :
    Run step ok start finish := by
  induction second with
  | refl => exact first
  | next run label allowed taken ih => exact ih.next label allowed taken

theorem Run.mono {weaker : State → Label → Prop} (run : Run step ok start finish)
    (implied : ∀ state label, ok state label → weaker state label) :
    Run step weaker start finish := by
  induction run with
  | refl => exact .refl
  | next run label allowed taken ih => exact ih.next label (implied _ _ allowed) taken

theorem Run.any (run : Run step ok start finish) : Run step Any start finish :=
  run.mono fun _ _ _ => trivial

/-- A simulation with stutters. Seen through `see`, each step of the run is one step of
another machine or none. -/
theorem Run.simulates {Seen SeenLabel : Type} {seenStep : Seen → SeenLabel → Option Seen}
    {seenOk : Seen → SeenLabel → Prop} (see : State → Seen) (run : Run step ok start finish)
    (each : ∀ before label after, Run step ok start before → ok before label →
      step before label = some after → see after = see before ∨
        ∃ seenLabel, seenOk (see before) seenLabel ∧
          seenStep (see before) seenLabel = some (see after)) :
    Run seenStep seenOk (see start) (see finish) := by
  induction run with
  | refl => exact .refl
  | next run label allowed taken ih =>
      rcases each _ _ _ run allowed taken with same | ⟨seenLabel, allowed', taken'⟩
      · rw [same]
        exact ih
      · exact ih.next seenLabel allowed' taken'

theorem Run.single (label : Label) (allowed : ok start label)
    (taken : step start label = some finish) : Run step ok start finish :=
  Run.refl.next label allowed taken

/-- Execution of a list of labels, stopping at the first that is not enabled. -/
def exec (step : State → Label → Option State) : State → List Label → Option State
  | state, [] => some state
  | state, label :: labels => (step state label).bind fun after => exec step after labels

@[simp] theorem exec_nil (state : State) : exec step state [] = some state := rfl

@[simp] theorem exec_cons (state : State) (label : Label) (labels : List Label) :
    exec step state (label :: labels) =
      (step state label).bind fun after => exec step after labels := rfl

theorem exec_append (state : State) (first second : List Label) :
    exec step state (first ++ second) =
      (exec step state first).bind fun after => exec step after second := by
  induction first generalizing state with
  | nil => rfl
  | cons label first ih => simp [ih, Option.bind_assoc]

theorem Run.of_exec (labels : List Label) (executed : exec step start labels = some finish) :
    Run step Any start finish := by
  induction labels generalizing start with
  | nil =>
      cases executed
      exact .refl
  | cons label labels ih =>
      obtain ⟨after, taken, rest⟩ := Option.bind_eq_some_iff.mp executed
      exact (Run.single label trivial taken).trans (ih rest)

def execChecked (step : State → Label → Option State) (check : State → Label → Bool)
    (state : State) (labels : List Label) : Option State :=
  exec (fun before label => if check before label then step before label else none) state labels

theorem Run.of_execChecked {check : State → Label → Bool}
    (sound : ∀ state label, check state label = true → ok state label) (labels : List Label)
    (executed : execChecked step check start labels = some finish) :
    Run step ok start finish := by
  induction labels generalizing start with
  | nil =>
      cases executed
      exact .refl
  | cons label labels ih =>
      obtain ⟨after, taken, rest⟩ := Option.bind_eq_some_iff.mp executed
      dsimp only at taken
      split at taken
      · rename_i checked
        exact (Run.single label (sound _ _ checked) taken).trans (ih rest)
      · cases taken

/-- A run found by execution, together with what can be evaluated of its last state. -/
theorem Run.exists_of_execChecked (check : State → Label → Bool) (reached : State → Bool)
    (sound : ∀ state label, check state label = true → ok state label) (labels : List Label)
    (executed : (execChecked step check start labels).any reached = true) :
    ∃ finish, Run step ok start finish ∧ reached finish = true := by
  obtain ⟨finish, same, holds⟩ := (Option.any_eq_true _ _).mp executed
  exact ⟨finish, .of_execChecked sound labels same, holds⟩

theorem Run.exists_of_exec (reached : State → Bool) (labels : List Label)
    (executed : (exec step start labels).any reached = true) :
    ∃ finish, Run step Any start finish ∧ reached finish = true := by
  obtain ⟨finish, same, holds⟩ := (Option.any_eq_true _ _).mp executed
  exact ⟨finish, .of_exec labels same, holds⟩

end Runs
