import Mathlib.Data.List.Perm.Basic
import Mathlib.Data.Finset.Defs
import Mathlib.Logic.Relation
import Ibv.Progress

set_option autoImplicit false

namespace Ownership

open Runs (Run Any Trail Resting)

variable {Object : Type}

/-- What each object of the list needs stands behind it. -/
def Guarded (needs : Object → List Object) : List Object → Prop
  | [] => True
  | object :: behind => (∀ needed ∈ needs object, needed ∈ behind) ∧ Guarded needs behind

section Lists

variable {needs : Object → List Object} {object : Object} {front back list : List Object}

@[simp] theorem guarded_nil : Guarded needs [] := trivial

@[simp] theorem guarded_cons : Guarded needs (object :: back) ↔
    (∀ needed ∈ needs object, needed ∈ back) ∧ Guarded needs back := Iff.rfl

theorem Guarded.append (first : Guarded needs front) (second : Guarded needs back) :
    Guarded needs (front ++ back) := by
  induction front with
  | nil => exact second
  | cons object front ih =>
      simp only [List.cons_append, guarded_cons] at first ⊢
      exact ⟨fun needed member => List.mem_append_left _ (first.1 needed member), ih first.2⟩

theorem Guarded.behind (guarded : Guarded needs (front ++ object :: back)) :
    (∀ needed ∈ needs object, needed ∈ back) ∧ Guarded needs back := by
  induction front with
  | nil => exact guarded
  | cons first front ih => exact ih guarded.2

theorem Guarded.suffix (guarded : Guarded needs (front ++ back)) : Guarded needs back := by
  induction front with
  | nil => exact guarded
  | cons first front ih => exact ih guarded.2

theorem Guarded.mem (guarded : Guarded needs list) (member : object ∈ list) :
    ∀ needed ∈ needs object, needed ∈ list := by
  obtain ⟨front, back, rfl⟩ := List.append_of_mem member
  intro needed found
  simp [guarded.behind.1 needed found]

theorem Guarded.free (free : ∀ first ∈ front, needs first = []) (guarded : Guarded needs back) :
    Guarded needs (front ++ back) := by
  induction front with
  | nil => exact guarded
  | cons first front ih =>
      simp only [List.mem_cons, forall_eq_or_imp] at free
      simp only [List.cons_append, guarded_cons, free.1]
      exact ⟨by simp, ih free.2⟩

variable [DecidableEq Object]

theorem Guarded.erase (guarded : Guarded needs list)
    (unneeded : ∀ first ∈ list, object ∉ needs first) : Guarded needs (list.erase object) := by
  induction list with
  | nil => simp
  | cons first list ih =>
      simp only [List.mem_cons, forall_eq_or_imp] at unneeded
      by_cases same : first = object
      · simpa [same] using guarded.2
      · rw [List.erase_cons_tail (by simpa using same)]
        refine ⟨?_, ih guarded.2 unneeded.2⟩
        intro needed member
        have other : needed ≠ object := fun same => unneeded.1 (same ▸ member)
        simpa [List.mem_erase_of_ne other] using guarded.1 needed member

theorem flatten_set {lists : List (List Object)} {place : Nat} {old : List Object}
    (held : lists[place]? = some old) (new : List Object) :
    ((lists.set place new).flatten ++ old).Perm (lists.flatten ++ new) := by
  induction lists generalizing place with
  | nil => simp at held
  | cons first lists ih =>
      rw [List.perm_iff_count]
      intro object
      cases place with
      | zero =>
          simp only [List.getElem?_cons_zero, Option.some.injEq] at held
          subst held
          simp only [List.set_cons_zero, List.flatten_cons, List.count_append]
          omega
      | succ place =>
          have counted := (ih (by simpa using held)).count_eq object
          simp only [List.count_append] at counted
          simp only [List.set_cons_succ, List.flatten_cons, List.count_append]
          omega

end Lists

/-- What the objects are made of. The fields of an object are dropped in their order. Only a
shared one can be referred to from several places. What an object borrows when it is made it
does not own: it has to outlive the object all the same. -/
structure Layout (Object : Type) where
  fields : Object → List Object
  shared : Object → Bool
  borrows : Object → List Object
  free : ∀ object, shared object = true → borrows object = []
  guarded : ∀ owner, Guarded borrows (fields owner)

/-- The reference counts, the objects alive with the newest first, those dropped in the order
of their drops, and what each strand will drop, in this order, when it ends. -/
structure Heap (Object : Type) where
  count : Object → Nat
  alive : List Object
  dropped : List Object
  strands : List (List Object)

def Heap.empty : Heap Object := { count := fun _ => 0, alive := [], dropped := [], strands := [] }

inductive Action (Object : Type) where
  | spawn
  | clone (object : Object) (strand : Nat)
  /-- A constructor gets the first `arguments` references of the strand. It moves those of the
  fields into the new object and drops the others before it returns. -/
  | create (object : Object) (strand arguments : Nat)
  | release (strand : Nat)
deriving DecidableEq

namespace Layout

variable [DecidableEq Object] (layout : Layout Object)

def leftover (object : Object) (given : List Object) : List Object :=
  given.diff (layout.fields object)

def step (heap : Heap Object) : Action Object → Option (Heap Object)
  | .spawn => some { heap with strands := heap.strands ++ [[]] }
  | .clone object strand =>
    heap.strands[strand]?.bind fun held =>
      if layout.shared object = true ∧ object ∈ heap.alive then
        some { heap with
          count := Function.update heap.count object (heap.count object + 1)
          strands := heap.strands.set strand (object :: held) }
      else none
  | .create object strand arguments =>
    heap.strands[strand]?.bind fun held =>
      let given := held.take arguments
      let rest := held.drop arguments
      if (layout.fields object ++ layout.leftover object given).Perm given ∧
          (∀ left ∈ layout.leftover object given, layout.shared left = true) ∧
          (∀ borrowed ∈ layout.borrows object, borrowed ∈ rest) ∧
          object ∉ heap.alive ∧ object ∉ heap.dropped then
        some { heap with
          count := Function.update heap.count object 1
          alive := object :: heap.alive
          strands := heap.strands.set strand
            (layout.leftover object given ++ object :: rest) }
      else none
  | .release strand =>
    heap.strands[strand]?.bind fun held =>
      match held with
      | [] => none
      | object :: rest =>
        let count := Function.update heap.count object (heap.count object - 1)
        -- the value is dropped with its last reference, and then its fields one by one
        if count object = 0 then
          some { count := count
                 alive := heap.alive.erase object
                 dropped := heap.dropped ++ [object]
                 strands := heap.strands.set strand (layout.fields object ++ rest) }
        else
          some { heap with count := count, strands := heap.strands.set strand rest }

variable {layout : Layout Object} {heap after : Heap Object} {action : Action Object}
  {object owner part : Object} {strand : Nat} {held given rest : List Object}

/-- All references there are: those of the strands and those of the objects alive. -/
def references (layout : Layout Object) (heap : Heap Object) : List Object :=
  heap.strands.flatten ++ heap.alive.flatMap layout.fields

inductive Effect (layout : Layout Object) (heap : Heap Object) :
    Action Object → Heap Object → Prop where
  | spawn : Effect layout heap .spawn { heap with strands := heap.strands ++ [[]] }
  | clone (object : Object) (strand : Nat) (held : List Object)
      (place : heap.strands[strand]? = some held) (shared : layout.shared object = true)
      (alive : object ∈ heap.alive) :
      Effect layout heap (.clone object strand) { heap with
        count := Function.update heap.count object (heap.count object + 1)
        strands := heap.strands.set strand (object :: held) }
  | create (object : Object) (strand arguments : Nat) (given left rest : List Object)
      (place : heap.strands[strand]? = some (given ++ rest))
      (fields : (layout.fields object ++ left).Perm given)
      (shared : ∀ first ∈ left, layout.shared first = true)
      (borrowed : ∀ borrowed ∈ layout.borrows object, borrowed ∈ rest)
      (unborn : object ∉ heap.alive) (undropped : object ∉ heap.dropped) :
      Effect layout heap (.create object strand arguments) { heap with
        count := Function.update heap.count object 1
        alive := object :: heap.alive
        strands := heap.strands.set strand (left ++ object :: rest) }
  | drop (object : Object) (strand : Nat) (rest : List Object)
      (place : heap.strands[strand]? = some (object :: rest))
      (last : heap.count object - 1 = 0) :
      Effect layout heap (.release strand) {
        count := Function.update heap.count object (heap.count object - 1)
        alive := heap.alive.erase object
        dropped := heap.dropped ++ [object]
        strands := heap.strands.set strand (layout.fields object ++ rest) }
  | release (object : Object) (strand : Nat) (rest : List Object)
      (place : heap.strands[strand]? = some (object :: rest))
      (others : heap.count object - 1 ≠ 0) :
      Effect layout heap (.release strand) { heap with
        count := Function.update heap.count object (heap.count object - 1)
        strands := heap.strands.set strand rest }

theorem step_effect (taken : layout.step heap action = some after) :
    Effect layout heap action after := by
  cases action with
  | spawn =>
      simp only [step, Option.some.injEq] at taken
      subst taken
      exact .spawn
  | clone object strand =>
      obtain ⟨held, place, taken⟩ := Option.bind_eq_some_iff.mp taken
      split at taken
      · rename_i allowed
        cases taken
        exact .clone object strand held place allowed.1 allowed.2
      · cases taken
  | create object strand arguments =>
      obtain ⟨held, place, taken⟩ := Option.bind_eq_some_iff.mp taken
      rw [← List.take_append_drop arguments held] at place
      dsimp only at taken
      split at taken
      · rename_i allowed
        cases taken
        exact .create object strand arguments _ _ _ place allowed.1 allowed.2.1 allowed.2.2.1
          allowed.2.2.2.1 allowed.2.2.2.2
      · cases taken
  | release strand =>
      obtain ⟨held, place, taken⟩ := Option.bind_eq_some_iff.mp taken
      cases held with
      | nil => cases taken
      | cons object rest =>
          simp only [Function.update_self] at taken
          split at taken
          · rename_i last
            cases taken
            exact .drop object strand rest place last
          · rename_i others
            cases taken
            exact .release object strand rest place others

structure Sound (layout : Layout Object) (heap : Heap Object) : Prop where
  count : ∀ object, heap.count object = (layout.references heap).count object
  alive : ∀ object, object ∈ heap.alive ↔ 0 < heap.count object
  once : (heap.dropped ++ heap.alive).Nodup
  newest : Guarded layout.fields heap.alive
  guarded : ∀ held ∈ heap.strands, Guarded layout.borrows held

theorem Sound.empty : layout.Sound .empty where
  count := by simp [references, Heap.empty]
  alive := by simp [Heap.empty]
  once := by simp [Heap.empty]
  newest := by simp [Heap.empty]
  guarded := by simp [Heap.empty]

theorem references_set {alive new : List Object} (gone come : List Object)
    (place : heap.strands[strand]? = some held)
    (changed : (gone ++ (new ++ alive.flatMap layout.fields)).Perm
      (come ++ (held ++ heap.alive.flatMap layout.fields))) :
    (gone ++ ((heap.strands.set strand new).flatten ++ alive.flatMap layout.fields)).Perm
      (come ++ layout.references heap) := by
  rw [List.perm_iff_count]
  intro object
  have set := (flatten_set place new).count_eq object
  have each := changed.count_eq object
  simp only [List.count_append] at set each
  simp only [references, List.count_append]
  omega

theorem references_clone (place : heap.strands[strand]? = some held) :
    ((heap.strands.set strand (object :: held)).flatten ++
      heap.alive.flatMap layout.fields).Perm ([object] ++ layout.references heap) :=
  references_set [] [object] place (.refl _)

theorem references_create {left : List Object}
    (place : heap.strands[strand]? = some (given ++ rest))
    (fields : (layout.fields object ++ left).Perm given) :
    ((heap.strands.set strand (left ++ object :: rest)).flatten ++
      (object :: heap.alive).flatMap layout.fields).Perm ([object] ++ layout.references heap) := by
  apply references_set [] [object] place
  rw [List.perm_iff_count]
  intro other
  have moved := fields.count_eq other
  rw [List.count_append] at moved
  simp only [List.nil_append, List.count_append, List.count_cons, List.flatMap_cons,
    List.count_nil]
  omega

theorem references_drop (place : heap.strands[strand]? = some (object :: rest))
    (alive : object ∈ heap.alive) :
    ([object] ++ ((heap.strands.set strand (layout.fields object ++ rest)).flatten ++
      (heap.alive.erase object).flatMap layout.fields)).Perm (layout.references heap) := by
  apply references_set [object] [] place
  rw [List.perm_iff_count]
  intro other
  have freed := ((List.perm_cons_erase alive).flatMap_right layout.fields).count_eq other
  rw [List.flatMap_cons, List.count_append] at freed
  simp only [List.nil_append, List.count_append, List.count_cons, List.count_nil]
  omega

theorem references_release (place : heap.strands[strand]? = some (object :: rest)) :
    ([object] ++ ((heap.strands.set strand rest).flatten ++
      heap.alive.flatMap layout.fields)).Perm (layout.references heap) :=
  references_set [object] [] place (.refl _)

theorem grown {references changed : List Object} {count : Object → Nat}
    (counted : ∀ object, count object = references.count object)
    (perm : changed.Perm ([object] ++ references)) (other : Object) :
    Function.update count object (count object + 1) other = changed.count other := by
  rw [perm.count_eq, List.singleton_append]
  by_cases same : other = object
  · subst same
    simp [counted]
  · simp [same, Ne.symm same, counted]

theorem shrunk {references changed : List Object} {count : Object → Nat}
    (counted : ∀ object, count object = references.count object)
    (perm : ([object] ++ changed).Perm references) (other : Object) :
    Function.update count object (count object - 1) other = changed.count other := by
  have moved := perm.count_eq other
  rw [List.singleton_append] at moved
  by_cases same : other = object
  · subst same
    simp only [List.count_cons_self] at moved
    simp only [Function.update_self, counted]
    omega
  · simp only [List.count_cons_of_ne (Ne.symm same)] at moved
    simp [same, counted, moved]

theorem Sound.mem_iff (sound : layout.Sound heap) (object : Object) :
    object ∈ heap.alive ↔ object ∈ layout.references heap := by
  rw [sound.alive, sound.count, List.count_pos_iff]

theorem Sound.field_alive (sound : layout.Sound heap) (alive : owner ∈ heap.alive)
    (field : part ∈ layout.fields owner) : part ∈ heap.alive :=
  sound.newest.mem alive part field

theorem Sound.held_alive (sound : layout.Sound heap) (strand : held ∈ heap.strands)
    (member : object ∈ held) : object ∈ heap.alive := by
  rw [sound.mem_iff]
  exact List.mem_append_left _ (List.mem_flatten_of_mem strand member)

/-- What an object has borrowed stands behind it wherever it is held. -/
theorem Sound.borrowed_alive (sound : layout.Sound heap) (alive : owner ∈ heap.alive)
    (borrowed : part ∈ layout.borrows owner) : part ∈ heap.alive := by
  rcases List.mem_append.mp ((sound.mem_iff owner).mp alive) with held | field
  · obtain ⟨held, strand, member⟩ := List.mem_flatten.mp held
    exact sound.held_alive strand ((sound.guarded held strand).mem member part borrowed)
  · obtain ⟨holder, alive, field⟩ := List.mem_flatMap.mp field
    exact sound.field_alive alive ((layout.guarded holder).mem field part borrowed)

theorem Sound.dropped_dead (sound : layout.Sound heap) (dropped : object ∈ heap.dropped) :
    object ∉ heap.alive :=
  fun alive => (List.nodup_append.mp sound.once).2.2 object dropped object alive rfl

theorem Sound.counted (sound : layout.Sound heap)
    (place : heap.strands[strand]? = some (object :: rest)) : 0 < heap.count object := by
  rw [← sound.alive]
  exact sound.held_alive (List.mem_of_getElem? place) (List.mem_cons_self ..)

/-- The last reference to an object is the one that is dropped: no field refers to it. -/
theorem Sound.unowned (sound : layout.Sound heap)
    (place : heap.strands[strand]? = some (object :: rest))
    (last : heap.count object - 1 = 0) (owned : owner ∈ heap.alive) :
    object ∉ layout.fields owner := by
  intro field
  have counted := sound.count object
  have member : object ∈ heap.strands.flatten :=
    List.mem_flatten_of_mem (List.mem_of_getElem? place) (List.mem_cons_self ..)
  have first := List.count_pos_iff.mpr member
  have second := List.count_pos_iff.mpr (List.mem_flatMap_of_mem owned field)
  rw [references, List.count_append] at counted
  omega

omit [DecidableEq Object] in
theorem guarded_set {strands : List (List Object)} {new : List Object}
    (guarded : ∀ held ∈ strands, Guarded layout.borrows held)
    (replaced : Guarded layout.borrows new) :
    ∀ held ∈ strands.set strand new, Guarded layout.borrows held := by
  intro held member
  rcases List.mem_or_eq_of_mem_set member with kept | same
  · exact guarded held kept
  · rw [same]
    exact replaced

theorem Sound.spawn (sound : layout.Sound heap) :
    layout.Sound { heap with strands := heap.strands ++ [[]] } where
  count object := by simpa [references] using sound.count object
  alive := sound.alive
  once := sound.once
  newest := sound.newest
  guarded := by
    intro held member
    simp only [List.mem_append, List.mem_singleton] at member
    rcases member with member | empty
    · exact sound.guarded held member
    · simp [empty]

theorem Sound.clone (sound : layout.Sound heap) (place : heap.strands[strand]? = some held)
    (shared : layout.shared object = true) (alive : object ∈ heap.alive) :
    layout.Sound { heap with
      count := Function.update heap.count object (heap.count object + 1)
      strands := heap.strands.set strand (object :: held) } where
  count := grown sound.count (references_clone place)
  alive other := by
    by_cases same : other = object
    · subst same
      simp [alive]
    · simpa [same] using sound.alive other
  once := sound.once
  newest := sound.newest
  guarded := by
    apply guarded_set sound.guarded
    simp only [guarded_cons, layout.free object shared]
    exact ⟨by simp, sound.guarded held (List.mem_of_getElem? place)⟩

theorem Sound.create {left : List Object} (sound : layout.Sound heap)
    (place : heap.strands[strand]? = some (given ++ rest))
    (fields : (layout.fields object ++ left).Perm given)
    (shared : ∀ first ∈ left, layout.shared first = true)
    (borrowed : ∀ borrowed ∈ layout.borrows object, borrowed ∈ rest)
    (unborn : object ∉ heap.alive) (undropped : object ∉ heap.dropped) :
    layout.Sound { heap with
      count := Function.update heap.count object 1
      alive := object :: heap.alive
      strands := heap.strands.set strand (left ++ object :: rest) } where
  count := by
    have unreferenced := (sound.alive object).not.mp unborn
    have one : heap.count object + 1 = 1 := by omega
    rw [← one]
    exact grown sound.count (references_create place fields)
  alive other := by
    by_cases same : other = object
    · simp [same]
    · simpa [same] using sound.alive other
  once := by
    have fresh : object ∉ heap.dropped ++ heap.alive := by simp [unborn, undropped]
    rw [List.perm_middle.nodup_iff]
    exact List.nodup_cons.mpr ⟨fresh, sound.once⟩
  newest := by
    refine ⟨?_, sound.newest⟩
    intro field member
    have held : field ∈ given ++ rest := by
      simp [← fields.mem_iff, member]
    exact sound.held_alive (List.mem_of_getElem? place) held
  guarded := by
    apply guarded_set sound.guarded
    have behind := (sound.guarded _ (List.mem_of_getElem? place)).suffix
    exact Guarded.free (fun first member => layout.free first (shared first member))
      ⟨borrowed, behind⟩

theorem Sound.drop (sound : layout.Sound heap)
    (place : heap.strands[strand]? = some (object :: rest))
    (last : heap.count object - 1 = 0) :
    layout.Sound {
      count := Function.update heap.count object (heap.count object - 1)
      alive := heap.alive.erase object
      dropped := heap.dropped ++ [object]
      strands := heap.strands.set strand (layout.fields object ++ rest) } where
  count := shrunk sound.count
    (references_drop place ((sound.alive object).mpr (sound.counted place)))
  alive other := by
    have nodup := (List.nodup_append.mp sound.once).2.1
    by_cases same : other = object
    · subst same
      simp [last, nodup.not_mem_erase]
    · simpa [same, List.mem_erase_of_ne same] using sound.alive other
  once := by
    have alive : object ∈ heap.alive := (sound.alive object).mpr (sound.counted place)
    have moved : (heap.dropped ++ [object] ++ heap.alive.erase object).Perm
        (heap.dropped ++ heap.alive) := by
      rw [List.append_assoc]
      exact (List.perm_cons_erase alive).symm.append_left heap.dropped
    exact moved.nodup_iff.mpr sound.once
  newest := sound.newest.erase fun owner alive => sound.unowned place last alive
  guarded := by
    apply guarded_set sound.guarded
    exact (layout.guarded object).append (sound.guarded _ (List.mem_of_getElem? place)).2

theorem Sound.release (sound : layout.Sound heap)
    (place : heap.strands[strand]? = some (object :: rest))
    (others : heap.count object - 1 ≠ 0) :
    layout.Sound { heap with
      count := Function.update heap.count object (heap.count object - 1)
      strands := heap.strands.set strand rest } where
  count := shrunk sound.count (references_release place)
  alive other := by
    by_cases same : other = object
    · subst same
      rw [sound.alive]
      simp only [Function.update_self]
      omega
    · simpa [same] using sound.alive other
  once := sound.once
  newest := sound.newest
  guarded := by
    apply guarded_set sound.guarded
    exact (sound.guarded _ (List.mem_of_getElem? place)).2

theorem Sound.step (sound : layout.Sound heap) (taken : layout.step heap action = some after) :
    layout.Sound after := by
  cases step_effect taken with
  | spawn => exact sound.spawn
  | clone object strand held place shared alive => exact sound.clone place shared alive
  | create object strand arguments given left rest place fields shared borrowed unborn undropped =>
      exact sound.create place fields shared borrowed unborn undropped
  | drop object strand rest place last => exact sound.drop place last
  | release object strand rest place others => exact sound.release place others

theorem run_sound (run : Run layout.step Any .empty heap) : layout.Sound heap :=
  run.invariant layout.Sound .empty fun _ _ _ sound _ taken => sound.step taken

/-- What an object owns or has borrowed, and what that needs in turn. -/
def Needs (layout : Layout Object) : Object → Object → Prop :=
  Relation.TransGen fun owner part => part ∈ layout.fields owner ∨ part ∈ layout.borrows owner

/-- What an object needs is not dropped before it. -/
theorem Sound.outlived (sound : layout.Sound heap) (needs : layout.Needs owner part)
    (alive : owner ∈ heap.alive) : part ∈ heap.alive := by
  have each : ∀ owner part, part ∈ layout.fields owner ∨ part ∈ layout.borrows owner →
      owner ∈ heap.alive → part ∈ heap.alive := by
    intro owner part needed alive
    rcases needed with field | borrowed
    · exact sound.field_alive alive field
    · exact sound.borrowed_alive alive borrowed
  induction needs with
  | single needed => exact each _ _ needed alive
  | tail _ needed ih => exact each _ _ needed ih

/-- No object is dropped after one that it needs. -/
def Ordered (layout : Layout Object) (heap : Heap Object) : Prop :=
  heap.dropped.Pairwise fun earlier later => ¬ layout.Needs later earlier

theorem Ordered.step (ordered : layout.Ordered heap) (sound : layout.Sound heap)
    (taken : layout.step heap action = some after) : layout.Ordered after := by
  cases step_effect taken with
  | drop object strand rest place last =>
      have alive : object ∈ heap.alive := (sound.alive object).mpr (sound.counted place)
      have after : ∀ earlier ∈ heap.dropped, ¬ layout.Needs object earlier :=
        fun earlier dropped needs => sound.dropped_dead dropped (sound.outlived needs alive)
      simpa [Ordered, List.pairwise_append] using ⟨ordered, after⟩
  | _ => exact ordered

theorem run_ordered (run : Run layout.step Any .empty heap) : layout.Ordered heap := by
  have both : layout.Sound heap ∧ layout.Ordered heap := by
    apply run.invariant fun heap => layout.Sound heap ∧ layout.Ordered heap
    · exact ⟨.empty, by simp [Ordered, Heap.empty]⟩
    · intro before action after both _ taken
      exact ⟨both.1.step taken, both.2.step both.1 taken⟩
  exact both.2

/-- What is alive stays so or is dropped, and what is dropped stays dropped. -/
theorem run_kept (run : Run layout.step Any heap after)
    (known : object ∈ heap.dropped ++ heap.alive) : object ∈ after.dropped ++ after.alive := by
  apply run.invariant (fun heap => object ∈ heap.dropped ++ heap.alive) known
  intro before action after known _ taken
  simp only [List.mem_append] at known ⊢
  cases step_effect taken with
  | create other strand arguments given left rest place fields shared borrowed unborn undropped =>
      exact known.imp_right (List.mem_cons_of_mem other)
  | drop other strand rest place last =>
      by_cases same : object = other
      · simp [same]
      · simpa [same, List.mem_erase_of_ne same] using known
  | _ => exact known

/-- What an object owns, itself included. -/
def Owns (layout : Layout Object) : Object → Object → Prop :=
  Relation.ReflTransGen fun owner part => part ∈ layout.fields owner

/-- No object is left behind: the objects alive are those that the strands own. The induction
follows their age, as an owner is newer than what it owns. -/
theorem Sound.alive_iff (sound : layout.Sound heap) (object : Object) :
    object ∈ heap.alive ↔ ∃ held ∈ heap.strands, ∃ root ∈ held, layout.Owns root object := by
  constructor
  · intro alive
    obtain ⟨front, back, split⟩ := List.append_of_mem alive
    induction age : front.length using Nat.strongRecOn generalizing object front back with
    | ind age ih =>
        rcases List.mem_append.mp ((sound.mem_iff object).mp alive) with held | field
        · obtain ⟨held, strand, member⟩ := List.mem_flatten.mp held
          exact ⟨held, strand, object, member, .refl⟩
        · obtain ⟨owner, alive, field⟩ := List.mem_flatMap.mp field
          have nodup := (List.nodup_append.mp sound.once).2.1
          have newest := sound.newest
          rw [split] at nodup newest alive
          have old : object ∉ back := (List.nodup_cons.mp (List.nodup_append.mp nodup).2.1).1
          rcases List.mem_append.mp alive with newer | older
          · obtain ⟨first, second, rfl⟩ := List.append_of_mem newer
            rw [List.length_append, List.length_cons] at age
            rw [List.append_assoc, List.cons_append] at split
            obtain ⟨held, strand, root, member, owns⟩ :=
              ih first.length (by omega) owner (by simp [split]) first _ split rfl
            exact ⟨held, strand, root, member, owns.tail field⟩
          · have behind := newest.suffix
            rcases List.mem_cons.mp older with rfl | older
            · exact absurd (behind.1 _ field) old
            · exact absurd (behind.2.mem older _ field) old
  · intro reached
    obtain ⟨held, strand, root, member, owns⟩ := reached
    induction owns with
    | refl => exact sound.held_alive strand member
    | tail _ field ih => exact sound.field_alive ih field

def Releases (_ : Heap Object) (action : Action Object) : Prop :=
  ∃ strand, action = .release strand

theorem Sound.release_step (sound : layout.Sound heap) (releases : Releases heap action)
    (taken : layout.step heap action = some after) :
    (layout.references after).length + 1 = (layout.references heap).length := by
  obtain ⟨strand, rfl⟩ := releases
  have one : ∃ object, ([object] ++ layout.references after).Perm (layout.references heap) := by
    cases step_effect taken with
    | drop object strand rest place last =>
        exact ⟨object, references_drop place ((sound.alive object).mpr (sound.counted place))⟩
    | release object strand rest place others =>
        exact ⟨object, references_release place⟩
  obtain ⟨object, perm⟩ := one
  simpa using perm.length_eq

theorem Sound.drains {actions : List (Action Object)} (sound : layout.Sound heap)
    (run : Trail layout.step Releases heap actions after) :
    actions.length + (layout.references after).length = (layout.references heap).length := by
  have both : actions.length + (layout.references after).length =
      (layout.references heap).length ∧ layout.Sound after := by
    apply run.invariant fun actions after => actions.length + (layout.references after).length =
      (layout.references heap).length ∧ layout.Sound after
    · exact ⟨by simp, sound⟩
    · intro actions before action after _ both releases taken
      have one := both.2.release_step releases taken
      refine ⟨?_, both.2.step taken⟩
      rw [List.length_append, List.length_singleton]
      omega
  exact both.1

theorem release_enabled (place : heap.strands[strand]? = some (object :: rest)) :
    (layout.step heap (.release strand)).isSome = true := by
  simp only [step, place, Option.bind_some]
  split <;> simp

theorem resting_iff : Resting layout.step Releases heap ↔ ∀ held ∈ heap.strands, held = [] := by
  constructor
  · intro rests held member
    obtain ⟨strand, place⟩ := List.mem_iff_getElem?.mp member
    cases held with
    | nil => rfl
    | cons object rest =>
        have enabled : (layout.step heap (.release strand)).isSome = true :=
          release_enabled place
        rw [rests (.release strand) ⟨strand, rfl⟩] at enabled
        cases enabled
  · rintro ended action ⟨strand, rfl⟩
    rw [Option.eq_none_iff_forall_ne_some]
    intro after taken
    cases step_effect taken with
    | drop object strand rest place last => simpa using ended _ (List.mem_of_getElem? place)
    | release object strand rest place others => simpa using ended _ (List.mem_of_getElem? place)

theorem Sound.ended (sound : layout.Sound heap) (ended : ∀ held ∈ heap.strands, held = []) :
    heap.alive = [] := by
  rw [List.eq_nil_iff_forall_not_mem]
  intro object alive
  obtain ⟨held, member, root, found, -⟩ := (sound.alive_iff object).mp alive
  simp [ended held member] at found

end Layout

end Ownership
