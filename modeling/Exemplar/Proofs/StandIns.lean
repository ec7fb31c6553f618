import Exemplar.Proofs.Documents
import Exemplar.Proofs.Texts

/-!
What stands in for missing input. A sample stands in for itself, a container that can change is
copied first, and lists and sets stand in empty. A copy is made of everything but what holds a
failure.
-/

namespace Exemplar

namespace Heap

variable {heap : Heap} {value sample : Value}

/-- A fold none of whose steps finds a failure ends without one. -/
theorem foldl_free {step : Bool × List Address → Value → Bool × List Address} {parts : List Value}
    (free : ∀ part ∈ parts, ∀ seen, (step (false, seen) part).1 = false) (seen : List Address) :
    (parts.foldl step (false, seen)).1 = false := by
  induction parts generalizing seen with
  | nil => rfl
  | cons part rest ih =>
      simp only [List.forall_mem_cons] at free
      rw [List.foldl_cons, show step (false, seen) part = (false, (step (false, seen) part).2) from
        Prod.ext (free.1 seen) rfl]
      exact ih free.2 _

/-- No failure is met on the way, whatever has been seen before. -/
theorem failureFrom_of_free {fuel : Nat} {seen : List Address}
    (free : ∀ inner, heap.Holds value inner → ∀ fail, inner ≠ .failure fail) :
    (heap.failureFrom fuel value seen).1 = false := by
  induction fuel generalizing value seen with
  | zero => rfl
  | succ fuel ih =>
      have within (part : Value) (member : part ∈ (heap.look value).parts) (seen : List Address) :
          (heap.failureFrom fuel part seen).1 = false :=
        ih fun inner held => free inner (.inside member held)
      unfold failureFrom
      cases value with
      | failure fail => exact absurd rfl (free _ .self fail)
      | ref index | copy index =>
          simp only [Value.address?]
          split
          next => rfl
          next => exact foldl_free within _
      | _ => exact foldl_free within seen

/-- A container that can change and is told by its shape: no record may share it. -/
def Shareable (heap : Heap) (sample : Value) : Prop :=
  Collection.isMapping (heap.look sample) = true ∨ Collection.isDeque (heap.look sample) = true

/-- A container that can change may be copied, if it is one. -/
def Copyable (heap : Heap) (sample : Value) : Prop :=
  heap.Shareable sample → heap.holdsFailure sample = false

theorem Shareable.bare (shareable : heap.Shareable sample) : heap.gathering? sample = none := by
  unfold Shareable at shareable
  unfold gathering?
  split <;> simp_all [Collection.isMapping, Collection.isDeque]

theorem Shareable.plain (shareable : heap.Shareable sample) : heap.isRecord sample = false := by
  unfold Shareable at shareable
  unfold isRecord
  split <;> simp_all [Collection.isMapping, Collection.isDeque]

theorem Shareable.sized (shareable : heap.Shareable sample) : heap.hasSize sample = true := by
  unfold Shareable at shareable
  unfold hasSize length?
  split <;> simp_all [Collection.isMapping, Collection.isDeque]

theorem deepCopy_ok (copied : heap.deepCopy sample = .ok value) : value = sample.copied := by
  unfold deepCopy at copied
  split at copied
  next => cases copied
  next => exact (Except.ok.inj copied).symm

theorem copyable_of_free (free : ∀ inner, heap.Holds sample inner → ∀ fail, inner ≠ .failure fail) :
    heap.Copyable sample :=
  fun _ => failureFrom_of_free free

/-- What can stand in for input that is missing. -/
inductive StandsIn (heap : Heap) (sample : Value) : Value → Prop
  | itself : heap.gathering? sample = none → StandsIn heap sample sample
  | copied : heap.Shareable sample → StandsIn heap sample sample.copied
  | empty {kind elements} : heap.gathering? sample = some (kind, elements) →
      StandsIn heap sample (kind.wrap [])

/-- What stands in for a sample is one of the things that can. -/
theorem Typed.standsIn {type : ValueType} {before after : Trace} (typed : heap.Typed sample type)
    (stood : (type.standIn heap sample).Yields before value after) : heap.StandsIn sample value := by
  cases typed with
  | unchecked shape | elements shape _ =>
      obtain ⟨rfl, _⟩ := Gathering.empty_yields.mp stood
      exact .empty shape
  | record shape =>
      obtain ⟨rfl, _⟩ := Run.yields_pure.mp stood
      exact .itself (by simp [gathering?, shape])
  | plain none single =>
      have made := (Run.yields_lift.mp stood).1
      have copy (shareable : heap.Shareable sample) (copied : heap.deepCopy sample = .ok value) :
          heap.StandsIn sample value := by
        rw [deepCopy_ok copied]
        exact .copied shareable
      unfold Primitive.standIn at made
      split at made
      next shape => exact copy (.inl (by rw [shape]; rfl)) made
      next shape => simp [gathering?, shape] at none
      next shape => exact copy (.inr (by rw [shape]; rfl)) made
      next shape => simp [gathering?, shape] at none
      next =>
        cases made
        exact .itself none

theorem deepCopy_always (copyable : heap.Copyable sample) (shareable : heap.Shareable sample) :
    (liftM (heap.deepCopy sample) : Run Value).Always (heap.StandsIn sample) := by
  have copied : heap.deepCopy sample = .ok sample.copied := by
    simp [deepCopy, copyable shareable]
  refine (Run.always_lift copied).mono ?_
  rintro _ rfl
  exact .copied shareable

theorem Typed.standIn_always {type : ValueType} (typed : heap.Typed sample type)
    (copyable : heap.Copyable sample) :
    (type.standIn heap sample).Always (heap.StandsIn sample) := by
  cases typed with
  | unchecked shape | elements shape _ =>
      intro before
      exact ⟨_, before, Gathering.empty_yields.mpr ⟨rfl, rfl⟩, .empty shape⟩
  | record shape => exact Run.always_pure (.itself (by simp [gathering?, shape]))
  | plain none single =>
      simp only [ValueType.standIn, Primitive.standIn]
      split
      next entries shape =>
        exact deepCopy_always copyable (.inl (by rw [shape]; rfl))
      next elements shape => simp [gathering?, shape] at none
      next elements shape =>
        exact deepCopy_always copyable (.inr (by rw [shape]; rfl))
      next elements shape => simp [gathering?, shape] at none
      next => exact Run.always_pure (.itself none)

end Heap

namespace Validation

variable {world : World} {config : Configuration} {path : String} {sample : Value} {limit : Nat}

/-- Where there are no elements an empty collection is what comes of it. -/
theorem parseTo_wrap_nil_yields {type : ValueType} {kind other : Gathering} {elements : List Value}
    {before : Trace} (typed : world.heap.Typed sample type)
    (shape : world.heap.gathering? sample = some (kind, elements)) :
    (parseTo world config (limit + 1) type path sample (other.wrap [])).Yields before
      (.ok (kind.wrap [])) before := by
  have listed : world.heap.iterate (other.wrap []) = .ok [] :=
    Heap.elements_of_gathering Heap.gathering_wrap
  have emptied : kind.collection.empty.Yields before (kind.wrap []) before :=
    Gathering.empty_yields.mpr ⟨rfl, rfl⟩
  have first : (kind.collection.first world.heap sample).Yields before elements.head? before :=
    (Heap.first_yields shape).mpr ⟨rfl, rfl⟩
  obtain ⟨rfl, rfl⟩ | ⟨_, _, _, rfl, rfl, _⟩ := typed.of_gathering shape
  all_goals
    refine emptied.bind.trans (first.bind.trans ?_)
    exact (Run.yields_of_ok listed).bind.trans rfl

theorem parseTo_wrap_nil {type : ValueType} {kind other : Gathering} {elements : List Value}
    (typed : world.heap.Typed sample type)
    (shape : world.heap.gathering? sample = some (kind, elements)) :
    (parseTo world config (limit + 1) type path sample (other.wrap [])).Always
      (· = .ok (kind.wrap [])) :=
  fun before => ⟨_, before, parseTo_wrap_nil_yields typed shape, rfl⟩

/-- What stands in for a sample that is no record fits it and is parsed to itself. -/
theorem takes_standIn {type : ValueType} {value : Value} (typed : world.heap.Typed sample type)
    (single : world.heap.isRecord sample = false) (whole : ∀ index, sample ≠ .copy index)
    (stands : world.heap.StandsIn sample value) :
    type.fit world.heap value sample = pure .toParse ∧ ∀ config limit path before,
      (parseTo world config (limit + 1) type path sample value).Yields before (.ok value) before := by
  have primitive (bare : world.heap.gathering? sample = none)
      (same : world.heap.look value = world.heap.look sample ∨
        world.heap.look value = (world.heap.look sample).copied) :
      type.fit world.heap value sample = pure .toParse ∧ ∀ config limit path before,
        (parseTo world config (limit + 1) type path sample value).Yields before (.ok value)
          before := by
    cases typed.unique (.plain bare single)
    have named : world.heap.shapeName sample = world.heap.shapeName value := by
      rw [Heap.shapeName, Heap.shapeName]
      rcases same with same | same <;> rw [same]
      cases world.heap.look sample <;> rfl
    have parsed : Primitive.parse world.heap sample value = value := by
      unfold Primitive.parse
      split
      next whole number shape other =>
        rw [shape] at same
        rcases same with same | same <;> cases other.symm.trans same
      next => rfl
    refine ⟨by simp only [ValueType.fit, Primitive.fit, named, if_true], fun _ _ _ before => ?_⟩
    rw [parseTo_primitive, parsed]
    exact Run.yields_pure.mpr ⟨rfl, rfl⟩
  cases stands with
  | itself bare => exact primitive bare (.inl rfl)
  | copied shareable => exact primitive shareable.bare (.inr (Heap.look_copied whole))
  | @empty kind _ shape =>
      refine ⟨?_, fun _ _ _ _ => parseTo_wrap_nil_yields typed shape⟩
      have fits : kind.collection.fit world.heap (kind.wrap []) = .toParse :=
        Collection.fit_eq_toParse.mpr (Heap.accepts_of_gathering Heap.gathering_wrap)
      obtain ⟨_, rfl⟩ | ⟨_, _, _, _, rfl, _⟩ := typed.of_gathering shape <;>
        simp only [ValueType.fit, fits]

end Validation

end Exemplar
