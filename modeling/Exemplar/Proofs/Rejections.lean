import Exemplar.Proofs.Laws

/-!
Failures of validation that are raised, and not answered with. Not to raise any is a law of
computations. On the way validation raises other faults only, and passes on what is raised by the
operations of types and by the hooks that no field guards.
-/

namespace Exemplar

namespace Run

variable {α β : Type} {action : Run α} {next : α → Run β}

/-- The computation raises no failure of validation. -/
def Unrejecting (action : Run α) : Prop :=
  ∀ before fail after, ¬ action.Breaks before (.rejected fail) after

def unrejecting : Law where
  Holds := Unrejecting
  pure _ _ _ := breaks_pure
  throw other _ fail _ broke := other fail (breaks_throw.mp broke).1.symm
  bind first rest before fail after broke := by
    rcases breaks_bind.mp broke with broke | ⟨value, middle, ran, broke⟩
    · exact first _ _ _ broke
    · exact rest ran _ _ _ broke

end Run

/-- Neither the operations of registered types raise failures of validation, nor the hooks for new
records and for warnings. -/
structure World.Unrejecting (world : World) (config : Configuration) : Prop where
  types : ∀ id, ∀ type ∈ world.catalogue id, type.Obeys Run.unrejecting
  finisher : ∀ record, (config.finisher.finish world.heap record).Unrejecting
  sink : ∀ text, (config.sink.report text).Unrejecting

namespace Validation

variable {world : World} {config : Configuration} {limit : Nat} {type : ValueType} {path : String}
  {sample value : Value} {before after : Trace} {fault : Fault} {fail : Failure}

section Parsing

variable {collection : Collection} {element : Option ValueType} (calm : world.Unrejecting config)
  (kind : type.Obeys Run.unrejecting) (gathers : OfCollection type collection element)

include calm kind gathers

theorem unrejecting_elementType : (elementType world config element sample).Unrejecting := by
  cases gathers with
  | unbound => exact Catalogue.obeys_typeFor (calm.types _)
  | bound => exact Run.unrejecting.pure

theorem ComesTo.unrejecting {parse : Parse} {inner : ValueType} {position : Nat}
    {representative gathered item : Value} {rest : List Value} {reached : Trace}
    (comes : ComesTo parse world config collection element path sample value before inner
      representative position gathered item rest reached) : inner.Obeys Run.unrejecting := by
  cases comes with
  | intro _ _ typed _ _ =>
      cases gathers with
      | unbound =>
          obtain ⟨found, member, binds⟩ := Catalogue.binds_of_typeFor typed
          exact binds.obeys (calm.types _) (calm.types _ found member)
      | bound =>
          obtain ⟨rfl, _⟩ := Run.yields_pure.mp typed
          cases kind with
          | bound _ own => exact own

theorem OpeningRaises.ne_rejected
    (raises : OpeningRaises world config collection element sample value before fault after) :
    fault ≠ .rejected fail := by
  have own := kind.own gathers
  rintro rfl
  cases raises with
  | empty broke => exact own.empty _ _ _ broke
  | first _ broke => exact own.first _ _ _ _ _ broke
  | listUnchecked _ _ failed | list _ _ _ failed => exact Heap.iterate_ne_rejected _ failed
  | insertUnchecked _ _ _ broke => exact obeys_insertAll own _ _ _ broke
  | resolve _ _ broke => exact unrejecting_elementType calm kind gathers _ _ _ broke

end Parsing

/-- Fields let nothing through, so of records only the hook for new ones raises what gets past them,
and of elements only the operations of their collection and the hook for warnings. -/
theorem ParseRaises.ne_rejected (calm : world.Unrejecting config)
    (kind : type.Obeys Run.unrejecting)
    (raises : ParseRaises world config limit type path sample value before fault after) :
    fault ≠ .rejected fail := by
  induction raises with
  | custom broke =>
      rintro rfl
      cases kind with
      | custom own => exact own.parse _ _ _ _ _ _ _ _ broke
  | bigInteger failed =>
      rintro rfl
      exact BigInteger.parse_ne_rejected _ failed
  | tooDeep _ | noSchema _ _ => nofun
  | object _ broke =>
      rintro rfl
      cases broke with
      | uncompiled _ undeclared => exact Schema.demandCompiled_ne_rejected _ undeclared
      | field _ _ _ _ broke => exact guardField_breaks broke
      | finish _ _ _ broke => exact calm.finisher _ _ _ _ broke
  | opening gathers raises => exact raises.ne_rejected calm kind gathers
  | item gathers comes raises =>
      have own := kind.own gathers
      have inner := comes.unrejecting calm kind gathers
      rintro rfl
      cases raises with
      | fit broke => exact inner.fit _ _ _ broke
      | insertSettled _ broke | insertParsed _ _ broke => exact own.insert _ _ _ _ _ _ broke
      | report _ _ _ broke => exact calm.sink _ _ _ _ broke
  | inside gathers comes _ _ ih => exact ih (comes.unrejecting calm kind gathers)

end Validation

end Exemplar
