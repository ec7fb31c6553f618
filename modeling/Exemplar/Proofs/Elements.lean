import Exemplar.Proofs.Fields

/-!
What can become of the elements of a collection, and of a value that is parsed by its type. Elements
are counted by their position in the input; those that the policy leaves out are counted as well,
because bounds are checked before any element is looked at.
-/

namespace Exemplar

namespace Validation

variable {parse : Parse} {world : World} {heap : Heap} {config : Configuration}
  {collection : Collection} {path : String} {sample value : Value} {before after : Trace}

/-- The place of an element inside a collection. -/
def elementPath (path : String) (index : Nat) : String := s!"{path}[{index}]"

theorem elementPath_eq {index : Nat} :
    elementPath path index = path ++ "[" ++ toString index ++ "]" := rfl

/-- What becomes of the elements from a position on, added to what is gathered so far. The number
tells how many elements are left out on the way. -/
inductive Passes (parse : Parse) (heap : Heap) (config : Configuration) (collection : Collection)
    (element : ValueType) (sample : Value) (path : String) :
    Nat → Value → List Value → Trace → Outcome → Nat → Trace → Prop
  | done {index gathered trace} :
      Passes parse heap config collection element sample path index gathered [] trace
        (.ok gathered) 0 trace
  | refused {index gathered value rest before reason after} :
      (element.fit heap value sample).Yields before (.refused reason) after →
      Passes parse heap config collection element sample path index gathered (value :: rest) before
        (.error (.type (elementPath path index) reason)) 0 after
  | settled {index gathered value rest before fitted next added outcome dropped after} :
      (element.fit heap value sample).Yields before .settled fitted →
      (collection.insert heap gathered value).Yields fitted next added →
      Passes parse heap config collection element sample path (index + 1) next rest added
        outcome dropped after →
      Passes parse heap config collection element sample path index gathered (value :: rest) before
        outcome dropped after
  | parsed {index gathered value rest before fitted parsed read next added outcome dropped after} :
      (element.fit heap value sample).Yields before .toParse fitted →
      (parse element (elementPath path index) sample value).Yields fitted (.ok parsed) read →
      (collection.insert heap gathered parsed).Yields read next added →
      Passes parse heap config collection element sample path (index + 1) next rest added
        outcome dropped after →
      Passes parse heap config collection element sample path index gathered (value :: rest) before
        outcome dropped after
  | skipped {index gathered value rest before fitted fail read told outcome dropped after} :
      (element.fit heap value sample).Yields before .toParse fitted →
      (parse element (elementPath path index) sample value).Yields fitted (.error fail) read →
      config.lenient = true →
      (config.sink.report s!"skipping element {fail.path} - {fail.message}").Yields read () told →
      Passes parse heap config collection element sample path (index + 1) gathered rest told
        outcome dropped after →
      Passes parse heap config collection element sample path index gathered (value :: rest) before
        outcome (dropped + 1) after
  | failed {index gathered value rest before fitted fail after} :
      (element.fit heap value sample).Yields before .toParse fitted →
      (parse element (elementPath path index) sample value).Yields fitted (.error fail) after →
      config.lenient = false →
      Passes parse heap config collection element sample path index gathered (value :: rest) before
        (.error fail) 0 after

theorem passes_of_parseElements {element : ValueType} {index : Nat} {gathered : Value}
    {values : List Value} {outcome : Outcome}
    (ran : (parseElements parse heap config collection element sample path index gathered
      values).Yields before outcome after) :
    ∃ dropped, Passes parse heap config collection element sample path index gathered values before
      outcome dropped after := by
  induction values generalizing index gathered before with
  | nil =>
      simp only [parseElements, Run.yields_pure] at ran
      obtain ⟨rfl, rfl⟩ := ran
      exact ⟨0, .done⟩
  | cons value rest ih =>
      simp only [parseElements, Run.yields_bind] at ran
      obtain ⟨fit, fitted, compared, ran⟩ := ran
      cases fit with
      | refused reason =>
          simp only [Run.yields_pure] at ran
          obtain ⟨rfl, rfl⟩ := ran
          exact ⟨0, .refused compared⟩
      | settled =>
          simp only [Run.yields_bind] at ran
          obtain ⟨next, added, inserted, ran⟩ := ran
          obtain ⟨dropped, passes⟩ := ih ran
          exact ⟨dropped, .settled compared inserted passes⟩
      | toParse =>
          simp only [Run.yields_bind] at ran
          obtain ⟨result, read, parsed, ran⟩ := ran
          cases result with
          | ok parsedValue =>
              simp only [Run.yields_bind] at ran
              obtain ⟨next, added, inserted, ran⟩ := ran
              obtain ⟨dropped, passes⟩ := ih ran
              exact ⟨dropped, .parsed compared parsed inserted passes⟩
          | error fail =>
              dsimp only at ran
              split at ran
              next lenient =>
                simp only [Run.yields_bind] at ran
                obtain ⟨_, told, reported, ran⟩ := ran
                obtain ⟨dropped, passes⟩ := ih ran
                exact ⟨dropped + 1, .skipped compared parsed lenient reported passes⟩
              next strict =>
                simp only [Run.yields_pure] at ran
                obtain ⟨rfl, rfl⟩ := ran
                exact ⟨0, .failed compared parsed (by simpa using strict)⟩

/-- A strict configuration leaves no element out. -/
theorem Passes.dropped_eq_zero {element : ValueType} {index dropped : Nat} {gathered : Value}
    {values : List Value} {outcome : Outcome}
    (passes : Passes parse heap config collection element sample path index gathered values before
      outcome dropped after)
    (strict : config.lenient = false) : dropped = 0 := by
  induction passes with
  | done | refused _ | failed _ _ _ => rfl
  | settled _ _ _ ih | parsed _ _ _ _ ih => exact ih
  | skipped _ _ lenient => simp [strict] at lenient

/-- What becomes of a collection: without a representative its elements are taken as they are, with
one they are parsed by its type. The number tells how many elements are left out. -/
inductive Collects (parse : Parse) (world : World) (config : Configuration)
    (collection : Collection) (element : Option ValueType) (path : String) (sample value : Value)
    (before : Trace) : Outcome → Nat → Trace → Prop
  | unchecked {empty made looked values outcome after} :
      collection.empty.Yields before empty made →
      (collection.first world.heap sample).Yields made none looked →
      world.heap.iterate value = .ok values →
      (insertAll world.heap collection empty values).Yields looked outcome after →
      Collects parse world config collection element path sample value before outcome 0 after
  | passed {empty made representative looked type bound values outcome dropped after} :
      collection.empty.Yields before empty made →
      (collection.first world.heap sample).Yields made (some representative) looked →
      (match element with
        | some type => pure type
        | none => (world.catalogue config.catalogue).typeFor world.heap representative).Yields
          looked type bound →
      world.heap.iterate value = .ok values →
      Passes parse world.heap config collection type representative path 0 empty values bound
        outcome dropped after →
      Collects parse world config collection element path sample value before outcome dropped after

theorem collects_of_parseCollection {element : Option ValueType} {outcome : Outcome}
    (ran : (parseCollection parse world config collection element path sample value).Yields
      before outcome after) :
    ∃ dropped, Collects parse world config collection element path sample value before outcome
      dropped after := by
  simp only [parseCollection, Run.yields_bind] at ran
  obtain ⟨empty, made, emptied, first, looked, found, ran⟩ := ran
  cases first with
  | none =>
      simp only [Run.yields_bind, Run.yields_lift] at ran
      obtain ⟨values, _, ⟨listed, rfl⟩, ran⟩ := ran
      exact ⟨0, .unchecked emptied found listed ran⟩
  | some representative =>
      cases element with
      | none =>
          simp only [Run.yields_bind, Run.yields_lift] at ran
          obtain ⟨type, bound, resolved, values, _, ⟨listed, rfl⟩, ran⟩ := ran
          obtain ⟨dropped, passes⟩ := passes_of_parseElements ran
          exact ⟨dropped, .passed emptied found resolved listed passes⟩
      | some type =>
          simp only [pure_bind, Run.yields_bind, Run.yields_lift] at ran
          obtain ⟨values, _, ⟨listed, rfl⟩, ran⟩ := ran
          obtain ⟨dropped, passes⟩ := passes_of_parseElements ran
          exact ⟨dropped, .passed emptied found (by simp) listed passes⟩

section Parsing

variable [Fault.Telling] {limit : Nat} {outcome : Outcome}

theorem parseTo_record
    (ran : (parseTo world config limit .record path sample value).Yields before outcome after) :
    ∃ below, limit = below + 1 ∧
      (parseObject (parseTo world config below) world config path sample value).Yields
        before outcome after := by
  cases limit with
  | zero => simp [parseTo] at ran
  | succ below => exact ⟨below, rfl, ran⟩

theorem parseTo_unbound
    (ran : (parseTo world config limit (.unbound collection) path sample value).Yields
      before outcome after) :
    ∃ below dropped, limit = below + 1 ∧
      Collects (parseTo world config below) world config collection none path sample value
        before outcome dropped after := by
  cases limit with
  | zero => simp [parseTo] at ran
  | succ below =>
      obtain ⟨dropped, collects⟩ := collects_of_parseCollection ran
      exact ⟨below, dropped, rfl, collects⟩

theorem parseTo_bound {element : ValueType}
    (ran : (parseTo world config limit (.bound collection element) path sample value).Yields
      before outcome after) :
    ∃ below dropped, limit = below + 1 ∧
      Collects (parseTo world config below) world config collection (some element) path sample
        value before outcome dropped after := by
  cases limit with
  | zero => simp [parseTo] at ran
  | succ below =>
      obtain ⟨dropped, collects⟩ := collects_of_parseCollection ran
      exact ⟨below, dropped, rfl, collects⟩

@[simp] theorem parseTo_primitive {type : Primitive} :
    parseTo world config limit (.primitive type) path sample value =
      pure (.ok (Primitive.parse world.heap sample value)) := by
  cases limit <;> rfl

/-- A nested record is validated by the schema that its sample is a record of. -/
theorem parseObject_of_record {recordClass : RecordClass} {fields : List (String × Value)}
    (shape : world.heap.look sample = .record recordClass fields) :
    parseObject parse world config path sample value =
      validateWith parse world config (world.schema recordClass.number) path value := by
  simp [parseObject, shape]

end Parsing

end Validation

end Exemplar
