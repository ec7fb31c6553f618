import Exemplar.Proofs.Elements

/-!
Where faults come from. While a field is processed, hooks, checks and operations of types may raise
faults; nothing holds them up on their way out of the field, except that a nested object keeps those
of its own fields to itself. The relations below list every operation that can raise, with all that
went before it, and the theorems about them say that the lists are complete.
-/

namespace Exemplar

namespace Validation

variable {parse : Parse} {world : World} {config : Configuration} {before after : Trace}

section Objects

variable {schema : Schema} {location : String} {data : Value}

def IsRecordOf (world : World) (schema : Schema) (data : Value) : Prop :=
  ∃ recordClass fields, world.heap.look data = .record recordClass fields ∧
    recordClass.extends schema.recordClass = true

/-- What can break down while an object is validated: there is nothing to validate it against, what
broke one of its fields cannot be told, or the hook that finishes the new record raises. -/
inductive ObjectRaises [Fault.Telling] (parse : Parse) (world : World) (config : Configuration)
    (schema : Schema) (location : String) (data : Value) (before : Trace) : Fault → Trace → Prop
  | uncompiled {fault} : ¬ IsRecordOf world schema data → schema.demandCompiled = .error fault →
      ObjectRaises parse world config schema location data before fault before
  | field {compiled entries done field rest filled middle fault after} :
      schema.compiled = some compiled → world.heap.look data = .mapping entries →
      compiled.fields = done ++ field :: rest →
      (settleFields parse world config location entries done []).Yields before (.ok filled)
        middle →
      (guardField parse world config field (fieldPath location field.name) entries).Breaks middle
        fault after →
      ObjectRaises parse world config schema location data before fault after
  | finish {compiled entries fields middle fault after} : schema.compiled = some compiled →
      world.heap.look data = .mapping entries →
      (settleFields parse world config location entries compiled.fields []).Yields before
        (.ok fields) middle →
      (config.finisher.finish world.heap (.record schema.recordClass fields)).Breaks middle fault
        after →
      ObjectRaises parse world config schema location data before fault after

theorem not_isRecordOf_of_look {shape : Value} (look : world.heap.look data = shape)
    (other : ∀ recordClass fields, shape ≠ .record recordClass fields) :
    ¬ IsRecordOf world schema data := by
  intro found
  obtain ⟨recordClass, fields, record, _⟩ := found
  exact other recordClass fields (look.symm.trans record)

theorem validateWith_breaks [Fault.Telling] {fault : Fault} :
    (validateWith parse world config schema location data).Breaks before fault after ↔
      ObjectRaises parse world config schema location data before fault after := by
  constructor
  · intro broke
    simp only [validateWith] at broke
    split at broke
    next recordClass fields shape =>
      split at broke
      next => simp at broke
      next apart =>
        simp only [Run.breaks_bind, Run.breaks_lift, Run.breaks_pure, and_false, exists_false,
          or_false] at broke
        obtain ⟨undeclared, rfl⟩ := broke
        refine .uncompiled ?_ undeclared
        intro found
        obtain ⟨other, _, same, below⟩ := found
        cases shape.symm.trans same
        exact apart below
    next entries shape =>
      simp only [Run.breaks_bind, Run.breaks_lift, Run.yields_lift, demandCompiled_ok] at broke
      rcases broke with ⟨undeclared, rfl⟩ | ⟨compiled, _, ⟨known, rfl⟩, broke⟩
      · exact .uncompiled (not_isRecordOf_of_look shape (by simp)) undeclared
      · rcases broke with broke | ⟨result, middle, settled, broke⟩
        · obtain ⟨done, field, rest, filled, middle, order, settled, broke⟩ :=
            settleFields_breaks_iff.mp broke
          exact .field known shape order settled broke
        · cases result with
          | error fail => simp at broke
          | ok fields =>
              simp only [Run.breaks_bind, Run.breaks_pure, and_false, exists_false, or_false]
                at broke
              exact .finish known shape settled broke
    next noRecord noMapping =>
      simp only [Run.breaks_bind, Run.breaks_lift, Run.breaks_pure, and_false, exists_false,
        or_false] at broke
      obtain ⟨undeclared, rfl⟩ := broke
      exact .uncompiled (not_isRecordOf_of_look rfl noRecord) undeclared
  · intro raises
    cases raises with
    | uncompiled foreign undeclared =>
        have broke : (liftM schema.demandCompiled : Run Compiled).Breaks before fault before :=
          Run.breaks_of_error undeclared
        simp only [validateWith]
        split
        next recordClass fields shape =>
          split
          next below => exact absurd ⟨recordClass, fields, shape, below⟩ foreign
          next => exact broke.bind
        next => exact broke.bind
        next => exact broke.bind
    | @field compiled entries done field rest filled middle _ _ known mapping order settled broke =>
        have untold : (settleFields parse world config location entries compiled.fields []).Breaks
            before fault after :=
          settleFields_breaks_iff.mpr ⟨done, field, rest, filled, middle, order, settled, broke⟩
        simp only [validateWith, mapping, Run.breaks_bind, Run.yields_lift, demandCompiled_ok]
        exact .inr ⟨compiled, before, ⟨known, rfl⟩, .inl untold⟩
    | @finish compiled entries fields middle _ _ known mapping settled broke =>
        simp only [validateWith, mapping, Run.breaks_bind, Run.yields_lift, demandCompiled_ok]
        exact .inr ⟨compiled, before, ⟨known, rfl⟩,
          .inr ⟨.ok fields, middle, settled, Run.breaks_bind.mpr (.inl broke)⟩⟩

end Objects

section Elements

variable {heap : Heap} {collection : Collection} {element : ValueType} {sample item : Value}
  {path place : String} {index : Nat} {gathered : Value} {fault : Fault}

/-- What an element makes of a collection. -/
def parseItem (parse : Parse) (heap : Heap) (config : Configuration) (collection : Collection)
    (element : ValueType) (sample : Value) (place : String) (gathered item : Value) :
    Run Outcome := do
  match ← element.fit heap item sample with
  | .refused reason => return .error (.type place reason)
  | .settled => return .ok (← collection.insert heap gathered item)
  | .toParse =>
      match ← parse element place sample item with
      | .ok parsed => return .ok (← collection.insert heap gathered parsed)
      | .error fail =>
          if config.lenient then do
            config.sink.report s!"skipping element {fail.path} - {fail.message}"
            return .ok gathered
          else return .error fail

theorem parseElements_cons {rest : List Value} :
    parseElements parse heap config collection element sample path index gathered (item :: rest) =
      (do
        match ← parseItem parse heap config collection element sample (elementPath path index)
          gathered item with
        | .ok next =>
            parseElements parse heap config collection element sample path (index + 1) next rest
        | .error fail => return .error fail) := by
  simp only [parseElements, parseItem, bind_assoc]
  congr 1
  funext fit
  cases fit with
  | refused reason => rfl
  | settled => simp
  | toParse =>
      simp only [bind_assoc]
      congr 1
      funext result
      cases result with
      | ok parsed => simp
      | error fail =>
          by_cases lenient : config.lenient = true
          · simp [lenient]
          · simp [lenient]

/-- What can break down at an element, outside of its parsing. -/
inductive ItemRaises (parse : Parse) (heap : Heap) (config : Configuration)
    (collection : Collection) (element : ValueType) (sample : Value) (place : String)
    (gathered item : Value) (before : Trace) : Fault → Trace → Prop
  | fit {raised last} : (element.fit heap item sample).Breaks before raised last →
      ItemRaises parse heap config collection element sample place gathered item before raised last
  | insertSettled {fitted fault after} :
      (element.fit heap item sample).Yields before .settled fitted →
      (collection.insert heap gathered item).Breaks fitted fault after →
      ItemRaises parse heap config collection element sample place gathered item before fault after
  | insertParsed {fitted parsed read fault after} :
      (element.fit heap item sample).Yields before .toParse fitted →
      (parse element place sample item).Yields fitted (.ok parsed) read →
      (collection.insert heap gathered parsed).Breaks read fault after →
      ItemRaises parse heap config collection element sample place gathered item before fault after
  | report {fitted fail read fault after} :
      (element.fit heap item sample).Yields before .toParse fitted →
      (parse element place sample item).Yields fitted (.error fail) read →
      config.lenient = true →
      (config.sink.report s!"skipping element {fail.path} - {fail.message}").Breaks read fault
        after →
      ItemRaises parse heap config collection element sample place gathered item before fault after

theorem parseItem_breaks :
    (parseItem parse heap config collection element sample place gathered item).Breaks before fault
      after ↔
    ItemRaises parse heap config collection element sample place gathered item before fault after ∨
      ∃ fitted, (element.fit heap item sample).Yields before .toParse fitted ∧
        (parse element place sample item).Breaks fitted fault after := by
  constructor
  · intro broke
    simp only [parseItem, Run.breaks_bind] at broke
    rcases broke with broke | ⟨fit, fitted, compared, broke⟩
    · exact .inl (.fit broke)
    · cases fit with
      | refused reason => simp at broke
      | settled =>
          simp only [Run.breaks_bind, Run.breaks_pure, and_false, exists_false, or_false] at broke
          exact .inl (.insertSettled compared broke)
      | toParse =>
          simp only [Run.breaks_bind] at broke
          rcases broke with broke | ⟨result, read, parsed, broke⟩
          · exact .inr ⟨fitted, compared, broke⟩
          · cases result with
            | ok value =>
                simp only [Run.breaks_bind, Run.breaks_pure, and_false, exists_false, or_false]
                  at broke
                exact .inl (.insertParsed compared parsed broke)
            | error fail =>
                dsimp only at broke
                split at broke
                next lenient =>
                  simp only [Run.breaks_bind, Run.breaks_pure, and_false, exists_false, or_false]
                    at broke
                  exact .inl (.report compared parsed lenient broke)
                next => simp at broke
  · intro either
    rcases either with raises | ⟨fitted, compared, broke⟩
    · cases raises with
      | fit broke => exact broke.bind
      | insertSettled compared broke => exact compared.bind.trans broke.bind
      | insertParsed compared parsed broke =>
          exact compared.bind.trans (parsed.bind.trans broke.bind)
      | report compared parsed lenient broke =>
          refine compared.bind.trans (parsed.bind.trans ?_)
          dsimp only
          rw [if_pos lenient]
          exact broke.bind
    · exact compared.bind.trans broke.bind

section Failing

variable {fitted read : Trace} {fail : Failure}

theorem parseItem_skips (compared : (element.fit heap item sample).Yields before .toParse fitted)
    (failed : (parse element place sample item).Yields fitted (.error fail) read)
    (lenient : config.lenient = true)
    (reported : (config.sink.report s!"skipping element {fail.path} - {fail.message}").Yields read
      () after) :
    (parseItem parse heap config collection element sample place gathered item).Yields before
      (.ok gathered) after := by
  refine compared.bind.trans (failed.bind.trans ?_)
  dsimp only
  rw [if_pos lenient]
  exact reported.bind.trans rfl

theorem parseItem_fails (compared : (element.fit heap item sample).Yields before .toParse fitted)
    (failed : (parse element place sample item).Yields fitted (.error fail) after)
    (strict : config.lenient = false) :
    (parseItem parse heap config collection element sample place gathered item).Yields before
      (.error fail) after := by
  refine compared.bind.trans (failed.bind.trans ?_)
  dsimp only
  rw [if_neg (by simp [strict])]
  rfl

/-- An element fails the collection if it does not fit, and under a strict configuration if it does
not parse. -/
theorem parseItem_fails_iff :
    (parseItem parse heap config collection element sample place gathered item).Yields before
        (.error fail) after ↔
      (∃ reason, (element.fit heap item sample).Yields before (.refused reason) after ∧
        fail = .type place reason) ∨
      ∃ fitted, (element.fit heap item sample).Yields before .toParse fitted ∧
        (parse element place sample item).Yields fitted (.error fail) after ∧
        config.lenient = false := by
  constructor
  · intro failed
    simp only [parseItem, Run.yields_bind] at failed
    obtain ⟨fit, fitted, compared, failed⟩ := failed
    cases fit with
    | refused reason =>
        obtain ⟨same, rfl⟩ := Run.yields_pure.mp failed
        cases same
        exact .inl ⟨reason, compared, rfl⟩
    | settled => simp at failed
    | toParse =>
        simp only [Run.yields_bind] at failed
        obtain ⟨result, read, parsed, failed⟩ := failed
        cases result with
        | ok value => simp at failed
        | error own =>
            dsimp only at failed
            split at failed
            next => simp at failed
            next strict =>
              obtain ⟨same, rfl⟩ := Run.yields_pure.mp failed
              cases same
              exact .inr ⟨fitted, compared, parsed, by simpa using strict⟩
  · rintro (⟨reason, refused, rfl⟩ | ⟨fitted, compared, failed, strict⟩)
    · exact refused.bind.trans rfl
    · exact parseItem_fails compared failed strict

end Failing

theorem parseElements_append {done rest : List Value} {next : Value} {reached : Trace}
    (ran : (parseElements parse heap config collection element sample path index gathered
      done).Yields before (.ok next) reached) :
    (parseElements parse heap config collection element sample path index gathered
      (done ++ rest)).run.run before =
    (parseElements parse heap config collection element sample path (index + done.length) next
      rest).run.run reached := by
  induction done generalizing index gathered before with
  | nil =>
      obtain ⟨same, rfl⟩ := Run.yields_pure.mp ran
      cases same
      rfl
  | cons item done ih =>
      rw [List.cons_append, parseElements_cons, List.length_cons,
        show index + (done.length + 1) = index + 1 + done.length by omega]
      simp only [parseElements_cons, Run.yields_bind] at ran
      obtain ⟨result, last, made, ran⟩ := ran
      refine made.bind.trans ?_
      cases result with
      | ok grown => exact ih ran
      | error fail => simp at ran

theorem parseElements_breaks {values : List Value} :
    (parseElements parse heap config collection element sample path index gathered values).Breaks
      before fault after ↔
    ∃ done item rest next reached, values = done ++ item :: rest ∧
      (parseElements parse heap config collection element sample path index gathered done).Yields
        before (.ok next) reached ∧
      (parseItem parse heap config collection element sample
        (elementPath path (index + done.length)) next item).Breaks reached fault after := by
  constructor
  · intro broke
    induction values generalizing index gathered before with
    | nil => simp [parseElements] at broke
    | cons item rest ih =>
        simp only [parseElements_cons, Run.breaks_bind] at broke
        rcases broke with broke | ⟨result, last, made, broke⟩
        · exact ⟨[], item, rest, gathered, before, rfl, Run.yields_pure.mpr ⟨rfl, rfl⟩, broke⟩
        · cases result with
          | error fail => simp at broke
          | ok grown =>
              obtain ⟨done, other, rest, next, reached, rfl, gone, broke⟩ := ih broke
              refine ⟨item :: done, other, rest, next, reached, rfl, ?_, ?_⟩
              · rw [parseElements_cons]
                exact made.bind.trans gone
              · rwa [List.length_cons,
                  show index + (done.length + 1) = index + 1 + done.length by omega]
  · intro found
    obtain ⟨done, item, rest, next, reached, rfl, gone, broke⟩ := found
    rw [Run.Breaks, parseElements_append gone, parseElements_cons]
    exact broke.bind

/-- Elements fail where one of them does, after all before it have gone well. -/
theorem parseElements_fails {values : List Value} {fail : Failure} :
    (parseElements parse heap config collection element sample path index gathered values).Yields
      before (.error fail) after ↔
    ∃ done item rest next reached, values = done ++ item :: rest ∧
      (parseElements parse heap config collection element sample path index gathered done).Yields
        before (.ok next) reached ∧
      (parseItem parse heap config collection element sample
        (elementPath path (index + done.length)) next item).Yields reached (.error fail) after := by
  constructor
  · intro failed
    induction values generalizing index gathered before with
    | nil => simp [parseElements] at failed
    | cons item rest ih =>
        simp only [parseElements_cons, Run.yields_bind] at failed
        obtain ⟨result, last, made, failed⟩ := failed
        cases result with
        | error other =>
            obtain ⟨same, rfl⟩ := Run.yields_pure.mp failed
            cases same
            exact ⟨[], item, rest, gathered, before, rfl, Run.yields_pure.mpr ⟨rfl, rfl⟩, made⟩
        | ok grown =>
            obtain ⟨done, other, rest, next, reached, rfl, gone, failed⟩ := ih failed
            refine ⟨item :: done, other, rest, next, reached, rfl, ?_, ?_⟩
            · rw [parseElements_cons]
              exact made.bind.trans gone
            · rwa [List.length_cons,
                show index + (done.length + 1) = index + 1 + done.length by omega]
  · intro found
    obtain ⟨done, item, rest, next, reached, rfl, gone, failed⟩ := found
    rw [Run.Yields, parseElements_append gone, parseElements_cons]
    exact failed.bind

theorem insertAll_succeeds {values : List Value} {outcome : Outcome}
    (ran : (insertAll heap collection gathered values).Yields before outcome after) :
    ∃ result, outcome = .ok result := by
  induction values generalizing gathered before with
  | nil =>
      obtain ⟨rfl, rfl⟩ := Run.yields_pure.mp ran
      exact ⟨gathered, rfl⟩
  | cons value rest ih =>
      simp only [insertAll, Run.yields_bind] at ran
      obtain ⟨next, middle, _, ran⟩ := ran
      exact ih ran

end Elements

section Collections

variable {collection : Collection} {element : Option ValueType} {path : String}
  {sample value : Value} {fault : Fault}

/-- The type that elements are parsed by: the one the collection is bound to, or what the catalogue
of the run has for the element that stands for all. -/
def elementType (world : World) (config : Configuration) (element : Option ValueType)
    (representative : Value) : Run ValueType :=
  match element with
  | some type => pure type
  | none => (world.catalogue config.catalogue).typeFor world.heap representative

theorem parseCollection_eq :
    parseCollection parse world config collection element path sample value = (do
      let empty ← collection.empty
      match ← collection.first world.heap sample with
      | none =>
          let values ← world.heap.iterate value
          insertAll world.heap collection empty values
      | some representative =>
          let type ← elementType world config element representative
          let values ← world.heap.iterate value
          parseElements parse world.heap config collection type representative path 0 empty
            values) := by
  cases element <;> rfl

/-- What can break down before a collection comes to parse an element. -/
inductive OpeningRaises (world : World) (config : Configuration) (collection : Collection)
    (element : Option ValueType) (sample value : Value) (before : Trace) : Fault → Trace → Prop
  | empty {raised last} : collection.empty.Breaks before raised last →
      OpeningRaises world config collection element sample value before raised last
  | first {empty made raised last} : collection.empty.Yields before empty made →
      (collection.first world.heap sample).Breaks made raised last →
      OpeningRaises world config collection element sample value before raised last
  | listUnchecked {empty made raised last} : collection.empty.Yields before empty made →
      (collection.first world.heap sample).Yields made none last →
      world.heap.iterate value = .error raised →
      OpeningRaises world config collection element sample value before raised last
  | insertUnchecked {empty made looked values raised last} :
      collection.empty.Yields before empty made →
      (collection.first world.heap sample).Yields made none looked →
      world.heap.iterate value = .ok values →
      (insertAll world.heap collection empty values).Breaks looked raised last →
      OpeningRaises world config collection element sample value before raised last
  | resolve {empty made representative looked raised last} :
      collection.empty.Yields before empty made →
      (collection.first world.heap sample).Yields made (some representative) looked →
      (elementType world config element representative).Breaks looked raised last →
      OpeningRaises world config collection element sample value before raised last
  | list {empty made representative looked type raised last} :
      collection.empty.Yields before empty made →
      (collection.first world.heap sample).Yields made (some representative) looked →
      (elementType world config element representative).Yields looked type last →
      world.heap.iterate value = .error raised →
      OpeningRaises world config collection element sample value before raised last

/-- A collection comes to an element, to be parsed by a type for a sample: its position, what is
gathered before it, and what is left after it. -/
inductive ComesTo (parse : Parse) (world : World) (config : Configuration)
    (collection : Collection) (element : Option ValueType) (path : String) (sample value : Value)
    (before : Trace) : ValueType → Value → Nat → Value → Value → List Value → Trace → Prop
  | intro {empty made representative looked type bound done item rest gathered reached} :
      collection.empty.Yields before empty made →
      (collection.first world.heap sample).Yields made (some representative) looked →
      (elementType world config element representative).Yields looked type bound →
      world.heap.iterate value = .ok (done ++ item :: rest) →
      (parseElements parse world.heap config collection type representative path 0 empty
        done).Yields bound (.ok gathered) reached →
      ComesTo parse world config collection element path sample value before type representative
        done.length gathered item rest reached

variable {type : ValueType} {representative gathered item : Value} {index : Nat} {rest : List Value}
  {reached : Trace}

theorem ComesTo.run_eq
    (comes : ComesTo parse world config collection element path sample value before type
      representative index gathered item rest reached) :
    (parseCollection parse world config collection element path sample value).run.run before =
      (do
        match ← parseItem parse world.heap config collection type representative
          (elementPath path index) gathered item with
        | .ok next =>
            parseElements parse world.heap config collection type representative path (index + 1)
              next rest
        | .error fail => return .error fail : Run Outcome).run.run reached := by
  obtain ⟨emptied, first, bound, listed, gone⟩ := comes
  rw [parseCollection_eq, ← parseElements_cons]
  refine emptied.bind.trans (first.bind.trans (bound.bind.trans
    ((Run.yields_of_ok listed).bind.trans ?_)))
  simpa only [Nat.zero_add] using parseElements_append gone

theorem parseCollection_breaks :
    (parseCollection parse world config collection element path sample value).Breaks before fault
      after ↔
    OpeningRaises world config collection element sample value before fault after ∨
      ∃ type representative index gathered item rest reached,
        ComesTo parse world config collection element path sample value before type representative
          index gathered item rest reached ∧
        (parseItem parse world.heap config collection type representative (elementPath path index)
          gathered item).Breaks reached fault after := by
  constructor
  · intro broke
    simp only [parseCollection_eq, Run.breaks_bind] at broke
    rcases broke with broke | ⟨empty, made, emptied, broke | ⟨first, looked, found, broke⟩⟩
    · exact .inl (.empty broke)
    · exact .inl (.first emptied broke)
    · cases first with
      | none =>
          simp only [Run.breaks_bind, Run.breaks_lift, Run.yields_lift] at broke
          rcases broke with ⟨unlisted, rfl⟩ | ⟨values, _, ⟨listed, rfl⟩, broke⟩
          · exact .inl (.listUnchecked emptied found unlisted)
          · exact .inl (.insertUnchecked emptied found listed broke)
      | some representative =>
          simp only [Run.breaks_bind, Run.breaks_lift, Run.yields_lift] at broke
          rcases broke with broke | ⟨type, bound, resolved,
            ⟨unlisted, rfl⟩ | ⟨values, _, ⟨listed, rfl⟩, broke⟩⟩
          · exact .inl (.resolve emptied found broke)
          · exact .inl (.list emptied found resolved unlisted)
          · obtain ⟨done, item, rest, gathered, reached, rfl, gone, broke⟩ :=
              parseElements_breaks.mp broke
            rw [Nat.zero_add] at broke
            exact .inr ⟨type, representative, done.length, gathered, item, rest, reached,
              .intro emptied found resolved listed gone, broke⟩
  · intro either
    rcases either with raises | ⟨_, _, _, _, _, _, _, comes, broke⟩
    · rw [parseCollection_eq]
      cases raises with
      | empty broke => exact broke.bind
      | first emptied broke => exact emptied.bind.trans broke.bind
      | listUnchecked emptied found unlisted =>
          exact emptied.bind.trans (found.bind.trans (Run.breaks_of_error unlisted).bind)
      | insertUnchecked emptied found listed broke =>
          exact emptied.bind.trans (found.bind.trans ((Run.yields_of_ok listed).bind.trans broke))
      | resolve emptied found broke => exact emptied.bind.trans (found.bind.trans broke.bind)
      | list emptied found resolved unlisted =>
          exact emptied.bind.trans
            (found.bind.trans (resolved.bind.trans (Run.breaks_of_error unlisted).bind))
    · rw [Run.Breaks, comes.run_eq]
      exact broke.bind

/-- A collection fails where it comes to an element that fails. -/
theorem parseCollection_fails {fail : Failure} :
    (parseCollection parse world config collection element path sample value).Yields before
      (.error fail) after ↔
    ∃ type representative index gathered item rest reached,
      ComesTo parse world config collection element path sample value before type representative
        index gathered item rest reached ∧
      (parseItem parse world.heap config collection type representative (elementPath path index)
        gathered item).Yields reached (.error fail) after := by
  constructor
  · intro failed
    simp only [parseCollection_eq, Run.yields_bind] at failed
    obtain ⟨empty, made, emptied, first, looked, found, failed⟩ := failed
    cases first with
    | none =>
        simp only [Run.yields_bind] at failed
        obtain ⟨values, listed, _, inserted⟩ := failed
        obtain ⟨result, same⟩ := insertAll_succeeds inserted
        cases same
    | some representative =>
        simp only [Run.yields_bind, Run.yields_lift] at failed
        obtain ⟨type, bound, resolved, values, _, ⟨listed, rfl⟩, failed⟩ := failed
        obtain ⟨done, item, rest, gathered, reached, rfl, gone, failed⟩ :=
          parseElements_fails.mp failed
        rw [Nat.zero_add] at failed
        exact ⟨type, representative, done.length, gathered, item, rest, reached,
          .intro emptied found resolved listed gone, failed⟩
  · intro found
    obtain ⟨_, _, _, _, _, _, _, comes, failed⟩ := found
    rw [Run.Yields, comes.run_eq]
    exact failed.bind

end Collections

section Parsing

/-- The type is that of a collection, with the type of its elements if it is bound. -/
inductive OfCollection : ValueType → Collection → Option ValueType → Prop
  | unbound {collection} : OfCollection (.unbound collection) collection none
  | bound {collection element} : OfCollection (.bound collection element) collection (some element)

/-- Parsing by the type goes a level down. -/
def Nests : ValueType → Prop
  | .record | .unbound _ | .bound .. => True
  | _ => False

variable [Fault.Telling]

/-- What can break down while a value is parsed, to any depth of collections inside collections; of
the fields of nested objects, only what cannot be told. -/
inductive ParseRaises (world : World) (config : Configuration) :
    Nat → ValueType → String → Value → Value → Trace → Fault → Trace → Prop
  | custom {limit custom path sample value before raised last} :
      (custom.parse config world.heap path sample value).Breaks before raised last →
      ParseRaises world config limit (.custom custom) path sample value before raised last
  | bigInteger {limit path sample value before raised} :
      BigInteger.parse world.heap path value = .error raised →
      ParseRaises world config limit .bigInteger path sample value before raised before
  | tooDeep {type path sample value before} : Nests type →
      ParseRaises world config 0 type path sample value before .tooDeep before
  | object {limit path sample value before recordClass fields raised last} :
      world.heap.look sample = .record recordClass fields →
      ObjectRaises (parseTo world config limit) world config (world.schema recordClass.number) path
        value before raised last →
      ParseRaises world config (limit + 1) .record path sample value before raised last
  | noSchema {limit path sample value before} :
      (∀ recordClass fields, world.heap.look sample ≠ .record recordClass fields) →
      (world.heap.look value).isInstanceOf (world.heap.look sample) = false →
      ParseRaises world config (limit + 1) .record path sample value before
        (.notCompiled (Text.quoted (world.heap.look sample).className)) before
  | opening {limit type collection element path sample value before raised last} :
      OfCollection type collection element →
      OpeningRaises world config collection element sample value before raised last →
      ParseRaises world config (limit + 1) type path sample value before raised last
  | item {limit type collection element path sample value before inner representative index
      gathered item rest reached raised last} :
      OfCollection type collection element →
      ComesTo (parseTo world config limit) world config collection element path sample value before
        inner representative index gathered item rest reached →
      ItemRaises (parseTo world config limit) world.heap config collection inner representative
        (elementPath path index) gathered item reached raised last →
      ParseRaises world config (limit + 1) type path sample value before raised last
  | inside {limit type collection element path sample value before inner representative index
      gathered item rest reached fitted raised last} :
      OfCollection type collection element →
      ComesTo (parseTo world config limit) world config collection element path sample value before
        inner representative index gathered item rest reached →
      (inner.fit world.heap item representative).Yields reached .toParse fitted →
      ParseRaises world config limit inner (elementPath path index) representative item fitted
        raised last →
      ParseRaises world config (limit + 1) type path sample value before raised last

variable {limit : Nat} {type : ValueType} {path : String} {sample value : Value} {fault : Fault}

theorem OfCollection.parseTo_eq {collection : Collection} {element : Option ValueType}
    (gathers : OfCollection type collection element) :
    parseTo world config (limit + 1) type path sample value =
      parseCollection (parseTo world config limit) world config collection element path sample
        value := by
  cases gathers <;> rfl

theorem collects_of_parseTo {collection : Collection} {element : Option ValueType}
    {outcome : Outcome} (gathers : OfCollection type collection element)
    (ran : (parseTo world config limit type path sample value).Yields before outcome after) :
    ∃ below dropped, limit = below + 1 ∧ Collects (parseTo world config below) world config
      collection element path sample value before outcome dropped after := by
  cases gathers with
  | unbound => exact parseTo_unbound ran
  | bound => exact parseTo_bound ran

theorem parseObject_of_no_record
    (other : ∀ recordClass fields, world.heap.look sample ≠ .record recordClass fields) :
    parseObject parse world config path sample value =
      if (world.heap.look value).isInstanceOf (world.heap.look sample) then pure (.ok value)
      else throw (.notCompiled (Text.quoted (world.heap.look sample).className)) := by
  unfold parseObject
  split
  next recordClass fields shape => exact absurd shape (other recordClass fields)
  next => rfl

theorem raises_of_object
    (broke : (parseObject (parseTo world config limit) world config path sample value).Breaks
      before fault after) :
    ParseRaises world config (limit + 1) .record path sample value before fault after := by
  by_cases record : ∃ recordClass fields, world.heap.look sample = .record recordClass fields
  · obtain ⟨recordClass, fields, shape⟩ := record
    rw [parseObject_of_record shape, validateWith_breaks] at broke
    exact .object shape broke
  · have other : ∀ recordClass fields, world.heap.look sample ≠ .record recordClass fields :=
      fun recordClass fields shape => record ⟨recordClass, fields, shape⟩
    rw [parseObject_of_no_record other] at broke
    split at broke
    next => simp at broke
    next foreign =>
      obtain ⟨rfl, rfl⟩ := Run.breaks_throw.mp broke
      exact .noSchema other (by simpa using foreign)

theorem raises_of_collection {collection : Collection} {element : Option ValueType}
    (kind : OfCollection type collection element)
    (inner : ∀ {type path sample value before},
      (parseTo world config limit type path sample value).Breaks before fault after →
      ParseRaises world config limit type path sample value before fault after)
    (broke : (parseTo world config (limit + 1) type path sample value).Breaks before fault after) :
    ParseRaises world config (limit + 1) type path sample value before fault after := by
  rw [kind.parseTo_eq] at broke
  rcases parseCollection_breaks.mp broke with raises | ⟨_, _, _, _, _, _, _, comes, broke⟩
  · exact .opening kind raises
  · rcases parseItem_breaks.mp broke with raises | ⟨_, compared, broke⟩
    · exact .item kind comes raises
    · exact .inside kind comes compared (inner broke)

/-- Faults leave the parsing of a value where one of the operations on the way raises, and nowhere
else. -/
theorem parseTo_breaks :
    (parseTo world config limit type path sample value).Breaks before fault after ↔
      ParseRaises world config limit type path sample value before fault after := by
  constructor
  · intro broke
    induction limit generalizing type path sample value before with
    | zero =>
        cases type with
        | primitive type => simp at broke
        | bigInteger =>
            obtain ⟨failed, rfl⟩ := Run.breaks_lift.mp broke
            exact .bigInteger failed
        | custom type => exact .custom broke
        | record | unbound _ | bound _ _ =>
            obtain ⟨rfl, rfl⟩ := Run.breaks_throw.mp broke
            exact .tooDeep trivial
    | succ limit ih =>
        cases type with
        | primitive type => simp at broke
        | bigInteger =>
            obtain ⟨failed, rfl⟩ := Run.breaks_lift.mp broke
            exact .bigInteger failed
        | custom type => exact .custom broke
        | record => exact raises_of_object broke
        | unbound collection => exact raises_of_collection .unbound ih broke
        | bound collection element => exact raises_of_collection .bound ih broke
  · intro raises
    induction raises with
    | @custom limit _ _ _ _ _ _ _ broke => cases limit <;> exact broke
    | @bigInteger limit _ _ _ _ _ failed => cases limit <;> exact Run.breaks_of_error failed
    | @tooDeep type _ _ _ _ nests =>
        cases type <;> first | exact Run.breaks_throw.mpr ⟨rfl, rfl⟩ | exact nests.elim
    | object shape raises =>
        simp only [parseTo, parseObject_of_record shape]
        exact validateWith_breaks.mpr raises
    | noSchema other foreign =>
        simp only [parseTo, parseObject_of_no_record other, foreign]
        exact Run.breaks_throw.mpr ⟨rfl, rfl⟩
    | opening kind raises =>
        rw [kind.parseTo_eq]
        exact parseCollection_breaks.mpr (.inl raises)
    | item kind comes raises =>
        rw [kind.parseTo_eq]
        exact parseCollection_breaks.mpr
          (.inr ⟨_, _, _, _, _, _, _, comes, parseItem_breaks.mpr (.inl raises)⟩)
    | inside kind comes compared _ ih =>
        rw [kind.parseTo_eq]
        exact parseCollection_breaks.mpr
          (.inr ⟨_, _, _, _, _, _, _, comes, parseItem_breaks.mpr (.inr ⟨_, compared, ih⟩)⟩)

end Parsing

end Validation

end Exemplar
