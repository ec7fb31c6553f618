import Exemplar.Session
import Exemplar.Proofs.Runs

/-!
Sessions as they go on. An action comes to a result or to a fault, and leaves the session changed in
either case, so one relation tells of both; the laws below take a sequence of actions apart. What an
application does to a session is a list of changes, each made in what the ones before have left.
-/

namespace Exemplar

namespace Act

variable {α β : Type} {action : Act α} {before after : Session} {result : Except Fault α}

/-- Started in one session, the action comes to the result and leaves the other session. -/
def Ends (action : Act α) (before : Session) (result : Except Fault α) (after : Session) : Prop :=
  action.run.run before = (result, after)

theorem Ends.unique {other : Except Fault α} {last : Session}
    (one : action.Ends before result after) (again : action.Ends before other last) :
    result = other ∧ after = last := by
  have same : (result, after) = (other, last) := one.symm.trans again
  cases same
  exact ⟨rfl, rfl⟩

@[simp] theorem ends_pure {value : α} :
    (pure value : Act α).Ends before result after ↔ result = .ok value ∧ after = before := by
  constructor
  · intro ended
    cases ended
    exact ⟨rfl, rfl⟩
  · intro same
    obtain ⟨rfl, rfl⟩ := same
    rfl

@[simp] theorem ends_throw {fault : Fault} :
    (throw fault : Act α).Ends before result after ↔ result = .error fault ∧ after = before := by
  constructor
  · intro ended
    cases ended
    exact ⟨rfl, rfl⟩
  · intro same
    obtain ⟨rfl, rfl⟩ := same
    rfl

@[simp] theorem ends_lift {found : Except Fault α} :
    (liftM found : Act α).Ends before result after ↔ result = found ∧ after = before := by
  constructor
  · intro ended
    cases ended
    exact ⟨rfl, rfl⟩
  · intro same
    obtain ⟨rfl, rfl⟩ := same
    rfl

theorem ends_of_eq {found : Except Fault α} (same : found = result) :
    (liftM found : Act α).Ends before result before :=
  ends_lift.mpr ⟨same.symm, rfl⟩

theorem Ends.bind {next : α → Act β} {value : α} {middle : Session}
    (yielded : action.Ends before (.ok value) middle) :
    (action >>= next).run.run before = (next value).run.run middle := by
  have first : action.run.run before = (.ok value, middle) := yielded
  simp only [ExceptT.run_bind, StateT.run_bind, first]
  rfl

theorem Ends.bind_error {next : α → Act β} {fault : Fault}
    (broke : action.Ends before (.error fault) after) :
    (action >>= next).Ends before (.error fault) after := by
  have first : action.run.run before = (.error fault, after) := broke
  simp only [Ends, ExceptT.run_bind, StateT.run_bind, first]
  rfl

@[simp] theorem ends_bind {next : α → Act β} {ending : Except Fault β} :
    (action >>= next).Ends before ending after ↔
      (∃ value middle, action.Ends before (.ok value) middle ∧
        (next value).Ends middle ending after) ∨
      ∃ fault, action.Ends before (.error fault) after ∧ ending = .error fault := by
  constructor
  · intro whole
    rcases ran : action.run.run before with ⟨fault | value, middle⟩
    · obtain ⟨rfl, rfl⟩ := whole.unique (Ends.bind_error ran)
      exact .inr ⟨fault, ran, rfl⟩
    · exact .inl ⟨value, middle, ran, (Ends.bind ran).symm.trans whole⟩
  · intro either
    rcases either with ⟨value, middle, yielded, rest⟩ | ⟨fault, broke, rfl⟩
    · exact yielded.bind.trans rest
    · exact broke.bind_error

@[simp] theorem ends_current {found : Except Fault World} :
    current.Ends before found after ↔ found = .ok before.world ∧ after = before := by
  constructor
  · intro ended
    cases ended
    exact ⟨rfl, rfl⟩
  · intro same
    obtain ⟨rfl, rfl⟩ := same
    rfl

/-- What is done next depends on the world as it stands. -/
theorem ends_bind_current {next : World → Act β} {ending : Except Fault β} :
    (current >>= next).Ends before ending after ↔ (next before.world).Ends before ending after :=
  Iff.rfl

theorem ends_of_current : current.Ends before (.ok before.world) before := rfl

@[simp] theorem ends_modify {change : Session → Session} {done : Except Fault Unit} :
    (modify change : Act Unit).Ends before done after ↔
      done = .ok () ∧ after = change before := by
  constructor
  · intro ended
    cases ended
    exact ⟨rfl, rfl⟩
  · intro same
    obtain ⟨rfl, rfl⟩ := same
    rfl

@[simp] theorem ends_install {world : World} {done : Except Fault Unit} :
    (install world).Ends before done after ↔ done = .ok () ∧ after = { before with world } :=
  ends_modify

/-- Runs leave the world alone; the trace goes on. -/
@[simp] theorem ends_ofRun {run : World → Run α} :
    (ofRun run).Ends before result after ↔
      ∃ trace, (run before.world).run.run before.trace = (result, trace) ∧
        after = { before with trace } := by
  constructor
  · intro ended
    cases ended
    exact ⟨_, rfl, rfl⟩
  · intro found
    obtain ⟨trace, ran, rfl⟩ := found
    have opened : (ofRun run).run.run before = (((run before.world).run.run before.trace).1,
        { before with trace := ((run before.world).run.run before.trace).2 }) := rfl
    rw [Ends, opened, ran]

@[simp] theorem ends_place {value : Value} {placed : Except Fault Value} :
    (place value).Ends before placed after ↔
      placed = .ok (before.world.heap.place value).1 ∧
        after = { before with
          world := { before.world with heap := (before.world.heap.place value).2 } } := by
  constructor
  · intro ended
    cases ended
    exact ⟨rfl, rfl⟩
  · intro same
    obtain ⟨rfl, rfl⟩ := same
    rfl

/-- The action without its answer. -/
def forget (action : Act α) : Act Unit := do
  let _ ← action
  return ()

theorem ends_of_forget {done : Except Fault Unit} (ended : action.forget.Ends before done after) :
    ∃ result, action.Ends before result after := by
  rcases ends_bind.mp ended with ⟨value, middle, ran, ended⟩ | ⟨fault, broke, _⟩
  · obtain ⟨_, rfl⟩ := ends_pure.mp ended
    exact ⟨.ok value, ran⟩
  · exact ⟨.error fault, broke⟩

/-- The action leaves a part of the world as it was, whatever it comes to. -/
def Leaves {Part : Type} (action : Act α) (part : World → Part) : Prop :=
  ∀ before result after, action.Ends before result after → part after.world = part before.world

section Leaving

variable {Part : Type} {part : World → Part}

theorem leaves_pure {value : α} : (pure value : Act α).Leaves part := by
  intro before result after ended
  obtain ⟨_, rfl⟩ := ends_pure.mp ended
  rfl

theorem leaves_throw {fault : Fault} : (throw fault : Act α).Leaves part := by
  intro before result after ended
  obtain ⟨_, rfl⟩ := ends_throw.mp ended
  rfl

theorem leaves_lift {found : Except Fault α} : (liftM found : Act α).Leaves part := by
  intro before result after ended
  obtain ⟨_, rfl⟩ := ends_lift.mp ended
  rfl

theorem leaves_ofRun {run : World → Run α} : (ofRun run).Leaves part := by
  intro before result after ended
  obtain ⟨_, _, rfl⟩ := ends_ofRun.mp ended
  rfl

theorem Leaves.bind {next : α → Act β} (first : action.Leaves part)
    (rest : ∀ value, (next value).Leaves part) : (action >>= next).Leaves part := by
  intro before result after ended
  rcases ends_bind.mp ended with ⟨value, middle, one, other⟩ | ⟨fault, broke, _⟩
  · exact (rest value _ _ _ other).trans (first _ _ _ one)
  · exact first _ _ _ broke

theorem Leaves.forget (leaves : action.Leaves part) : action.forget.Leaves part :=
  leaves.bind fun _ => leaves_pure

theorem leaves_current {next : World → Act β}
    (rest : ∀ {before result after}, (next before.world).Ends before result after →
      part after.world = part before.world) :
    (current >>= next).Leaves part := by
  intro before result after ended
  exact rest (ends_bind_current.mp ended)

theorem leaves_modify {change : Session → Session}
    (same : ∀ session, part (change session).world = part session.world) :
    (modify change : Act Unit).Leaves part := by
  intro before result after ended
  obtain ⟨_, rfl⟩ := ends_modify.mp ended
  exact same before

/-- The world is changed, and an answer is given that depends on what it was. -/
theorem leaves_change {change : World → World} {answer : World → α}
    (same : ∀ world, part (change world) = part world) :
    (current >>= fun world => install (change world) >>= fun _ => pure (answer world)).Leaves
      part := by
  refine leaves_current fun {before _ _} ended => ?_
  rcases ends_bind.mp ended with ⟨_, _, installed, ended⟩ | ⟨_, broke, _⟩
  · obtain ⟨_, rfl⟩ := ends_install.mp installed
    obtain ⟨_, rfl⟩ := ends_pure.mp ended
    exact same before.world
  · cases (ends_install.mp broke).1

end Leaving

end Act

namespace Session

open Act

section Writing

variable {Part : Type} {part : World → Part} {id : ConfigurationId} {name : String}
  {value target : Value} {key : Option Value}

/-- Storing a value changes the heap and nothing else. -/
theorem place_leaves (heap : ∀ world heap, part { world with heap } = part world) :
    (Act.place value).Leaves part := by
  intro before result after ended
  obtain ⟨_, rfl⟩ := ends_place.mp ended
  exact heap before.world _

theorem setCell_leaves {index : Nat} (heap : ∀ world heap, part { world with heap } = part world) :
    (setCell index value).Leaves part :=
  leaves_modify fun session => heap session.world _

theorem setAttribute_leaves (heap : ∀ world heap, part { world with heap } = part world) :
    (setAttribute target name value).Leaves part := by
  refine leaves_current fun {before _ _} ended => ?_
  split at ended
  next => exact setCell_leaves heap _ _ _ ended
  next =>
    split at ended
    next => exact leaves_throw _ _ _ ended
    next => exact leaves_pure _ _ _ ended

theorem mutate_leaves (heap : ∀ world heap, part { world with heap } = part world) :
    (mutate target key value).Leaves part := by
  refine leaves_current fun {before _ _} ended => ?_
  split at ended
  next => exact Leaves.bind leaves_lift (fun _ => setCell_leaves heap) _ _ _ ended
  next => exact Leaves.bind leaves_lift (fun _ => setCell_leaves heap) _ _ _ ended
  next => exact setCell_leaves heap _ _ _ ended
  next =>
    split at ended
    next => exact setAttribute_leaves heap _ _ _ ended
    next => exact setAttribute_leaves heap _ _ _ ended

theorem newConfiguration_leaves {config : Configuration}
    (configs : ∀ world configs, part { world with configs } = part world) :
    (newConfiguration config).Leaves part := by
  unfold newConfiguration
  exact leaves_change fun world => configs world _

theorem setDefault_leaves (default : ∀ world default, part { world with default } = part world) :
    (setDefault id).Leaves part := by
  unfold setDefault
  exact leaves_change fun world => default world _

theorem newCatalogue_leaves {build : Run Catalogue}
    (catalogues : ∀ world catalogues, part { world with catalogues } = part world) :
    (newCatalogue build).Leaves part := by
  unfold newCatalogue
  exact leaves_ofRun.bind fun _ => leaves_change fun world => catalogues world _

theorem derive_leaves {changes : Changes}
    (catalogues : ∀ world catalogues, part { world with catalogues } = part world)
    (configs : ∀ world configs, part { world with configs } = part world) :
    (derive id changes).Leaves part := by
  refine leaves_current fun {before _ _} ended => ?_
  exact Leaves.bind (newCatalogue_leaves catalogues) (fun _ => newConfiguration_leaves configs)
    _ _ _ ended

theorem changeDefault_leaves {changes : Changes}
    (catalogues : ∀ world catalogues, part { world with catalogues } = part world)
    (configs : ∀ world configs, part { world with configs } = part world)
    (default : ∀ world default, part { world with default } = part world) :
    (changeDefault changes).Leaves part := by
  refine leaves_current fun {before _ _} ended => ?_
  exact Leaves.bind (derive_leaves catalogues configs)
    (fun _ => (setDefault_leaves default).bind fun _ => leaves_pure) _ _ _ ended

theorem register_leaves {type : ValueType}
    (catalogues : ∀ world catalogues, part { world with catalogues } = part world) :
    (register id type).Leaves part := by
  refine leaves_current fun {before _ _} ended => ?_
  rcases ends_bind.mp ended with ⟨types, _, added, ended⟩ | ⟨_, broke, _⟩
  · obtain ⟨trace, _, rfl⟩ := ends_ofRun.mp added
    obtain ⟨_, rfl⟩ := ends_install.mp ended
    exact catalogues before.world _
  · exact leaves_ofRun _ _ _ broke

end Writing

section Configuring

variable {before after : Session} {id : ConfigurationId} {type : ValueType} {build : Run Catalogue}

theorem newCatalogue_ends {result : Except Fault CatalogueId}
    (ended : (newCatalogue build).Ends before result after) :
    (∃ made trace, result = .ok before.world.catalogues.size ∧
      build.Yields before.trace made trace ∧
      after = ⟨{ before.world with catalogues := before.world.catalogues.push made }, trace⟩) ∨
    ∃ fault trace, result = .error fault ∧ build.Breaks before.trace fault trace ∧
      after = { before with trace } := by
  rcases ends_bind.mp ended with ⟨made, _, ran, ended⟩ | ⟨fault, broke, failed⟩
  · obtain ⟨trace, built, rfl⟩ := ends_ofRun.mp ran
    simp only [ends_bind, ends_current, ends_install, ends_pure, reduceCtorEq, false_and,
      exists_false, or_false] at ended
    obtain ⟨_, _, ⟨same, rfl⟩, _, _, ⟨_, rfl⟩, rfl, rfl⟩ := ended
    cases same
    exact .inl ⟨made, trace, rfl, built, rfl⟩
  · obtain ⟨trace, ran, rfl⟩ := ends_ofRun.mp broke
    exact .inr ⟨fault, trace, failed, ran, rfl⟩

theorem newConfiguration_ends {config : Configuration} {result : Except Fault ConfigurationId}
    (ended : (newConfiguration config).Ends before result after) :
    result = .ok before.world.configs.size ∧
      after = { before with
        world := { before.world with configs := before.world.configs.push config } } := by
  simp only [newConfiguration, ends_bind, ends_current, ends_install, ends_pure, reduceCtorEq,
    false_and, exists_false, or_false] at ended
  obtain ⟨_, _, ⟨same, rfl⟩, _, _, ⟨_, rfl⟩, rfl, rfl⟩ := ended
  cases same
  exact ⟨rfl, rfl⟩

theorem setDefault_ends {result : Except Fault ConfigurationId}
    (ended : (setDefault id).Ends before result after) :
    after = { before with world := { before.world with default := id } } := by
  simp only [setDefault, ends_bind, ends_current, ends_install, ends_pure, reduceCtorEq, false_and,
    exists_false, or_false] at ended
  obtain ⟨_, _, ⟨same, rfl⟩, _, _, ⟨_, rfl⟩, _, rfl⟩ := ended
  cases same
  rfl

/-- A registration that is refused leaves the world as it was; else the catalogue of the
configuration is exchanged. -/
theorem register_ends {result : Except Fault Unit}
    (ended : (register id type).Ends before result after) :
    (∃ types trace, result = .ok () ∧
      ((before.world.catalogue (before.world.config id).catalogue).add type).Yields before.trace
        types trace ∧
      after = ⟨{ before.world with
        catalogues := before.world.catalogues.setIfInBounds (before.world.config id).catalogue
          types }, trace⟩) ∨
    ∃ fault trace, result = .error fault ∧
      ((before.world.catalogue (before.world.config id).catalogue).add type).Breaks before.trace
        fault trace ∧
      after = { before with trace } := by
  replace ended := ends_bind_current.mp ended
  rcases ends_bind.mp ended with ⟨types, _, added, ended⟩ | ⟨fault, broke, failed⟩
  · obtain ⟨trace, ran, rfl⟩ := ends_ofRun.mp added
    obtain ⟨rfl, rfl⟩ := ends_install.mp ended
    exact .inl ⟨types, trace, rfl, ran, rfl⟩
  · obtain ⟨trace, ran, rfl⟩ := ends_ofRun.mp broke
    exact .inr ⟨fault, trace, failed, ran, rfl⟩

end Configuring

end Session

/-- What declarations compile to in a world: their fields in turn, compiled with the catalogue of a
configuration, and a sample made of all their samples, which has gone through the hook of the
configuration and has been stored. -/
structure World.Compiles (world : World) (recordClass : RecordClass)
    (declarations : List (String × Declaration)) (config : ConfigurationId) (before : Trace)
    (compiled : Compiled) (heap : Heap) : Prop where
  catalogue : compiled.catalogue = (world.config config).catalogue
  fields : ∃ last, (Session.compileFields (world.catalogue compiled.catalogue) world.heap
    declarations).Yields before compiled.fields last
  index : compiled.index = Compiled.places compiled.fields
  sample : ∃ first made last, ((world.config config).finisher.finish world.heap
      (.record recordClass (declarations.map fun entry => (entry.1, entry.2.sample)))).Yields first
        made last ∧
    world.heap.place made = (compiled.sample, heap)

/-- The world with one more schema, and what has been stored for it. -/
def World.enlarge (world : World) (schema : Schema) (heap : Heap) : World :=
  { world with schemas := world.schemas.push schema, heap }

/-- The schema that a definition makes of its bases and its body. -/
structure World.Defines (world : World) (name : String) (bases : List SchemaId)
    (entries : List (String × Entry)) (config : Option ConfigurationId) (before : Trace)
    (schema : Schema) (heap : Heap) : Prop where
  body : Session.bodyOf entries = .ok schema.body
  declarations : schema.declarations = Named.merge (Session.inherited world bases) schema.body
  ancestry : ∃ above, Ancestry.ofBases (fun id => (world.schema id).name)
      (fun id => (world.schema id).ancestry) bases = .ok above ∧
    schema.ancestry = world.schemas.size :: above
  recordClass : schema.recordClass = ⟨world.schemas.size, name, schema.ancestry⟩
  config : schema.config = config.or (Session.inheritedConfiguration world bases)
  compiled : ∃ compiled, schema.compiled = some compiled ∧
    world.Compiles schema.recordClass schema.declarations (schema.config.getD world.default) before
      compiled heap

namespace Session

open Act

section Defining

variable {before after : Session} {name : String} {bases : List SchemaId}
  {entries : List (String × Entry)} {config : Option ConfigurationId} {recordClass : RecordClass}
  {declarations : List (String × Declaration)}

/-- The fields and the sample are made before anything is changed. -/
theorem compile_ends {result : Except Fault Compiled}
    (ended : (compile recordClass declarations config).Ends before result after) :
    (∃ fault, result = .error fault ∧ after.world = before.world) ∨
    ∃ compiled heap, result = .ok compiled ∧
      before.world.Compiles recordClass declarations (config.getD before.world.default)
        before.trace compiled heap ∧
      after.world = { before.world with heap } := by
  replace ended := ends_bind_current.mp ended
  rcases ends_bind.mp ended with ⟨fields, _, made, ended⟩ | ⟨fault, broke, failed⟩
  · obtain ⟨first, fieldsMade, rfl⟩ := ends_ofRun.mp made
    rcases ends_bind.mp ended with ⟨sample, _, finished, ended⟩ | ⟨fault, broke, failed⟩
    · obtain ⟨last, sampleMade, rfl⟩ := ends_ofRun.mp finished
      rcases ends_bind.mp ended with ⟨stored, _, placed, ended⟩ | ⟨_, broke, _⟩
      · obtain ⟨same, rfl⟩ := ends_place.mp placed
        cases same
        simp only [ends_bind, ends_ofRun, ends_pure] at ended
        rcases ended with ⟨_, _, ⟨_, _, rfl⟩, rfl, rfl⟩ | ⟨_, ⟨_, logged, _⟩, _⟩
        · exact .inr ⟨_, _, rfl,
            ⟨rfl, ⟨first, fieldsMade⟩, rfl, first, sample, last, sampleMade, rfl⟩, rfl⟩
        · cases logged
      · cases (ends_place.mp broke).1
    · obtain ⟨_, _, rfl⟩ := ends_ofRun.mp broke
      exact .inl ⟨fault, failed, rfl⟩
  · obtain ⟨_, _, rfl⟩ := ends_ofRun.mp broke
    exact .inl ⟨fault, failed, rfl⟩

/-- A definition that breaks down leaves the world as it was; else it adds the schema that it makes,
and the heap has grown by the schema's sample. -/
theorem defineSchema_ends {result : Except Fault SchemaId}
    (ended : (defineSchema name bases entries config).Ends before result after) :
    (∃ fault, result = .error fault ∧ after.world = before.world) ∨
    ∃ schema heap, result = .ok before.world.schemas.size ∧
      before.world.Defines name bases entries config before.trace schema heap ∧
      after.world = before.world.enlarge schema heap := by
  replace ended := ends_bind_current.mp ended
  rcases ends_bind.mp ended with ⟨body, middle, read, ended⟩ | ⟨fault, broke, failed⟩
  · obtain ⟨bodied, rfl⟩ := ends_lift.mp read
    rcases ends_bind.mp ended with ⟨above, middle, merged, ended⟩ | ⟨fault, broke, failed⟩
    · obtain ⟨ordered, rfl⟩ := ends_lift.mp merged
      rcases ends_bind.mp ended with ⟨compiled, ⟨world, _⟩, made, ended⟩ | ⟨fault, broke, failed⟩
      · rcases compile_ends made with ⟨_, failed, _⟩ | ⟨_, heap, same, compiles, kept⟩
        · cases failed
        · cases same
          obtain rfl : world = _ := kept
          simp only [ends_bind, ends_modify, ends_pure, reduceCtorEq, false_and, exists_false,
            or_false] at ended
          obtain ⟨_, _, ⟨_, rfl⟩, rfl, rfl⟩ := ended
          exact .inr ⟨_, heap, rfl, ⟨bodied.symm, rfl, ⟨above, ordered.symm, rfl⟩, rfl, rfl,
            compiled, rfl, compiles⟩, rfl⟩
      · rcases compile_ends broke with ⟨_, _, kept⟩ | ⟨_, _, same, _, _⟩
        · exact .inl ⟨fault, failed, kept⟩
        · cases same
    · obtain ⟨_, rfl⟩ := ends_lift.mp broke
      exact .inl ⟨fault, failed, rfl⟩
  · obtain ⟨_, rfl⟩ := ends_lift.mp broke
    exact .inl ⟨fault, failed, rfl⟩

theorem forIn_still {α State : Type} {items : List α} {state : State}
    {body : α → State → Act (ForInStep State)} {result : Except Fault State}
    (still : ∀ {item state before result after}, (body item state).Ends before result after →
      after = before)
    (ended : (forIn items state body).Ends before result after) : after = before := by
  induction items generalizing state before with
  | nil => exact (ends_pure.mp ended).2
  | cons item rest ih =>
      rw [List.forIn_cons] at ended
      rcases ends_bind.mp ended with ⟨step, middle, made, ended⟩ | ⟨_, broke, _⟩
      · obtain rfl := still made
        cases step with
        | done last => exact (ends_pure.mp ended).2
        | yield next => exact ih ended
      · exact still broke

theorem undeclared_still {world : World} {entry : String × Entry}
    {result : Except Fault (ForInStep PUnit)}
    (ended : (match entry.2 with
      | .declared _ => pure (ForInStep.yield PUnit.unit)
      | .plain value => do
          throw (.notDeclaration entry.1 (world.heap.className value))
          pure (ForInStep.yield PUnit.unit) : Act (ForInStep PUnit)).Ends before result after) :
    after = before := by
  split at ended
  next => exact (ends_pure.mp ended).2
  next =>
    rcases ends_bind.mp ended with ⟨_, _, thrown, _⟩ | ⟨_, thrown, _⟩
    · cases (ends_throw.mp thrown).1
    · exact (ends_throw.mp thrown).2

/-- Looking for declarations changes nothing. -/
theorem defineFrom_ends {result : Except Fault SchemaId}
    (ended : (defineFrom name entries config).Ends before result after) :
    after = before ∨ (defineSchema name [0] entries config).Ends before result after := by
  have checking := ends_bind_current.mp ended
  rcases ends_bind.mp checking with ⟨_, last, passed, defined⟩ | ⟨_, broke, _⟩
  · obtain rfl := forIn_still undeclared_still passed
    exact .inr defined
  · exact .inl (forIn_still undeclared_still broke)

variable {Part : Type} {part : World → Part}

theorem defineSchema_leaves
    (schemas : ∀ world schemas heap, part { world with schemas, heap } = part world) :
    (defineSchema name bases entries config).Leaves part := by
  intro before result after ended
  rcases defineSchema_ends ended with ⟨_, _, same⟩ | ⟨_, _, _, _, grown⟩
  · rw [same]
  · rw [grown]
    exact schemas before.world _ _

theorem defineFrom_leaves
    (schemas : ∀ world schemas heap, part { world with schemas, heap } = part world) :
    (defineFrom name entries config).Leaves part := by
  intro before result after ended
  rcases defineFrom_ends ended with rfl | defined
  · rfl
  · exact defineSchema_leaves schemas _ _ _ defined

theorem repoint_leaves {id : SchemaId} {value : Value}
    (schemas : ∀ world schemas, part { world with schemas } = part world)
    (heap : ∀ world heap, part { world with heap } = part world) :
    (repoint id name value).Leaves part := by
  refine leaves_current fun {before _ _} ended => ?_
  have placed {compiled : Compiled} : (setCompiled id compiled).Leaves part :=
    leaves_modify fun session => schemas session.world _
  exact Leaves.bind leaves_lift (fun _ => leaves_lift.bind fun _ => leaves_ofRun.bind fun _ =>
    placed.bind fun _ => (setAttribute_leaves heap).bind fun _ => leaves_ofRun) _ _ _ ended

end Defining

/-- What an application does to a session: it stores objects and changes them, defines schemas and
makes them refer to each other, sets up configurations and catalogues, registers types, and runs
whatever only reads the world. -/
inductive Change where
  | place (value : Value)
  | mutate (target : Value) (key : Option Value) (value : Value)
  | define (name : String) (bases : List SchemaId) (entries : List (String × Entry))
      (config : Option ConfigurationId)
  | defineFrom (name : String) (entries : List (String × Entry)) (config : Option ConfigurationId)
  | repoint (id : SchemaId) (name : String) (value : Value)
  | newCatalogue (build : Run Catalogue)
  | newConfiguration (config : Configuration)
  | derive (id : ConfigurationId) (changes : Changes)
  | setDefault (id : ConfigurationId)
  | changeDefault (changes : Changes)
  | register (id : ConfigurationId) (type : ValueType)
  | run (action : World → Run Unit)

/-- A change made; what it answers does not matter. -/
def Change.act : Change → Act Unit
  | .place value => forget (Act.place value)
  | .mutate target key value => Session.mutate target key value
  | .define name bases entries config => forget (defineSchema name bases entries config)
  | .defineFrom name entries config => forget (Session.defineFrom name entries config)
  | .repoint id name value => Session.repoint id name value
  | .newCatalogue build => forget (Session.newCatalogue build)
  | .newConfiguration config => forget (Session.newConfiguration config)
  | .derive id changes => forget (Session.derive id changes)
  | .setDefault id => forget (Session.setDefault id)
  | .changeDefault changes => Session.changeDefault changes
  | .register id type => Session.register id type
  | .run action => ofRun action

/-- The session after changes, the last of them first. A change that breaks down half way keeps what
was done before. -/
def after : List Change → Session
  | [] => start
  | change :: earlier => (change.act.run.run (after earlier)).2

theorem ends_act (change : Change) (earlier : List Change) :
    change.act.Ends (after earlier) (change.act.run.run (after earlier)).1
      (after (change :: earlier)) := rfl

end Session

end Exemplar
