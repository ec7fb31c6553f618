import Exemplar.Proofs.Leniency
import Exemplar.Proofs.Policy

/-!
Collections that keep what is put into them, like lists and deques, account for each element of their
input. What they hold in the end is what the elements come to one by one, in the order of the input;
an element that fails is left out and told of by its place in the input, and one whose shape does not
fit ends the run.
-/

namespace Exemplar

/-- The collection starts empty and keeps, in order, whatever is put into it. -/
structure Collection.Keeps (collection : Collection) (made : List Value → Value) : Prop where
  empty : collection.empty = pure (made [])
  insert : ∀ heap gathered value,
    collection.insert heap (made gathered) value = pure (made (gathered ++ [value]))

namespace Collection

theorem keeps_array : array.Keeps .list := ⟨rfl, fun _ _ _ => rfl⟩

end Collection

/-- What an element comes to by itself: a value, a failure inside of it, or the failure of its shape
to fit. -/
inductive Fate where
  | taken (value : Value)
  | failed (fail : Failure)
  | refused (fail : Failure)

namespace Fate

def value? : Fate → Option Value
  | .taken value => some value
  | _ => none

def failure? : Fate → Option Failure
  | .taken _ => none
  | .failed fail | .refused fail => some fail

/-- The failure that ends the whole run. No policy passes over a shape that does not fit. -/
def stop? (lenient : Bool) : Fate → Option Failure
  | .taken _ => none
  | .failed fail => if lenient then none else some fail
  | .refused fail => some fail

/-- What is told of an element that is left out. -/
def notice (mark : String → Event) : Fate → Trace
  | .failed fail => [mark s!"skipping element {fail.path} - {fail.message}"]
  | _ => []

end Fate

/-- An element's fate, and what happened while it was looked at. -/
structure Account where
  fate : Fate
  told : Trace

/-- All that happens on account of an element. -/
def Account.story (mark : String → Event) (account : Account) : Trace :=
  account.told ++ account.fate.notice mark

namespace Validation

variable {parse : Parse} {world : World} {heap : Heap} {config : Configuration}
  {collection : Collection} {element : ValueType} {sample item : Value} {path place : String}
  {before after : Trace} {made : List Value → Value} {mark : String → Event}

/-- An element by itself, apart from the collection that it is to become part of. -/
def parseAlone (parse : Parse) (heap : Heap) (element : ValueType) (sample : Value) (place : String)
    (item : Value) : Run Fate := do
  match ← element.fit heap item sample with
  | .refused reason => return .refused (.type place reason)
  | .settled => return .taken item
  | .toParse =>
      match ← parse element place sample item with
      | .ok parsed => return .taken parsed
      | .error fail => return .failed fail

/-- What the fate of an element makes of the collection. -/
def gather (heap : Heap) (config : Configuration) (collection : Collection) (gathered : Value) :
    Fate → Run Outcome
  | .taken value => return .ok (← collection.insert heap gathered value)
  | .refused fail => return .error fail
  | .failed fail =>
      if config.lenient then do
        config.sink.report s!"skipping element {fail.path} - {fail.message}"
        return .ok gathered
      else return .error fail

theorem parseItem_eq_gather {gathered : Value} :
    parseItem parse heap config collection element sample place gathered item =
      parseAlone parse heap element sample place item >>=
        gather heap config collection gathered := by
  simp only [parseItem, parseAlone, bind_assoc]
  refine bind_congr fun fit => ?_
  cases fit with
  | refused reason => rfl
  | settled => simp [gather]
  | toParse =>
      simp only [bind_assoc]
      refine bind_congr fun result => ?_
      cases result <;> simp [gather]

/-- The accounts of elements from a position on. Each element is looked at by itself, after what
happened on account of those before it. -/
inductive Accounts (parse : Parse) (heap : Heap) (element : ValueType) (sample : Value)
    (path : String) (mark : String → Event) : Nat → List Value → Trace → List Account → Prop
  | none {position before} :
      Accounts parse heap element sample path mark position [] before []
  | next {position item rest before account accounts} :
      (parseAlone parse heap element sample (elementPath path position) item).Yields before
        account.fate (before ++ account.told) →
      Accounts parse heap element sample path mark (position + 1) rest
        (before ++ account.story mark) accounts →
      Accounts parse heap element sample path mark position (item :: rest) before
        (account :: accounts)

variable {position : Nat} {items : List Value} {entries earlier later : List Account}
  {account : Account} {gathered : List Value} {fail : Failure}

theorem Accounts.length_eq
    (accounts : Accounts parse heap element sample path mark position items before entries) :
    entries.length = items.length := by
  induction accounts with
  | none => rfl
  | next _ _ ih => simp [ih]

theorem Accounts.split
    (accounts : Accounts parse heap element sample path mark position items before
      (earlier ++ account :: later)) :
    ∃ done item rest, items = done ++ item :: rest ∧
      Accounts parse heap element sample path mark position done before earlier ∧
      (parseAlone parse heap element sample (elementPath path (position + done.length)) item).Yields
        (before ++ earlier.flatMap (·.story mark)) account.fate
        (before ++ earlier.flatMap (·.story mark) ++ account.told) := by
  induction earlier generalizing position items before with
  | nil =>
      cases accounts with
      | @next _ item rest _ _ _ alone _ =>
          exact ⟨[], item, rest, rfl, .none, by simpa using alone⟩
  | cons first earlier ih =>
      cases accounts with
      | @next _ item rest _ _ _ alone accounts =>
          obtain ⟨done, other, last, rfl, before_, found⟩ := ih accounts
          refine ⟨item :: done, other, last, rfl, .next alone before_, ?_⟩
          simpa [Nat.add_assoc, Nat.add_comm 1] using found

theorem gather_goes_on {fate : Fate} (keeps : collection.Keeps made)
    (records : ∀ text, config.sink.report text = .record (mark text))
    (goesOn : fate.stop? config.lenient = none) :
    (gather heap config collection (made gathered) fate).Yields before
      (.ok (made (gathered ++ fate.value?.toList))) (before ++ fate.notice mark) := by
  cases fate with
  | taken value => simp [gather, keeps.insert, Fate.notice, Fate.value?]
  | refused fail => simp [Fate.stop?] at goesOn
  | failed fail =>
      have lenient : config.lenient = true := by simpa [Fate.stop?] using goesOn
      simp [gather, lenient, records, Fate.notice, Fate.value?]

theorem gather_stops {fate : Fate} {gathered : Value}
    (stops : fate.stop? config.lenient = some fail) :
    (gather heap config collection gathered fate).Yields before (.error fail) before := by
  cases fate with
  | taken value => simp [Fate.stop?] at stops
  | refused other =>
      obtain rfl : other = fail := by simpa [Fate.stop?] using stops
      rfl
  | failed other =>
      simp only [Fate.stop?, Option.ite_none_left_eq_some, Option.some.injEq] at stops
      obtain ⟨strict, rfl⟩ := stops
      simp [gather, strict]

theorem failure?_of_gather {fate : Fate} {gathered : Value}
    (failed : (gather heap config collection gathered fate).Yields before (.error fail) after) :
    fate.failure? = some fail ∧ after = before := by
  cases fate with
  | taken value => simp [gather] at failed
  | refused other =>
      obtain ⟨same, rfl⟩ := Run.yields_pure.mp failed
      cases same
      exact ⟨rfl, rfl⟩
  | failed other =>
      simp only [gather] at failed
      split at failed
      next => simp at failed
      next =>
        obtain ⟨same, rfl⟩ := Run.yields_pure.mp failed
        cases same
        exact ⟨rfl, rfl⟩

theorem parseElements_goes_on (keeps : collection.Keeps made)
    (records : ∀ text, config.sink.report text = .record (mark text))
    (accounts : Accounts parse heap element sample path mark position items before entries)
    (goesOn : ∀ account ∈ entries, account.fate.stop? config.lenient = none) :
    (parseElements parse heap config collection element sample path position (made gathered)
      items).Yields before
        (.ok (made (gathered ++ entries.filterMap (·.fate.value?))))
        (before ++ entries.flatMap (·.story mark)) := by
  induction accounts generalizing gathered with
  | none => simp [parseElements]
  | @next position item rest before account entries alone _ ih =>
      rw [List.forall_mem_cons] at goesOn
      have gone : (parseItem parse heap config collection element sample (elementPath path position)
          (made gathered) item).Yields before (.ok (made (gathered ++ account.fate.value?.toList)))
            (before ++ account.story mark) := by
        rw [parseItem_eq_gather, Account.story, ← List.append_assoc]
        exact alone.bind.trans (gather_goes_on keeps records goesOn.1)
      have values : gathered ++ (account :: entries).filterMap (·.fate.value?) =
          (gathered ++ account.fate.value?.toList) ++ entries.filterMap (·.fate.value?) := by
        cases fate : account.fate.value? <;> simp [fate]
      rw [parseElements_cons, values, List.flatMap_cons, ← List.append_assoc]
      exact gone.bind.trans (ih goesOn.2)

theorem parseElements_stops (keeps : collection.Keeps made)
    (records : ∀ text, config.sink.report text = .record (mark text))
    (accounts : Accounts parse heap element sample path mark position items before
      (earlier ++ account :: later))
    (goesOn : ∀ account ∈ earlier, account.fate.stop? config.lenient = none)
    (stops : account.fate.stop? config.lenient = some fail) :
    (parseElements parse heap config collection element sample path position (made gathered)
      items).Yields before (.error fail)
        (before ++ earlier.flatMap (·.story mark) ++ account.told) := by
  obtain ⟨done, item, rest, rfl, first, alone⟩ := accounts.split
  refine parseElements_fails.mpr ⟨done, item, rest, _, _, rfl,
    parseElements_goes_on keeps records first goesOn, ?_⟩
  rw [parseItem_eq_gather]
  exact alone.bind.trans (gather_stops stops)

end Validation

/-- The path is that of the place, or leads further into it. -/
def LiesIn (place path : String) : Prop := ∃ rest, path = place ++ rest

namespace LiesIn

variable {place middle path : String}

theorem refl (place : String) : LiesIn place place := ⟨"", by simp⟩

theorem trans (first : LiesIn place middle) (further : LiesIn middle path) : LiesIn place path := by
  obtain ⟨one, rfl⟩ := first
  obtain ⟨other, rfl⟩ := further
  exact ⟨one ++ other, by simp [String.append_assoc]⟩

theorem fieldPath {name : String} : LiesIn place (Validation.fieldPath place name) := by
  unfold Validation.fieldPath
  split
  next top => exact ⟨name, by simp [top]⟩
  next => exact ⟨"." ++ name, by simp [String.append_assoc]⟩

theorem elementPath {index : Nat} : LiesIn place (Validation.elementPath place index) :=
  ⟨"[" ++ toString index ++ "]", by simp [Validation.elementPath_eq, String.append_assoc]⟩

end LiesIn

/-- A type of the application fails at the place that it is given, or inside of it. -/
def Custom.Locates (custom : Custom) : Prop :=
  ∀ config heap path sample value before fail after,
    (custom.parse config heap path sample value).Yields before (.error fail) after →
      LiesIn path fail.path

def ValueType.Locates : ValueType → Prop
  | .bound _ element => element.Locates
  | .custom own => own.Locates
  | _ => True

/-- So do all types that are registered or that fields were compiled to. -/
structure World.Locates (world : World) : Prop where
  types {id type} : type ∈ world.catalogue id → type.Locates
  fields {id compiled field} : (world.schema id).compiled = some compiled →
    field ∈ compiled.fields → field.type.Locates

theorem Catalogue.Binds.locates {catalogue : Catalogue} {heap : Heap} {type bound : ValueType}
    {sample : Value} (binds : catalogue.Binds heap type sample bound)
    (registered : ∀ type ∈ catalogue, type.Locates) (start : type.Locates) : bound.Locates := by
  induction binds with
  | plain _ | bare _ _ => exact start
  | element _ _ member _ ih => exact ih (registered _ member)

namespace Validation

variable {parse : Parse} {world : World} {config : Configuration} {before after : Trace}
  {path : String} {fail : Failure}

/-- Failures lie at the place where a value is parsed, or inside of it. -/
def ParseLiesIn (parse : Parse) : Prop :=
  ∀ {type path sample value before fail after}, type.Locates →
    (parse type path sample value).Yields before (.error fail) after → LiesIn path fail.path

theorem liesIn_of_guardField {field : Field} {entries : List (Value × Value)}
    (parses : ∀ {value before fail after},
      (parse field.type path field.sample value).Yields before (.error fail) after →
        LiesIn path fail.path)
    (failed : (guardField parse world config field path entries).Yields before (.failed fail)
      after) : LiesIn path fail.path := by
  rcases guardField_yields.mp failed with settled | ⟨_, _, _, told, _⟩
  · cases settles_of_settleField settled with
    | unsought sought =>
        cases sought
        exact .refl path
    | refused _ _ | rejected _ _ _ _ => exact .refl path
    | failed _ parsed _ => exact parses parsed
  · cases told
    exact .refl path

theorem liesIn_of_validateWith {id : SchemaId} {location : String} {data : Value}
    (locates : world.Locates) (parses : ParseLiesIn parse)
    (failed : (validateWith parse world config (world.schema id) location data).Yields before
      (.error fail) after) : LiesIn location fail.path := by
  cases validates_of_validateWith failed with
  | refused _ _ _ => exact .refl location
  | failed known _ fills =>
      obtain ⟨field, member, _, guarded⟩ := fills.failed_field
      exact LiesIn.fieldPath.trans
        (liesIn_of_guardField (parses (locates.fields known member)) guarded)

theorem liesIn_of_parseAlone {heap : Heap} {element : ValueType} {sample item : Value}
    {place : String} {fate : Fate} (locates : element.Locates) (parses : ParseLiesIn parse)
    (alone : (parseAlone parse heap element sample place item).Yields before fate after)
    (failed : fate.failure? = some fail) : LiesIn place fail.path := by
  simp only [parseAlone, Run.yields_bind] at alone
  obtain ⟨fit, fitted, _, alone⟩ := alone
  cases fit with
  | refused reason =>
      cases (Run.yields_pure.mp alone).1
      cases failed
      exact .refl place
  | settled =>
      cases (Run.yields_pure.mp alone).1
      cases failed
  | toParse =>
      simp only [Run.yields_bind] at alone
      obtain ⟨result, read, parsed, alone⟩ := alone
      cases result with
      | ok value =>
          cases (Run.yields_pure.mp alone).1
          cases failed
      | error other =>
          cases (Run.yields_pure.mp alone).1
          cases failed
          exact parses locates parsed

theorem liesIn_of_parseCollection {collection : Collection} {element : Option ValueType}
    {sample value : Value} (locates : world.Locates) (own : ∀ type ∈ element, type.Locates)
    (parses : ParseLiesIn parse)
    (failed : (parseCollection parse world config collection element path sample value).Yields
      before (.error fail) after) : LiesIn path fail.path := by
  obtain ⟨type, representative, position, gathered, item, rest, reached, comes, failed⟩ :=
    parseCollection_fails.mp failed
  have inner : type.Locates := by
    obtain ⟨_, _, bound, _, _⟩ := comes
    cases element with
    | some inner =>
        obtain ⟨rfl, _⟩ := Run.yields_pure.mp bound
        exact own _ rfl
    | none =>
        obtain ⟨found, member, binds⟩ := Catalogue.binds_of_typeFor bound
        exact binds.locates (fun _ => locates.types) (locates.types member)
  rw [parseItem_eq_gather] at failed
  obtain ⟨fate, looked, alone, failed⟩ := Run.yields_bind.mp failed
  exact LiesIn.elementPath.trans
    (liesIn_of_parseAlone inner parses alone (failure?_of_gather failed).1)

theorem parseLiesIn_parseTo (locates : world.Locates) (limit : Nat) :
    ParseLiesIn (parseTo world config limit) := by
  induction limit with
  | zero =>
      intro type path sample value before fail after own failed
      cases type with
      | primitive plain => simp at failed
      | bigInteger => exact parseTo_bigInteger failed ▸ .refl path
      | custom custom => exact own _ _ _ _ _ _ _ _ failed
      | record | unbound _ | bound _ _ => simp [parseTo] at failed
  | succ limit ih =>
      intro type path sample value before fail after own failed
      cases type with
      | primitive plain => simp at failed
      | bigInteger => exact parseTo_bigInteger failed ▸ .refl path
      | custom custom => exact own _ _ _ _ _ _ _ _ failed
      | unbound collection => exact liesIn_of_parseCollection locates (by simp) ih failed
      | bound collection element =>
          have inner : element.Locates := own
          exact liesIn_of_parseCollection locates (by simpa using inner) ih failed
      | record =>
          by_cases record : ∃ recordClass fields,
            world.heap.look sample = .record recordClass fields
          · obtain ⟨recordClass, fields, shape⟩ := record
            simp only [parseTo, parseObject_of_record shape] at failed
            exact liesIn_of_validateWith locates ih failed
          · simp only [parseTo, parseObject_of_no_record fun recordClass fields shape =>
              record ⟨recordClass, fields, shape⟩] at failed
            split at failed <;> simp at failed

/-- What a collection comes to that keeps what is put into it, given what its elements come to: if
none of them ends the run, the values in the order of the input, with a word on each element that is
left out after what the element itself had to tell; otherwise the failure of the first one that does.
What fails, fails at its place in the input or further inside. -/
theorem collection_accounts_for_elements {collection : Collection} {made : List Value → Value}
    {element : ValueType} {sample value representative : Value} {items : List Value}
    {accounts : List Account} {mark : String → Event} {limit : Nat}
    (keeps : collection.Keeps made)
    (stands : ∀ trace, (collection.first world.heap sample).Yields trace (some representative) trace)
    (listed : world.heap.iterate value = .ok items)
    (records : ∀ text, config.sink.report text = .record (mark text))
    (looked : Accounts (parseTo world config limit) world.heap element representative path mark 0
      items before accounts) :
    ((∀ account ∈ accounts, account.fate.stop? config.lenient = none) →
      (parseTo world config (limit + 1) (.bound collection element) path sample value).Yields before
        (.ok (made (accounts.filterMap (·.fate.value?))))
        (before ++ accounts.flatMap (·.story mark))) ∧
    (∀ earlier account later fail, accounts = earlier ++ account :: later →
      (∀ account ∈ earlier, account.fate.stop? config.lenient = none) →
      account.fate.stop? config.lenient = some fail →
      (parseTo world config (limit + 1) (.bound collection element) path sample value).Yields before
        (.error fail) (before ++ earlier.flatMap (·.story mark) ++ account.told)) ∧
    ((∃ stored after, (parseTo world config (limit + 1) (.bound collection element) path sample
        value).Yields before (.ok stored) after) ↔
      ∀ account ∈ accounts, account.fate.stop? config.lenient = none) ∧
    (world.Locates → element.Locates → ∀ index account fail, accounts[index]? = some account →
      account.fate.failure? = some fail → LiesIn (elementPath path index) fail.path) := by
  have opened {outcome after}
      (ran : (parseElements (parseTo world config limit) world.heap config collection element
        representative path 0 (made []) items).Yields before outcome after) :
      (parseTo world config (limit + 1) (.bound collection element) path sample value).Yields before
        outcome after := by
    have empty : collection.empty.Yields before (made []) before := by
      rw [keeps.empty]
      exact rfl
    have bound : (elementType world config (some element) representative).Yields before element
      before := rfl
    rw [OfCollection.bound.parseTo_eq, parseCollection_eq]
    exact empty.bind.trans ((stands before).bind.trans (bound.bind.trans
      ((Run.yields_of_ok listed).bind.trans ran)))
  have succeeds (goesOn : ∀ account ∈ accounts, account.fate.stop? config.lenient = none) :=
    opened (parseElements_goes_on keeps records looked goesOn)
  rw [List.nil_append] at succeeds
  have fails {earlier account later fail} (parts : accounts = earlier ++ account :: later)
      (goesOn : ∀ account ∈ earlier, account.fate.stop? config.lenient = none)
      (stops : account.fate.stop? config.lenient = some fail) :=
    opened (parseElements_stops keeps records (parts ▸ looked) goesOn stops)
  refine ⟨succeeds, fun _ _ _ _ => fails, ⟨fun ⟨stored, after, ran⟩ => ?_, fun goesOn =>
    ⟨_, _, succeeds goesOn⟩⟩, ?_⟩
  · cases stop : accounts.findSome? (·.fate.stop? config.lenient) with
    | none => simpa using stop
    | some fail =>
        obtain ⟨earlier, account, later, parts, stops, goesOn⟩ := List.findSome?_eq_some_iff.mp stop
        cases (ran.unique (fails parts goesOn stops)).1
  · intro known own index account fail found failed
    obtain ⟨inside, rfl⟩ := List.getElem?_eq_some_iff.mp found
    have parts : accounts = accounts.take index ++ accounts[index] :: accounts.drop (index + 1) := by
      simp
    obtain ⟨done, item, rest, _, first, alone⟩ := (parts ▸ looked).split
    have position : 0 + done.length = index := by
      rw [← first.length_eq, List.length_take]
      omega
    rw [position] at alone
    exact liesIn_of_parseAlone own (parseLiesIn_parseTo known limit) alone failed

end Validation

namespace Nodes

theorem locates : world.Locates where
  types {id type} member := by
    match id, member with
    | 0, member =>
        have listed : type ∈ Catalogue.builtIn := member
        simp only [Catalogue.builtIn, List.mem_cons, List.not_mem_nil, or_false] at listed
        rcases listed with rfl | rfl | rfl | rfl <;> trivial
    | id + 1, member => simp [World.catalogue, world] at member
  fields {id compiled field} known member := by
    cases compiled_eq known
    simp only [fields, List.mem_cons, List.not_mem_nil, or_false] at member
    rcases member with rfl | rfl | rfl | rfl <;> trivial

/-- A node that goes on to something which is no node, something which is no node itself, and a node
as it stands. -/
def mixed : List Value := [ending, .mapping [], .ref 0]

def accounts : List Account :=
  [⟨.taken alone, [.warned "skipping nested object items[0].next.value - missing required property",
      .finished alone]⟩,
    ⟨.failed (.missing "items[1].value"), []⟩, ⟨.taken (.ref 0), []⟩]

end Nodes

open Validation in
/-- Of the three the middle one is left out, and named by its place in the input. -/
theorem collection_accounts_for_elements_nodes :
    (parseTo Nodes.world (Nodes.telling true) 5 (.bound .array .record) "items" (.list [.ref 0])
      (.list Nodes.mixed)).Yields [] (.ok (.list [Nodes.alone, .ref 0]))
        [.warned "skipping nested object items[0].next.value - missing required property",
          .finished Nodes.alone,
          .warned "skipping element items[1].value - missing required property"] ∧
    LiesIn "items[1]" "items[1].value" := by
  have stands (trace : Trace) : (Collection.array.first Nodes.world.heap (.list [.ref 0])).Yields
      trace (some (.ref 0)) trace := rfl
  have listed : Nodes.world.heap.iterate (.list Nodes.mixed) = .ok Nodes.mixed := rfl
  have looked : Accounts (parseTo Nodes.world (Nodes.telling true) 4) Nodes.world.heap .record
      (.ref 0) "items" .warned 0 Nodes.mixed [] Nodes.accounts :=
    .next rfl (.next rfl (.next rfl .none))
  obtain ⟨succeeds, _, _, places⟩ := collection_accounts_for_elements Collection.keeps_array stands
    listed (fun _ => rfl) looked
  refine ⟨succeeds ?_, places Nodes.locates trivial 1 ⟨.failed (.missing "items[1].value"), []⟩ _
    rfl rfl⟩
  simp [Nodes.accounts, Fate.stop?, Nodes.telling]

end Exemplar
