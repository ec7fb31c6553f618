import Exemplar.Proofs.Heredity
import Exemplar.Proofs.Membership
import Exemplar.Proofs.Restoring
import Exemplar.Proofs.Unfolding

/-!
What plain forms leave behind. Plain forms are made of mappings and lists, and what is neither a
record nor a container is left as it is; so are deques, with all that they hold. Keys have hashes
and hold no records, so of the records that validation builds none is left over but inside of
deques.
-/

namespace Exemplar

namespace Named

variable {α β : Type} {relation : α → β → Prop} {fields : Named α} {others : List β}

theorem relates_zip (each : List.Forall₂ relation (fields.map (·.2)) others) :
    Relates relation fields ((names fields).zip others) := by
  induction fields generalizing others with
  | nil =>
      cases each
      exact .nil
  | cons field rest ih =>
      cases each with
      | cons first later => exact .cons ⟨rfl, first⟩ (ih later)

end Named

namespace Heap

variable {heap : Heap} {value part plain inner : Value} {plains : List Value}
  {make : List Value → Value} {around : List Address} {levels : Nat}

/-- No key of a mapping holds a record. -/
def KeysPlain (heap : Heap) (shape : Value) : Prop :=
  ∀ entries, shape = .mapping entries → ∀ entry ∈ entries, heap.RecordFree entry.1

theorem keysPlain_of_ne {shape : Value} (other : ∀ entries, shape ≠ .mapping entries) :
    heap.KeysPlain shape :=
  fun entries same => absurd same (other entries)

theorem recordFree_of_parts (own : heap.isRecord value = false)
    (parts : ∀ part ∈ (heap.look value).parts, heap.RecordFree part) : heap.RecordFree value := by
  intro inner held
  cases held with
  | self => exact own
  | inside member held => exact parts _ member inner held

/-- Keys have hashes, and what has a hash holds no record. -/
theorem recordFree_of_hashTo {fuel hash : Nat} (hashed : heap.hashTo fuel value = .ok hash) :
    heap.RecordFree value := by
  induction fuel generalizing value hash with
  | zero => cases hashed
  | succ fuel ih =>
      have gathered (elements : List Value) (result : List Nat)
          (all : hashAll (heap.hashTo fuel) elements = .ok result) :
          ∀ part ∈ elements, heap.RecordFree part := by
        intro part member
        obtain ⟨_, -, known⟩ := exists_of_forall₂ (hashAll_iff.mp all) member
        exact ih known
      unfold hashTo at hashed
      cases shape : heap.look value with
      | tuple elements | frozenSet elements =>
          cases all : hashAll (heap.hashTo fuel) elements with
          | error fault => simp [shape, all] at hashed
          | ok result =>
              refine recordFree_of_parts (by rw [isRecord, shape]) fun part member => ?_
              rw [shape] at member
              exact gathered elements result all part member
      | list | set | deque | mapping | record => simp [shape, Value.quantity?] at hashed
      | _ => exact recordFree_of_no_parts (by rw [shape]; rfl) (by rw [isRecord, shape])

theorem lax_keysPlain : heap.Lax heap.KeysPlain where
  others shape _ other := by
    rintro entries rfl
    cases other
  objects fields := by
    intro entries same entry member
    cases same
    obtain ⟨field, -, rfl⟩ := List.mem_map.mp member
    exact recordFree_of_no_parts rfl rfl
  copies shape plain := by
    intro entries same entry member
    cases shape with
    | mapping originals =>
        cases same
        obtain ⟨original, known, rfl⟩ := mem_copiedEntries member
        exact (plain originals rfl original known).copied
    | _ => cases same
  deques _ _ _ := keysPlain_of_ne (by simp)
  entries entries key value plain := by
    intro grown same entry member
    cases same
    rcases (mem_setEntry member).1 with text | known
    · exact text ▸ recordFree_of_no_parts rfl rfl
    · obtain ⟨old, before, same⟩ := List.mem_map.mp known
      exact same ▸ plain entries rfl old before

theorem lax_noDeque : heap.Lax fun shape => Collection.isDeque shape = false where
  others _ other _ := other
  objects _ := rfl
  copies shape other := by
    cases shape <;> first | rfl | cases other
  deques _ _ other := nomatch other
  entries _ _ _ _ := rfl

/-- The inner value is met inside the outer one without going through a deque. -/
inductive Exposes (heap : Heap) : Value → Value → Prop
  | self {value : Value} : Exposes heap value value
  | inside {value part inner : Value} : Collection.isDeque (heap.look value) = false →
      part ∈ (heap.look value).parts → Exposes heap part inner → Exposes heap value inner

theorem Exposes.holds (exposes : heap.Exposes value inner) : heap.Holds value inner := by
  induction exposes with
  | self => exact .self
  | inside _ member _ ih => exact .inside member ih

theorem Holds.exposed (held : heap.Holds value inner)
    (without : heap.Everywhere (fun shape => Collection.isDeque shape = false) value) :
    heap.Exposes value inner := by
  induction held with
  | self => exact .self
  | inside member _ ih => exact .inside without.self member (ih (without.inside member))

/-- What other values take the place of the contents of has these for parts, and keys. -/
theorem part_of_regrouped {shape : Value} (regrouped : shape.regrouped? = some make)
    (member : part ∈ (make plains).parts) :
    part ∈ plains ∨ (∃ text, part = .text text) ∨
      ∃ entries, shape = .mapping entries ∧ part ∈ entries.map (·.1) := by
  have entered (keys : List Value) (member : part ∈ Value.interleave (keys.zip plains)) :
      part ∈ plains ∨ part ∈ keys := by
    obtain ⟨entry, known, rfl | rfl⟩ := Value.mem_interleave.mp member
    · exact .inr (List.of_mem_zip known).1
    · exact .inl (List.of_mem_zip known).2
  cases shape with
  | list | tuple | set | frozenSet =>
      cases regrouped
      exact .inl member
  | mapping entries =>
      cases regrouped
      exact (entered _ member).imp_right fun key => .inr ⟨entries, rfl, key⟩
  | record recordClass fields =>
      cases regrouped
      refine (entered _ member).imp_right fun key => .inl ?_
      obtain ⟨field, -, rfl⟩ := List.mem_map.mp key
      exact ⟨field.1, rfl⟩
  | _ => cases regrouped

theorem look_regrouped (heap : Heap) (plains : List Value) {shape : Value}
    (regrouped : shape.regrouped? = some make) :
    heap.look (make plains) = make plains ∧ heap.isRecord (make plains) = false ∧
      Collection.isDeque (make plains) = false := by
  cases shape <;> cases regrouped <;> exact ⟨rfl, rfl, rfl⟩

/-- A value that is left as it is, a deque apart, is made of nothing. -/
theorem parts_of_bare {shape : Value} (bare : shape.regrouped? = none)
    (other : Collection.isDeque shape = false) : shape.parts = [] := by
  cases shape with
  | deque => cases other
  | list | tuple | set | frozenSet | mapping | record => cases bare
  | _ => rfl

/-- What is met in what a value unfolds to without going through a deque is no record. -/
theorem Unfolds.exposes (unfolds : heap.Unfolds value plain)
    (keys : heap.Everywhere heap.KeysPlain value) (shown : heap.Exposes plain inner) :
    heap.isRecord inner = false := by
  induction unfolds with
  | bare shape =>
      cases shown with
      | self =>
          rw [isRecord_eq_false]
          intro recordClass fields record
          rw [record] at shape
          cases shape
      | inside other member _ =>
          rw [parts_of_bare shape other] at member
          cases member
  | @regrouped value make plains shape same _ ih =>
      obtain ⟨inPlace, plain, -⟩ := heap.look_regrouped plains shape
      cases shown with
      | self => exact plain
      | inside _ member shown =>
          rw [inPlace] at member
          rcases part_of_regrouped shape member with among | ⟨text, rfl⟩ | ⟨entries, mapping, key⟩
          · obtain ⟨content, held, pair⟩ := exists_content same among
            exact ih _ pair (keys.inside (Value.mem_parts_of_contents held)) shown
          · cases shown with
            | self => rfl
            | inside _ member _ => cases member
          · obtain ⟨entry, known, rfl⟩ := List.mem_map.mp key
            exact keys.self entries mapping entry known inner shown.holds

/-- Where no deque is met, none is met in what the value unfolds to. -/
theorem Unfolds.without_deques (unfolds : heap.Unfolds value plain)
    (without : heap.Everywhere (fun shape => Collection.isDeque shape = false) value) :
    heap.Everywhere (fun shape => Collection.isDeque shape = false) plain := by
  induction unfolds with
  | bare => exact without
  | @regrouped value make plains shape same _ ih =>
      obtain ⟨inPlace, -, other⟩ := heap.look_regrouped plains shape
      refine everywhere_of_parts (inPlace.symm ▸ other) fun part member => ?_
      rw [inPlace] at member
      rcases part_of_regrouped shape member with among | ⟨text, rfl⟩ | ⟨entries, mapping, key⟩
      · obtain ⟨content, held, pair⟩ := exists_content same among
        exact ih _ pair (without.inside (Value.mem_parts_of_contents held))
      · exact everywhere_of_bare rfl rfl
      · exact without.inside (mapping.symm ▸ Value.mem_interleave_of_key key)

/-- What does not go round in circles has a plain form. -/
theorem exists_plainTo (within : heap.Within levels value) (away : heap.AwayFrom around value) :
    ∃ plain, heap.plainTo levels around value = .ok plain := by
  induction levels generalizing around value with
  | zero => exact within.elim
  | succ levels ih =>
      have step := plainStep heap levels around value
      generalize heap.plainTo (levels + 1) around value = result at step ⊢
      cases step with
      | bare => exact ⟨_, rfl⟩
      | again _ known member => exact absurd member (away value _ .self known)
      | inside =>
          have each : ∀ part ∈ (heap.look value).contents, ∃ plain,
              heap.plainTo levels (heap.enteringRecord around value) part = .ok plain := by
            intro part held
            have member := Value.mem_parts_of_contents held
            refine ih (within part member) ?_
            unfold enteringRecord
            split
            · exact away.enter within member
            · exact away.inside member
          obtain ⟨plains, all⟩ := exists_forall₂ each
          exact ⟨_, map_eq_ok.mpr ⟨plains, plainAll_ok.mpr all, rfl⟩⟩

theorem exists_plain (finite : heap.Finite value) : ∃ plain, heap.plain value = .ok plain :=
  exists_plainTo finite.within_circuit awayFrom_nil

end Heap

/-- What the collection builds is a list or a set. -/
def Collection.ListLike (heap : Heap) (collection : Collection) : Prop :=
  collection.Makes heap (fun _ => True) fun made => (heap.gathering? made).isSome = true

namespace Collection

variable {heap : Heap}

theorem listLike_array : array.ListLike heap where
  empty ran := by
    obtain ⟨rfl, -⟩ := Run.yields_pure.mp ran
    rfl
  insert sofar _ ran := by
    change (append heap _ _).Yields _ _ _ at ran
    unfold append at ran
    split at ran
    next =>
      obtain ⟨rfl, -⟩ := Run.yields_pure.mp ran
      rfl
    next shape => simp [Heap.gathering?, shape] at sofar
    next => simp at ran

end Collection

namespace Validation

variable {world : World} {config : Configuration} {collection : Collection} {field : Field}
  {path : String} {entries : List (Value × Value)} {value : Value} {before after : Trace}

theorem not_settled_of_collection {type : ValueType} {element : Option ValueType} {sample : Value}
    (gathers : OfCollection type collection element) :
    ¬ (type.fit world.heap value sample).Yields before .settled after := by
  intro fit
  have collected : collection.fit world.heap value = .settled := by
    cases gathers <;> exact (Run.yields_pure.mp fit).1.symm
  simp only [Collection.fit] at collected
  split at collected <;> cases collected

theorem gathering_of_parseTo {type : ValueType} {element : Option ValueType} {limit : Nat}
    {sample parsed : Value} (gathers : OfCollection type collection element)
    (listLike : collection.ListLike world.heap)
    (ran : (parseTo world config limit type path sample value).Yields before (.ok parsed) after) :
    (world.heap.gathering? parsed).isSome = true := by
  have made {below dropped : Nat}
      (collects : Collects (parseTo world config below) world config collection element path sample
        value before (.ok parsed) dropped after) :
      (world.heap.gathering? parsed).isSome = true :=
    made_of_collects listLike (fun _ _ _ => trivial) (fun _ _ _ _ _ _ _ _ _ => trivial) collects
  cases gathers with
  | unbound =>
      obtain ⟨below, dropped, -, collects⟩ := parseTo_unbound ran
      exact made collects
  | bound =>
      obtain ⟨below, dropped, -, collects⟩ := parseTo_bound ran
      exact made collects

/-- Input for a field that makes lists or sets becomes a list or a set. -/
theorem gathering_of_settles {limit : Nat} {element : Option ValueType}
    (gathers : OfCollection field.type collection element)
    (listLike : collection.ListLike world.heap)
    (settles : Settles (parseTo world config limit) world config field path entries before
      (.stored value) after) :
    (world.heap.gathering? value).isSome = true := by
  cases settles with
  | unsought sought => cases sought
  | settled admitted =>
      obtain ⟨-, fit, -⟩ := admitted
      exact absurd fit (not_settled_of_collection gathers)
  | parsed _ parsed => exact gathering_of_parseTo gathers listLike parsed

end Validation

namespace Heap

variable {heap : Heap} {value plain : Value} {fields : Named Value} {recordClass : RecordClass}

theorem Unfolds.list (unfolds : heap.Unfolds value plain)
    (gathered : (heap.gathering? value).isSome = true) : ∃ elements, plain = .list elements := by
  cases unfolds with
  | bare shape =>
      unfold gathering? at gathered
      cases found : heap.look value <;> simp_all [Value.regrouped?]
  | regrouped shape =>
      unfold gathering? at gathered
      cases found : heap.look value <;> simp_all [Value.regrouped?]

/-- A record unfolds to the mapping from the names of its fields to what their values unfold to. -/
theorem Unfolds.record (unfolds : heap.Unfolds value plain)
    (shape : heap.look value = .record recordClass fields) :
    ∃ plains, plain = .object plains ∧ Named.Relates heap.Unfolds fields plains := by
  cases unfolds with
  | bare bare =>
      rw [shape] at bare
      cases bare
  | @regrouped _ make plains regrouped same each =>
      rw [shape] at regrouped same each
      cases regrouped
      refine ⟨(Named.names fields).zip plains, ?_, ?_⟩
      · simp [Value.object, Named.names, List.zip_map_left, List.map_map, Function.comp_def]
      · exact Named.relates_zip (List.forall₂_iff_zip.mpr ⟨same, fun member => each _ member⟩)

end Heap

/-- Of a record without circles that validation builds from a document, the plain form leaves no
record over but inside of deques, and none at all where nothing makes deques; fields that make lists
or sets come out as lists. -/
theorem plain_of_validated {world : World} {config : Configuration} {root : SchemaId}
    {compiled : Compiled} {location : String} {data record : Value} {before after : Trace}
    (tree : world.Lawful config world.heap.KeysPlain root)
    (identity : config.finisher.finish = Finisher.identity.finish)
    (known : (world.schema root).compiled = some compiled) (json : world.heap.Json data)
    (ran : (world.validateAt config (world.schema root) location data).Yields before (.ok record)
      after)
    (acyclic : world.heap.Finite record) :
    ∃ plains, world.heap.plain record = .ok (.object plains) ∧
      (∀ inner, world.heap.Exposes (.object plains) inner → world.heap.isRecord inner = false) ∧
      (world.Lawful config (fun shape => Collection.isDeque shape = false) root →
        world.heap.RecordFree (.object plains)) ∧
      ∀ entry ∈ plains, ∃ field ∈ compiled.fields, field.name = entry.1 ∧
        ∀ collection element, Validation.OfCollection field.type collection element →
          collection.ListLike world.heap → ∃ elements, entry.2 = .list elements := by
  have lawful {law : Value → Prop} (lax : world.heap.Lax law)
      (tree : world.Lawful config law root) : world.heap.Everywhere law record :=
    Validation.everywhere_of_validateWith lax tree
      (Validation.parseLawful_parseTo lax tree identity _) identity .root (json.everywhere lax) ran
  have keys := lawful Heap.lax_keysPlain tree
  obtain ⟨plain, made⟩ := Heap.exists_plain acyclic
  have unfolds := Heap.unfolds_of_plainTo made
  have exposes (inner : Value) (exposed : world.heap.Exposes plain inner) :
      world.heap.isRecord inner = false := unfolds.exposes keys exposed
  cases Validation.validates_of_validateWith ran with
  | settled shape =>
      have bare := json.isRecord
      simp [Heap.isRecord, shape] at bare
  | @built compiled' entries fields _ _ _ known' _ fills finished =>
      cases known.symm.trans known'
      rw [identity] at finished
      obtain ⟨rfl, -⟩ := Run.yields_pure.mp finished
      obtain ⟨plains, rfl, relates⟩ := unfolds.record rfl
      refine ⟨plains, made, exposes, ?_, ?_⟩
      · intro without inner held
        exact exposes inner
          (held.exposed (unfolds.without_deques (lawful Heap.lax_noDeque without)))
      · have placed : List.Forall₂ (fun first second => first ∈ fields ∧ first.1 = second.1 ∧
            world.heap.Unfolds first.2 second.2) fields plains :=
          forall₂_imp_mem relates fun _ member _ _ pair => ⟨member, pair⟩
        refine forall_mem_of_forall₂ placed fun stored entry found => ?_
        obtain ⟨member, same, unfolds⟩ := found
        obtain ⟨field, declared, named, _, _, _, settles⟩ := fills.settles stored member
        exact ⟨field, declared, named.trans same, fun _ _ gathers listLike =>
          unfolds.list (Validation.gathering_of_settles gathers listLike settles)⟩

/-! Boxes of items, which are kept in a list or in a deque. -/

namespace Boxes

def itemClass : RecordClass := ⟨1, "Item", [1, 0]⟩

def boxClass : RecordClass := ⟨2, "Box", [2, 0]⟩

def heap (wrap : List Value → Value) : Heap :=
  ⟨#[.record itemClass [("number", .int 0)], wrap [.ref 0], .list [.text ""],
    .record boxClass [("items", .ref 1), ("tags", .ref 2)]]⟩

def itemFields : List Field :=
  [⟨"number", { sample := .int 0 }, .int 0, .primitive .fallback, []⟩]

def boxFields (collection : Collection) : List Field :=
  [⟨"items", { sample := .ref 1 }, .ref 1, .bound collection .record, []⟩,
    ⟨"tags", { sample := .ref 2 }, .ref 2, .bound .array (.primitive .fallback), []⟩]

def itemSchema : Schema where
  recordClass := itemClass
  body := [("number", { sample := .int 0 })]
  declarations := [("number", { sample := .int 0 })]
  ancestry := [1, 0]
  config := none
  compiled := some (.of itemFields 0 (.ref 0))

def boxSchema (collection : Collection) : Schema where
  recordClass := boxClass
  body := [("items", { sample := .ref 1 }), ("tags", { sample := .ref 2 })]
  declarations := [("items", { sample := .ref 1 }), ("tags", { sample := .ref 2 })]
  ancestry := [2, 0]
  config := none
  compiled := some (.of (boxFields collection) 0 (.ref 3))

def world (wrap : List Value → Value) (collection : Collection) (catalogue : Catalogue) :
    World where
  heap := heap wrap
  schemas := #[.root, itemSchema, boxSchema collection]
  configs := #[{ catalogue := 0 }]
  catalogues := #[catalogue]
  default := 0

/-- Items in a deque. -/
def loose : World := world .deque .deque (.unbound .deque :: Catalogue.builtIn)

/-- Items in a list. -/
def neat : World := world .list .array Catalogue.builtIn

def data : Value :=
  .mapping [(.text "items", .list [.mapping [(.text "number", .int 7)]]),
    (.text "tags", .list [.text "new"])]

def item : Value := .record itemClass [("number", .int 7)]

def box (wrap : List Value → Value) : Value :=
  .record boxClass [("items", wrap [item]), ("tags", .list [.text "new"])]

variable {wrap : List Value → Value} {collection : Collection} {catalogue : Catalogue}

theorem of_fields (property : Field → Prop) (items : ∀ field ∈ itemFields, property field)
    (boxes : ∀ field ∈ boxFields collection, property field) {id : SchemaId} {compiled : Compiled}
    {field : Field} (known : ((world wrap collection catalogue).schema id).compiled = some compiled)
    (member : field ∈ compiled.fields) : property field := by
  match id, known with
  | 0, known => cases known
  | 1, known =>
      cases known
      exact items field member
  | 2, known =>
      cases known
      exact boxes field member
  | id + 3, known =>
      have outside : (world wrap collection catalogue).schema (id + 3) = Schema.root := rfl
      rw [outside] at known
      cases known

theorem lawful {law : Value → Prop} (lax : (heap wrap).Lax law) (flat : (heap wrap).Flat)
    (wrapped : law (wrap [.ref 0])) (builds : collection.Builds (heap wrap) law)
    (registered : ∀ type ∈ catalogue, type.BuiltOf (Collection.Builds (heap wrap) law)) :
    (world wrap collection catalogue).Lawful ⟨true, .log, .identity, .identity, 0⟩ law 2 where
  registered := registered
  types _ known member := by
    refine of_fields (·.type.BuiltOf (Collection.Builds (heap wrap) law)) ?_ ?_ known member
    · simp only [itemFields, List.forall_mem_cons, List.not_mem_nil, false_implies, implies_true,
        and_true]
      exact .primitive
    · simp only [boxFields, List.forall_mem_cons, List.not_mem_nil, false_implies, implies_true,
        and_true]
      exact ⟨.bound builds .record, .bound (Collection.builds_array lax) .primitive⟩
  samples _ known member := by
    have cells : ∀ shape ∈ (heap wrap).cells.toList, law shape := by
      simp only [heap, List.forall_mem_cons, List.not_mem_nil, false_implies, implies_true,
        and_true]
      exact ⟨lax.others _ rfl rfl, wrapped, lax.others _ rfl rfl, lax.others _ rfl rfl⟩
    refine of_fields (fun field => (heap wrap).Everywhere law field.sample) ?_ ?_ known member <;>
      simp only [itemFields, boxFields, List.forall_mem_cons, List.not_mem_nil, false_implies,
        implies_true, and_true]
    · exact Heap.everywhere_of_cells lax flat cells trivial
    · exact ⟨Heap.everywhere_of_cells lax flat cells trivial,
        Heap.everywhere_of_cells lax flat cells trivial⟩
  fallbacks {_ _ field _} _ known member declared := by
    have bare : field.declaration.fallback = none := by
      refine of_fields (·.declaration.fallback = none) ?_ ?_ known member <;>
        simp [itemFields, boxFields]
    rw [bare] at declared
    cases declared

theorem json (heap : Heap) : heap.Json data := by
  have number : heap.Json (.mapping [(.text "number", .int 7)]) :=
    .object (show heap.look _ = .object [("number", .int 7)] from rfl) (by decide)
      (List.forall_mem_singleton.mpr (.scalar rfl))
  have shape : heap.look data = .object [("items", .list [.mapping [(.text "number", .int 7)]]),
      ("tags", .list [.text "new"])] := rfl
  refine .object shape (by decide) ?_
  simp only [List.forall_mem_cons, List.not_mem_nil, false_implies, implies_true, and_true]
  exact ⟨.list rfl (List.forall_mem_singleton.mpr number),
    .list rfl (List.forall_mem_singleton.mpr (.scalar rfl))⟩

theorem finite_box : (heap .deque).Finite (box .deque) ∧ (heap .list).Finite (box .list) := by
  constructor <;> exact ⟨4, by simp [Heap.Within, Heap.look, box, item, Value.parts]⟩

/-- A registry with a type for deques, a field compiled with it and a document for the field: the
item is still a record in the plain form of the box. -/
theorem item_left_over :
    ∃ record plain after,
      (∀ field ∈ boxFields .deque,
        field.CompiledBy (.unbound .deque :: Catalogue.builtIn) loose.heap) ∧
      loose.heap.Json data ∧
      (loose.validateAt (loose.config 0) (loose.schema 2) "" data).Yields [] (.ok record) after ∧
      loose.heap.Finite record ∧ loose.heap.plain record = .ok plain ∧
      ¬ loose.heap.RecordFree plain := by
  refine ⟨box .deque, .object [("items", .deque [item]), ("tags", .list [.text "new"])], [], ?_,
    json _, rfl, finite_box.1, rfl, ?_⟩
  · simp only [boxFields, List.forall_mem_cons, List.not_mem_nil, false_implies, implies_true,
      and_true]
    exact ⟨⟨[], [], rfl⟩, ⟨[], [], rfl⟩⟩
  · intro free
    have held : loose.heap.Holds (.object [("items", .deque [item]), ("tags", .list [.text "new"])])
        item :=
      .inside (Value.mem_parts_object.mpr ⟨_, List.mem_cons_self, .inr rfl⟩)
        (.inside (List.mem_singleton.mpr rfl) .self)
    have other := free item held
    cases other

/-- Of a box of items in a deque only the items in it are left over, of one of items in a list
nothing, and both of its fields come out as lists. -/
theorem plain_of_validated_boxes :
    (∃ plains, loose.heap.plain (box .deque) = .ok (.object plains) ∧
      ∀ inner, loose.heap.Exposes (.object plains) inner → loose.heap.isRecord inner = false) ∧
    ∃ plains, neat.heap.plain (box .list) = .ok (.object plains) ∧
      neat.heap.RecordFree (.object plains) ∧
      ∀ entry ∈ plains, ∃ elements, entry.2 = .list elements := by
  have deques : (heap .deque).Flat :=
    Heap.flat_of_cells (by simp [heap, Value.parts, Value.Stored])
  have lists : (heap .list).Flat := Heap.flat_of_cells (by simp [heap, Value.parts, Value.Stored])
  have kept : (heap .deque).Lax (heap .deque).KeysPlain := Heap.lax_keysPlain
  have builds : Collection.deque.Builds (heap .deque) (heap .deque).KeysPlain :=
    Collection.builds_deque kept (Heap.keysPlain_of_ne (by simp))
  have keys : (heap .list).Lax (heap .list).KeysPlain := Heap.lax_keysPlain
  have none : (heap .list).Lax fun shape => Collection.isDeque shape = false := Heap.lax_noDeque
  obtain ⟨plains, made, exposes, -, -⟩ := plain_of_validated
    (lawful kept deques (Heap.keysPlain_of_ne (by simp)) builds
      (List.forall_mem_cons.mpr ⟨.unbound builds, Catalogue.builtOf_builtIn kept⟩))
    rfl rfl (json loose.heap)
    (show (loose.validateAt (loose.config 0) (loose.schema 2) "" data).Yields []
      (.ok (box .deque)) [] from rfl) finite_box.1
  obtain ⟨others, plain, -, free, gathered⟩ := plain_of_validated
    (lawful keys lists (Heap.keysPlain_of_ne (by simp)) (Collection.builds_array keys)
      (Catalogue.builtOf_builtIn keys))
    rfl rfl (json neat.heap)
    (show (neat.validateAt (neat.config 0) (neat.schema 2) "" data).Yields []
      (.ok (box .list)) [] from rfl) finite_box.2
  refine ⟨⟨plains, made, exposes⟩, others, plain,
    free (lawful none lists rfl (Collection.builds_array none) (Catalogue.builtOf_builtIn none)),
    fun entry member => ?_⟩
  obtain ⟨field, declared, -, list⟩ := gathered entry member
  have array : ∃ element, field.type = .bound .array element := by
    simp only [boxFields, List.mem_cons, List.not_mem_nil, or_false] at declared
    rcases declared with rfl | rfl <;> exact ⟨_, rfl⟩
  obtain ⟨element, array⟩ := array
  exact list .array (some element) (array ▸ .bound) Collection.listLike_array

end Boxes

end Exemplar
