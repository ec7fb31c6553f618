import Exemplar.Proofs.Circles
import Exemplar.Proofs.Relocation

/-!
Laws of all that is met inside values. What validation makes of input holds to a law throughout if
all that goes into it does: the input, what collections build of lawful values, and the samples and
fallbacks in the tree of the schema. The laws are those that tell deques and keys apart; documents
hold to each of them.
-/

namespace Exemplar

namespace Heap

variable {heap : Heap} {law other : Value → Prop} {value part plain : Value}
  {elements : List Value} {entries : List (Value × Value)}

/-- The law holds of the value and of all that is met inside it. -/
def Everywhere (heap : Heap) (law : Value → Prop) (value : Value) : Prop :=
  ∀ inner, heap.Holds value inner → law (heap.look inner)

theorem Everywhere.self (everywhere : heap.Everywhere law value) : law (heap.look value) :=
  everywhere value .self

theorem Everywhere.inside (everywhere : heap.Everywhere law value)
    (member : part ∈ (heap.look value).parts) : heap.Everywhere law part :=
  fun inner held => everywhere inner (.inside member held)

theorem everywhere_of_parts (own : law (heap.look value))
    (parts : ∀ part ∈ (heap.look value).parts, heap.Everywhere law part) :
    heap.Everywhere law value := by
  intro inner held
  cases held with
  | self => exact own
  | inside member held => exact parts _ member inner held

theorem everywhere_of_bare (own : law (heap.look value)) (bare : (heap.look value).parts = []) :
    heap.Everywhere law value :=
  everywhere_of_parts own fun part member => by rw [bare] at member; cases member

section Copies

theorem mem_copiedEntries {entry : Value × Value} (member : entry ∈ Value.copiedEntries entries) :
    ∃ original ∈ entries, entry = (original.1.copied, original.2.copied) := by
  induction entries with
  | nil => cases member
  | cons first rest ih =>
      rcases List.mem_cons.mp member with rfl | later
      · exact ⟨first, by simp, rfl⟩
      · obtain ⟨original, known, same⟩ := ih later
        exact ⟨original, List.mem_cons_of_mem first known, same⟩

theorem look_of_copied (value : Value) :
    heap.look value.copied = heap.look value ∨
      heap.look value.copied = (heap.look value).copied := by
  by_cases copy : ∃ index, value = .copy index
  · obtain ⟨index, rfl⟩ := copy
    exact .inl rfl
  · exact .inr (look_copied fun index same => copy ⟨index, same⟩)

/-- What is met inside a copy is met inside the original, or is a copy of that. -/
theorem holds_copied (held : heap.Holds value.copied part) :
    ∃ original, heap.Holds value original ∧ (part = original ∨ part = original.copied) := by
  generalize start : value.copied = copy at held
  induction held generalizing value with
  | self => exact ⟨value, .self, .inr start.symm⟩
  | inside member held ih =>
      subst start
      rcases heap.look_of_copied value with same | same
      · rw [same] at member
        exact ⟨_, .inside member held, .inl rfl⟩
      · rw [same, Value.parts_copied] at member
        obtain ⟨first, known, rfl⟩ := List.mem_map.mp member
        obtain ⟨original, inside, either⟩ := ih rfl
        exact ⟨original, .inside known inside, either⟩

theorem Everywhere.copied (everywhere : heap.Everywhere law value)
    (copies : ∀ shape, law shape → law shape.copied) : heap.Everywhere law value.copied := by
  intro inner held
  obtain ⟨original, inside, rfl | rfl⟩ := holds_copied held
  · exact everywhere inner inside
  · rcases heap.look_of_copied original with same | same
    · exact same ▸ everywhere original inside
    · exact same ▸ copies _ (everywhere original inside)

theorem RecordFree.copied (free : heap.RecordFree value) : heap.RecordFree value.copied := by
  have shaped (value : Value) (other : heap.isRecord value = false) :
      heap.isRecord value.copied = false := by
    rw [isRecord_eq_false] at other ⊢
    intro recordClass fields shape
    rcases heap.look_of_copied value with same | same
    · exact other recordClass fields (same ▸ shape)
    · cases original : heap.look value with
      | record other' fields' => exact other other' fields' original
      | _ => rw [same, original] at shape; cases shape
  intro inner held
  obtain ⟨original, inside, rfl | rfl⟩ := holds_copied held
  · exact free inner inside
  · exact shaped original (free original inside)

end Copies

/-- A law that tells values apart by what deques they are and by what keys they have only, and that
allows for texts as keys. -/
structure Lax (heap : Heap) (law : Value → Prop) : Prop where
  others : ∀ shape, Collection.isDeque shape = false → Collection.isMapping shape = false →
    law shape
  objects : ∀ fields, law (.object fields)
  copies : ∀ shape, law shape → law shape.copied
  deques : ∀ elements more, law (.deque elements) → law (.deque more)
  entries : ∀ entries key value, law (.mapping entries) →
    law (.mapping (heap.setEntry (.text key) value entries))

theorem Json.everywhere (json : heap.Json value) (lax : heap.Lax law) :
    heap.Everywhere law value := by
  induction json with
  | @scalar value single =>
      have shape : heap.look value = value := look_of_isScalar single
      have bare : value.parts = [] := by cases value <;> first | rfl | cases single
      have own : law value := by
        refine lax.others _ ?_ ?_ <;> cases value <;> first | rfl | cases single
      exact everywhere_of_parts (shape.symm ▸ own) (by simp [shape, bare])
  | list shape _ ih =>
      refine everywhere_of_parts (shape ▸ lax.others _ rfl rfl) fun part member => ?_
      rw [shape] at member
      exact ih part member
  | object shape _ _ ih =>
      refine everywhere_of_parts (shape ▸ lax.objects _) fun part member => ?_
      rw [shape, Value.mem_parts_object] at member
      obtain ⟨field, known, rfl | rfl⟩ := member
      · exact everywhere_of_bare (lax.others _ rfl rfl) rfl
      · exact ih field known

/-- Where every cell holds to the law, so does all that is stored. -/
theorem everywhere_of_cells (lax : heap.Lax law) (flat : heap.Flat)
    (cells : ∀ shape ∈ heap.cells.toList, law shape) (stored : value.Stored) :
    heap.Everywhere law value := by
  intro inner held
  induction held with
  | @self value =>
      cases value with
      | ref index =>
          rcases heap.mem_cells_or_null index with known | bare
          · exact cells _ known
          · exact lax.others _ (by rw [look_ref, bare]; rfl) (by rw [look_ref, bare]; rfl)
      | list | tuple | set | frozenSet | deque | mapping | record | copy =>
          exact absurd stored not_false
      | _ => exact lax.others _ rfl rfl
  | @inside value part inner member _ ih =>
      rcases eq_ref_or_bare stored with ⟨index, rfl⟩ | bare
      · exact ih (flat index part member)
      · rw [bare heap] at member
        cases member

theorem everywhere_of_iterate {values : List Value} (lax : heap.Lax law)
    (everywhere : heap.Everywhere law value) (listed : heap.iterate value = .ok values) :
    ∀ member ∈ values, heap.Everywhere law member := by
  intro member present
  unfold iterate elements? at listed
  cases shape : heap.look value <;> simp only [shape] at listed <;> cases listed
  case text =>
    obtain ⟨_, _, rfl⟩ := List.mem_map.mp present
    exact everywhere_of_bare (lax.others _ rfl rfl) rfl
  case bytes =>
    obtain ⟨_, _, rfl⟩ := List.mem_map.mp present
    exact everywhere_of_bare (lax.others _ rfl rfl) rfl
  case mapping entries =>
    exact everywhere.inside (shape ▸ Value.mem_interleave_of_key present)
  all_goals exact everywhere.inside (shape ▸ present)

/-- An entry of what comes of storing under a text has the text or an old key, and what is stored or
an old value. -/
theorem mem_setEntry {key : String} {entry : Value × Value} {entries : List (Value × Value)}
    (member : entry ∈ heap.setEntry (.text key) value entries) :
    (entry.1 = .text key ∨ entry.1 ∈ entries.map (·.1)) ∧
      (entry.2 = value ∨ entry.2 ∈ entries.map (·.2)) := by
  induction entries with
  | nil =>
      cases List.mem_singleton.mp member
      exact ⟨.inl rfl, .inl rfl⟩
  | cons first rest ih =>
      have kept (later : entry ∈ first :: rest) :
          entry.1 ∈ (first :: rest).map (·.1) ∧ entry.2 ∈ (first :: rest).map (·.2) :=
        ⟨List.mem_map_of_mem later, List.mem_map_of_mem later⟩
      unfold setEntry at member
      split at member
      · rcases List.mem_cons.mp member with rfl | later
        · exact ⟨.inr (by simp), .inl rfl⟩
        · exact (kept (List.mem_cons_of_mem first later)).imp .inr .inr
      · rcases List.mem_cons.mp member with rfl | later
        · exact ⟨.inr (by simp), .inr (by simp)⟩
        · exact (ih later).imp (Or.imp_right (List.mem_cons_of_mem first.1))
            (Or.imp_right (List.mem_cons_of_mem first.2))

end Heap

/-- The collection comes to values of one kind, as long as values of another go into it. -/
structure Collection.Makes (heap : Heap) (offered made : Value → Prop) (collection : Collection) :
    Prop where
  empty : ∀ {before value after}, collection.empty.Yields before value after → made value
  insert : ∀ {gathered value before next after}, made gathered → offered value →
    (collection.insert heap gathered value).Yields before next after → made next

/-- What the collection builds holds to the law if what goes into it does. -/
def Collection.Builds (heap : Heap) (law : Value → Prop) (collection : Collection) : Prop :=
  collection.Makes heap (heap.Everywhere law) (heap.Everywhere law)

/-- The type comes with the library, or is that of a collection that holds to the law, of elements
of such a type. -/
inductive ValueType.BuiltOf (law : Collection → Prop) : ValueType → Prop
  | primitive {type} : BuiltOf law (.primitive type)
  | record : BuiltOf law .record
  | bigInteger : BuiltOf law .bigInteger
  | unbound {collection} : law collection → BuiltOf law (.unbound collection)
  | bound {collection element} : law collection → BuiltOf law element →
      BuiltOf law (.bound collection element)

theorem ValueType.BuiltOf.own {law : Collection → Prop} {type : ValueType} {collection : Collection}
    {element : Option ValueType} (built : type.BuiltOf law)
    (gathers : Validation.OfCollection type collection element) : law collection := by
  cases gathers with
  | unbound =>
      cases built with
      | unbound own => exact own
  | bound =>
      cases built with
      | bound own _ => exact own

theorem Catalogue.Binds.builtOf {law : Collection → Prop} {catalogue : Catalogue} {heap : Heap}
    {type bound : ValueType} {sample : Value} (binds : catalogue.Binds heap type sample bound)
    (registered : ∀ type ∈ catalogue, type.BuiltOf law) (start : type.BuiltOf law) :
    bound.BuiltOf law := by
  induction binds with
  | plain _ | bare _ _ => exact start
  | element gathers _ member _ ih => exact .bound (start.own gathers) (ih (registered _ member))

open Validation

/-- All that the tree of a schema brings along holds to the law: what its collections build, and its
samples and fallbacks. -/
structure World.Lawful (world : World) (config : Configuration) (law : Value → Prop)
    (root : SchemaId) : Prop where
  registered : ∀ type ∈ world.catalogue config.catalogue,
    type.BuiltOf (Collection.Builds world.heap law)
  types : ∀ {id compiled field}, InTree world config root id →
    (world.schema id).compiled = some compiled → field ∈ compiled.fields →
    field.type.BuiltOf (Collection.Builds world.heap law)
  samples : ∀ {id compiled field}, InTree world config root id →
    (world.schema id).compiled = some compiled → field ∈ compiled.fields →
    world.heap.Everywhere law field.sample
  fallbacks : ∀ {id compiled field fallback}, InTree world config root id →
    (world.schema id).compiled = some compiled → field ∈ compiled.fields →
    field.declaration.fallback = some fallback → world.heap.Everywhere law fallback

namespace Validation

open Heap

variable {world : World} {config : Configuration} {law : Value → Prop} {root : SchemaId}
  {parse : Parse} {collection : Collection} {type : ValueType} {sample value : Value}
  {path : String} {before after : Trace}

/-- The tree of the root comes to parse by this type, with this sample. -/
structure Provided (world : World) (config : Configuration) (law : Value → Prop) (root : SchemaId)
    (type : ValueType) (sample : Value) : Prop where
  built : type.BuiltOf (Collection.Builds world.heap law)
  inTree : ∀ {id}, Involves world config type sample id → InTree world config root id

theorem Provided.element {inner : ValueType} {element : Option ValueType} {representative : Value}
    {first looked bound named : Trace} (provided : Provided world config law root type sample)
    (lawful : world.Lawful config law root) (gathers : OfCollection type collection element)
    (found : (collection.first world.heap sample).Yields first (some representative) looked)
    (resolved : (elementType world config element representative).Yields bound inner named) :
    Provided world config law root inner representative := by
  have deeper {id : SchemaId} (involves : Involves world config inner representative id) :
      InTree world config root id :=
    provided.inTree (.element gathers found resolved involves)
  cases gathers with
  | unbound =>
      obtain ⟨type, member, binds⟩ := Catalogue.binds_of_typeFor resolved
      exact ⟨binds.builtOf lawful.registered (lawful.registered type member), deeper⟩
  | bound =>
      obtain ⟨rfl, _⟩ := Run.yields_pure.mp resolved
      cases provided.built with
      | bound _ inner => exact ⟨inner, deeper⟩

/-- What is parsed from lawful values is lawful. -/
def ParseLawful (world : World) (config : Configuration) (law : Value → Prop) (root : SchemaId)
    (parse : Parse) : Prop :=
  ∀ {type path sample value before parsed after}, Provided world config law root type sample →
    world.heap.Everywhere law value →
    (parse type path sample value).Yields before (.ok parsed) after →
    world.heap.Everywhere law parsed

section Collecting

variable {offered made : Value → Prop} {values : List Value} {gathered result : Value}

theorem made_of_insertAll (makes : collection.Makes world.heap offered made)
    (each : ∀ member ∈ values, offered member) (sofar : made gathered)
    (ran : (insertAll world.heap collection gathered values).Yields before (.ok result) after) :
    made result := by
  induction values generalizing gathered before with
  | nil =>
      obtain ⟨same, _⟩ := Run.yields_pure.mp ran
      cases same
      exact sofar
  | cons value rest ih =>
      simp only [List.forall_mem_cons] at each
      obtain ⟨next, middle, inserted, ran⟩ := Run.yields_bind.mp ran
      exact ih each.2 (makes.insert sofar each.1 inserted) ran

theorem made_of_passes {element : ValueType} {index dropped : Nat}
    (makes : collection.Makes world.heap offered made)
    (each : ∀ member ∈ values, offered member)
    (parses : ∀ member ∈ values, ∀ {place before parsed after},
      (parse element place sample member).Yields before (.ok parsed) after → offered parsed)
    (sofar : made gathered)
    (passes : Passes parse world.heap config collection element sample path index gathered values
      before (.ok result) dropped after) :
    made result := by
  induction values generalizing index gathered before dropped with
  | nil =>
      cases passes
      exact sofar
  | cons value rest ih =>
      simp only [List.forall_mem_cons] at each parses
      cases passes with
      | settled _ inserted passes =>
          exact ih each.2 parses.2 (makes.insert sofar each.1 inserted) passes
      | parsed _ parsed inserted passes =>
          exact ih each.2 parses.2 (makes.insert sofar (parses.1 parsed) inserted) passes
      | skipped _ _ _ _ passes => exact ih each.2 parses.2 sofar passes

/-- What a collection comes to is told from what its elements come to. -/
theorem made_of_collects {element : Option ValueType} {dropped : Nat}
    (makes : collection.Makes world.heap offered made)
    (listed : ∀ {values}, world.heap.iterate value = .ok values →
      ∀ member ∈ values, offered member)
    (parses : ∀ {first representative looked bound inner named},
      (collection.first world.heap sample).Yields first (some representative) looked →
      (elementType world config element representative).Yields bound inner named →
      ∀ {member place before parsed after}, offered member →
        (parse inner place representative member).Yields before (.ok parsed) after →
        offered parsed)
    (collects : Collects parse world config collection element path sample value before (.ok result)
      dropped after) :
    made result := by
  cases collects with
  | unchecked emptied _ through inserted =>
      exact made_of_insertAll makes (listed through) (makes.empty emptied) inserted
  | @passed _ _ representative looked inner named _ _ _ _ emptied found resolved through passes =>
      have elements :
          (elementType world config element representative).Yields looked inner named := by
        cases element <;> exact resolved
      exact made_of_passes makes (listed through)
        (fun member known => parses found elements (listed through member known))
        (makes.empty emptied) passes

end Collecting

theorem everywhere_of_collects {element : Option ValueType} {dropped : Nat} {result : Value}
    (lax : world.heap.Lax law) (tree : world.Lawful config law root)
    (lawful : ParseLawful world config law root parse)
    (provided : Provided world config law root type sample)
    (gathers : OfCollection type collection element)
    (everywhere : world.heap.Everywhere law value)
    (collects : Collects parse world config collection element path sample value before (.ok result)
      dropped after) :
    world.heap.Everywhere law result :=
  made_of_collects (provided.built.own gathers) (everywhere_of_iterate lax everywhere)
    (fun found resolved => lawful (provided.element tree gathers found resolved)) collects

section Fields

variable {field : Field} {entries : List (Value × Value)} {compiled : Compiled} {id : SchemaId}

theorem everywhere_of_standIn (lax : world.heap.Lax law)
    (built : type.BuiltOf (Collection.Builds world.heap law))
    (everywhere : world.heap.Everywhere law sample)
    (stood : (type.standIn world.heap sample).Yields before value after) :
    world.heap.Everywhere law value := by
  cases built with
  | primitive =>
      obtain ⟨made, -⟩ := Run.yields_lift.mp stood
      have copied : ∀ made, world.heap.deepCopy sample = .ok made →
          world.heap.Everywhere law made := by
        intro made copied
        unfold deepCopy at copied
        split at copied
        · cases copied
        · cases copied
          exact everywhere.copied lax.copies
      unfold Primitive.standIn at made
      split at made
      · exact copied value made
      · exact copied value made
      · exact copied value made
      · exact copied value made
      · cases made
        exact everywhere
  | record | bigInteger =>
      obtain ⟨rfl, -⟩ := Run.yields_pure.mp stood
      exact everywhere
  | unbound builds | bound builds _ => exact builds.empty stood

theorem everywhere_of_sought {given : Value} (lax : world.heap.Lax law)
    (built : field.type.BuiltOf (Collection.Builds world.heap law))
    (sampled : world.heap.Everywhere law field.sample)
    (fallback : ∀ fallback, field.declaration.fallback = some fallback →
      world.heap.Everywhere law fallback)
    (input : ∀ inner ∈ Value.interleave entries, world.heap.Everywhere law inner)
    (sought : Sought world config field path entries before (.inr given) after) :
    world.heap.Everywhere law (substitute world.heap field.declaration given) := by
  rcases substitute_cases world.heap field.declaration given with same | replaced
  · rw [same]
    cases sought with
    | standIn _ _ _ stood => exact everywhere_of_standIn lax built sampled stood
    | given _ present => exact input _ (mem_interleave_of_entryUnder present)
  · exact fallback _ replaced

theorem everywhere_of_settles (lax : world.heap.Lax law) (tree : world.Lawful config law root)
    (lawful : ParseLawful world config law root parse) (inTree : InTree world config root id)
    (known : (world.schema id).compiled = some compiled) (member : field ∈ compiled.fields)
    (input : ∀ inner ∈ Value.interleave entries, world.heap.Everywhere law inner)
    (settles : Settles parse world config field path entries before (.stored value) after) :
    world.heap.Everywhere law value := by
  have built := tree.types inTree known member
  have sampled := tree.samples inTree known member
  have fallback (fallback : Value) (declared : field.declaration.fallback = some fallback) :
      world.heap.Everywhere law fallback := tree.fallbacks inTree known member declared
  cases settles with
  | unsought sought => cases sought
  | settled admitted =>
      obtain ⟨sought, -, -⟩ := admitted
      exact everywhere_of_sought lax built sampled fallback input sought
  | parsed admitted parsed =>
      obtain ⟨sought, -, -⟩ := admitted
      exact lawful ⟨built, inTree.field known member⟩
        (everywhere_of_sought lax built sampled fallback input sought) parsed

/-- What is stored has been settled for a field of that name. -/
theorem Fills.settles {location : String} {fields : List Field} {stored : List (String × Value)}
    (fills : Fills parse world config location entries fields before (.ok stored) after) :
    ∀ entry ∈ stored, ∃ field ∈ fields, field.name = entry.1 ∧ ∃ path first last,
      Settles parse world config field path entries first (.stored entry.2) last := by
  induction fields generalizing before stored with
  | nil =>
      cases fills
      exact nofun
  | cons field rest ih =>
      have later {middle : Trace} {others : List (String × Value)}
          (fills : Fills parse world config location entries rest middle (.ok others) after) :
          ∀ entry ∈ others, ∃ found ∈ field :: rest, found.name = entry.1 ∧ ∃ path first last,
            Settles parse world config found path entries first (.stored entry.2) last := by
        intro entry member
        obtain ⟨found, known, settled⟩ := ih fills entry member
        exact ⟨found, List.mem_cons_of_mem field known, settled⟩
      rcases fills.cons_ok with ⟨_, -, others⟩ | ⟨value, _, _, guarded, others, rfl⟩
      · exact later others
      · exact List.forall_mem_cons.mpr ⟨⟨field, by simp, rfl, _, _, _,
          settles_of_guardField guarded (by simp)⟩, later others⟩

theorem everywhere_of_validateWith {location : String} {data : Value} (lax : world.heap.Lax law)
    (tree : world.Lawful config law root) (lawful : ParseLawful world config law root parse)
    (identity : config.finisher.finish = Finisher.identity.finish)
    (inTree : InTree world config root id) (everywhere : world.heap.Everywhere law data)
    (ran : (validateWith parse world config (world.schema id) location data).Yields before
      (.ok value) after) :
    world.heap.Everywhere law value := by
  cases validates_of_validateWith ran with
  | settled => exact everywhere
  | built known shape fills finished =>
      rw [identity] at finished
      obtain ⟨rfl, -⟩ := Run.yields_pure.mp finished
      have input (inner : Value) (member : inner ∈ Value.interleave _) :
          world.heap.Everywhere law inner := everywhere.inside (shape ▸ member)
      refine everywhere_of_parts (lax.others _ rfl rfl) fun part held => ?_
      obtain ⟨entry, stored, rfl⟩ := List.mem_map.mp held
      obtain ⟨field, member, -, _, _, _, settles⟩ := fills.settles entry stored
      exact everywhere_of_settles lax tree lawful inTree known member input settles

end Fields

theorem bigInteger_of_parseTo {limit : Nat} {parsed : Value}
    (ran : (parseTo world config limit .bigInteger path sample value).Yields before (.ok parsed)
      after) : ∃ number, parsed = .bigInteger number := by
  have read : (liftM (BigInteger.parse world.heap path value) : Run Outcome).Yields before
      (.ok parsed) after := by
    cases limit <;> exact ran
  obtain ⟨made, -⟩ := Run.yields_lift.mp read
  have counted (read : ((world.heap.toInteger value).map fun number =>
      (.ok (.bigInteger number) : Outcome)) = .ok (.ok parsed)) :
      ∃ number, parsed = .bigInteger number := by
    cases whole : world.heap.toInteger value with
    | error fault => simp [whole, Except.map] at read
    | ok number =>
        simp only [whole, Except.map, Except.ok.injEq] at read
        exact ⟨number, read.symm⟩
  unfold BigInteger.parse at made
  split at made
  · split at made
    · exact counted made
    · cases made
  · exact counted made

theorem parseLawful_parseTo (lax : world.heap.Lax law) (tree : world.Lawful config law root)
    (identity : config.finisher.finish = Finisher.identity.finish) (limit : Nat) :
    ParseLawful world config law root (parseTo world config limit) := by
  -- Samples can lead back to their own schema; only the depth gets smaller on the way in.
  induction limit using Nat.strongRecOn with
  | ind limit ih =>
      intro type path sample value before parsed after provided everywhere ran
      have bare {shape : Value} (inPlace : world.heap.look shape = shape)
          (single : shape.parts = []) (own : law shape) : world.heap.Everywhere law shape :=
        everywhere_of_parts (inPlace.symm ▸ own) (by simp [inPlace, single])
      cases provided.built with
      | primitive =>
          rw [parseTo_primitive, Run.yields_pure] at ran
          obtain ⟨same, -⟩ := ran
          cases same
          unfold Primitive.parse
          split
          · split
            · exact bare rfl rfl (lax.others _ rfl rfl)
            · exact everywhere
          · exact everywhere
      | bigInteger =>
          obtain ⟨number, rfl⟩ := bigInteger_of_parseTo ran
          exact bare rfl rfl (lax.others _ rfl rfl)
      | record =>
          obtain ⟨below, rfl, nested⟩ := parseTo_record ran
          unfold parseObject at nested
          split at nested
          next recordClass fields shape =>
            exact everywhere_of_validateWith lax tree (ih below (Nat.lt_succ_self below)) identity
              (provided.inTree (.record shape)) everywhere nested
          next =>
            split at nested
            · obtain ⟨same, -⟩ := Run.yields_pure.mp nested
              cases same
              exact everywhere
            · simp at nested
      | unbound =>
          obtain ⟨below, dropped, rfl, collects⟩ := parseTo_unbound ran
          exact everywhere_of_collects lax tree (ih below (Nat.lt_succ_self below)) provided
            .unbound everywhere collects
      | bound =>
          obtain ⟨below, dropped, rfl, collects⟩ := parseTo_bound ran
          exact everywhere_of_collects lax tree (ih below (Nat.lt_succ_self below)) provided .bound
            everywhere collects

end Validation

namespace Collection

variable {heap : Heap} {law : Value → Prop} {gathered value next : Value} {before after : Trace}

theorem everywhere_append (lax : heap.Lax law) (sofar : heap.Everywhere law gathered)
    (offered : heap.Everywhere law value)
    (ran : (append heap gathered value).Yields before next after) : heap.Everywhere law next := by
  have parts {elements : List Value} (known : (heap.look gathered).parts = elements) :
      ∀ part ∈ elements ++ [value], heap.Everywhere law part := by
    intro part member
    rcases List.mem_append.mp member with old | new
    · exact sofar.inside (known ▸ old)
    · exact List.mem_singleton.mp new ▸ offered
  unfold append at ran
  split at ran
  next elements shape =>
    obtain ⟨rfl, -⟩ := Run.yields_pure.mp ran
    exact Heap.everywhere_of_parts (lax.others _ rfl rfl) (parts (by rw [shape, Value.parts]))
  next elements shape =>
    obtain ⟨rfl, -⟩ := Run.yields_pure.mp ran
    exact Heap.everywhere_of_parts (lax.deques elements _ (shape ▸ sofar.self))
      (parts (by rw [shape, Value.parts]))
  next => simp at ran

theorem everywhere_addMember (lax : heap.Lax law) (sofar : heap.Everywhere law gathered)
    (offered : heap.Everywhere law value)
    (ran : (addMember heap gathered value).Yields before next after) :
    heap.Everywhere law next := by
  unfold addMember at ran
  split at ran
  next members shape =>
    simp only [Run.yields_bind, Run.yields_lift, Run.yields_pure] at ran
    obtain ⟨grown, _, ⟨added, -⟩, rfl, -⟩ := ran
    refine Heap.everywhere_of_parts (lax.others _ rfl rfl) fun part member => ?_
    unfold Heap.addMember at added
    split at added
    next => cases added
    next =>
      cases added
      split at member
      · exact sofar.inside (shape ▸ member)
      · rcases List.mem_append.mp member with old | new
        · exact sofar.inside (shape ▸ old)
        · exact List.mem_singleton.mp new ▸ offered
  next => simp at ran

theorem builds_array (lax : heap.Lax law) : array.Builds heap law where
  empty ran := by
    obtain ⟨rfl, -⟩ := Run.yields_pure.mp ran
    exact Heap.everywhere_of_bare (lax.others _ rfl rfl) rfl
  insert := everywhere_append lax

theorem builds_set (lax : heap.Lax law) : set.Builds heap law where
  empty ran := by
    obtain ⟨rfl, -⟩ := Run.yields_pure.mp ran
    exact Heap.everywhere_of_bare (lax.others _ rfl rfl) rfl
  insert := everywhere_addMember lax

/-- Deques hold to the laws that allow for deques. -/
theorem builds_deque (lax : heap.Lax law) (allowed : law (.deque [])) : deque.Builds heap law where
  empty ran := by
    obtain ⟨rfl, -⟩ := Run.yields_pure.mp ran
    exact Heap.everywhere_of_bare allowed rfl
  insert := everywhere_append lax

end Collection

theorem Catalogue.builtOf_builtIn {heap : Heap} {law : Value → Prop} (lax : heap.Lax law) :
    ∀ type ∈ builtIn, type.BuiltOf (Collection.Builds heap law) := by
  simp only [builtIn, List.forall_mem_cons, List.not_mem_nil, false_implies, implies_true, and_true]
  exact ⟨.unbound (Collection.builds_set lax), .unbound (Collection.builds_array lax), .record,
    .primitive⟩

end Exemplar
