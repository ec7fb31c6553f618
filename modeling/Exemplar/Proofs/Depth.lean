import Exemplar.Proofs.Breakdowns
import Exemplar.Proofs.Conformance

/-!
Depth. A value that does not go round in circles has a greatest depth, and the depths of all cells
bound it, because no way into such a value comes to one cell twice. A run goes no deeper into its
data than the data is nested, so from that depth on the limit makes no difference.
-/

namespace Exemplar

namespace Value

variable {value part : Value} {elements : List Value} {entries : List (Value × Value)}
  {fields : List (String × Value)}

theorem depth_le_of_mem (member : part ∈ elements) : part.depth ≤ depthOfAll elements := by
  induction elements with
  | nil => cases member
  | cons first rest ih =>
      simp only [depthOfAll]
      rcases List.mem_cons.mp member with rfl | later
      · omega
      · have := ih later
        omega

theorem depth_le_of_mem_interleave (member : part ∈ interleave entries) :
    part.depth ≤ depthOfEntries entries := by
  induction entries with
  | nil => cases member
  | cons entry rest ih =>
      obtain ⟨key, held⟩ := entry
      simp only [interleave, List.mem_cons] at member
      simp only [depthOfEntries]
      rcases member with rfl | rfl | later
      · omega
      · omega
      · have := ih later
        omega

theorem depth_le_of_mem_fields (member : part ∈ fields.map (·.2)) :
    part.depth ≤ depthOfFields fields := by
  induction fields with
  | nil => cases member
  | cons entry rest ih =>
      obtain ⟨name, held⟩ := entry
      simp only [List.map_cons, List.mem_cons] at member
      simp only [depthOfFields]
      rcases member with rfl | later
      · omega
      · have := ih later
        omega

theorem depth_lt_of_part (member : part ∈ value.parts) : part.depth < value.depth := by
  cases value with
  | list elements | tuple elements | set elements | frozenSet elements | deque elements =>
      exact Nat.lt_succ_of_le (depth_le_of_mem member)
  | mapping entries => exact Nat.lt_succ_of_le (depth_le_of_mem_interleave member)
  | record recordClass fields => exact Nat.lt_succ_of_le (depth_le_of_mem_fields member)
  | _ => cases member

theorem copiedAll_eq (elements : List Value) : copiedAll elements = elements.map copied := by
  induction elements with
  | nil => rfl
  | cons first rest ih => simp [copiedAll, ih]

theorem interleave_copied (entries : List (Value × Value)) :
    interleave (copiedEntries entries) = (interleave entries).map copied := by
  induction entries with
  | nil => rfl
  | cons entry rest ih => simp [copiedEntries, interleave, ih]

theorem copiedFields_map (fields : List (String × Value)) :
    (copiedFields fields).map (·.2) = (fields.map (·.2)).map copied := by
  induction fields with
  | nil => rfl
  | cons entry rest ih => simpa [copiedFields] using ih

theorem parts_copied (value : Value) : value.copied.parts = value.parts.map copied := by
  cases value with
  | list elements | tuple elements | set elements | frozenSet elements | deque elements =>
      exact copiedAll_eq elements
  | mapping entries => exact interleave_copied entries
  | record recordClass fields => exact copiedFields_map fields
  | _ => rfl

end Value

namespace Heap

/-- Nothing inside the value lies deeper than so many levels. -/
def Within (heap : Heap) : Nat → Value → Prop
  | 0, _ => False
  | levels + 1, value => ∀ part ∈ (heap.look value).parts, heap.Within levels part

variable {heap : Heap} {levels more : Nat} {value part : Value}

theorem Within.mono (within : heap.Within levels value) (enough : levels ≤ more) :
    heap.Within more value := by
  induction levels generalizing more value with
  | zero => exact within.elim
  | succ levels ih =>
      cases more with
      | zero => omega
      | succ more =>
          intro part member
          exact ih (within part member) (by omega)

theorem Within.succ (within : heap.Within levels value) : ∃ below, levels = below + 1 := by
  cases levels with
  | zero => exact within.elim
  | succ below => exact ⟨below, rfl⟩

theorem within_of_no_parts (bare : (heap.look value).parts = []) :
    heap.Within (levels + 1) value := by
  intro part member
  simp [bare] at member

/-- The objects that the parts of a value stand in. -/
def entering (around : List Address) (value : Value) : List Address :=
  match value.address? with
  | some address => address :: around
  | none => around

/-- A document is nested no deeper than it looks. -/
theorem within_of_isDocument (document : value.isDocument = true) :
    heap.Within value.depth value := by
  have inside (levels : Nat) : ∀ value : Value, value.isDocument = true → value.depth ≤ levels →
      heap.Within levels value := by
    induction levels with
    | zero =>
        intro value _ flat
        have : 0 < value.depth := by cases value <;> simp [Value.depth]
        omega
    | succ levels ih =>
        intro value document deep part member
        rw [look_of_isDocument document] at member
        have shallow := Value.depth_lt_of_part member
        exact ih part (Value.isDocument_of_part document member) (by omega)
  exact inside value.depth value document (Nat.le_refl _)

theorem within_copied : heap.Within levels value.copied ↔ heap.Within levels value := by
  induction levels generalizing value with
  | zero => rfl
  | succ levels ih =>
      have through (shape : Value) : (∀ part ∈ shape.copied.parts, heap.Within levels part) ↔
          ∀ part ∈ shape.parts, heap.Within levels part := by
        rw [Value.parts_copied]
        constructor
        · intro all part member
          exact ih.mp (all part.copied (List.mem_map_of_mem member))
        · intro all part member
          obtain ⟨original, known, rfl⟩ := List.mem_map.mp member
          exact ih.mpr (all original known)
      cases value with
      | ref index => exact through (heap.cell index)
      | copy index => rfl
      | list elements => exact through (.list elements)
      | tuple elements => exact through (.tuple elements)
      | set elements => exact through (.set elements)
      | frozenSet elements => exact through (.frozenSet elements)
      | deque elements => exact through (.deque elements)
      | mapping entries => exact through (.mapping entries)
      | record recordClass fields => exact through (.record recordClass fields)
      | _ => rfl

section Cells

/-- What a measure makes of all items together. -/
def total {α : Type} (measure : α → Nat) (items : List α) : Nat :=
  items.foldl (fun sum item => sum + measure item) 0

section Total

variable {α : Type} {measure lower upper : α → Nat} {item : α} {items : List α}

theorem total_cons : total measure (item :: items) = measure item + total measure items := by
  have shifted (start : Nat) : items.foldl (fun sum other => sum + measure other) start =
      start + total measure items := by
    unfold total
    induction items generalizing start with
    | nil => rfl
    | cons first rest ih =>
        simp only [List.foldl_cons]
        rw [ih (start + measure first), ih (0 + measure first)]
        omega
  change items.foldl (fun sum other => sum + measure other) (0 + measure item) = _
  rw [shifted, Nat.zero_add]

theorem total_le (ordered : ∀ item ∈ items, lower item ≤ upper item) :
    total lower items ≤ total upper items := by
  induction items with
  | nil => exact Nat.le_refl _
  | cons first rest ih =>
      have firsts := ordered first (by simp)
      have rests := ih fun other later => ordered other (List.mem_cons_of_mem first later)
      rw [total_cons, total_cons]
      omega

theorem total_add_le (member : item ∈ items) (ordered : ∀ item ∈ items, lower item ≤ upper item)
    (bare : lower item = 0) : total lower items + upper item ≤ total upper items := by
  induction items with
  | nil => cases member
  | cons first rest ih =>
      have firsts := ordered first (by simp)
      have later : ∀ other ∈ rest, lower other ≤ upper other :=
        fun other known => ordered other (List.mem_cons_of_mem first known)
      rw [total_cons, total_cons]
      rcases List.mem_cons.mp member with rfl | known
      · have rests := total_le later
        omega
      · have rests := ih known later
        omega

end Total

open scoped Classical in
/-- The depth of a cell whose parts all lie within the levels; of any other cell, nothing. -/
noncomputable def depthWithin (heap : Heap) (levels : Nat) (stored : Value) : Nat :=
  if ∃ below, levels = below + 1 ∧ ∀ part ∈ stored.parts, heap.Within below part then stored.depth
  else 0

/-- The depths of all cells that lie within the levels. -/
noncomputable def settledDepth (heap : Heap) (levels : Nat) : Nat :=
  total (heap.depthWithin levels) heap.cells.toList

variable {stored : Value}

theorem depthWithin_le : heap.depthWithin levels stored ≤ stored.depth := by
  unfold depthWithin
  split <;> omega

theorem depthWithin_mono :
    heap.depthWithin levels stored ≤ heap.depthWithin (levels + 1) stored := by
  unfold depthWithin
  split
  next settled =>
    obtain ⟨below, rfl, inside⟩ := settled
    refine Nat.le_of_eq ?_
    rw [if_pos ⟨below + 1, rfl, fun part member => (inside part member).mono (by omega)⟩]
  next => exact Nat.zero_le _

theorem settledDepth_mono : heap.settledDepth levels ≤ heap.settledDepth (levels + 1) :=
  total_le fun _ _ => depthWithin_mono

theorem depth_eq_total : heap.depth = total Value.depth heap.cells.toList := by
  rw [Heap.depth, ← Array.foldl_toList]
  rfl

theorem settledDepth_le : heap.settledDepth levels ≤ heap.depth := by
  rw [depth_eq_total]
  exact total_le fun _ _ => depthWithin_le

/-- A cell that lies within one more level only adds its depth. -/
theorem settledDepth_add_le (member : stored ∈ heap.cells.toList)
    (settled : ∀ part ∈ stored.parts, heap.Within levels part)
    (fresh : ∀ below, levels = below + 1 → ¬ ∀ part ∈ stored.parts, heap.Within below part) :
    heap.settledDepth levels + stored.depth ≤ heap.settledDepth (levels + 1) := by
  have bare : heap.depthWithin levels stored = 0 := by
    unfold depthWithin
    rw [if_neg]
    intro found
    obtain ⟨below, same, inside⟩ := found
    exact fresh below same inside
  have whole : heap.depthWithin (levels + 1) stored = stored.depth := by
    unfold depthWithin
    rw [if_pos ⟨levels, rfl, settled⟩]
  have ordered : ∀ other ∈ heap.cells.toList,
      heap.depthWithin levels other ≤ heap.depthWithin (levels + 1) other :=
    fun _ _ => depthWithin_mono
  have grown := total_add_le member ordered bare
  rwa [whole] at grown

end Cells

theorem mem_cells_or_null (heap : Heap) (index : Nat) :
    heap.cell index ∈ heap.cells.toList ∨ heap.cell index = .null := by
  unfold cell
  by_cases known : index < heap.cells.size
  · exact .inl (by simp [known])
  · exact .inr (by simp [known])

/-- Under its own parts a value may go as deep as all cells that lie within the levels. -/
theorem Within.settled (within : heap.Within levels value) :
    heap.Within (heap.settledDepth levels + value.depth) value := by
  induction levels generalizing value with
  | zero => exact within.elim
  | succ levels ih =>
      have grown : heap.settledDepth levels ≤ heap.settledDepth (levels + 1) := settledDepth_mono
      have stored (index : Nat) (within : heap.Within (levels + 1) (.ref index)) :
          heap.Within (heap.settledDepth (levels + 1) + 1) (.ref index) := by
        by_cases early : heap.Within levels (.ref index)
        · exact (ih early).mono (Nat.add_le_add_right grown 1)
        intro part member
        rcases heap.mem_cells_or_null index with known | bare
        · -- The cell is new at this level, so its own depth has been added to the sum.
          have added := heap.settledDepth_add_le known within fun below same all => by
            subst same
            exact early all
          have shallow : part.depth < (heap.cell index).depth := Value.depth_lt_of_part member
          exact (ih (within part member)).mono (by omega)
        · rw [look_ref, bare] at member
          cases member
      have inPlace (shape : heap.look value = value) :
          heap.Within (heap.settledDepth (levels + 1) + value.depth) value := by
        have deep : heap.settledDepth (levels + 1) + value.depth =
            heap.settledDepth (levels + 1) + (value.depth - 1) + 1 := by
          have : 0 < value.depth := by cases value <;> simp [Value.depth]
          omega
        rw [deep]
        intro part member
        have shallow : part.depth < value.depth := by
          rw [shape] at member
          exact Value.depth_lt_of_part member
        exact (ih (within part member)).mono (by omega)
      cases value with
      | ref index => exact stored index within
      | copy index =>
          have original : heap.Within (levels + 1) (.ref index) :=
            within_copied.mp (show heap.Within (levels + 1) (Value.ref index).copied from within)
          exact within_copied.mpr (stored index original)
      | _ => exact inPlace rfl

/-- A value that is nested to some depth is nested no deeper than all cells and itself. -/
theorem Within.bounded (within : heap.Within levels value) :
    heap.Within (heap.depth + value.depth) value :=
  within.settled.mono (Nat.add_le_add_right settledDepth_le value.depth)

/-- A part of a cell goes as deep as all cells at most, also where another part of that cell goes
round in circles: then the cell itself does not count for it. -/
theorem Within.bounded_in_cell {index : Nat} (within : heap.Within levels part)
    (member : part ∈ (heap.cell index).parts) : heap.Within heap.depth part := by
  by_cases whole : ∃ levels, heap.Within levels (.ref index)
  · obtain ⟨levels, whole⟩ := whole
    exact whole.bounded part member
  · rcases heap.mem_cells_or_null index with known | bare
    · have uncounted : heap.depthWithin levels (heap.cell index) = 0 := by
        unfold depthWithin
        rw [if_neg]
        intro found
        obtain ⟨below, _, inside⟩ := found
        exact whole ⟨below + 1, inside⟩
      have ordered : ∀ stored ∈ heap.cells.toList, heap.depthWithin levels stored ≤ stored.depth :=
        fun _ _ => depthWithin_le
      have counted := total_add_le known ordered uncounted
      have shallow : part.depth < (heap.cell index).depth := Value.depth_lt_of_part member
      rw [← depth_eq_total] at counted
      refine within.settled.mono ?_
      unfold settledDepth
      omega
    · simp [bare, Value.parts] at member

/-- A part that does not go round in circles is nested no deeper than all cells and what it is a
part of, which may go round in circles itself. -/
theorem Within.bounded_in (within : heap.Within levels part)
    (member : part ∈ (heap.look value).parts) : heap.Within (heap.depth + value.depth - 1) part := by
  have inPlace (shape : heap.look value = value) :
      heap.Within (heap.depth + value.depth - 1) part := by
    rw [shape] at member
    have shallow := Value.depth_lt_of_part member
    exact within.bounded.mono (by omega)
  cases value with
  | ref index => exact within.bounded_in_cell member
  | copy index =>
      rw [look_copy, Value.parts_copied] at member
      obtain ⟨original, known, rfl⟩ := List.mem_map.mp member
      exact within_copied.mpr ((within_copied.mp within).bounded_in_cell known)
  | _ => exact inPlace rfl

end Heap

namespace Validation

variable {one other : Parse} {world : World} {config : Configuration}

section Congruence

variable {field : Field} {path location : String} {entries : List (Value × Value)}

/-- A field depends on the parsing of those values only that it finds and that fit. -/
theorem guardField_congr
    (same : ∀ {given before found fitting fitted},
      Sought world config field path entries before (.inr given) found →
      (field.type.fit world.heap (substitute world.heap field.declaration given)
        field.sample).Yields fitting .toParse fitted →
      one field.type path field.sample (substitute world.heap field.declaration given) =
        other field.type path field.sample (substitute world.heap field.declaration given)) :
    guardField one world config field path entries =
      guardField other world config field path entries := by
  have settled : settleField one world config field path entries =
      settleField other world config field path entries := by
    rw [settleField_eq, settleField_eq]
    refine Run.bind_congr_yields fun {_ input _} looked => ?_
    have sought := sought_of_inputOf looked
    cases input with
    | inl outcome => rfl
    | inr given =>
        refine Run.bind_congr_yields fun {_ fit _} fitted => ?_
        cases fit with
        | refused reason => rfl
        | settled => rfl
        | toParse => simp only [checkField, parseField, same sought fitted]
  simp only [guardField, settled]

theorem settleFields_congr {others : List (Value × Value)} {fields : List Field}
    {stored : List (String × Value)}
    (same : ∀ field ∈ fields, ∀ path, guardField one world config field path entries =
      guardField other world config field path others) :
    settleFields one world config location entries fields stored =
      settleFields other world config location others fields stored := by
  induction fields generalizing stored with
  | nil => rfl
  | cons field rest ih =>
      have later : ∀ stored, settleFields one world config location entries rest stored =
          settleFields other world config location others rest stored :=
        fun _ => ih fun known member => same known (List.mem_cons_of_mem field member)
      simp only [settleFields, same field (by simp), later]

theorem parseElements_congr {heap : Heap} {collection : Collection} {element : ValueType}
    {sample gathered : Value} {index : Nat} {values : List Value}
    (same : ∀ {item place before after}, item ∈ values →
      (element.fit heap item sample).Yields before .toParse after →
      one element place sample item = other element place sample item) :
    parseElements one heap config collection element sample path index gathered values =
      parseElements other heap config collection element sample path index gathered values := by
  induction values generalizing index gathered with
  | nil => rfl
  | cons item rest ih =>
      have later : ∀ index gathered,
          parseElements one heap config collection element sample path index gathered rest =
            parseElements other heap config collection element sample path index gathered rest :=
        fun _ _ => ih fun member => same (List.mem_cons_of_mem item member)
      simp only [parseElements, later]
      refine Run.bind_congr_yields fun {_ fit _} fitted => ?_
      cases fit with
      | refused reason => rfl
      | settled => rfl
      | toParse => simp only [same (by simp) fitted]

theorem parseCollection_congr {collection : Collection} {element : Option ValueType}
    {sample value : Value}
    (same : ∀ {representative type values item place first looked bound named fitting fitted},
      (collection.first world.heap sample).Yields first (some representative) looked →
      (elementType world config element representative).Yields bound type named →
      world.heap.iterate value = .ok values → item ∈ values →
      (type.fit world.heap item representative).Yields fitting .toParse fitted →
      one type place representative item = other type place representative item) :
    parseCollection one world config collection element path sample value =
      parseCollection other world config collection element path sample value := by
  rw [parseCollection_eq, parseCollection_eq]
  refine Run.bind_congr_yields fun {_ empty _} _ => ?_
  refine Run.bind_congr_yields fun {_ first _} found => ?_
  cases first with
  | none => rfl
  | some representative =>
      refine Run.bind_congr_yields fun {_ type _} bound => ?_
      refine Run.bind_congr_yields fun {_ values _} listed => ?_
      exact parseElements_congr fun member fitted =>
        same found bound (Run.yields_lift.mp listed).1 member fitted

end Congruence

/-- The input of a field that is a record or a collection does not give way to a fallback. -/
def KeepsInput (heap : Heap) (field : Field) : Prop :=
  field.declaration.allowed = none ∨ field.declaration.fallback = none ∨
    heap.gathering? field.sample = none ∧ heap.isRecord field.sample = false

theorem substitute_of_keepsInput {heap : Heap} {field : Field} (keeps : KeepsInput heap field)
    (value : Value) :
    substitute heap field.declaration value = value ∨
      heap.gathering? field.sample = none ∧ heap.isRecord field.sample = false := by
  rcases keeps with unlimited | bare | plain
  · left
    simp [substitute, unlimited]
  · left
    unfold substitute
    rw [bare]
    split
    next none => cases none
    next => rfl
  · exact .inr plain

variable {root : Schema} {depth : Nat}

/-- Parsing a value that fits goes no deeper than a depth, and one level for what stands in where
input is missing. -/
def ParseSettles (world : World) (config : Configuration) (root : Schema) (depth : Nat) : Prop :=
  ∀ {type path sample value fitting fitted limit}, world.heap.Typed sample type →
    Covered world root sample → world.heap.Within depth value →
    (type.fit world.heap value sample).Yields fitting .toParse fitted → depth < limit →
    parseTo world config limit type path sample value =
      parseTo world config (depth + 1) type path sample value

theorem parseTo_primitive_limit {limit : Nat} {type : ValueType} {path : String}
    {sample value : Value} (typed : world.heap.Typed sample type)
    (plain : world.heap.gathering? sample = none ∧ world.heap.isRecord sample = false) :
    parseTo world config limit type path sample value =
      parseTo world config (depth + 1) type path sample value := by
  cases typed.unique (.plain plain.1 plain.2)
  rw [parseTo_primitive, parseTo_primitive]

/-- Of what has no elements nothing is parsed. -/
theorem parseTo_empty {kind : Gathering} {limit other : Nat} {type : ValueType}
    {collection : Collection} {element : Option ValueType} {path : String} {sample : Value}
    (gathers : OfCollection type collection element) :
    parseTo world config (limit + 1) type path sample (kind.wrap []) =
      parseTo world config (other + 1) type path sample (kind.wrap []) := by
  rw [gathers.parseTo_eq, gathers.parseTo_eq]
  refine parseCollection_congr fun _ _ listed member _ => ?_
  cases kind <;> cases listed <;> cases member

/-- What stands in for input is no part of it, but there is nothing to parse in it. -/
theorem parseTo_standIn {limit other : Nat} {type : ValueType} {path : String}
    {sample value : Value} {before found fitting fitted : Trace}
    (typed : world.heap.Typed sample type)
    (stood : (type.standIn world.heap sample).Yields before value found)
    (fit : (type.fit world.heap value sample).Yields fitting .toParse fitted) :
    parseTo world config (limit + 1) type path sample value =
      parseTo world config (other + 1) type path sample value := by
  cases typed with
  | plain collection record => rw [parseTo_primitive, parseTo_primitive]
  | record shape =>
      obtain ⟨rfl, _⟩ := Run.yields_pure.mp stood
      obtain ⟨entries, mapping⟩ := mapping_of_toParse (.record shape) shape fit
      cases shape.symm.trans mapping
  | unchecked shape =>
      obtain ⟨rfl, _⟩ := Gathering.empty_yields.mp stood
      exact parseTo_empty .unbound
  | elements shape inner =>
      obtain ⟨rfl, _⟩ := Gathering.empty_yields.mp stood
      exact parseTo_empty .bound

section Settling

variable {limit : Nat}

theorem settles_of_sought {field : Field} {path : String} {entries : List (Value × Value)}
    {given : Value} {before found fitting fitted : Trace}
    (settles : ParseSettles world config root depth)
    (typed : world.heap.Typed field.sample field.type)
    (covered : Covered world root field.sample) (keeps : KeepsInput world.heap field)
    (within : ∀ part ∈ Value.interleave entries, world.heap.Within depth part)
    (sought : Sought world config field path entries before (.inr given) found)
    (fit : (field.type.fit world.heap (substitute world.heap field.declaration given)
      field.sample).Yields fitting .toParse fitted) (deep : depth < limit) :
    parseTo world config limit field.type path field.sample
        (substitute world.heap field.declaration given) =
      parseTo world config (depth + 1) field.type path field.sample
        (substitute world.heap field.declaration given) := by
  obtain ⟨below, rfl⟩ : ∃ below, limit = below + 1 := ⟨limit - 1, by omega⟩
  rcases substitute_of_keepsInput keeps given with same | plain
  · rw [same] at fit ⊢
    cases sought with
    | given named present =>
        exact settles typed covered (within _ (mem_interleave_of_entryUnder present)) fit deep
    | standIn _ _ _ stood => exact parseTo_standIn typed stood fit
  · exact parseTo_primitive_limit typed plain

theorem validateWith_settles {schema : Schema} {location : String} {data : Value}
    (builtIn : world.BuiltIn root) (used : world.Uses root schema)
    (keeps : ∀ {compiled field}, schema.compiled = some compiled → field ∈ compiled.fields →
      KeepsInput world.heap field)
    (settles : ParseSettles world config root depth) (within : world.heap.Within (depth + 1) data)
    (deep : depth < limit) :
    validateWith (parseTo world config limit) world config schema location data =
      validateWith (parseTo world config (depth + 1)) world config schema location data := by
  simp only [validateWith]
  split
  next => rfl
  next entries mapping =>
    refine Run.bind_congr_yields fun {_ compiled _} declared => ?_
    have known := demandCompiled_ok.mp (Run.yields_lift.mp declared).1
    have inside : ∀ part ∈ Value.interleave entries, world.heap.Within depth part := by
      intro part member
      exact within part (by rw [mapping]; exact member)
    have filled : settleFields (parseTo world config limit) world config location entries
          compiled.fields [] =
        settleFields (parseTo world config (depth + 1)) world config location entries
          compiled.fields [] :=
      settleFields_congr fun field member path => guardField_congr fun sought fit =>
        settles_of_sought settles (builtIn.fields used known member).typed
          (builtIn.covered used known member) (keeps known member) inside sought fit deep
    rw [filled]
  next => rfl

end Settling

theorem parseSettles_parseTo (builtIn : world.BuiltIn root)
    (keeps : ∀ {schema compiled field}, world.Uses root schema → schema.compiled = some compiled →
      field ∈ compiled.fields → KeepsInput world.heap field) (depth : Nat) :
    ParseSettles world config root depth := by
  induction depth with
  | zero =>
      intro type path sample value fitting fitted limit _ _ within
      exact within.elim
  | succ depth ih =>
      intro type path sample value fitting fitted limit typed covered within fit deep
      obtain ⟨below, rfl⟩ : ∃ below, limit = below + 1 := ⟨limit - 1, by omega⟩
      have deeper : depth < below := by omega
      cases typed with
      | plain _ _ => rw [parseTo_primitive, parseTo_primitive]
      | @record _ recordClass _ shape =>
          obtain ⟨used, _⟩ := covered recordClass (.record shape)
          simp only [parseTo, parseObject_of_record shape]
          exact validateWith_settles builtIn used (keeps used) ih within deeper
      | unchecked shape =>
          refine parseCollection_congr fun first _ _ _ _ => ?_
          simp [Heap.first_yields shape] at first
      | elements shape inner =>
          refine parseCollection_congr fun first bound listed member fitted => ?_
          obtain ⟨same, _⟩ := (Heap.first_yields shape).mp first
          cases same
          obtain ⟨rfl, _⟩ := Run.yields_pure.mp bound
          have accepted := accepted_of_toParse (.elements shape inner) shape fit
          have inside := within _ (Heap.mem_parts_of_iterate accepted listed member)
          exact ih inner (covered.representative shape) inside fitted deeper

/-- Validation goes no deeper than the data is nested, if no field that holds records or collections
can fall back on another value: from that depth on, the limit makes no difference. -/
theorem validateTo_settles {schema : Schema} {location : String} {data : Value} {limit : Nat}
    (builtIn : world.BuiltIn root) (used : world.Uses root schema)
    (keeps : ∀ {schema compiled field}, world.Uses root schema → schema.compiled = some compiled →
      field ∈ compiled.fields → KeepsInput world.heap field)
    (within : world.heap.Within depth data) (deep : depth ≤ limit) :
    validateTo world config limit schema location data =
      validateTo world config depth schema location data := by
  cases depth with
  | zero => exact within.elim
  | succ depth =>
      exact validateWith_settles builtIn used (keeps used)
        (parseSettles_parseTo builtIn keeps depth) within deep

end Validation

end Exemplar
