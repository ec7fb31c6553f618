import Exemplar.Proofs.Documents
import Exemplar.Proofs.Texts

/-!
What the plain form of a document's value shares with the value: it is as deep, it is shown alike,
and what else is equal to the one is equal to the other, so no check but one of the application
tells them apart.
-/

namespace Exemplar

namespace Heap

variable {heap : Heap} {levels more : Nat} {around others : List Address}
  {value plain left right other : Value} {values plains lefts rights : List Value}
  {fields counterparts : Named Value}

section Depths

/-- Whatever depth suffices for the one suffices for the other. -/
def AsDeep (heap : Heap) (left right : Value) : Prop :=
  ∀ levels, heap.Within levels left ↔ heap.Within levels right

theorem AsDeep.of_parts
    (each : List.Forall₂ heap.AsDeep (heap.look left).parts (heap.look right).parts) :
    heap.AsDeep left right := by
  intro levels
  cases levels with
  | zero => exact Iff.rfl
  | succ levels =>
      simp only [Within]
      generalize (heap.look left).parts = lefts at each
      generalize (heap.look right).parts = rights at each
      induction each with
      | nil => simp
      | cons deep _ ih => simp only [List.forall_mem_cons, deep levels, ih]

/-- The parts of two mappings from the same texts correspond one to one. -/
theorem parts_of_relates {relation : Value → Value → Prop}
    (itself : ∀ text, relation (.text text) (.text text))
    (each : Named.Relates relation fields counterparts) :
    List.Forall₂ relation (Value.object fields).parts (Value.object counterparts).parts := by
  simp only [Value.object, Value.parts]
  induction each with
  | nil => exact .nil
  | @cons first second _ _ pair _ ih =>
      simp only [List.map_cons, Value.interleave, pair.1]
      exact .cons (itself second.1) (.cons pair.2 ih)

end Depths

section Showing

/-- Both have one literal form, wherever they stand and at all depths that suffice for them. -/
def ShownAlike (heap : Heap) (left right : Value) : Prop :=
  ∀ levels more around others, heap.Within levels left → heap.Within more right →
    heap.AwayFrom around left → heap.AwayFrom others right →
    heap.literalTo levels around left = heap.literalTo more others right

theorem textAll_of_shownAlike (each : List.Forall₂ heap.ShownAlike lefts rights)
    (within : ∀ value ∈ lefts, heap.Within levels value)
    (inside : ∀ value ∈ rights, heap.Within more value)
    (away : ∀ value ∈ lefts, heap.AwayFrom around value)
    (apart : ∀ value ∈ rights, heap.AwayFrom others value) :
    textAll (heap.literalTo levels around) lefts = textAll (heap.literalTo more others) rights := by
  induction each with
  | nil => rfl
  | cons alike _ ih =>
      simp only [List.forall_mem_cons] at within inside away apart
      simp only [textAll, alike levels more around others within.1 inside.1 away.1 apart.1,
        ih within.2 inside.2 away.2 apart.2]

/-- Shapes whose texts are put together alike from those of their parts are shown alike. -/
theorem ShownAlike.of_parts
    (each : List.Forall₂ heap.ShownAlike (heap.look left).parts (heap.look right).parts)
    (put : ∀ one two : Value → Except Fault String,
      textAll one (heap.look left).parts = textAll two (heap.look right).parts →
      shapeText one (heap.look left) = shapeText two (heap.look right)) :
    heap.ShownAlike left right := by
  intro levels more around others within inside away apart
  obtain ⟨below, rfl⟩ := within.succ
  obtain ⟨beneath, rfl⟩ := inside.succ
  simp only [literalTo_succ, away.fresh, apart.fresh, Bool.false_eq_true, if_false]
  exact put _ _ (textAll_of_shownAlike each within inside
    (fun part member => away.enter within member) (fun part member => apart.enter inside member))

theorem ShownAlike.scalar (single : value.isScalar = true) : heap.ShownAlike value value := by
  have bare : (heap.look value).parts = [] := by
    rw [look_of_isScalar single]
    cases value <;> first | rfl | cases single
  refine .of_parts (bare ▸ .nil) fun one two _ => ?_
  rw [look_of_isScalar single]
  cases value with
  | bool truth => cases truth <;> rfl
  | null | int _ | float _ | text _ => rfl
  | _ => cases single

theorem ShownAlike.list (one : heap.look left = .list lefts) (two : heap.look right = .list rights)
    (each : List.Forall₂ heap.ShownAlike lefts rights) : heap.ShownAlike left right := by
  refine .of_parts (by rwa [one, two]) fun first second same => ?_
  rw [one, two] at same ⊢
  simp only [Value.parts] at same
  simp only [shapeText, same]

theorem ShownAlike.object (one : heap.look left = .object fields)
    (two : heap.look right = .object counterparts)
    (each : Named.Relates heap.ShownAlike fields counterparts) : heap.ShownAlike left right := by
  refine .of_parts ?_ fun first second same => ?_
  · rw [one, two]
    exact parts_of_relates (fun _ => .scalar rfl) each
  · rw [one, two] at same ⊢
    simp only [Value.object, Value.parts] at same
    simp only [Value.object, shapeText, same]

end Showing

section Comparing

/-- Another value is equal to the one where it is equal to the other, at all depths that suffice. -/
def ComparedAlike (heap : Heap) (left right : Value) : Prop :=
  ∀ levels more other, heap.Within levels left → heap.Within more right →
    heap.equalTo levels other left = heap.equalTo more other right

/-- Values that are alike are compared alike if their shapes are. -/
theorem ComparedAlike.of_shapes (alike : heap.Alike left right) (deep : heap.AsDeep left right)
    (bare : right.address? = none)
    (shapes : ∀ levels more other, (∀ part ∈ (heap.look left).parts, heap.Within levels part) →
      (∀ part ∈ (heap.look right).parts, heap.Within more part) →
      equalShapes (heap.equalTo levels) other (heap.look left) =
        equalShapes (heap.equalTo more) other (heap.look right)) :
    heap.ComparedAlike left right := by
  intro levels more other within inside
  by_cases shared : other.sameObject left = true
  · rw [Value.eq_of_sameObject shared, alike more ((deep more).mpr inside)]
    obtain ⟨below, rfl⟩ := within.succ
    rw [Value.eq_of_sameObject shared] at shared
    rw [equalTo, if_pos shared]
  · obtain ⟨below, rfl⟩ := within.succ
    obtain ⟨beneath, rfl⟩ := inside.succ
    have apart : ¬ other.sameObject right = true := by
      unfold Value.sameObject
      rw [bare]
      cases other.address? <;> simp
    rw [equalTo, if_neg shared, equalTo, if_neg apart]
    exact shapes below beneath _ within inside

theorem equalShapes_of_isScalar {one two : Comparison} (single : value.isScalar = true) :
    equalShapes one other value = equalShapes two other value := by
  cases value with
  | bool _ | int _ | float _ =>
      rw [equalShapes_of_quantity_right rfl, equalShapes_of_quantity_right rfl]
  | null | text _ => cases other <;> rfl
  | _ => cases single

theorem ComparedAlike.scalar (single : value.isScalar = true) : heap.ComparedAlike value value := by
  refine .of_shapes (.scalar single) (fun _ => Iff.rfl) ?_ fun levels more other _ _ => ?_
  · cases value <;> first | rfl | cases single
  · rw [look_of_isScalar single]
    exact equalShapes_of_isScalar single

theorem equalAll_of_comparedAlike (each : List.Forall₂ heap.ComparedAlike lefts rights)
    (within : ∀ value ∈ lefts, heap.Within levels value)
    (inside : ∀ value ∈ rights, heap.Within more value) (values : List Value) :
    equalAll (heap.equalTo levels) values lefts = equalAll (heap.equalTo more) values rights := by
  induction each generalizing values with
  | nil => cases values <;> rfl
  | cons compared _ ih =>
      simp only [List.forall_mem_cons] at within inside
      cases values with
      | nil => rfl
      | cons value rest =>
          simp only [equalAll, compared levels more value within.1 inside.1, ih within.2 inside.2]

theorem ComparedAlike.list (alike : heap.Alike left right) (deep : heap.AsDeep left right)
    (bare : right.address? = none) (one : heap.look left = .list lefts)
    (two : heap.look right = .list rights)
    (each : List.Forall₂ heap.ComparedAlike lefts rights) : heap.ComparedAlike left right := by
  refine .of_shapes alike deep bare fun levels more other within inside => ?_
  rw [one] at within ⊢
  rw [two] at inside ⊢
  have members := equalAll_of_comparedAlike each within inside
  cases other <;> simp only [equalShapes, members, Value.quantity?]

section Entries

variable {one two : Comparison} {key : Value}

/-- Looking for one key leads to values that are compared alike, or nowhere, or to no answer. -/
theorem entryWith_of_relates
    (each : Named.Relates (fun value counterpart => ∀ other,
      one other value = two other counterpart) fields counterparts)
    (keys : ∀ name, one key (.text name) = two key (.text name)) :
    Option.Rel (Option.Rel fun value counterpart => ∀ other,
        one other value = two other counterpart)
      (entryWith one key (fields.map fun field => (.text field.1, field.2)))
      (entryWith two key (counterparts.map fun field => (.text field.1, field.2))) := by
  induction each with
  | nil => exact .some .none
  | @cons first second _ _ pair _ ih =>
      simp only [List.map_cons, entryWith, pair.1, keys]
      cases two key (.text second.1) with
      | none => exact .none
      | some found =>
          cases found with
          | true => exact .some (.some pair.2)
          | false => exact ih

theorem entriesWithin_of_relates (entries : List (Value × Value))
    (each : Named.Relates (fun value counterpart => ∀ other,
      one other value = two other counterpart) fields counterparts)
    (keys : ∀ key name, one key (.text name) = two key (.text name)) :
    entriesWithin one entries (fields.map fun field => (.text field.1, field.2)) =
      entriesWithin two entries (counterparts.map fun field => (.text field.1, field.2)) := by
  induction entries with
  | nil => rfl
  | cons entry rest ih =>
      obtain ⟨key, held⟩ := entry
      have found := entryWith_of_relates each (keys key)
      simp only [entriesWithin]
      generalize entryWith one key _ = first at found
      generalize entryWith two key _ = second at found
      cases found with
      | none => rfl
      | some inner =>
          cases inner with
          | none => rfl
          | some compared => simp only [compared, ih]

end Entries

theorem ComparedAlike.object (alike : heap.Alike left right) (deep : heap.AsDeep left right)
    (bare : right.address? = none) (one : heap.look left = .object fields)
    (two : heap.look right = .object counterparts)
    (each : Named.Relates heap.ComparedAlike fields counterparts) :
    heap.ComparedAlike left right := by
  refine .of_shapes alike deep bare fun levels more other within inside => ?_
  rw [one] at within ⊢
  rw [two] at inside ⊢
  have count : (fields.map fun field => (Value.text field.1, field.2)).length =
      (counterparts.map fun field => (Value.text field.1, field.2)).length := by
    simpa using each.length_eq
  have parts {field : String × Value} {all : Named Value} (member : field ∈ all) :
      field.2 ∈ (Value.object all).parts :=
    Value.mem_parts_object.mpr ⟨field, member, .inr rfl⟩
  have entries (given : List (Value × Value)) (same : given.length = fields.length) :
      entriesWithin (heap.equalTo levels) given
          (fields.map fun field => (Value.text field.1, field.2)) =
        entriesWithin (heap.equalTo more) given
          (counterparts.map fun field => (Value.text field.1, field.2)) := by
    cases each with
    | nil =>
        rw [List.length_eq_zero_iff.mp same]
        rfl
    | cons pair rest =>
        -- Where there are fields, there is a level left for their names.
        obtain ⟨below, rfl⟩ := (within _ (parts List.mem_cons_self)).succ
        obtain ⟨beneath, rfl⟩ := (inside _ (parts List.mem_cons_self)).succ
        refine entriesWithin_of_relates _ ?_ fun key name =>
          ComparedAlike.scalar rfl _ _ key (within_of_no_parts rfl) (within_of_no_parts rfl)
        exact (Named.Relates.imp_mem (.cons pair rest) fun first early second late compared other =>
          compared _ _ other (within _ (parts early)) (inside _ (parts late)))
  cases other with
  | mapping given =>
      simp only [Value.object, equalShapes, count]
      split
      next same => exact entries given (by simpa [each.length_eq] using same)
      next => rfl
  | _ => rfl

end Comparing

/-- The plain form of what a document holds: again what a document can hold, of the same shape, size
and depth, and like the value to all that looks at it. -/
structure Rendered (heap : Heap) (value plain : Value) : Prop where
  made : heap.HasPlain value plain
  json : heap.Json plain
  alike : heap.Alike value plain
  shape : heap.shapeName plain = heap.shapeName value
  length : heap.length? plain = heap.length? value
  deep : heap.AsDeep value plain
  shown : heap.ShownAlike value plain
  compared : heap.ComparedAlike value plain

theorem Json.rendered (json : heap.Json value) : ∃ plain, heap.Rendered value plain := by
  induction json with
  | @scalar value single =>
      exact ⟨value, .scalar single, .scalar single, .scalar single, rfl, rfl, fun _ => Iff.rfl,
        .scalar single, .scalar single⟩
  | @list value elements shape _ ih =>
      obtain ⟨plains, each⟩ := exists_forall₂ ih
      have gathered : heap.gathering? value = some (.array, elements) := by
        simp [gathering?, shape]
      have alike : heap.Alike value (.list plains) :=
        .list shape rfl (each.imp fun _ _ it => it.alike)
      have deep : heap.AsDeep value (.list plains) :=
        .of_parts (by rw [shape]; exact each.imp fun _ _ it => it.deep)
      refine ⟨.list plains, .gathered gathered (each.imp fun _ _ it => it.made), .list rfl ?_,
        alike, ?_, ?_, deep, .list shape rfl (each.imp fun _ _ it => it.shown),
        .list alike deep rfl shape rfl (each.imp fun _ _ it => it.compared)⟩
      · exact forall_mem_of_forall₂ each fun _ _ it => it.json
      · rw [shapeName, shapeName, shape]
        rfl
      · rw [length?, length?, shape]
        exact congrArg some each.length_eq.symm
  | @object value fields shape distinct _ ih =>
      obtain ⟨plains, each⟩ := Named.exists_relates ih
      have alike : heap.Alike value (.object plains) :=
        .object shape rfl distinct (each.imp fun _ _ it => ⟨it.1, it.2.alike⟩)
      have deep : heap.AsDeep value (.object plains) :=
        .of_parts (by
          rw [shape]
          exact parts_of_relates (fun _ _ => Iff.rfl) (each.imp fun _ _ it => ⟨it.1, it.2.deep⟩))
      refine ⟨.object plains, .object shape (each.imp fun _ _ it => ⟨it.1, it.2.made⟩),
        .object rfl (each.names ▸ distinct) ?_, alike, ?_, ?_, deep,
        .object shape rfl (each.imp fun _ _ it => ⟨it.1, it.2.shown⟩),
        .object alike deep rfl shape rfl (each.imp fun _ _ it => ⟨it.1, it.2.compared⟩)⟩
      · exact forall_mem_of_forall₂ each fun _ _ it => it.2.json
      · rw [shapeName, shapeName, shape]
        rfl
      · rw [length?, length?, shape]
        simp [look, Value.object, each.length_eq]

namespace Rendered

variable {entries : List (Value × Value)}

/-- The plain form of a mapping is one. -/
theorem mapping (rendered : heap.Rendered value plain)
    (shape : heap.look value = .mapping entries) :
    ∃ others, heap.look plain = .mapping others := by
  have named : heap.shapeName plain = "object" := by
    rw [rendered.shape, shapeName, shape]
    rfl
  cases rendered.json with
  | scalar single =>
      rw [shapeName, look_of_isScalar single] at named
      cases plain <;> simp_all [Value.isScalar, Value.shapeName]
  | list other _ =>
      rw [shapeName, other] at named
      simp [Value.shapeName] at named
  | object other _ _ => exact ⟨_, other⟩

/-- The plain form of a mapping is shown as the mapping is. -/
theorem display_eq (rendered : heap.Rendered value plain) (json : heap.Json value)
    (one : heap.look value = .mapping entries) : heap.display plain = heap.display value := by
  obtain ⟨others, two⟩ := rendered.mapping one
  have literal : heap.literal value = heap.literal plain :=
    rendered.shown _ _ [] [] (json.finite.bounded.mono (by simp only [reach]; omega))
      (rendered.json.finite.bounded.mono (by simp only [reach]; omega)) awayFrom_nil awayFrom_nil
  simp only [display, one, two, literal]

theorem equal_eq (rendered : heap.Rendered value plain) (json : heap.Json value) (other : Value) :
    heap.equal other plain = heap.equal other value := by
  have compared := rendered.compared (heap.reach other + heap.reach value)
    (heap.reach other + heap.reach plain) other
    (json.finite.bounded.mono (by simp only [reach]; omega))
    (rendered.json.finite.bounded.mono (by simp only [reach]; omega))
  simp only [equal, equal?, compared]

theorem isAmong_eq (rendered : heap.Rendered value plain) (json : heap.Json value)
    (choices : List Value) : heap.isAmong plain choices = heap.isAmong value choices := by
  simp only [isAmong, rendered.equal_eq json]

end Rendered

end Heap

end Exemplar
