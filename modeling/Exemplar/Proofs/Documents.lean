import Exemplar.Proofs.Depth
import Exemplar.Proofs.Numbers
import Exemplar.Value.Plain
import Mathlib.Data.List.Forall2

/-!
Documents and the plain forms of values. What a document holds is told by the shapes that its
references lead to, so it may stand in place or in cells. Plain forms and likeness are stated for
every depth that suffices for the value, which makes them laws of the shapes: the plain form of a
compound value is put together from those of its parts, and so is its likeness to another.
-/

namespace Exemplar

section Related

variable {α β : Type} {relation : α → β → Prop} {left : List α} {right : List β}

theorem forall_mem_of_forall₂ {property : β → Prop} (each : List.Forall₂ relation left right)
    (implies : ∀ item other, relation item other → property other) :
    ∀ other ∈ right, property other := by
  induction each with
  | nil => simp
  | cons related _ ih => exact List.forall_mem_cons.mpr ⟨implies _ _ related, ih⟩

theorem exists_forall₂ (each : ∀ item ∈ left, ∃ other, relation item other) :
    ∃ right, List.Forall₂ relation left right := by
  induction left with
  | nil => exact ⟨[], .nil⟩
  | cons first rest ih =>
      simp only [List.forall_mem_cons] at each
      obtain ⟨other, related⟩ := each.1
      obtain ⟨others, relates⟩ := ih each.2
      exact ⟨other :: others, .cons related relates⟩

theorem exists_of_forall₂ {item : α} (each : List.Forall₂ relation left right)
    (member : item ∈ left) : ∃ other ∈ right, relation item other := by
  induction each with
  | nil => cases member
  | @cons first second _ _ related _ ih =>
      rcases List.mem_cons.mp member with rfl | later
      · exact ⟨second, by simp, related⟩
      · obtain ⟨other, present, found⟩ := ih later
        exact ⟨other, List.mem_cons_of_mem second present, found⟩

theorem forall₂_imp_mem {implied : α → β → Prop} (each : List.Forall₂ relation left right)
    (implies : ∀ item ∈ left, ∀ other ∈ right, relation item other → implied item other) :
    List.Forall₂ implied left right := by
  induction each with
  | nil => exact .nil
  | cons related _ ih =>
      refine .cons (implies _ (by simp) _ (by simp) related) (ih ?_)
      exact fun item early other late =>
        implies item (List.mem_cons_of_mem _ early) other (List.mem_cons_of_mem _ late)

end Related

namespace Named

variable {α β : Type} {relation : α → β → Prop} {left : Named α} {right : Named β}

/-- Fields of the same names in the same order, their values related one by one. -/
def Relates (relation : α → β → Prop) (left : Named α) (right : Named β) : Prop :=
  List.Forall₂ (fun first second => first.1 = second.1 ∧ relation first.2 second.2) left right

theorem Relates.names (relates : Relates relation left right) : names left = names right := by
  induction relates with
  | nil => rfl
  | cons pair _ ih => simpa [Named.names, pair.1] using ih

theorem Relates.values (relates : Relates relation left right) :
    List.Forall₂ relation (left.map (·.2)) (right.map (·.2)) := by
  induction relates with
  | nil => exact .nil
  | cons pair _ ih => exact .cons pair.2 ih

theorem get?_of_mem {fields : Named α} {field : String × α} (distinct : (names fields).Nodup)
    (member : field ∈ fields) : get? field.1 fields = some field.2 := by
  induction fields with
  | nil => cases member
  | cons first rest ih =>
      obtain ⟨fresh, others⟩ := List.nodup_cons.mp distinct
      rcases List.mem_cons.mp member with rfl | later
      · simp [get?]
      · have apart : first.1 ≠ field.1 := by
          intro same
          exact fresh (List.mem_map.mpr ⟨field, later, same.symm⟩)
        simpa [get?, apart] using ih others later

theorem mem_of_get? {fields : Named α} {name : String} {value : α}
    (found : get? name fields = some value) : (name, value) ∈ fields := by
  induction fields with
  | nil => cases found
  | cons first rest ih =>
      by_cases same : first.1 = name
      · simp only [get?, if_pos same, Option.some.injEq] at found
        rw [← same, ← found]
        exact List.mem_cons_self
      · simp only [get?, if_neg same] at found
        exact List.mem_cons_of_mem first (ih found)

theorem Relates.mem_right (relates : Relates relation left right) {field : String × α}
    (member : field ∈ left) :
    ∃ other, (field.1, other) ∈ right ∧ relation field.2 other := by
  obtain ⟨other, present, same, related⟩ := exists_of_forall₂ relates member
  exact ⟨other.2, same ▸ present, related⟩

/-- Under the name of each field on the left stands what the field is related to. -/
theorem Relates.get? (relates : Relates relation left right) (distinct : (Named.names left).Nodup)
    {field : String × α} (member : field ∈ left) :
    ∃ other, Named.get? field.1 right = some other ∧ relation field.2 other := by
  obtain ⟨other, found, related⟩ := relates.mem_right member
  exact ⟨other, get?_of_mem (relates.names ▸ distinct) found, related⟩

theorem Relates.imp_mem {other : α → β → Prop} (relates : Relates relation left right)
    (implies : ∀ first ∈ left, ∀ second ∈ right, relation first.2 second.2 →
      other first.2 second.2) : Relates other left right :=
  forall₂_imp_mem relates fun first early second late pair =>
    ⟨pair.1, implies first early second late pair.2⟩

theorem exists_relates (each : ∀ field ∈ left, ∃ other, relation field.2 other) :
    ∃ right, Relates relation left right := by
  refine exists_forall₂ fun field member => ?_
  obtain ⟨other, related⟩ := each field member
  exact ⟨(field.1, other), rfl, related⟩

end Named

namespace Value

/-- Null, a truth value, a text, or a number other than the one that is none. -/
def isScalar : Value → Bool
  | .null | .bool _ | .int _ | .text _ => true
  | .float number => number != .nan
  | _ => false

/-- The mapping from the names of fields to their values. -/
def object (fields : Named Value) : Value :=
  .mapping (fields.map fun field => (.text field.1, field.2))

variable {value part : Value} {fields : Named Value} {entries : List (Value × Value)}

theorem mem_interleave :
    part ∈ interleave entries ↔ ∃ entry ∈ entries, part = entry.1 ∨ part = entry.2 := by
  induction entries with
  | nil => simp [interleave]
  | cons entry rest ih => simp [interleave, ih, or_assoc]

theorem mem_parts_object :
    part ∈ (object fields).parts ↔
      ∃ field ∈ fields, part = .text field.1 ∨ part = field.2 := by
  simp only [object, parts, mem_interleave, List.mem_map]
  constructor
  · intro found
    obtain ⟨_, ⟨field, member, rfl⟩, either⟩ := found
    exact ⟨field, member, either⟩
  · intro found
    obtain ⟨field, member, either⟩ := found
    exact ⟨_, ⟨field, member, rfl⟩, either⟩

theorem copied_object : (object fields).copied =
    object (fields.map fun field => (field.1, field.2.copied)) := by
  have each (fields : Named Value) :
      copiedEntries (fields.map fun field => (.text field.1, field.2)) =
        (fields.map fun field => (field.1, field.2.copied)).map
          fun field => (.text field.1, field.2) := by
    induction fields with
    | nil => rfl
    | cons field rest ih => simpa [copiedEntries, copied] using ih
  simp only [object, copied, each]

end Value

namespace Heap

variable {heap : Heap} {levels : Nat} {value other part left right : Value}
  {values plains lefts rights : List Value} {fields : Named Value}

theorem named?_object {name : String} :
    named? name (fields.map fun field => (.text field.1, field.2)) = Named.get? name fields := by
  induction fields with
  | nil => rfl
  | cons field rest ih => simp only [List.map_cons, named?, Named.get?, ih]

section Finiteness

/-- The value does not go round in circles. -/
def Finite (heap : Heap) (value : Value) : Prop := ∃ levels, heap.Within levels value

theorem Finite.bounded (finite : heap.Finite value) :
    heap.Within (heap.depth + value.depth) value := by
  obtain ⟨levels, within⟩ := finite
  exact within.bounded

theorem exists_within_all (finite : ∀ value ∈ values, heap.Finite value) :
    ∃ levels, ∀ value ∈ values, heap.Within levels value := by
  induction values with
  | nil => exact ⟨0, by simp⟩
  | cons first rest ih =>
      simp only [List.forall_mem_cons] at finite
      obtain ⟨one, within⟩ := finite.1
      obtain ⟨more, others⟩ := ih finite.2
      refine ⟨max one more, ?_⟩
      intro value member
      rcases List.mem_cons.mp member with rfl | later
      · exact within.mono (by omega)
      · exact (others value later).mono (by omega)

theorem finite_of_parts (finite : ∀ part ∈ (heap.look value).parts, heap.Finite part) :
    heap.Finite value := by
  obtain ⟨levels, within⟩ := exists_within_all finite
  exact ⟨levels + 1, within⟩

theorem finite_of_object (shape : heap.look value = .object fields)
    (finite : ∀ field ∈ fields, heap.Finite field.2) : heap.Finite value := by
  refine finite_of_parts fun part member => ?_
  rw [shape, Value.mem_parts_object] at member
  obtain ⟨field, known, rfl | rfl⟩ := member
  · exact ⟨1, within_of_no_parts rfl⟩
  · exact finite field known

end Finiteness

section Scalars

theorem look_of_isScalar (single : value.isScalar = true) : heap.look value = value := by
  cases value <;> first | rfl | cases single

theorem gathering_of_isScalar (single : value.isScalar = true) : heap.gathering? value = none := by
  rw [gathering?, look_of_isScalar single]
  cases value <;> first | rfl | cases single

theorem finite_of_isScalar (single : value.isScalar = true) : heap.Finite value := by
  refine ⟨1, within_of_no_parts ?_⟩
  rw [look_of_isScalar single]
  cases value <;> first | rfl | cases single

/-- Scalars are compared at the first level. -/
theorem equalTo_of_isScalar (heap : Heap) (one : value.isScalar = true)
    (two : other.isScalar = true) :
    ∃ answer, ∀ levels, heap.equalTo (levels + 1) value other = some answer := by
  cases value <;> simp only [Value.isScalar, Bool.false_eq_true] at one <;>
    cases other <;> simp only [Value.isScalar, Bool.false_eq_true] at two <;>
    exact ⟨_, fun _ => rfl⟩

theorem equalTo_self_of_isScalar (single : value.isScalar = true) :
    heap.equalTo (levels + 1) value value = some true := by
  cases value with
  | float number =>
      cases number with
      | nan => cases single
      | infinite negative => cases negative <;> rfl
      | finite negative mantissa exponent =>
          have same : Number.Dyadic.same ⟨Number.Binary64.signed negative mantissa, exponent⟩
              ⟨Number.Binary64.signed negative mantissa, exponent⟩ = true :=
            Number.Dyadic.same_iff.mpr rfl
          exact congrArg some same
  | int whole => exact congrArg some Quantity.same_ofInt_self
  | bool truth => cases truth <;> rfl
  | null => rfl
  | text text => simp [equalTo, Value.sameObject, Value.address?, look, equalShapes]
  | _ => cases single

/-- Both are scalars, and they are equal. -/
def ScalarsAlike (heap : Heap) (one other : Value) : Prop :=
  one.isScalar = true ∧ other.isScalar = true ∧ heap.equal one other = true

theorem ScalarsAlike.self (single : value.isScalar = true) : heap.ScalarsAlike value value := by
  refine ⟨single, single, ?_⟩
  rw [equal, equal?, show heap.reach value + heap.reach value =
    heap.depth + value.depth + heap.reach value + 1 by simp only [reach]; omega,
    equalTo_self_of_isScalar single]
  rfl

theorem ScalarsAlike.equalTo (alike : heap.ScalarsAlike value other) :
    heap.equalTo (levels + 1) value other = some true := by
  obtain ⟨one, two, same⟩ := alike
  obtain ⟨answer, decided⟩ := equalTo_of_isScalar heap one two
  rw [equal, equal?, show heap.reach value + heap.reach other =
    heap.depth + value.depth + heap.reach other + 1 by simp only [reach]; omega, decided] at same
  rw [decided]
  exact congrArg some same

end Scalars

/-- What a document can hold: scalars, lists, and mappings from distinct texts, in place or in cells
that hold such values. -/
inductive Json (heap : Heap) : Value → Prop
  | scalar {value : Value} : value.isScalar = true → Json heap value
  | list {value : Value} {elements : List Value} : heap.look value = .list elements →
      (∀ element ∈ elements, Json heap element) → Json heap value
  | object {value : Value} {fields : Named Value} : heap.look value = .object fields →
      (Named.names fields).Nodup → (∀ field ∈ fields, Json heap field.2) → Json heap value

theorem Json.finite (json : heap.Json value) : heap.Finite value := by
  induction json with
  | scalar single => exact finite_of_isScalar single
  | list shape _ ih => exact finite_of_parts (by rw [shape]; exact ih)
  | object shape _ _ ih => exact finite_of_object shape ih

theorem look_copied (plain : ∀ index, value ≠ .copy index) :
    heap.look value.copied = (heap.look value).copied := by
  cases value with
  | copy index => exact absurd rfl (plain index)
  | _ => rfl

theorem Json.copied (json : heap.Json value) : heap.Json value.copied := by
  induction json with
  | @scalar value single => cases value <;> exact .scalar single
  | @list value elements shape all ih =>
      by_cases copy : ∃ index, value = .copy index
      · obtain ⟨index, rfl⟩ := copy
        exact .list shape all
      · have shape' : heap.look value.copied = .list (elements.map Value.copied) := by
          rw [look_copied (fun index same => copy ⟨index, same⟩), shape, Value.copied,
            Value.copiedAll_eq]
        exact .list shape' (by simpa using ih)
  | @object value fields shape distinct all ih =>
      by_cases copy : ∃ index, value = .copy index
      · obtain ⟨index, rfl⟩ := copy
        exact .object shape distinct all
      · have shape' : heap.look value.copied =
            .object (fields.map fun field => (field.1, field.2.copied)) := by
          rw [look_copied (fun index same => copy ⟨index, same⟩), shape, Value.copied_object]
        refine .object shape' (by simpa [Named.names, Function.comp_def] using distinct) ?_
        intro field member
        obtain ⟨original, known, rfl⟩ := List.mem_map.mp member
        exact ih original known

section PlainForms

/-- None of these objects is met inside the value. -/
def AwayFrom (heap : Heap) (around : List Address) (value : Value) : Prop :=
  ∀ inner address, heap.Holds value inner → inner.address? = some address → address ∉ around

variable {around : List Address}

theorem awayFrom_nil : heap.AwayFrom [] value := by simp [AwayFrom]

theorem AwayFrom.inside (away : heap.AwayFrom around value)
    (member : part ∈ (heap.look value).parts) : heap.AwayFrom around part :=
  fun inner address held stands => away inner address (.inside member held) stands

/-- What does not go round in circles is not met inside itself. -/
theorem Within.not_holds (within : heap.Within levels value)
    (member : part ∈ (heap.look value).parts) : ¬ heap.Holds part value := by
  have inner {levels : Nat} {upper lower : Value} (within : heap.Within levels upper)
      (held : heap.Holds upper lower) : heap.Within levels lower := by
    induction held generalizing levels with
    | self => exact within
    | inside member _ ih =>
        obtain ⟨below, rfl⟩ := within.succ
        exact (ih (within _ member)).mono (by omega)
  intro held
  induction levels with
  | zero => exact within.elim
  | succ levels ih => exact ih (inner (within part member) held)

/-- Its parts are away from the objects that the value is away from, and from the value itself. -/
theorem AwayFrom.enter (away : heap.AwayFrom around value) (within : heap.Within levels value)
    (member : part ∈ (heap.look value).parts) : heap.AwayFrom (entering around value) part := by
  intro inner address held stands known
  cases itself : value.address? with
  | none =>
      simp only [entering, itself] at known
      exact away.inside member inner address held stands known
  | some other =>
      simp only [entering, itself, List.mem_cons] at known
      rcases known with rfl | outer
      · have same : value.sameObject inner = true := by simp [Value.sameObject, itself, stands]
        rw [← Value.eq_of_sameObject same] at held
        exact within.not_holds member held
      · exact away.inside member inner address held stands outer

/-- The value is not one of the objects that it is away from. -/
theorem AwayFrom.fresh (away : heap.AwayFrom around value) :
    value.address?.any (around.contains ·) = false := by
  cases itself : value.address? with
  | none => rfl
  | some address => simpa using away value address .self itself

/-- The value has this plain form at any depth that suffices for it and wherever it stands, inside
itself apart. -/
def HasPlain (heap : Heap) (value plain : Value) : Prop :=
  ∀ levels around, heap.Within levels value → heap.AwayFrom around value →
    heap.plainTo levels around value = .ok plain

theorem Finite.within_circuit (finite : heap.Finite value) :
    heap.Within (heap.circuit value) value :=
  finite.bounded.mono (Nat.le_trans (Nat.le_succ _) (Nat.le_mul_of_pos_left _ (Nat.succ_pos _)))

theorem HasPlain.plain_eq {plain : Value} (made : heap.HasPlain value plain)
    (finite : heap.Finite value) : heap.plain value = .ok plain :=
  made _ [] finite.within_circuit awayFrom_nil

theorem plainAll_of_hasPlain (each : List.Forall₂ heap.HasPlain values plains)
    (within : ∀ value ∈ values, heap.Within levels value)
    (away : ∀ value ∈ values, heap.AwayFrom around value) :
    plainAll (heap.plainTo levels around) values = .ok plains := by
  induction each with
  | nil => rfl
  | cons made _ ih =>
      simp only [List.forall_mem_cons] at within away
      simp only [plainAll, made levels around within.1 away.1, ih within.2 away.2]

theorem HasPlain.scalar (single : value.isScalar = true) : heap.HasPlain value value := by
  intro levels around within _
  cases levels with
  | zero => exact within.elim
  | succ levels => cases value <;> first | rfl | cases single

theorem HasPlain.gathered {kind : Gathering} (shape : heap.gathering? value = some (kind, values))
    (each : List.Forall₂ heap.HasPlain values plains) : heap.HasPlain value (.list plains) := by
  intro levels around within away
  cases levels with
  | zero => exact within.elim
  | succ levels =>
      have parts := parts_of_gathering shape
      have made := plainAll_of_hasPlain each
        (fun element member => within element (parts ▸ member))
        (fun element member => away.inside (parts ▸ member))
      unfold gathering? at shape
      unfold plainTo
      split at shape <;> simp_all [Except.map]

theorem zip_names {plains : Named Value} :
    ((Named.names plains).map Value.text).zip (plains.map (·.2)) =
      plains.map fun field => (.text field.1, field.2) := by
  induction plains with
  | nil => rfl
  | cons field rest ih => simpa [Named.names] using ih

theorem HasPlain.object {plains : Named Value} (shape : heap.look value = .object fields)
    (each : Named.Relates heap.HasPlain fields plains) : heap.HasPlain value (.object plains) := by
  intro levels around within away
  cases levels with
  | zero => exact within.elim
  | succ levels =>
      have parts : ∀ element ∈ fields.map (·.2), element ∈ (heap.look value).parts := by
        intro element member
        obtain ⟨field, known, rfl⟩ := List.mem_map.mp member
        rw [shape, Value.mem_parts_object]
        exact ⟨field, known, .inr rfl⟩
      have made := plainAll_of_hasPlain each.values
        (fun element member => within element (parts element member))
        (fun element member => away.inside (parts element member))
      have keys : (fields.map fun field => (Value.text field.1, field.2)).map (·.1) =
          (Named.names plains).map .text := by
        rw [← each.names]
        simp [Named.names, Function.comp_def]
      have values : (fields.map fun field => (Value.text field.1, field.2)).map (·.2) =
          fields.map (·.2) := by
        simp [Function.comp_def]
      simp only [plainTo, shape, Value.object, keys, values, made, Except.map, zip_names]

theorem HasPlain.record {recordClass : RecordClass} {plains : Named Value}
    (shape : heap.look value = .record recordClass fields)
    (each : Named.Relates heap.HasPlain fields plains) : heap.HasPlain value (.object plains) := by
  intro levels around within away
  cases levels with
  | zero => exact within.elim
  | succ levels =>
      have parts : (heap.look value).parts = fields.map (·.2) := by rw [shape, Value.parts]
      have made := plainAll_of_hasPlain each.values
        (fun element member => within element (parts ▸ member))
        (fun element member => away.enter within (parts ▸ member))
      have keys : fields.map (fun field => Value.text field.1) =
          (Named.names plains).map .text := by
        rw [← each.names]
        simp [Named.names, Function.comp_def]
      have inside : heap.plainTo (levels + 1) around value =
          (plainAll (heap.plainTo levels (entering around value)) (fields.map (·.2))).map
            fun values => .mapping ((fields.map fun field => .text field.1).zip values) := by
        simp only [plainTo, shape, away.fresh, Bool.false_eq_true, if_false]
        rfl
      simp only [inside, made, keys, Except.map, zip_names, Value.object]

end PlainForms

section Likeness

/-- The two show no difference at any depth that suffices for the first. -/
def Alike (heap : Heap) (left right : Value) : Prop :=
  ∀ levels, heap.Within levels left → heap.equalTo levels left right = some true

theorem Alike.equal (alike : heap.Alike left right) (finite : heap.Finite left) :
    heap.equal left right = true := by
  have compared := alike (heap.reach left + heap.reach right)
    (finite.bounded.mono (by simp only [reach]; omega))
  simp only [Heap.equal, equal?, compared, Option.getD_some]

theorem equalTo_of_shapes
    (same : equalShapes (heap.equalTo levels) (heap.look left) (heap.look right) = some true) :
    heap.equalTo (levels + 1) left right = some true := by
  unfold equalTo
  split
  next => rfl
  next => exact same

theorem alike_of_shapes
    (same : ∀ levels, (∀ part ∈ (heap.look left).parts, heap.Within levels part) →
      equalShapes (heap.equalTo levels) (heap.look left) (heap.look right) = some true) :
    heap.Alike left right := by
  intro levels within
  cases levels with
  | zero => exact within.elim
  | succ levels => exact equalTo_of_shapes (same levels within)

theorem Alike.scalar (single : value.isScalar = true) : heap.Alike value value := by
  intro levels within
  cases levels with
  | zero => exact within.elim
  | succ levels => exact equalTo_self_of_isScalar single

theorem Alike.list (one : heap.look left = .list lefts) (two : heap.look right = .list rights)
    (each : List.Forall₂ heap.Alike lefts rights) : heap.Alike left right := by
  refine alike_of_shapes fun levels within => ?_
  rw [one] at within
  simp only [one, two, equalShapes]
  clear one two
  induction each with
  | nil => rfl
  | cons alike _ ih =>
      simp only [Value.parts, List.forall_mem_cons] at within ih
      simp only [equalAll, alike levels within.1, ih within.2]

/-- Sets of scalars are alike where each member has its like. -/
theorem Alike.set {members others : List Value} (one : heap.gathering? left = some (.set, members))
    (two : heap.gathering? right = some (.set, others))
    (each : List.Forall₂ heap.ScalarsAlike members others) : heap.Alike left right := by
  have all : ∀ other ∈ others, other.isScalar = true :=
    forall_mem_of_forall₂ each fun _ _ alike => alike.2.1
  have found {levels : Nat} {member other : Value} {some : List Value} (present : other ∈ some)
      (alike : heap.ScalarsAlike member other) (all : ∀ other ∈ some, other.isScalar = true) :
      equalAny (heap.equalTo (levels + 1)) member some = .some true := by
    induction some with
    | nil => cases present
    | cons first rest ih =>
        simp only [List.forall_mem_cons] at all
        simp only [equalAny]
        obtain ⟨answer, decided⟩ := equalTo_of_isScalar heap alike.1 all.1
        rcases List.mem_cons.mp present with rfl | later
        · simp only [alike.equalTo]
        · rw [decided]
          cases answer with
          | true => rfl
          | false => exact ih later all.2
  have within {levels : Nat} {some likes : List Value}
      (each : List.Forall₂ heap.ScalarsAlike some likes) (known : ∀ like ∈ likes, like ∈ others) :
      equalWithin (heap.equalTo (levels + 1)) some others = .some true := by
    induction each with
    | nil => rfl
    | cons alike _ ih =>
        simp only [List.forall_mem_cons] at known
        simp only [equalWithin, found known.1 alike all, ih known.2]
  refine alike_of_shapes fun levels inside => ?_
  have compared : equalShapes (heap.equalTo levels) (heap.look left) (heap.look right) =
      equalWithin (heap.equalTo levels) members others := by
    unfold gathering? at one two
    split at one <;> split at two <;> simp_all [equalShapes, each.length_eq]
  rw [compared]
  rw [parts_of_gathering one] at inside
  -- Comparing members takes a level of its own; only without members is there none.
  cases levels with
  | zero =>
      cases each with
      | nil => rfl
      | cons => exact (inside _ List.mem_cons_self).elim
  | succ levels => exact within each fun _ known => known

theorem entryWith_object {equal : Comparison} {name : String}
    (decides : ∀ other, equal (.text name) (.text other) = some (name == other)) :
    entryWith equal (.text name) (fields.map fun field => (.text field.1, field.2)) =
      some (Named.get? name fields) := by
  induction fields with
  | nil => rfl
  | cons field rest ih =>
      simp only [List.map_cons, entryWith, decides, Named.get?]
      by_cases same : field.1 = name
      · simp [same]
      · have apart : (name == field.1) = false := by simpa using Ne.symm same
        simp only [apart, if_neg same, ih]

theorem Alike.object {others : Named Value} (one : heap.look left = .object fields)
    (two : heap.look right = .object others) (distinct : (Named.names fields).Nodup)
    (each : Named.Relates heap.Alike fields others) : heap.Alike left right := by
  have all {levels : Nat} {some : Named Value} (known : ∀ field ∈ some, field ∈ fields)
      (within : ∀ field ∈ some, heap.Within (levels + 1) field.2) :
      entriesWithin (heap.equalTo (levels + 1)) (some.map fun field => (.text field.1, field.2))
        (others.map fun field => (.text field.1, field.2)) = .some true := by
    induction some with
    | nil => rfl
    | cons field rest ih =>
        simp only [List.forall_mem_cons] at known within
        obtain ⟨other, found, alike⟩ := each.get? distinct known.1
        have decides (other : String) : heap.equalTo (levels + 1) (.text field.1) (.text other) =
            .some (field.1 == other) := rfl
        simp only [List.map_cons, entriesWithin, entryWith_object decides, found,
          alike (levels + 1) within.1, ih known.2 within.2]
  refine alike_of_shapes fun levels within => ?_
  have count : (fields.map fun field => (Value.text field.1, field.2)).length =
      (others.map fun field => (Value.text field.1, field.2)).length := by
    simpa using each.length_eq
  rw [one] at within
  rw [one, two]
  simp only [Value.object, equalShapes, count, if_true]
  cases levels with
  | zero =>
      cases fields with
      | nil =>
          cases each
          rfl
      | cons first rest =>
          exact (within first.2 (Value.mem_parts_object.mpr ⟨first, by simp, .inr rfl⟩)).elim
  | succ levels =>
      exact all (fun _ known => known) fun field member =>
        within field.2 (Value.mem_parts_object.mpr ⟨field, member, .inr rfl⟩)

theorem Alike.record {recordClass : RecordClass} {others : Named Value}
    (one : heap.look left = .record recordClass fields)
    (two : heap.look right = .record recordClass others)
    (distinct : (Named.names fields).Nodup) (each : Named.Relates heap.Alike fields others) :
    heap.Alike left right := by
  have all {levels : Nat} {some : Named Value} (known : ∀ field ∈ some, field ∈ fields)
      (within : ∀ field ∈ some, heap.Within levels field.2) :
      fieldsWithin (heap.equalTo levels) some others = .some true := by
    induction some with
    | nil => rfl
    | cons field rest ih =>
        simp only [List.forall_mem_cons] at known within
        obtain ⟨other, found, alike⟩ := each.get? distinct known.1
        simp only [fieldsWithin, found, alike levels within.1, ih known.2 within.2]
  refine alike_of_shapes fun levels within => ?_
  rw [one] at within
  simp only [one, two, equalShapes, each.length_eq, and_self, if_true]
  exact all (fun _ known => known) fun field member =>
    within field.2 (List.mem_map_of_mem member)

end Likeness

end Heap

end Exemplar
