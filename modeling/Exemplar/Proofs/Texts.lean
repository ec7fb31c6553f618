import Exemplar.Proofs.Depth
import Exemplar.Value.Text

/-!
Texts of values. Each object that a value stands in is shown once on the way down, so the depths of
all objects that it does not stand in bound how deep the text goes, also where objects go round in
circles. A value has a text if all its integers can be written out, and a fresh copy has the text of
what it is a copy of.
-/

namespace Exemplar

/-- The integer has a numeral. -/
def Number.Writable (whole : Int) : Prop := whole.natAbs < Nat.pow 10 digitLimit

theorem numeral_of_writable {whole : Int} (writable : Number.Writable whole) :
    numeral whole = .ok (toString whole) := by
  unfold Number.Writable at writable
  unfold numeral Number.numeral?
  rw [if_pos writable]

theorem numeral_of_long {whole : Int} (long : ¬ Number.Writable whole) :
    numeral whole = .error (.longNumeral none) := by
  unfold Number.Writable at long
  unfold numeral Number.numeral?
  rw [if_neg long]

theorem fault_of_numeral {whole : Int} {fault : Fault} (failed : numeral whole = .error fault) :
    fault = .longNumeral none := by
  unfold numeral at failed
  split at failed
  · cases failed
  · cases failed
    rfl

theorem Number.writable_zero : Number.Writable (0 : Nat) := by
  have positive (digits : Nat) : (0 : Int).natAbs < Nat.pow 10 digits := Nat.pow_pos (by decide)
  exact positive Number.digitLimit

theorem Number.writable_of_lt_ten {count : Nat} (few : count < 10) : Number.Writable count := by
  have fits (digits : Nat) (some : 0 < digits) : (count : Int).natAbs < Nat.pow 10 digits :=
    Nat.lt_of_lt_of_le few (Nat.le_self_pow (by omega) 10)
  exact fits Number.digitLimit (by decide)

theorem Number.Writable.of_le {few many : Nat} (writable : Number.Writable many)
    (less : few ≤ many) : Number.Writable few := by
  unfold Number.Writable at writable ⊢
  simp only [Int.natAbs_natCast] at writable ⊢
  exact Nat.lt_of_le_of_lt less writable

namespace Value

variable {value part : Value}

/-- If the value is an integer, it has a numeral. -/
def Short : Value → Prop
  | .int whole | .bigInteger whole => Number.Writable whole
  | _ => True

theorem depth_pos (value : Value) : 0 < value.depth := by
  cases value <;> simp [depth]

theorem length_copiedEntries (entries : List (Value × Value)) :
    (copiedEntries entries).length = entries.length := by
  induction entries with
  | nil => rfl
  | cons entry rest ih => simp [copiedEntries, ih]

theorem copiedFields_names (fields : List (String × Value)) :
    (copiedFields fields).map (·.1) = fields.map (·.1) := by
  induction fields with
  | nil => rfl
  | cons field rest ih => simpa [copiedFields] using ih

theorem depthOfAll_copied {elements : List Value}
    (each : ∀ element ∈ elements, element.copied.depth = element.depth) :
    depthOfAll (copiedAll elements) = depthOfAll elements := by
  induction elements with
  | nil => rfl
  | cons first rest ih =>
      simp only [List.forall_mem_cons] at each
      simp only [copiedAll, depthOfAll, each.1, ih each.2]

theorem depthOfEntries_copied {entries : List (Value × Value)}
    (each : ∀ part ∈ interleave entries, part.copied.depth = part.depth) :
    depthOfEntries (copiedEntries entries) = depthOfEntries entries := by
  induction entries with
  | nil => rfl
  | cons entry rest ih =>
      simp only [interleave, List.forall_mem_cons] at each
      simp only [copiedEntries, depthOfEntries, each.1, each.2.1, ih each.2.2]

theorem depthOfFields_copied {fields : List (String × Value)}
    (each : ∀ part ∈ fields.map (·.2), part.copied.depth = part.depth) :
    depthOfFields (copiedFields fields) = depthOfFields fields := by
  induction fields with
  | nil => rfl
  | cons field rest ih =>
      simp only [List.map_cons, List.forall_mem_cons] at each
      simp only [copiedFields, depthOfFields, each.1, ih each.2]

theorem depth_copied (value : Value) : value.copied.depth = value.depth := by
  have below (levels : Nat) : ∀ value : Value, value.depth ≤ levels →
      value.copied.depth = value.depth := by
    induction levels with
    | zero =>
        intro value flat
        have := value.depth_pos
        omega
    | succ levels ih =>
        intro value deep
        have parts : ∀ part ∈ value.parts, part.copied.depth = part.depth := by
          intro part member
          have := depth_lt_of_part member
          exact ih part (by omega)
        cases value with
        | list _ | tuple _ | set _ | frozenSet _ | deque _ =>
            exact congrArg (· + 1) (depthOfAll_copied parts)
        | mapping _ => exact congrArg (· + 1) (depthOfEntries_copied parts)
        | record _ _ => exact congrArg (· + 1) (depthOfFields_copied parts)
        | _ => rfl
  exact below value.depth value (Nat.le_refl _)

end Value

namespace Heap

variable {heap : Heap} {value part inner : Value} {text other : Value → Except Fault String}

section Shapes

/-- The literal form of a shape, given those of its parts. -/
def shapeText (text : Value → Except Fault String) : Value → Except Fault String
  | .null => .ok "None"
  | .bool true => .ok "True"
  | .bool false => .ok "False"
  | .int value => numeral value
  | .bigInteger value => bracketed "BigInt(" ")" ((numeral value).map ([·]))
  | .float value => .ok value.text
  | .text value => .ok (Text.quoted value)
  | .bytes value => .ok (Text.quotedBytes value)
  | .date value => .ok value.literal
  | .mode value => .ok value.literal
  | .pattern value => .ok value.literal
  | .failure value => .ok value.literal
  | .list elements => bracketed "[" "]" (textAll text elements)
  | .tuple elements => tupleText (textAll text elements)
  | .set [] => .ok "set()"
  | .set elements => bracketed "\x7b" "\x7d" (textAll text elements)
  | .frozenSet [] => .ok "frozenset()"
  | .frozenSet elements => bracketed "frozenset(\x7b" "\x7d)" (textAll text elements)
  | .deque elements => bracketed "deque([" "])" (textAll text elements)
  | .mapping entries =>
      bracketed "\x7b" "\x7d" ((textAll text (Value.interleave entries)).map joinPairs)
  | .record recordClass fields =>
      bracketed (recordClass.name ++ "(") ")"
        ((textAll text (fields.map (·.2))).map (joinFields (fields.map (·.1))))
  | .ref _ | .copy _ => .ok "..."

theorem literalTo_succ {fuel : Nat} {around : List Address} :
    heap.literalTo (fuel + 1) around value =
      if value.address?.any (around.contains ·) then .ok (ellipsis (heap.look value))
      else shapeText (heap.literalTo fuel (entering around value)) (heap.look value) := by
  unfold literalTo entering
  cases value.address? with
  | none => rfl
  | some address => rfl

theorem fault_of_textAll {values : List Value} {fault : Fault}
    (failed : textAll text values = .error fault) : ∃ value, text value = .error fault := by
  induction values with
  | nil => cases failed
  | cons value rest ih =>
      simp only [textAll] at failed
      split at failed
      next first =>
        cases failed
        exact ⟨value, first⟩
      next =>
        split at failed
        next others =>
          cases failed
          exact ih others
        next => cases failed

theorem bracketed_error {opening closing : String} {texts : Except Fault (List String)}
    {fault : Fault} : bracketed opening closing texts = .error fault ↔ texts = .error fault := by
  cases texts <;> simp [bracketed]

theorem map_error {α β : Type} {result : Except Fault α} {change : α → β} {fault : Fault} :
    result.map change = .error fault ↔ result = .error fault := by
  cases result <;> simp [Except.map]

/-- What keeps a shape from having a text is the length of its numeral, or a part of it. -/
theorem fault_of_shapeText {shape : Value} {fault : Fault}
    (failed : shapeText text shape = .error fault) :
    fault = .longNumeral none ∨ ∃ value, text value = .error fault := by
  cases shape with
  | int whole =>
      simp only [shapeText] at failed
      exact .inl (fault_of_numeral failed)
  | bigInteger whole =>
      simp only [shapeText, bracketed_error, map_error] at failed
      exact .inl (fault_of_numeral failed)
  | bool truth => cases truth <;> cases failed
  | list elements | deque elements | mapping entries | record recordClass fields =>
      simp only [shapeText, bracketed_error, map_error] at failed
      exact .inr (fault_of_textAll failed)
  | set elements | frozenSet elements =>
      cases elements with
      | nil => cases failed
      | cons first rest =>
          simp only [shapeText, bracketed_error] at failed
          exact .inr (fault_of_textAll failed)
  | tuple elements =>
      simp only [shapeText, tupleText] at failed
      split at failed
      next => cases failed
      next =>
        rw [bracketed_error] at failed
        exact .inr (fault_of_textAll failed)
  | _ => cases failed

theorem fault_of_literal {fault : Fault} (failed : heap.literal value = .error fault) :
    fault = .tooDeep ∨ fault = .longNumeral none := by
  unfold literal at failed
  generalize heap.reach value = fuel at failed
  generalize ([] : List Address) = around at failed
  induction fuel generalizing around value with
  | zero =>
      cases failed
      exact .inl rfl
  | succ fuel ih =>
      rw [literalTo_succ] at failed
      split at failed
      · cases failed
      · rcases fault_of_shapeText failed with long | ⟨part, failed⟩
        · exact .inr long
        · exact ih _ failed

theorem textAll_succeeds {values : List Value}
    (each : ∀ value ∈ values, ∃ shown, text value = .ok shown) :
    ∃ texts, textAll text values = .ok texts := by
  induction values with
  | nil => exact ⟨[], rfl⟩
  | cons value rest ih =>
      simp only [List.forall_mem_cons] at each
      obtain ⟨shown, first⟩ := each.1
      obtain ⟨texts, others⟩ := ih each.2
      exact ⟨shown :: texts, by simp only [textAll, first, others]⟩

/-- A shape has a text if its parts do, and if it is an integer, one that is short. -/
theorem shapeText_succeeds {shape : Value} (short : shape.Short)
    (each : ∀ part ∈ shape.parts, ∃ shown, text part = .ok shown) :
    ∃ shown, shapeText text shape = .ok shown := by
  cases shape with
  | int whole =>
      simp only [shapeText]
      exact ⟨_, numeral_of_writable short⟩
  | bigInteger whole =>
      simp only [shapeText, numeral_of_writable short]
      exact ⟨_, rfl⟩
  | bool truth => cases truth <;> exact ⟨_, rfl⟩
  | list elements | deque elements =>
      obtain ⟨texts, shown⟩ := textAll_succeeds each
      simp only [Value.parts] at shown
      simp only [shapeText, shown]
      exact ⟨_, rfl⟩
  | set elements | frozenSet elements =>
      obtain ⟨texts, shown⟩ := textAll_succeeds each
      cases elements with
      | nil => exact ⟨_, rfl⟩
      | cons first rest =>
          simp only [Value.parts] at shown
          simp only [shapeText, shown]
          exact ⟨_, rfl⟩
  | tuple elements =>
      obtain ⟨texts, shown⟩ := textAll_succeeds each
      simp only [Value.parts] at shown
      simp only [shapeText, shown, tupleText]
      split <;> exact ⟨_, rfl⟩
  | mapping entries | record recordClass fields =>
      obtain ⟨texts, shown⟩ := textAll_succeeds each
      simp only [Value.parts] at shown
      simp only [shapeText, shown, Except.map]
      exact ⟨_, rfl⟩
  | _ => exact ⟨_, rfl⟩

theorem textAll_copied {values : List Value}
    (each : ∀ value ∈ values, text value.copied = other value) :
    textAll text (values.map Value.copied) = textAll other values := by
  induction values with
  | nil => rfl
  | cons value rest ih =>
      simp only [List.forall_mem_cons] at each
      simp only [List.map_cons, textAll, each.1, ih each.2]

/-- The text of a copied shape is that of the shape if the copies of its parts have their texts. -/
theorem shapeText_copied {shape : Value}
    (each : ∀ part ∈ shape.parts, text part.copied = other part) :
    shapeText text shape.copied = shapeText other shape := by
  cases shape with
  | list elements | tuple elements | deque elements =>
      have parts := textAll_copied each
      simp only [Value.parts] at parts
      simp only [Value.copied, shapeText, Value.copiedAll_eq, parts]
  | set elements | frozenSet elements =>
      have parts := textAll_copied each
      cases elements with
      | nil => rfl
      | cons first rest =>
          simp only [Value.parts, List.map_cons] at parts
          simp only [Value.copied, shapeText, Value.copiedAll_eq, List.map_cons, parts]
  | mapping entries =>
      have parts := textAll_copied each
      simp only [Value.parts] at parts
      simp only [Value.copied, shapeText, Value.interleave_copied, parts]
  | record recordClass fields =>
      have parts := textAll_copied each
      simp only [Value.parts] at parts
      simp only [Value.copied, shapeText, Value.copiedFields_map, Value.copiedFields_names, parts]
  | bool truth => cases truth <;> rfl
  | _ => rfl

theorem ellipsis_copied (shape : Value) : ellipsis shape.copied = ellipsis shape := by
  cases shape <;> rfl

end Shapes

section Room

/-- The depths of all objects together that the parts of a value do not stand in yet. -/
def room (heap : Heap) (around : List Address) : Nat :=
  total (fun index => if .stored index ∈ around then 0 else (heap.cell index).depth)
    (List.range heap.cells.size)

theorem room_nil (heap : Heap) : heap.room [] = heap.depth := by
  have cells : heap.cells.toList = (List.range heap.cells.size).map heap.cell := by
    refine List.ext_getElem (by simp) fun index known _ => ?_
    have inside : index < heap.cells.size := by simpa using known
    simp [cell, inside]
  rw [Heap.depth, ← Array.foldl_toList, cells, List.foldl_map]
  simp [room, total]

/-- An object that is entered takes its depth from the room that is left. -/
theorem room_cons {around : List Address} {index : Nat} (known : index < heap.cells.size)
    (outside : .stored index ∉ around) :
    heap.room (.stored index :: around) + (heap.cell index).depth ≤ heap.room around := by
  have ordered : ∀ other ∈ List.range heap.cells.size,
      (if .stored other ∈ Address.stored index :: around then 0 else (heap.cell other).depth) ≤
        if .stored other ∈ around then 0 else (heap.cell other).depth := by
    intro other _
    by_cases before : .stored other ∈ around
    · simp [before]
    · by_cases same : other = index <;> simp [before, same]
  have grown := total_add_le (List.mem_range.mpr known) ordered (by simp)
  rwa [if_neg outside] at grown

end Room

theorem display_int {whole : Int} (writable : Number.Writable whole) :
    heap.display (.int whole) = .ok (toString whole) := by
  simp only [display, look, literal, reach, literalTo_succ, Value.address?, Option.any_none,
    Bool.false_eq_true, if_false, shapeText, numeral_of_writable writable]

theorem literal_int_of_long {whole : Int} (long : ¬ Number.Writable whole) :
    heap.literal (.int whole) = .error (.longNumeral none) := by
  simp only [literal, reach, literalTo_succ, Value.address?, Option.any_none, Bool.false_eq_true,
    if_false, look, shapeText, numeral_of_long long]

/-- Nothing inside the value waits to be written out as a copy. -/
def Written (heap : Heap) (value : Value) : Prop :=
  ∀ inner, heap.Holds value inner → ∀ index, inner ≠ .copy index

/-- Each integer inside the value can be written out, and so can the number of parts of each part. -/
structure Legible (heap : Heap) (value : Value) : Prop where
  written : heap.Written value
  short : ∀ inner, heap.Holds value inner → (heap.look inner).Short
  sized : ∀ inner count, heap.Holds value inner → heap.length? inner = some count →
    Number.Writable count

theorem Written.inside (written : heap.Written value) (member : part ∈ (heap.look value).parts) :
    heap.Written part :=
  fun inner held => written inner (.inside member held)

theorem Legible.inside (legible : heap.Legible value) (member : part ∈ (heap.look value).parts) :
    heap.Legible part where
  written := legible.written.inside member
  short inner held := legible.short inner (.inside member held)
  sized inner count held := legible.sized inner count (.inside member held)

/-- A value is legible if it is among values that are so by themselves and hold no others. -/
theorem Legible.of_closed {among : List Value} (member : value ∈ among)
    (each : ∀ inner ∈ among, (∀ index, inner ≠ .copy index) ∧ (heap.look inner).Short ∧
      (∀ count, heap.length? inner = some count → Number.Writable count) ∧
      ∀ part ∈ (heap.look inner).parts, part ∈ among) : heap.Legible value := by
  have known : ∀ inner, heap.Holds value inner → inner ∈ among := by
    intro inner held
    induction held with
    | self => exact member
    | inside part _ ih => exact ih ((each _ member).2.2.2 _ part)
  exact ⟨fun inner held => (each inner (known inner held)).1,
    fun inner held => (each inner (known inner held)).2.1,
    fun inner count held => (each inner (known inner held)).2.2.1 count⟩

section Succeeding

variable {fuel : Nat} {around : List Address}

/-- A part that is gone on to leaves less room than the value does. -/
theorem room_entering (written : heap.Written value)
    (fresh : ¬ value.address?.any (around.contains ·) = true)
    (member : part ∈ (heap.look value).parts) :
    heap.room (entering around value) + part.depth + 1 ≤ heap.room around + value.depth := by
  cases value with
  | copy index => exact absurd rfl (written _ .self index)
  | ref index =>
      have outside : .stored index ∉ around := by simpa [Value.address?] using fresh
      have shallow : part.depth < (heap.cell index).depth := Value.depth_lt_of_part member
      rcases Nat.lt_or_ge index heap.cells.size with known | beyond
      · have left := room_cons known outside
        simp only [entering, Value.address?, Value.depth]
        omega
      · have bare : heap.cell index = .null := by simp [cell, beyond]
        rw [look_ref, bare] at member
        cases member
  | _ =>
      have shallow := Value.depth_lt_of_part member
      exact Nat.add_le_add_left shallow (heap.room around)

theorem literalTo_succeeds (legible : heap.Legible value)
    (roomy : heap.room around + value.depth ≤ fuel) :
    ∃ shown, heap.literalTo fuel around value = .ok shown := by
  induction fuel generalizing around value with
  | zero =>
      have := value.depth_pos
      omega
  | succ fuel ih =>
      rw [literalTo_succ]
      split
      next => exact ⟨_, rfl⟩
      next fresh =>
        refine shapeText_succeeds (legible.short value .self) fun part member => ?_
        have less := room_entering legible.written fresh member
        exact ih (legible.inside member) (by omega)

theorem literal_succeeds (legible : heap.Legible value) :
    ∃ shown, heap.literal value = .ok shown := by
  refine literalTo_succeeds legible ?_
  rw [room_nil, reach]
  omega

/-- A value whose integers can be written out has a text. -/
theorem display_succeeds (legible : heap.Legible value) :
    ∃ shown, heap.display value = .ok shown := by
  have short := legible.short value .self
  cases shape : heap.look value with
  | bigInteger whole =>
      rw [shape] at short
      simp only [display, shape]
      exact ⟨_, numeral_of_writable short⟩
  | text _ | date _ | mode _ | failure _ =>
      simp only [display, shape]
      exact ⟨_, rfl⟩
  | _ =>
      simp only [display, shape]
      exact literal_succeeds legible

end Succeeding

section Copying

theorem look_copied_of_written (written : heap.Written value) :
    heap.look value.copied = (heap.look value).copied := by
  cases value with
  | copy index => exact absurd rfl (written _ .self index)
  | _ => rfl

/-- A copy has as many parts. -/
theorem length?_copied (written : heap.Written value) :
    heap.length? value.copied = heap.length? value := by
  unfold length?
  rw [look_copied_of_written written]
  cases heap.look value <;>
    simp [Value.copied, Value.copiedAll_eq, Value.length_copiedEntries]

/-- Where the objects around it are copies as well, the copy of a value is shown as the value. -/
theorem literalTo_copied {fuel : Nat} {around : List Nat} (written : heap.Written value) :
    heap.literalTo fuel (around.map .copied) value.copied =
      heap.literalTo fuel (around.map .stored) value := by
  induction fuel generalizing around value with
  | zero => rfl
  | succ fuel ih =>
      have looked := look_copied_of_written written
      have later (around : List Nat) : shapeText (heap.literalTo fuel (around.map .copied))
          (heap.look value).copied =
            shapeText (heap.literalTo fuel (around.map .stored)) (heap.look value) :=
        shapeText_copied fun part member => ih (written.inside member)
      rw [literalTo_succ, literalTo_succ, looked, ellipsis_copied]
      cases value with
      | copy index => exact absurd rfl (written _ .self index)
      | ref index =>
          have same : (Address.copied index ∈ around.map .copied) =
              (Address.stored index ∈ around.map .stored) := by simp
          have inside := later (index :: around)
          simp only [List.map_cons] at inside
          simp only [Value.copied, Value.address?, Option.any_some, List.contains_iff_mem, same,
            entering, inside]
      | _ =>
          have inside := later around
          simp only [Value.copied, Value.address?, entering, Option.any_none, Bool.false_eq_true,
            if_false, inside]

/-- The copy of a value has the text that the value has. -/
theorem display_copied (written : heap.Written value) :
    heap.display value.copied = heap.display value := by
  have literal : heap.literal value.copied = heap.literal value := by
    have shown : heap.literalTo (heap.reach value) ([].map .copied) value.copied =
        heap.literalTo (heap.reach value) ([].map .stored) value := literalTo_copied written
    have deep : heap.reach value.copied = heap.reach value := by
      simp only [reach, Value.depth_copied]
    rw [Heap.literal, deep]
    exact shown
  have looked := look_copied_of_written written
  unfold display
  rw [looked, literal]
  cases heap.look value <;> rfl

end Copying

end Heap

end Exemplar
