import Exemplar.Proofs.Agreement
import Exemplar.Proofs.Circles
import Exemplar.Proofs.Texts

/-!
What is read of a heap. A computation on a value reads no objects but those that the value leads to.
In two heaps that hold the same of these it comes to the same, whatever else is stored in either and
however far the larger of them allows to go; values that go round in circles apart, which can be
gone through for ever.
-/

namespace Exemplar

namespace Heap

/-- The value leads to the object. -/
abbrev Spans (heap : Heap) (value : Value) (index : Nat) : Prop :=
  heap.LeadsTo Value.parts value index

/-- Both heaps hold the same of every object that the value leads to. -/
def Agrees (one other : Heap) (value : Value) : Prop :=
  ∀ index, one.Spans value index → other.cell index = one.cell index

variable {one other : Heap} {value part left right : Value} {index levels first second : Nat}
  {values lefts rights : List Value}

namespace Agrees

theorem look (agrees : one.Agrees other value) : other.look value = one.look value := by
  cases value with
  | ref index => exact agrees index .ref
  | copy index => exact congrArg Value.copied (agrees index .copy)
  | _ => rfl

theorem inside (agrees : one.Agrees other value) (member : part ∈ (one.look value).parts) :
    one.Agrees other part :=
  fun index spans => agrees index (.within member spans)

theorem spans_iff (agrees : one.Agrees other value) :
    other.Spans value index ↔ one.Spans value index := by
  constructor
  · intro spans
    induction spans with
    | ref => exact .ref
    | copy => exact .copy
    | within member _ ih =>
        rw [agrees.look] at member
        exact .within member (ih (agrees.inside member))
  · intro spans
    induction spans with
    | ref => exact .ref
    | copy => exact .copy
    | within member _ ih => exact .within (agrees.look ▸ member) (ih (agrees.inside member))

theorem symm (agrees : one.Agrees other value) : other.Agrees one value :=
  fun index spans => (agrees index (agrees.spans_iff.mp spans)).symm

theorem within (agrees : one.Agrees other value) (within : one.Within levels value) :
    other.Within levels value := by
  induction levels generalizing value with
  | zero => exact within.elim
  | succ levels ih =>
      intro part member
      rw [agrees.look] at member
      exact ih (agrees.inside member) (within part member)

end Agrees

theorem spans_of_copied (spans : one.Spans value.copied index) : one.Spans value index := by
  generalize same : value.copied = copy at spans
  induction spans generalizing value with
  | ref => cases value <;> cases same
  | copy =>
      cases value with
      | ref => cases same; exact .ref
      | copy => cases same; exact .copy
      | _ => cases same
  | @within outer inner index member spans ih =>
      subst same
      by_cases unwritten : ∃ cell, value = .copy cell
      · obtain ⟨cell, rfl⟩ := unwritten
        exact .within member spans
      · rw [look_copied fun cell same => unwritten ⟨cell, same⟩, Value.parts_copied] at member
        obtain ⟨part, known, rfl⟩ := List.mem_map.mp member
        exact .within known (ih rfl)

theorem Agrees.copied (agrees : one.Agrees other value) : one.Agrees other value.copied :=
  fun index spans => agrees index (spans_of_copied spans)

/-- What stands here and is made of values leads where these lead. -/
theorem agrees_of_parts (here : one.look value = value) (bare : value.address? = none)
    (each : ∀ part ∈ value.parts, one.Agrees other part) : one.Agrees other value := by
  intro index spans
  cases spans with
  | ref | copy => cases bare
  | within member spans => exact each _ (here ▸ member) index spans

section Comparisons

variable {ask answer : Comparison}

theorem equalAll_congr (same : ∀ left ∈ lefts, ∀ right ∈ rights, ask left right = answer left right) :
    equalAll ask lefts rights = equalAll answer lefts rights := by
  induction lefts generalizing rights with
  | nil => cases rights <;> rfl
  | cons left lefts ih =>
      cases rights with
      | nil => rfl
      | cons right rights =>
          simp only [List.forall_mem_cons] at same
          simp only [equalAll, same.1.1, ih fun left member => (same.2 left member).2]

theorem equalAny_congr (same : ∀ right ∈ rights, ask left right = answer left right) :
    equalAny ask left rights = equalAny answer left rights := by
  induction rights with
  | nil => rfl
  | cons right rights ih =>
      simp only [List.forall_mem_cons] at same
      simp only [equalAny, same.1, ih same.2]

theorem equalWithin_congr
    (same : ∀ left ∈ lefts, ∀ right ∈ rights, ask left right = answer left right) :
    equalWithin ask lefts rights = equalWithin answer lefts rights := by
  induction lefts with
  | nil => rfl
  | cons left lefts ih =>
      simp only [List.forall_mem_cons] at same
      simp only [equalWithin, equalAny_congr same.1, ih same.2]

theorem entryWith_congr {entries : List (Value × Value)}
    (same : ∀ right ∈ Value.interleave entries, ask left right = answer left right) :
    entryWith ask left entries = entryWith answer left entries := by
  induction entries with
  | nil => rfl
  | cons entry entries ih =>
      simp only [Value.interleave, List.forall_mem_cons] at same
      simp only [entryWith, same.1, ih same.2.2]

theorem entriesWithin_congr {entries counterparts : List (Value × Value)}
    (same : ∀ left ∈ Value.interleave entries, ∀ right ∈ Value.interleave counterparts,
      ask left right = answer left right) :
    entriesWithin ask entries counterparts = entriesWithin answer entries counterparts := by
  induction entries with
  | nil => rfl
  | cons entry entries ih =>
      simp only [Value.interleave, List.forall_mem_cons] at same
      simp only [entriesWithin, entryWith_congr same.1, ih same.2.2]
      cases looked : entryWith answer entry.1 counterparts with
      | none => rfl
      | some found =>
          cases found with
          | none => rfl
          | some found =>
              obtain ⟨_, member, _⟩ := mem_of_entryWith looked
              have among := Value.mem_interleave.mpr ⟨_, member, .inr rfl⟩
              simp only [same.2.1 found among]

theorem fieldsWithin_congr {fields counterparts : Named Value}
    (same : ∀ left ∈ fields.map (·.2), ∀ right ∈ counterparts.map (·.2),
      ask left right = answer left right) :
    fieldsWithin ask fields counterparts = fieldsWithin answer fields counterparts := by
  induction fields with
  | nil => rfl
  | cons field fields ih =>
      simp only [List.map_cons, List.forall_mem_cons] at same
      simp only [fieldsWithin, ih same.2]
      cases found : Named.get? field.1 counterparts with
      | none => rfl
      | some held =>
          have member := List.mem_map_of_mem (f := (·.2)) (Named.mem_of_get? found)
          simp only [same.1 held member]

/-- Shapes compare alike if their parts do. -/
theorem equalShapes_congr
    (same : ∀ part ∈ left.parts, ∀ counterpart ∈ right.parts,
      ask part counterpart = answer part counterpart) :
    equalShapes ask left right = equalShapes answer left right := by
  unfold equalShapes
  split <;> simp only [Value.parts] at same
  case h_8 | h_9 | h_10 => exact equalAll_congr same
  case h_11 | h_12 | h_13 | h_14 => rw [equalWithin_congr same]
  case h_15 => rw [entriesWithin_congr same]
  case h_16 => rw [fieldsWithin_congr same]
  all_goals rfl

/-- Two values compare alike in both heaps, with all the depth that one of the two needs. -/
theorem Agrees.equalTo (agree : one.Agrees other left) (agrees : one.Agrees other right)
    (within : one.Within levels left) (inside : one.Within levels right) (enough : levels ≤ first)
    (plenty : levels ≤ second) : other.equalTo second left right = one.equalTo first left right := by
  induction levels generalizing left right first second with
  | zero => exact within.elim
  | succ levels ih =>
      obtain ⟨first, rfl⟩ : ∃ below, first = below + 1 := ⟨first - 1, by omega⟩
      obtain ⟨second, rfl⟩ : ∃ below, second = below + 1 := ⟨second - 1, by omega⟩
      have shapes : equalShapes (other.equalTo second) (one.look left) (one.look right) =
          equalShapes (one.equalTo first) (one.look left) (one.look right) :=
        equalShapes_congr fun part member counterpart among =>
          ih (agree.inside member) (agrees.inside among) (within part member)
            (inside counterpart among) (by omega) (by omega)
      rw [Heap.equalTo, Heap.equalTo, agree.look, agrees.look, shapes]

end Comparisons

section Hashes

variable {ask answer : Value → Except Fault Nat}

theorem hashAll_congr (same : ∀ value ∈ values, ask value = answer value) :
    hashAll ask values = hashAll answer values := by
  induction values with
  | nil => rfl
  | cons value rest ih =>
      simp only [List.forall_mem_cons] at same
      simp only [hashAll, same.1, ih same.2]

theorem Agrees.hashTo (agrees : one.Agrees other value) (within : one.Within levels value)
    (enough : levels ≤ first) (plenty : levels ≤ second) :
    other.hashTo second value = one.hashTo first value := by
  induction levels generalizing value first second with
  | zero => exact within.elim
  | succ levels ih =>
      obtain ⟨first, rfl⟩ : ∃ below, first = below + 1 := ⟨first - 1, by omega⟩
      obtain ⟨second, rfl⟩ : ∃ below, second = below + 1 := ⟨second - 1, by omega⟩
      have parts : hashAll (other.hashTo second) (one.look value).parts =
          hashAll (one.hashTo first) (one.look value).parts :=
        hashAll_congr fun part member =>
          ih (agrees.inside member) (within part member) (by omega) (by omega)
      rw [Heap.hashTo, Heap.hashTo, agrees.look]
      cases shape : one.look value with
      | tuple elements | frozenSet elements =>
          rw [shape] at parts
          simp only [Value.parts] at parts
          simp only [parts]
      | _ => rfl

end Hashes

section Orders

variable {side : Side} {ask answer : Comparison} {before after : Value → Value → Except Fault Bool}

theorem orderAll_congr
    (equal : ∀ left ∈ lefts, ∀ right ∈ rights, ask left right = answer left right)
    (order : ∀ left ∈ lefts, ∀ right ∈ rights, before left right = after left right) :
    orderAll ask before side lefts rights = orderAll answer after side lefts rights := by
  induction lefts generalizing rights with
  | nil => cases rights <;> rfl
  | cons left lefts ih =>
      cases rights with
      | nil => rfl
      | cons right rights =>
          simp only [List.forall_mem_cons] at equal order
          simp only [orderAll, equal.1.1, order.1.1,
            ih (fun left member => (equal.2 left member).2) fun left member =>
              (order.2 left member).2]

theorem properlyWithin_congr
    (same : ∀ left ∈ lefts, ∀ right ∈ rights, ask left right = answer left right) :
    properlyWithin ask lefts rights = properlyWithin answer lefts rights := by
  simp only [properlyWithin, equalWithin_congr same]

theorem Agrees.orderTo (agree : one.Agrees other left) (agrees : one.Agrees other right)
    (within : one.Within levels left) (inside : one.Within levels right) (enough : levels ≤ first)
    (plenty : levels ≤ second) :
    other.orderTo side second left right = one.orderTo side first left right := by
  induction levels generalizing left right first second with
  | zero => exact within.elim
  | succ levels ih =>
      obtain ⟨first, rfl⟩ : ∃ below, first = below + 1 := ⟨first - 1, by omega⟩
      obtain ⟨second, rfl⟩ : ∃ below, second = below + 1 := ⟨second - 1, by omega⟩
      have order : ∀ part ∈ (one.look left).parts, ∀ counterpart ∈ (one.look right).parts,
          other.orderTo side second part counterpart = one.orderTo side first part counterpart :=
        fun part member counterpart among =>
          ih (agree.inside member) (agrees.inside among) (within part member)
            (inside counterpart among) (by omega) (by omega)
      have equal : ∀ part ∈ (one.look left).parts, ∀ counterpart ∈ (one.look right).parts,
          other.equalTo second part counterpart = one.equalTo first part counterpart :=
        fun part member counterpart among =>
          (agree.inside member).equalTo (agrees.inside among) (within part member)
            (inside counterpart among) (by omega) (by omega)
      have equalBack : ∀ part ∈ (one.look right).parts, ∀ counterpart ∈ (one.look left).parts,
          other.equalTo second part counterpart = one.equalTo first part counterpart :=
        fun part member counterpart among =>
          (agrees.inside member).equalTo (agree.inside among) (inside part member)
            (within counterpart among) (by omega) (by omega)
      rw [Heap.orderTo, Heap.orderTo, agree.look, agrees.look]
      split <;> simp_all only [Value.parts]
      case h_4 | h_5 | h_6 => exact orderAll_congr equal order
      case h_7 | h_8 | h_9 | h_10 =>
        cases side with
        | below => exact properlyWithin_congr equal
        | above => exact properlyWithin_congr equalBack

end Orders

section Texts

variable {around : List Address} {text answer : Value → Except Fault String} {shape : Value}

theorem textAll_congr (same : ∀ value ∈ values, text value = answer value) :
    textAll text values = textAll answer values := by
  induction values with
  | nil => rfl
  | cons value rest ih =>
      simp only [List.forall_mem_cons] at same
      simp only [textAll, same.1, ih same.2]

theorem shapeText_congr (same : ∀ part ∈ shape.parts, text part = answer part) :
    shapeText text shape = shapeText answer shape := by
  have texts := textAll_congr same
  cases shape with
  | bool truth => cases truth <;> rfl
  | set elements | frozenSet elements =>
      cases elements with
      | nil => rfl
      | cons first rest =>
          simp only [Value.parts] at texts
          simp only [shapeText, texts]
  | list | tuple | deque | mapping | record =>
      simp only [Value.parts] at texts
      simp only [shapeText, texts]
  | _ => rfl

theorem Agrees.literalTo (agrees : one.Agrees other value) (within : one.Within levels value)
    (enough : levels ≤ first) (plenty : levels ≤ second) :
    other.literalTo second around value = one.literalTo first around value := by
  induction levels generalizing value around first second with
  | zero => exact within.elim
  | succ levels ih =>
      obtain ⟨first, rfl⟩ : ∃ below, first = below + 1 := ⟨first - 1, by omega⟩
      obtain ⟨second, rfl⟩ : ∃ below, second = below + 1 := ⟨second - 1, by omega⟩
      have shapes : shapeText (other.literalTo second (entering around value)) (one.look value) =
          shapeText (one.literalTo first (entering around value)) (one.look value) :=
        shapeText_congr fun part member =>
          ih (agrees.inside member) (within part member) (by omega) (by omega)
      rw [literalTo_succ, literalTo_succ, agrees.look, shapes]

end Texts

theorem Agrees.failureFrom {seen : List Address} (agrees : one.Agrees other value)
    (within : one.Within levels value) (enough : levels ≤ first) (plenty : levels ≤ second) :
    other.failureFrom second value seen = one.failureFrom first value seen := by
  induction levels generalizing value seen first second with
  | zero => exact within.elim
  | succ levels ih =>
      obtain ⟨first, rfl⟩ : ∃ below, first = below + 1 := ⟨first - 1, by omega⟩
      obtain ⟨second, rfl⟩ : ∃ below, second = below + 1 := ⟨second - 1, by omega⟩
      have later (part : Value) (member : part ∈ (one.look value).parts) (seen : List Address) :
          other.failureFrom second part seen = one.failureFrom first part seen :=
        ih (agrees.inside member) (within part member) (by omega) (by omega)
      cases value with
      | ref | copy =>
          simp only [Heap.failureFrom, Value.address?, agrees.look]
          split
          next => rfl
          next => exact List.foldl_ext _ _ _ fun _ part member => by simp only [later part member]
      | failure => rfl
      | _ =>
          simp only [Heap.failureFrom, Value.address?]
          exact List.foldl_ext _ _ _ fun _ part member => by simp only [later part member]

section Finite

/-- As deep as the value goes, either heap allows to go. -/
theorem Agrees.depths (agrees : one.Agrees other value) (finite : one.Finite value) :
    ∃ levels, one.Within levels value ∧ levels ≤ one.reach value ∧ levels ≤ other.reach value := by
  obtain ⟨levels, within⟩ := finite
  have here := within.bounded
  have there := agrees.symm.within (agrees.within within).bounded
  rcases Nat.le_total one.depth other.depth with smaller | smaller
  · exact ⟨_, here, by simp only [reach]; omega, by simp only [reach]; omega⟩
  · exact ⟨_, there, by simp only [reach]; omega, by simp only [reach]; omega⟩

theorem Agrees.hash? (agrees : one.Agrees other value) (finite : one.Finite value) :
    other.hash? value = one.hash? value := by
  obtain ⟨levels, within, enough, plenty⟩ := agrees.depths finite
  exact agrees.hashTo within enough plenty

theorem Agrees.holdsFailure (agrees : one.Agrees other value) (finite : one.Finite value) :
    other.holdsFailure value = one.holdsFailure value := by
  obtain ⟨levels, within, enough, plenty⟩ := agrees.depths finite
  exact congrArg Prod.fst (agrees.failureFrom within enough plenty)

theorem Agrees.display (agrees : one.Agrees other value) (finite : one.Finite value) :
    other.display value = one.display value := by
  obtain ⟨levels, within, enough, plenty⟩ := agrees.depths finite
  have literal : other.literal value = one.literal value := agrees.literalTo within enough plenty
  rw [Heap.display, Heap.display, agrees.look, literal]

section Pairs

variable (agree : one.Agrees other left) (agrees : one.Agrees other right)
  (finite : one.Finite left) (finiteToo : one.Finite right)

include agree agrees finite finiteToo

/-- As deep as either of the two values goes, both heaps allow to go with both. -/
theorem depths_of_agrees : ∃ levels, one.Within levels left ∧ one.Within levels right ∧
    levels ≤ one.reach left + one.reach right ∧ levels ≤ other.reach left + other.reach right := by
  obtain ⟨depth, within, enough, plenty⟩ := agree.depths finite
  obtain ⟨deep, inside, fits, abounds⟩ := agrees.depths finiteToo
  exact ⟨depth + deep, within.mono (by omega), inside.mono (by omega), by omega, by omega⟩

theorem Agrees.equal : other.equal left right = one.equal left right := by
  obtain ⟨levels, within, inside, enough, plenty⟩ :=
    depths_of_agrees agree agrees finite finiteToo
  exact congrArg (·.getD false) (agree.equalTo agrees within inside enough plenty)

theorem Agrees.order (side : Side) : other.order side left right = one.order side left right := by
  obtain ⟨levels, within, inside, enough, plenty⟩ :=
    depths_of_agrees agree agrees finite finiteToo
  exact agree.orderTo agrees within inside enough plenty

end Pairs

theorem Agrees.isAmong (agrees : one.Agrees other value) (finite : one.Finite value)
    (each : ∀ member ∈ values, one.Agrees other member ∧ one.Finite member) :
    other.isAmong value values = one.isAmong value values := by
  induction values with
  | nil => rfl
  | cons member rest ih =>
      obtain ⟨⟨agree, ends⟩, others⟩ := List.forall_mem_cons.mp each
      have later := ih others
      simp only [Heap.isAmong] at later
      simp only [Heap.isAmong, List.any_cons, agree.equal agrees ends finite, later]

end Finite

end Heap
end Exemplar
