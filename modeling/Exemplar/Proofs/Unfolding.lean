import Exemplar.Proofs.Circles
import Mathlib.Data.List.Forall2
import Mathlib.Data.List.Perm.Subperm

/-!
Plain forms of records that refer to each other. A record has a plain form exactly where it leads to
no record inside itself, and the form is what it unfolds to: at each place a tree of its own,
however often the record is met. What the records on the way in tell apart is a circle and a second
visit: of these records none is met twice, so the way in is no longer than there are records.
-/

namespace Exemplar

namespace Value

/-- What plain forms are made of: the values of fields and entries, and the elements of lists,
tuples and sets. -/
def contents : Value → List Value
  | .list elements | .tuple elements | .set elements | .frozenSet elements => elements
  | .mapping entries => entries.map (·.2)
  | .record _ fields => fields.map (·.2)
  | _ => []

/-- What a value becomes when other values take the place of its contents: a record a mapping from
the names of its fields, a mapping one from the same keys, and all else that has contents a list. -/
def regrouped? : Value → Option (List Value → Value)
  | .list _ | .tuple _ | .set _ | .frozenSet _ => some .list
  | .mapping entries => some fun values => .mapping ((entries.map (·.1)).zip values)
  | .record _ fields =>
      some fun values => .mapping ((fields.map fun field => .text field.1).zip values)
  | _ => none

/-- The contents of all values but records. -/
def contentsPastRecords : Value → List Value
  | .record .. => []
  | value => value.contents

variable {value part : Value}

theorem mem_parts_of_contents (member : part ∈ value.contents) : part ∈ value.parts := by
  cases value with
  | mapping entries =>
      obtain ⟨entry, known, rfl⟩ := List.mem_map.mp member
      exact mem_interleave.mpr ⟨entry, known, .inr rfl⟩
  | deque => cases member
  | _ => exact member

theorem contents_copied (value : Value) : value.copied.contents = value.contents.map copied := by
  have entriesCopied (entries : List (Value × Value)) :
      (copiedEntries entries).map (·.2) = (entries.map (·.2)).map copied := by
    induction entries with
    | nil => rfl
    | cons entry rest ih => simp [copiedEntries, ih]
  cases value with
  | list elements | tuple elements | set elements | frozenSet elements =>
      exact copiedAll_eq elements
  | mapping entries => exact entriesCopied entries
  | record recordClass fields => exact copiedFields_map fields
  | _ => rfl

theorem follows_contentsPastRecords : Heap.Follows contentsPastRecords where
  parts := by
    intro shape part member
    cases shape with
    | record => cases member
    | _ => exact mem_parts_of_contents member
  copied shape := by
    cases shape with
    | list elements => exact contents_copied (.list elements)
    | tuple elements => exact contents_copied (.tuple elements)
    | set elements => exact contents_copied (.set elements)
    | frozenSet elements => exact contents_copied (.frozenSet elements)
    | mapping entries => exact contents_copied (.mapping entries)
    | _ => rfl

end Value

namespace Heap

variable {heap : Heap} {value other part plain : Value} {values plains : List Value}
  {around : List Address} {levels : Nat} {fault : Fault} {make : List Value → Value}
  {recordClass : RecordClass} {fields : List (String × Value)}

/-- The inner value is some of what the plain form of the outer one is made of. -/
def Contains (heap : Heap) (outer inner : Value) : Prop := inner ∈ (heap.look outer).contents

/-- The inner value is met inside the outer one, or is the outer one. -/
def Reaches (heap : Heap) : Value → Value → Prop := Relation.ReflTransGen heap.Contains

/-- The value is met inside itself. -/
def Circles (heap : Heap) (value : Value) : Prop := Relation.TransGen heap.Contains value value

/-- Every circle of objects passes through a record. -/
def RecordsOnCircles (heap : Heap) : Prop := heap.Straight Value.contentsPastRecords

/-- The inside of a value written out: at each place the plain form of what is met there. -/
inductive Unfolds (heap : Heap) : Value → Value → Prop
  | bare {value : Value} : (heap.look value).regrouped? = none → Unfolds heap value value
  | regrouped {value : Value} {make : List Value → Value} {plains : List Value} :
      (heap.look value).regrouped? = some make →
      (heap.look value).contents.length = plains.length →
      (∀ pair ∈ (heap.look value).contents.zip plains, Unfolds heap pair.1 pair.2) →
      Unfolds heap value (make plains)

section PlainAll

variable {make other : Value → Except Fault Value}

theorem plainAll_ok : plainAll make values = .ok plains ↔
    List.Forall₂ (fun value plain => make value = .ok plain) values plains := by
  induction values generalizing plains with
  | nil => simp [plainAll, eq_comm]
  | cons first rest ih =>
      rw [List.forall₂_cons_left_iff, plainAll]
      cases made : make first with
      | error fault => simp
      | ok one =>
          cases all : plainAll make rest with
          | error fault => simp [← ih, all]
          | ok others => simp [← ih, all, eq_comm]

theorem plainAll_error (failed : plainAll make values = .error fault) :
    ∃ value ∈ values, make value = .error fault := by
  induction values with
  | nil => cases failed
  | cons first rest ih =>
      rw [plainAll] at failed
      cases made : make first with
      | error raised =>
          simp only [made, Except.error.injEq] at failed
          exact ⟨first, by simp, failed ▸ made⟩
      | ok one =>
          cases all : plainAll make rest with
          | error raised =>
              simp only [made, all, Except.error.injEq] at failed
              obtain ⟨value, member, found⟩ := ih (failed ▸ all)
              exact ⟨value, List.mem_cons_of_mem first member, found⟩
          | ok others => simp [made, all] at failed

theorem plainAll_congr (same : ∀ value ∈ values, make value = other value) :
    plainAll make values = plainAll other values := by
  induction values with
  | nil => rfl
  | cons first rest ih =>
      simp only [List.forall_mem_cons] at same
      simp only [plainAll, same.1, ih same.2]

end PlainAll

section Steps

theorem map_eq_ok {result : Except Fault (List Value)} :
    result.map make = .ok plain ↔ ∃ plains, result = .ok plains ∧ make plains = plain := by
  cases result <;> simp [Except.map]

theorem map_eq_error {result : Except Fault (List Value)} :
    result.map make = .error fault ↔ result = .error fault := by
  cases result <;> simp [Except.map]

/-- The records that the contents of a value stand in. -/
def enteringRecord (heap : Heap) (around : List Address) (value : Value) : List Address :=
  if heap.isRecord value then entering around value else around

theorem isRecord_of_look (shape : heap.look value = .record recordClass fields) :
    heap.isRecord value = true := by
  rw [isRecord, shape]

/-- The value is none of the records that it stands in. -/
def Fresh (heap : Heap) (around : List Address) (value : Value) : Prop :=
  heap.isRecord value = true → ∀ address, value.address? = some address → address ∉ around

/-- What one step can come to: a value without contents, a record that the value stands in, or the
contents of the value. -/
inductive PlainStep (heap : Heap) (levels : Nat) (around : List Address) (value : Value) :
    Except Fault Value → Prop
  | bare : (heap.look value).regrouped? = none → PlainStep heap levels around value (.ok value)
  | again {recordClass : RecordClass} {fields : List (String × Value)} {address : Address} :
      heap.look value = .record recordClass fields →
      value.address? = some address → address ∈ around →
      PlainStep heap levels around value (.error (.cyclicRecord recordClass.name))
  | inside {make : List Value → Value} : (heap.look value).regrouped? = some make →
      heap.Fresh around value →
      PlainStep heap levels around value
        ((plainAll (heap.plainTo levels (heap.enteringRecord around value))
          (heap.look value).contents).map make)

theorem plainStep (heap : Heap) (levels : Nat) (around : List Address) (value : Value) :
    PlainStep heap levels around value (heap.plainTo (levels + 1) around value) := by
  have gathered {make : List Value → Value}
      (shape : (heap.look value).regrouped? = some make) (other : heap.isRecord value = false) :
      PlainStep heap levels around value
        ((plainAll (heap.plainTo levels around) (heap.look value).contents).map make) := by
    have same : heap.enteringRecord around value = around := by simp [enteringRecord, other]
    have fresh : heap.Fresh around value := by simp [Fresh, other]
    have step : PlainStep heap levels around value _ := .inside shape fresh
    rwa [same] at step
  unfold plainTo
  cases shape : heap.look value with
  | record recordClass fields =>
      have same : heap.enteringRecord around value = entering around value :=
        if_pos (isRecord_of_look shape)
      by_cases met : value.address?.any (around.contains ·) = true
      · obtain ⟨address, known, inside⟩ := (Option.any_eq_true ..).mp met
        simp only [met, if_true]
        exact .again shape known (List.contains_iff_mem.mp inside)
      · have fresh : heap.Fresh around value :=
          fun _ address known inside => met (by simpa [known] using inside)
        have step : PlainStep heap levels around value _ :=
          .inside (by rw [shape, Value.regrouped?]) fresh
        rw [same, shape] at step
        simp only [met, Bool.false_eq_true, if_false]
        exact step
  | list elements | tuple elements | set elements | frozenSet elements | mapping entries =>
      have step := gathered (by rw [shape, Value.regrouped?]) (by rw [isRecord, shape])
      rwa [shape] at step
  | _ => exact .bare (by rw [shape]; rfl)

theorem contents_of_regrouped (bare : value.regrouped? = none) : value.contents = [] := by
  cases value <;> first | rfl | cases bare

/-- The plain form of a value is made of those of its contents, which are made with a level less. -/
theorem exists_below_of_plainTo (made : heap.plainTo levels around value = .ok plain)
    (held : heap.Contains value part) :
    ∃ below < levels, ∃ inner form, heap.plainTo below inner part = .ok form := by
  cases levels with
  | zero => cases made
  | succ below =>
      have step := plainStep heap below around value
      generalize heap.plainTo (below + 1) around value = result at step made
      cases step with
      | bare shape =>
          rw [Contains, contents_of_regrouped shape] at held
          cases held
      | again => cases made
      | inside shape fresh =>
          obtain ⟨plains, all, -⟩ := map_eq_ok.mp made
          obtain ⟨form, -, known⟩ := exists_of_forall₂ (plainAll_ok.mp all) held
          exact ⟨below, Nat.lt_succ_self below, _, form, known⟩

theorem exists_below_of_transGen (inside : Relation.TransGen heap.Contains value part)
    (made : heap.plainTo levels around value = .ok plain) :
    ∃ below < levels, ∃ inner form, heap.plainTo below inner part = .ok form := by
  induction inside with
  | single held => exact exists_below_of_plainTo made held
  | tail _ held ih =>
      obtain ⟨below, fewer, inner, form, known⟩ := ih
      obtain ⟨least, less, result⟩ := exists_below_of_plainTo known held
      exact ⟨least, Nat.lt_trans less fewer, result⟩

/-- What is met inside itself has no plain form: every way in leads to another. -/
theorem not_circles_of_plainTo (made : heap.plainTo levels around value = .ok plain) :
    ¬ heap.Circles value := by
  intro circles
  induction levels using Nat.strong_induction_on generalizing around plain with
  | h levels ih =>
      obtain ⟨below, fewer, inner, form, known⟩ := exists_below_of_transGen circles made
      exact ih below fewer known

theorem not_circles_of_reaches (made : heap.plainTo levels around value = .ok plain)
    (reaches : heap.Reaches value part) : ¬ heap.Circles part := by
  rcases Relation.reflTransGen_iff_eq_or_transGen.mp reaches with rfl | inside
  · exact not_circles_of_plainTo made
  · obtain ⟨below, -, inner, form, known⟩ := exists_below_of_transGen inside made
    exact not_circles_of_plainTo known

theorem unfolds_of_plainTo (made : heap.plainTo levels around value = .ok plain) :
    heap.Unfolds value plain := by
  induction levels generalizing around value plain with
  | zero => cases made
  | succ below ih =>
      have step := plainStep heap below around value
      generalize heap.plainTo (below + 1) around value = result at step made
      cases step with
      | bare shape =>
          cases made
          exact .bare shape
      | again => cases made
      | inside shape fresh =>
          obtain ⟨plains, all, rfl⟩ := map_eq_ok.mp made
          have each := List.forall₂_iff_zip.mp (plainAll_ok.mp all)
          exact .regrouped shape each.1 fun pair member => ih (each.2 member)

/-- The record that is found to be inside itself is met inside the value, and it is one that the
value stands in or has a circle of its own. -/
theorem met_of_plainTo (failed : heap.plainTo levels around value = .error fault)
    (enough : fault ≠ .tooDeep) :
    ∃ record recordClass fields, heap.Reaches value record ∧
      heap.look record = .record recordClass fields ∧ fault = .cyclicRecord recordClass.name ∧
      ((∃ address ∈ around, record.address? = some address) ∨ heap.Circles record) := by
  induction levels generalizing around value with
  | zero =>
      cases failed
      exact absurd rfl enough
  | succ below ih =>
      have step := plainStep heap below around value
      generalize heap.plainTo (below + 1) around value = result at step failed
      cases step with
      | bare => cases failed
      | again shape known inside =>
          cases failed
          exact ⟨value, _, _, .refl, shape, rfl, .inl ⟨_, inside, known⟩⟩
      | inside shape fresh =>
          obtain ⟨part, member, raised⟩ := plainAll_error (map_eq_error.mp failed)
          obtain ⟨record, recordClass, fields, reaches, found, rfl, place⟩ := ih raised
          refine ⟨record, recordClass, fields, reaches.head member, found, rfl, ?_⟩
          rcases place with ⟨address, known, stands⟩ | circles
          · by_cases outer : address ∈ around
            · exact .inl ⟨address, outer, stands⟩
            · -- The address has been added on the way in, so the record is the value itself.
              right
              have itself : value.address? = some address := by
                unfold enteringRecord entering at known
                split at known
                · split at known
                  next own entered =>
                    rcases List.mem_cons.mp known with rfl | earlier
                    · exact entered
                    · exact absurd earlier outer
                  next => exact absurd known outer
                · exact absurd known outer
              have same : value.sameObject record = true := by
                simp [Value.sameObject, itself, stands]
              rw [Value.eq_of_sameObject same] at member
              exact Relation.TransGen.head' member reaches
          · exact .inr circles

end Steps

section Unfoldings

theorem mem_zip_getElem {index : Nat} (one : index < values.length)
    (other : index < plains.length) :
    (values[index], plains[index]) ∈ values.zip plains := by
  have within : index < (values.zip plains).length := by simp [one, other]
  have pair : (values.zip plains)[index] = (values[index], plains[index]) := List.getElem_zip
  exact pair ▸ List.getElem_mem within

theorem exists_content (same : values.length = plains.length) (member : plain ∈ plains) :
    ∃ content ∈ values, (content, plain) ∈ values.zip plains := by
  obtain ⟨index, within, rfl⟩ := List.mem_iff_getElem.mp member
  have known : index < values.length := same.symm ▸ within
  exact ⟨values[index], List.getElem_mem known, mem_zip_getElem known within⟩

/-- What unfolds is not met inside itself. -/
theorem Unfolds.accessible (unfolds : heap.Unfolds value plain) :
    Acc (fun inner outer => heap.Contains outer inner) value := by
  induction unfolds with
  | bare shape =>
      refine .intro _ fun part held => ?_
      rw [Contains, contents_of_regrouped shape] at held
      cases held
  | regrouped shape same _ ih =>
      refine .intro _ fun part held => ?_
      obtain ⟨index, within, rfl⟩ := List.mem_iff_getElem.mp held
      exact ih _ (mem_zip_getElem within (same ▸ within))

theorem Unfolds.unique {one other : Value} (first : heap.Unfolds value one)
    (second : heap.Unfolds value other) : one = other := by
  induction first generalizing other with
  | bare shape =>
      cases second with
      | bare => rfl
      | regrouped shape' => simp [shape] at shape'
  | @regrouped value make plains shape same _ ih =>
      cases second with
      | bare shape' => simp [shape] at shape'
      | @regrouped _ make' plains' shape' same' each =>
          obtain rfl : make = make' := by simpa [shape] using shape'
          refine congrArg make (List.ext_getElem (same.symm.trans same') fun index one other => ?_)
          have within : index < (heap.look value).contents.length := same ▸ one
          exact ih _ (mem_zip_getElem within one) (each _ (mem_zip_getElem within other))

theorem not_circles_of_unfolds (unfolds : heap.Unfolds value plain)
    (reaches : heap.Reaches value part) : ¬ heap.Circles part := by
  have below : Acc (fun inner outer => heap.Contains outer inner) part := by
    induction reaches with
    | refl => exact unfolds.accessible
    | tail _ held ih => exact ih.inv held
  intro circles
  have inside := below.transGen
  clear reaches below
  induction inside with
  | intro value _ ih => exact ih value (Relation.transGen_swap.mpr circles) circles

end Unfoldings

section Termination

/-- All objects: the cells, and the copies that they can be written out to. -/
def addresses (heap : Heap) : List Address :=
  (List.range heap.cells.size).map .stored ++ (List.range heap.cells.size).map .copied

/-- The objects that a value can stand in, none of them twice. -/
structure Standing (heap : Heap) (around : List Address) : Prop where
  distinct : around.Nodup
  known : around ⊆ heap.addresses

theorem Standing.length_le (standing : heap.Standing around) :
    around.length ≤ 2 * heap.cells.size := by
  have bounded := (standing.distinct.subperm standing.known).length_le
  simp only [addresses, List.length_append, List.length_map, List.length_range] at bounded
  omega

theorem mem_addresses {address : Address} (record : heap.isRecord value = true)
    (stands : value.address? = some address) : address ∈ heap.addresses := by
  have stored (index : Nat) (record : heap.isRecord (.ref index) = true) :
      index < heap.cells.size := by
    by_contra beyond
    simp [isRecord, cell, beyond] at record
  cases value with
  | ref index =>
      cases stands
      simpa [addresses] using stored index record
  | copy index =>
      cases stands
      have original : heap.isRecord (.ref index) = true := by
        unfold isRecord at record ⊢
        rw [look_copy] at record
        rw [look_ref]
        cases shape : heap.cell index <;> simp_all [Value.copied]
      simpa [addresses] using stored index original
  | _ => cases stands

theorem Standing.enter {address : Address} (standing : heap.Standing around)
    (record : heap.isRecord value = true) (stands : value.address? = some address)
    (fresh : address ∉ around) : heap.Standing (address :: around) where
  distinct := List.nodup_cons.mpr ⟨fresh, standing.distinct⟩
  known := List.cons_subset.mpr ⟨mem_addresses record stands, standing.known⟩

theorem plainTo_congr {other : Nat}
    (same : heap.Fresh around value → ∀ part ∈ (heap.look value).contents,
      heap.plainTo levels (heap.enteringRecord around value) part =
        heap.plainTo other (heap.enteringRecord around value) part) :
    heap.plainTo (levels + 1) around value = heap.plainTo (other + 1) around value := by
  unfold plainTo
  cases shape : heap.look value with
  | record recordClass fields =>
      have entered : heap.enteringRecord around value = entering around value :=
        if_pos (isRecord_of_look shape)
      rw [shape, entered] at same
      refine ite_congr rfl (fun _ => rfl) fun fresh => ?_
      exact congrArg (Except.map _) (plainAll_congr (same fun _ address known inside =>
        fresh (by simpa [known] using inside)))
  | list elements | tuple elements | set elements | frozenSet elements | mapping entries =>
      have outside : heap.enteringRecord around value = around := by
        simp [enteringRecord, isRecord, shape]
      rw [shape, outside] at same
      exact congrArg (Except.map _) (plainAll_congr (same (by simp [Fresh, isRecord, shape])))
  | _ => rfl

theorem depth_of_stored_part {address : Address} (flat : heap.Flat)
    (stands : value.address? = some address) (member : part ∈ (heap.look value).parts) :
    part.depth = 1 := by
  have stored (part : Value) (stored : part.Stored) : part.depth = 1 ∧ part.copied.depth = 1 := by
    cases part <;> first | exact ⟨rfl, rfl⟩ | exact absurd stored not_false
  cases value with
  | ref index => exact (stored part (flat index part member)).1
  | copy index =>
      rw [look_copy, Value.parts_copied] at member
      obtain ⟨original, known, rfl⟩ := List.mem_map.mp member
      exact (stored original (flat index original known)).2
  | _ => cases stands

/-- How many levels suffice for a value in the records that it stands in: every record that it does
not stand in can be entered once, and from each a way past records is bounded. -/
def allowance (heap : Heap) (around : List Address) (levels : Nat) : Nat :=
  (2 * heap.cells.size - around.length) * (heap.depth + 1) + levels

variable {more : Nat}

/-- The contents of a value have an allowance that is less. -/
theorem allowance_of_contents (flat : heap.Flat) (broken : heap.RecordsOnCircles)
    (standing : heap.Standing around)
    (within : (heap.followed Value.contentsPastRecords).Within levels value)
    (fresh : heap.Fresh around value) (held : heap.Contains value part) :
    heap.Standing (heap.enteringRecord around value) ∧
      ∃ below, (heap.followed Value.contentsPastRecords).Within below part ∧
        heap.allowance (heap.enteringRecord around value) below < heap.allowance around levels := by
  obtain ⟨below, rfl⟩ := within.succ
  by_cases record : heap.isRecord value = true
  · cases stands : value.address? with
    | some address =>
        have entered : heap.enteringRecord around value = address :: around := by
          simp [enteringRecord, record, entering, stands]
        have inside := standing.enter record stands (fresh record address stands)
        have shallow := depth_of_stored_part flat stands (Value.mem_parts_of_contents held)
        refine ⟨entered.symm ▸ inside, heap.depth + 1, ?_, ?_⟩
        · have deep : (heap.followed Value.contentsPastRecords).Within
              (heap.depth + part.depth) part :=
            broken.within flat Value.follows_contentsPastRecords
          rwa [shallow] at deep
        · -- One record less can be entered, which is what the way from it is paid with.
          have bounded := inside.length_le
          simp only [List.length_cons] at bounded
          obtain ⟨left, counted⟩ : ∃ left, 2 * heap.cells.size - around.length = left + 1 :=
            ⟨2 * heap.cells.size - around.length - 1, by omega⟩
          have fewer : 2 * heap.cells.size - (address :: around).length = left := by
            simp only [List.length_cons]
            omega
          rw [entered, allowance, allowance, fewer, counted, Nat.succ_mul]
          omega
    | none =>
        have entered : heap.enteringRecord around value = around := by
          simp [enteringRecord, record, entering, stands]
        refine ⟨entered.symm ▸ standing, below, within part ?_, by rw [entered]; simp [allowance]⟩
        cases value with
        | ref | copy => cases stands
        | _ => exact Value.mem_parts_of_contents held
  · have outside : heap.enteringRecord around value = around := by simp [enteringRecord, record]
    refine ⟨outside.symm ▸ standing, below, ?_, by rw [outside]; simp [allowance]⟩
    refine Value.follows_contentsPastRecords.within within ?_
    have other := isRecord_eq_false.mp (Bool.not_eq_true _ ▸ record)
    have same : (heap.look value).contentsPastRecords = (heap.look value).contents := by
      cases shape : heap.look value with
      | record recordClass fields => exact absurd shape (other recordClass fields)
      | _ => rfl
    exact same ▸ held

theorem allowance_pos {other : Heap} (within : other.Within levels value) :
    0 < heap.allowance around levels := by
  obtain ⟨below, rfl⟩ := within.succ
  exact Nat.add_pos_right _ (Nat.succ_pos below)

/-- From its allowance on, more levels change nothing of what comes of a value. -/
theorem plainTo_settles {other : Nat} (flat : heap.Flat) (broken : heap.RecordsOnCircles)
    (standing : heap.Standing around)
    (within : (heap.followed Value.contentsPastRecords).Within levels value)
    (enough : heap.allowance around levels ≤ more) (least : heap.allowance around levels ≤ other) :
    heap.plainTo more around value = heap.plainTo other around value ∧
      heap.plainTo more around value ≠ .error .tooDeep := by
  have some : 0 < heap.allowance around levels := allowance_pos within
  induction more generalizing around value levels other with
  | zero => omega
  | succ more ih =>
      obtain ⟨other, rfl⟩ : ∃ fewer, other = fewer + 1 := ⟨other - 1, by omega⟩
      have inside (fresh : heap.Fresh around value) (part : Value)
          (held : part ∈ (heap.look value).contents) :
          heap.plainTo more (heap.enteringRecord around value) part =
              heap.plainTo other (heap.enteringRecord around value) part ∧
            heap.plainTo more (heap.enteringRecord around value) part ≠ .error .tooDeep := by
        obtain ⟨standing, below, within, less⟩ :=
          allowance_of_contents flat broken standing within fresh held
        exact ih standing within (by omega) (by omega) (allowance_pos within)
      refine ⟨plainTo_congr fun fresh part held => (inside fresh part held).1, fun failed => ?_⟩
      have step := plainStep heap more around value
      generalize heap.plainTo (more + 1) around value = result at step failed
      cases step with
      | bare | again => cases failed
      | inside shape fresh =>
          obtain ⟨part, held, raised⟩ := plainAll_error (map_eq_error.mp failed)
          exact (inside fresh part held).2 raised

theorem standing_nil : heap.Standing [] := ⟨List.nodup_nil, List.nil_subset _⟩

theorem allowance_le_circuit :
    heap.allowance [] (heap.depth + value.depth) ≤ heap.circuit value := by
  have records : 2 * heap.cells.size * (heap.depth + 1) ≤
      2 * heap.cells.size * heap.reach value :=
    Nat.mul_le_mul_left _ (by simp only [reach]; omega)
  calc
    heap.allowance [] (heap.depth + value.depth) =
        2 * heap.cells.size * (heap.depth + 1) + (heap.depth + value.depth) := rfl
    _ ≤ 2 * heap.cells.size * heap.reach value + heap.reach value :=
        Nat.add_le_add records (Nat.le_succ _)
    _ = heap.circuit value := (Nat.succ_mul _ _).symm

end Termination

/-- On every heap whose circles pass through records, however its records refer to each other: the
plain form of a value is made or refused with so many levels, and more make no difference; it is
refused exactly where a record is met that is met inside itself, whose class the fault names; and it
is the value unfolded. -/
theorem plain_graph (flat : heap.Flat) (broken : heap.RecordsOnCircles) (value : Value) :
    (∀ levels, heap.circuit value ≤ levels → heap.plainTo levels [] value = heap.plain value) ∧
      (∀ fault, heap.plain value = .error fault → ∃ record recordClass fields,
        heap.Reaches value record ∧ heap.look record = .record recordClass fields ∧
          heap.Circles record ∧ fault = .cyclicRecord recordClass.name) ∧
      ((∃ name, heap.plain value = .error (.cyclicRecord name)) ↔
        ∃ record, heap.Reaches value record ∧ heap.isRecord record = true ∧
          heap.Circles record) ∧
      ∀ plain, heap.plain value = .ok plain ↔ heap.Unfolds value plain := by
  have within : (heap.followed Value.contentsPastRecords).Within (heap.depth + value.depth) value :=
    broken.within flat Value.follows_contentsPastRecords
  have settled {levels : Nat} (enough : heap.circuit value ≤ levels) :
      heap.plainTo levels [] value = heap.plain value ∧
        heap.plainTo levels [] value ≠ .error .tooDeep :=
    plainTo_settles flat broken standing_nil within
      (Nat.le_trans allowance_le_circuit enough) allowance_le_circuit
  have raised (fault : Fault) (failed : heap.plain value = .error fault) :
      ∃ record recordClass fields, heap.Reaches value record ∧
        heap.look record = .record recordClass fields ∧ heap.Circles record ∧
          fault = .cyclicRecord recordClass.name := by
    have enough : fault ≠ .tooDeep := by
      rintro rfl
      exact (settled (Nat.le_refl _)).2 failed
    obtain ⟨record, recordClass, fields, reaches, shape, named, place⟩ :=
      met_of_plainTo failed enough
    refine ⟨record, recordClass, fields, reaches, shape, ?_, named⟩
    exact place.resolve_left (by simp)
  refine ⟨fun levels enough => (settled enough).1, raised, ⟨?_, ?_⟩, fun plain => ⟨?_, ?_⟩⟩
  · rintro ⟨name, failed⟩
    obtain ⟨record, recordClass, fields, reaches, shape, circles, -⟩ := raised _ failed
    exact ⟨record, reaches, isRecord_of_look shape, circles⟩
  · rintro ⟨record, reaches, -, circles⟩
    cases made : heap.plain value with
    | ok plain => exact absurd circles (not_circles_of_reaches made reaches)
    | error fault =>
        obtain ⟨_, recordClass, _, -, -, -, rfl⟩ := raised _ made
        exact ⟨recordClass.name, rfl⟩
  · exact unfolds_of_plainTo
  · intro unfolds
    cases made : heap.plain value with
    | ok other => rw [(unfolds_of_plainTo made).unique unfolds]
    | error fault =>
        obtain ⟨record, _, _, reaches, -, circles, -⟩ := raised _ made
        exact absurd circles (not_circles_of_unfolds unfolds reaches)

end Heap

/-! Ann has Bob for both of her friends, and Cid is a friend of his own. -/

namespace Friends

def friendClass : RecordClass := ⟨1, "Friend", [1, 0]⟩

def heap : Heap :=
  ⟨#[.record friendClass [("name", .text "Ann"), ("friends", .ref 1)],
    .list [.ref 2, .ref 2],
    .record friendClass [("name", .text "Bob"), ("friends", .ref 3)],
    .list [],
    .record friendClass [("name", .text "Cid"), ("friends", .ref 5)],
    .list [.ref 4]]⟩

def bob : Value := .object [("name", .text "Bob"), ("friends", .list [])]

def ann : Value := .object [("name", .text "Ann"), ("friends", .list [bob, bob])]

theorem flat : heap.Flat :=
  Heap.flat_of_cells (by simp [heap, Value.parts, Value.Stored])

theorem recordsOnCircles : heap.RecordsOnCircles := by
  have step {outer inner : Nat} (leads : heap.Leads Value.contentsPastRecords outer inner) :
      outer = 1 ∧ inner = 2 ∨ outer = 5 ∧ inner = 4 := by
    match outer, leads with
    | 0, leads | 2, leads | 3, leads | 4, leads => cases leads
    | 1, leads | 5, leads => simpa [Heap.Leads, heap, Heap.cell, Value.contentsPastRecords,
        Value.contents] using leads
    | outer + 6, leads => cases leads
  have way {outer inner : Nat}
      (leads : Relation.TransGen (heap.Leads Value.contentsPastRecords) outer inner) :
      outer = 1 ∧ inner = 2 ∨ outer = 5 ∧ inner = 4 := by
    induction leads with
    | single leads => exact step leads
    | tail _ leads ih =>
        have last := step leads
        omega
  intro index circle
  have around := way circle
  omega

theorem plain_graph_friends :
    heap.Flat ∧ heap.RecordsOnCircles ∧ heap.Unfolds (.ref 0) ann ∧
      ∃ record, heap.Reaches (.ref 4) record ∧ heap.isRecord record = true ∧
        heap.Circles record :=
  ⟨flat, recordsOnCircles,
    ((Heap.plain_graph flat recordsOnCircles (.ref 0)).2.2.2 ann).mp rfl,
    (Heap.plain_graph flat recordsOnCircles (.ref 4)).2.2.1.mp ⟨"Friend", rfl⟩⟩

end Friends

end Exemplar
