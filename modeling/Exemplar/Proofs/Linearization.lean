import Mathlib.Algebra.Order.BigOperators.Group.List
import Mathlib.Algebra.Order.Ring.Nat
import Mathlib.Data.List.Nodup
import Exemplar.Ancestry

/-!
The linear order of ancestors. Merging lines gives an order in which each of them can be found again,
with all that is in any of them, once; the search for it ends before the fuel does, so where no order
is answered there is none to be found by taking heads.
-/

namespace Exemplar

namespace Ancestry

/-- The order that comes of lines when the next schema is always the first head of a line that stands
in no line's tail. -/
inductive Merges : List (List Nat) → List Nat → Prop
  | done {lines : List (List Nat)} : lines.all List.isEmpty = true → Merges lines []
  | next {lines : List (List Nat)} {head : Nat} {rest : List Nat} :
      nextHead? lines lines = some head → Merges (lines.map (dropHead head)) rest →
      Merges lines (head :: rest)

variable {line order rest merged : List Nat} {lines remaining : List (List Nat)}
  {head id fuel : Nat}

theorem nextHead?_spec (found : nextHead? lines remaining = some head) :
    (∃ line ∈ remaining, line.head? = some head) ∧ ∀ line ∈ lines, head ∉ line.tail := by
  induction remaining with
  | nil => cases found
  | cons line others ih =>
      cases line with
      | nil =>
          obtain ⟨⟨line, member, first⟩, free⟩ := ih found
          exact ⟨⟨line, List.mem_cons_of_mem _ member, first⟩, free⟩
      | cons candidate tail =>
          simp only [nextHead?] at found
          split at found
          next =>
            obtain ⟨⟨line, member, first⟩, free⟩ := ih found
            exact ⟨⟨line, List.mem_cons_of_mem _ member, first⟩, free⟩
          next free =>
            obtain rfl : candidate = head := Option.some.inj found
            refine ⟨⟨candidate :: tail, by simp, rfl⟩, fun line member within => free ?_⟩
            simpa using ⟨line, member, within⟩

theorem nextHead?_of_empty (empty : remaining.all List.isEmpty = true) :
    nextHead? lines remaining = none := by
  induction remaining with
  | nil => rfl
  | cons line others ih =>
      obtain ⟨rfl, empty⟩ : line = [] ∧ others.all List.isEmpty = true := by simpa using empty
      exact ih empty

section Dropping

theorem dropHead_sublist (head : Nat) (line : List Nat) : (dropHead head line).Sublist line := by
  unfold dropHead
  split
  · exact List.tail_sublist line
  · exact List.Sublist.refl line

theorem sublist_cons_dropHead (head : Nat) (line : List Nat) :
    line.Sublist (head :: dropHead head line) := by
  unfold dropHead
  split
  next first =>
    obtain ⟨tail, rfl⟩ := List.head?_eq_some_iff.mp first
    exact List.Sublist.refl _
  next => exact List.sublist_cons_self head line

/-- A head that stands in no tail is gone when it has been dropped. -/
theorem not_mem_dropHead (free : head ∉ line.tail) : head ∉ dropHead head line := by
  unfold dropHead
  split
  next => exact free
  next other =>
    cases line with
    | nil => simp
    | cons first tail =>
        have differs : head ≠ first := fun same => other (congrArg some same.symm)
        exact List.not_mem_cons_of_ne_of_not_mem differs free

end Dropping

namespace Merges

/-- An order keeps the order of every line. -/
theorem sublist (merges : Merges lines order) (member : line ∈ lines) : line.Sublist order := by
  induction merges generalizing line with
  | done empty =>
      obtain rfl : line = [] := by simpa using List.all_eq_true.mp empty line member
      exact List.Sublist.refl _
  | next _ _ ih =>
      have kept := ih (List.mem_map_of_mem member)
      exact (sublist_cons_dropHead _ line).trans (kept.cons_cons _)

theorem covers (merges : Merges lines order) (member : id ∈ order) : ∃ line ∈ lines, id ∈ line := by
  induction merges with
  | done => cases member
  | next found _ ih =>
      rcases List.mem_cons.mp member with rfl | later
      · obtain ⟨⟨line, within, first⟩, _⟩ := nextHead?_spec found
        exact ⟨line, within, List.mem_of_head? first⟩
      · obtain ⟨dropped, within, held⟩ := ih later
        obtain ⟨line, known, rfl⟩ := List.mem_map.mp within
        exact ⟨line, known, (dropHead_sublist _ line).subset held⟩

theorem mem_iff (merges : Merges lines order) : id ∈ order ↔ ∃ line ∈ lines, id ∈ line := by
  constructor
  · exact merges.covers
  · rintro ⟨line, member, within⟩
    exact (merges.sublist member).subset within

theorem nodup (merges : Merges lines order) : order.Nodup := by
  induction merges with
  | done => exact List.nodup_nil
  | @next lines head rest found merged ih =>
      refine List.nodup_cons.mpr ⟨fun again => ?_, ih⟩
      obtain ⟨dropped, within, held⟩ := merged.covers again
      obtain ⟨line, known, rfl⟩ := List.mem_map.mp within
      exact not_mem_dropHead ((nextHead?_spec found).2 line known) held

end Merges

section Searching

theorem merges_of_merge (answered : merge fuel lines merged = .ok order) :
    ∃ rest, order = merged.reverse ++ rest ∧ Merges lines rest := by
  induction fuel generalizing lines merged with
  | zero => cases answered
  | succ fuel ih =>
      simp only [merge] at answered
      split at answered
      next empty =>
        cases answered
        exact ⟨[], by simp, .done empty⟩
      next =>
        split at answered
        next => cases answered
        next head found =>
          obtain ⟨rest, rfl, merges⟩ := ih answered
          exact ⟨head :: rest, by simp, .next found merges⟩

/-- With every schema that is taken, the lines get shorter. -/
theorem length_flatten_dropHead (found : nextHead? lines lines = some head) :
    (lines.map (dropHead head)).flatten.length < lines.flatten.length := by
  obtain ⟨⟨line, member, first⟩, _⟩ := nextHead?_spec found
  obtain ⟨tail, rfl⟩ := List.head?_eq_some_iff.mp first
  simp only [List.length_flatten, List.map_map]
  refine List.sum_lt_sum _ _ (fun line _ => (dropHead_sublist head line).length_le)
    ⟨head :: tail, member, ?_⟩
  simp [dropHead]

theorem merge_of_merges (merges : Merges lines rest) (enough : lines.flatten.length < fuel) :
    merge fuel lines merged = .ok (merged.reverse ++ rest) := by
  induction merges generalizing fuel merged with
  | done empty =>
      obtain ⟨fuel, rfl⟩ := Nat.exists_eq_add_one_of_ne_zero (Nat.ne_zero_of_lt enough)
      simp [merge, empty]
  | @next lines head rest found merged ih =>
      obtain ⟨fuel, rfl⟩ := Nat.exists_eq_add_one_of_ne_zero (Nat.ne_zero_of_lt enough)
      have some_left : ¬ lines.all List.isEmpty = true := fun empty => by
        cases found.symm.trans (nextHead?_of_empty empty)
      have shorter := length_flatten_dropHead found
      simp only [merge, if_neg some_left, found]
      rw [ih (by omega)]
      simp

theorem firstRepeated?_eq_none_iff : firstRepeated? line = none ↔ line.Nodup := by
  induction line with
  | nil => simp [firstRepeated?]
  | cons base rest ih =>
      by_cases repeated : base ∈ rest
      · simp [firstRepeated?, repeated]
      · simp [firstRepeated?, repeated, ih]

/-- There is an order of ancestors where no base is named twice and the lines of the bases, with the
line of the bases themselves, come to one. -/
theorem ofBases_ok {nameOf : Nat → String} {ancestryOf : Nat → List Nat} {bases : List Nat} :
    ofBases nameOf ancestryOf bases = .ok order ↔
      bases.Nodup ∧ Merges (bases.map ancestryOf ++ [bases]) order := by
  unfold ofBases
  rw [← firstRepeated?_eq_none_iff]
  cases firstRepeated? bases with
  | some base => simp
  | none =>
      simp only [true_and]
      constructor
      · intro answered
        split at answered
        next answer found =>
          cases answered
          obtain ⟨rest, rfl, merges⟩ := merges_of_merge found
          exact merges
        next => cases answered
      · intro merges
        rw [merge_of_merges merges (Nat.lt_succ_self _)]
        rfl

end Searching

end Ancestry

end Exemplar
