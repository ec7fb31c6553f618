import Exemplar.ValueType
import Mathlib.Algebra.Order.Field.Rat
import Mathlib.Tactic.FieldSimp
import Mathlib.Tactic.Ring

/-!
Numbers compare by value. Every finite number has a rational value, an integral float has that of
the integer it is stored as, and so storing it as an integer changes no comparison and no set that
the number is put into.
-/

namespace Exemplar

namespace Number.Dyadic

def toRat (value : Dyadic) : ℚ := value.numerator * 2 ^ value.exponent

theorem numeratorOver_toRat {value : Dyadic} {exponent : Int} (below : exponent ≤ value.exponent) :
    value.numeratorOver exponent * (2 : ℚ) ^ exponent = value.toRat := by
  have apart : exponent + ((value.exponent - exponent).toNat : Int) = value.exponent := by omega
  calc value.numeratorOver exponent * (2 : ℚ) ^ exponent
      = value.numerator * (2 ^ exponent * 2 ^ (value.exponent - exponent).toNat) := by
        simp only [numeratorOver, Nat.pow_eq]
        push_cast
        ring
    _ = value.toRat := by rw [toRat, ← zpow_natCast, ← zpow_add₀ two_ne_zero, apart]

theorem same_iff {left right : Dyadic} : left.same right = true ↔ left.toRat = right.toRat := by
  have positive : (2 : ℚ) ^ min left.exponent right.exponent ≠ 0 := zpow_ne_zero _ two_ne_zero
  rw [same, decide_eq_true_eq,
    ← numeratorOver_toRat (min_le_left left.exponent right.exponent),
    ← numeratorOver_toRat (min_le_right left.exponent right.exponent), mul_left_inj' positive,
    Int.cast_inj]
  rfl

@[simp] theorem toRat_ofInt {whole : Int} : (ofInt whole).toRat = whole := by
  simp [toRat, ofInt]

theorem toRat_of_toInt {value : Dyadic} {whole : Int} (found : value.toInt? = some whole) :
    value.toRat = whole := by
  by_cases raised : 0 ≤ value.exponent
  · simp only [toInt?, raised, if_true, Option.some.injEq] at found
    obtain ⟨power, shift⟩ := Int.eq_ofNat_of_zero_le raised
    rw [← found, toRat, shift]
    simp
  · simp only [toInt?, raised, if_false, Option.ite_none_right_eq_some, Option.some.injEq] at found
    obtain ⟨divides, quotient⟩ := found
    obtain ⟨power, shift⟩ := Int.eq_ofNat_of_zero_le (show 0 ≤ -value.exponent by omega)
    have product := Int.ediv_mul_cancel (Int.dvd_of_emod_eq_zero divides)
    rw [quotient, shift] at product
    have lowered : value.exponent = -power := by omega
    rw [toRat, ← product, lowered]
    simp

theorem less_iff {left right : Dyadic} : left.less right = true ↔ left.toRat < right.toRat := by
  have positive : (0 : ℚ) < 2 ^ min left.exponent right.exponent := zpow_pos two_pos _
  rw [less, decide_eq_true_eq,
    ← numeratorOver_toRat (min_le_left left.exponent right.exponent),
    ← numeratorOver_toRat (min_le_right left.exponent right.exponent),
    mul_lt_mul_iff_left₀ positive, Int.cast_lt]
  rfl

theorem truncate_of_toInt {value : Dyadic} {whole : Int} (found : value.toInt? = some whole) :
    value.truncate = whole := by
  by_cases raised : 0 ≤ value.exponent
  · simpa only [toInt?, truncate, raised, if_true, Option.some.injEq] using found
  · simp only [toInt?, raised, if_false, Option.ite_none_right_eq_some, Option.some.injEq] at found
    obtain ⟨divides, quotient⟩ := found
    simp only [truncate, raised, if_false]
    rw [← quotient, Int.tdiv_eq_ediv_of_dvd (Int.dvd_of_emod_eq_zero divides)]

theorem toInt_ofInt {whole : Int} : (ofInt whole).toInt? = some whole := by
  simp [toInt?, ofInt]

theorem less_ofInt {value : Dyadic} {whole : Int} (found : value.toInt? = some whole)
    (other : Dyadic) :
    (ofInt whole).less other = value.less other ∧ other.less (ofInt whole) = other.less value := by
  constructor <;> rw [Bool.eq_iff_iff, less_iff, less_iff, toRat_ofInt, toRat_of_toInt found]

theorem same_ofInt {value other : Dyadic} {whole : Int} (found : value.toInt? = some whole) :
    (ofInt whole).same other = value.same other := by
  rw [Bool.eq_iff_iff, same_iff, same_iff, toRat_ofInt, toRat_of_toInt found]

theorem same_comm {left right : Dyadic} : left.same right = right.same left := by
  rw [Bool.eq_iff_iff, same_iff, same_iff]
  exact eq_comm

end Number.Dyadic

theorem Number.Binary64.point_of_toInt {number : Binary64} {whole : Int}
    (integral : number.toInt? = some whole) :
    ∃ place, number.point? = some (.at place) ∧ place.toInt? = some whole := by
  cases number with
  | nan => cases integral
  | infinite negative => cases integral
  | finite negative mantissa exponent => exact ⟨_, rfl, integral⟩

namespace Quantity

theorem same_comm {left right : Quantity} : left.same right = right.same left := by
  rcases left with _ | left
  · cases right <;> rfl
  · rcases right with _ | right
    · rfl
    · cases left <;> cases right <;> first | rfl | exact Number.Dyadic.same_comm

@[simp] theorem less_ofInt {left right : Int} :
    (ofInt left).less (ofInt right) = decide (left < right) := by
  simp [ofInt, less, Number.Binary64.Point.less, Number.Dyadic.less, Number.Dyadic.aligned,
    Number.Dyadic.numeratorOver, Number.Dyadic.ofInt]

@[simp] theorem same_ofInt_self {whole : Int} : (ofInt whole).same (ofInt whole) = true :=
  Number.Dyadic.same_iff.mpr rfl

end Quantity

theorem Value.eq_of_sameObject {left right : Value} (same : left.sameObject right = true) :
    left = right := by
  unfold sameObject at same
  cases left <;> cases right <;> simp_all [address?]

namespace Heap

variable {heap : Heap} {value other sample : Value} {quantity : Quantity}

theorem equalShapes_of_quantity {equal : Comparison} {left right : Value}
    (counts : left.quantity? = some quantity) :
    equalShapes equal left right = some ((right.quantity?.map quantity.same).getD false) := by
  cases left <;> cases right <;> simp_all [equalShapes, Value.quantity?]

theorem equalShapes_of_quantity_right {equal : Comparison} {left right : Value}
    (counts : right.quantity? = some quantity) :
    equalShapes equal left right = some ((left.quantity?.map quantity.same).getD false) := by
  cases left <;> cases right <;> simp_all [equalShapes, Value.quantity?, Quantity.same_comm]

/-- Two values are compared by their shapes first; what depth is left is for the parts. -/
theorem equal_eq (heap : Heap) (value other : Value) :
    ∃ levels, heap.equal value other = if value.sameObject other then true
      else (equalShapes (heap.equalTo levels) (heap.look value) (heap.look other)).getD false := by
  refine ⟨heap.reach value + (heap.depth + other.depth), ?_⟩
  have opened : heap.reach value + heap.reach other =
      heap.reach value + (heap.depth + other.depth) + 1 := rfl
  rw [equal, equal?, opened, equalTo]
  split <;> rfl

/-- The order of two values is that of their shapes; what depth is left is for the parts. -/
theorem order_eq (heap : Heap) (side : Side) (value other : Value) :
    ∃ levels, heap.order side value other = heap.orderTo side (levels + 1) value other :=
  ⟨heap.reach value + (heap.depth + other.depth), rfl⟩

theorem equal_of_quantity (counts : (heap.look value).quantity? = some quantity)
    (same : quantity.same quantity = true) :
    heap.equal value other = ((heap.look other).quantity?.map quantity.same).getD false := by
  obtain ⟨levels, opened⟩ := equal_eq heap value other
  rw [opened, equalShapes_of_quantity counts]
  by_cases shared : value.sameObject other = true
  · have one := Value.eq_of_sameObject shared
    subst one
    simp [shared, counts, same]
  · simp [shared]

theorem equal_comm_of_quantity (counts : (heap.look value).quantity? = some quantity)
    (same : quantity.same quantity = true) : heap.equal other value = heap.equal value other := by
  obtain ⟨levels, opened⟩ := equal_eq heap other value
  rw [equal_of_quantity counts same, opened, equalShapes_of_quantity_right counts]
  by_cases shared : other.sameObject value = true
  · have one := Value.eq_of_sameObject shared
    subst one
    simp [shared, counts, same]
  · simp [shared]

/-- The value counts as an integer, of whatever kind it is. -/
def CountsAs (heap : Heap) (value : Value) (whole : Int) : Prop :=
  (heap.look value).quantity? = some (.ofInt whole)

/-- A number has an order with numbers only. -/
theorem order_of_quantity {side : Side} {answer : Bool}
    (counts : (heap.look value).quantity? = some quantity) :
    heap.order side value other = .ok answer ↔
      ∃ limit, (heap.look other).quantity? = some limit ∧
        answer = side.ask Quantity.less quantity limit := by
  obtain ⟨levels, opened⟩ := order_eq heap side value other
  rw [opened, orderTo]
  generalize heap.look other = second
  cases shape : heap.look value <;> rw [shape] at counts <;>
    simp only [Value.quantity?, Option.some.injEq, reduceCtorEq] at counts <;>
    cases second <;> simp [Value.quantity?, counts, eq_comm]

theorem order_of_counts {whole limit : Int} {side : Side} (counts : heap.CountsAs value limit) :
    heap.order side (.int whole) value =
      .ok (side.ask (fun left right => decide (left < right)) whole limit) := by
  have number : (heap.look (.int whole)).quantity? = some (.ofInt whole) := rfl
  refine (order_of_quantity number).mpr ⟨.ofInt limit, counts, ?_⟩
  cases side <;> simp [Side.ask]

theorem hash_of_quantity (counts : (heap.look value).quantity? = some quantity) :
    heap.hash? value = .ok (Value.hashQuantity quantity) := by
  unfold hash? reach
  rw [hashTo]
  cases shape : heap.look value <;> rw [shape] at counts <;>
    simp only [Value.quantity?, Option.some.injEq, reduceCtorEq] at counts <;>
    simp [Value.quantity?, counts]

end Heap

namespace Primitive

variable {heap : Heap} {sample value other : Value} {members : List Value}

/-- What is stored for a value is the value, or the integer that an integral float is equal to. -/
theorem parse_cases (heap : Heap) (sample value : Value) :
    parse heap sample value = value ∨ ∃ place whole, parse heap sample value = .int whole ∧
      (heap.look value).quantity? = some (.point (.at place)) ∧ place.toInt? = some whole := by
  unfold parse
  split
  next _ number _ given =>
    split
    next whole integral =>
      obtain ⟨place, point, found⟩ := Number.Binary64.point_of_toInt integral
      exact .inr ⟨place, whole, rfl, by simp [given, Value.quantity?, point], found⟩
    next => exact .inl rfl
  next => exact .inl rfl

theorem equal_int_of_toInt {place : Number.Dyadic} {whole : Int}
    (counts : (heap.look value).quantity? = some (.point (.at place)))
    (integral : place.toInt? = some whole) :
    heap.equal (.int whole) other = heap.equal value other ∧
      heap.equal other (.int whole) = heap.equal other value := by
  have itself : (Quantity.point (.at place)).same (.point (.at place)) = true :=
    Number.Dyadic.same_iff.mpr rfl
  have stored : (heap.look (.int whole)).quantity? = some (.ofInt whole) := rfl
  have left : heap.equal (.int whole) other = heap.equal value other := by
    rw [Heap.equal_of_quantity counts itself, Heap.equal_of_quantity stored (by simp)]
    have agree : (Quantity.ofInt whole).same = (Quantity.point (.at place)).same := by
      funext quantity
      rcases quantity with _ | _ | _ | _ <;>
        first | rfl | exact Number.Dyadic.same_ofInt integral
    rw [agree]
  refine ⟨left, ?_⟩
  rw [Heap.equal_comm_of_quantity counts itself, Heap.equal_comm_of_quantity stored (by simp), left]

@[simp] theorem equal_parse_left :
    heap.equal (parse heap sample value) other = heap.equal value other := by
  rcases parse_cases heap sample value with same | ⟨place, whole, stored, counts, integral⟩
  · rw [same]
  · rw [stored, (equal_int_of_toInt counts integral).1]

@[simp] theorem equal_parse_right :
    heap.equal other (parse heap sample value) = heap.equal other value := by
  rcases parse_cases heap sample value with same | ⟨place, whole, stored, counts, integral⟩
  · rw [same]
  · rw [stored, (equal_int_of_toInt counts integral).2]

@[simp] theorem isAmong_parse :
    heap.isAmong (parse heap sample value) (members.map (parse heap sample)) =
      heap.isAmong value members := by
  simp [Heap.isAmong, List.any_map, Function.comp_def]

@[simp] theorem isAmong_parse_of_any :
    heap.isAmong (parse heap sample value) members = heap.isAmong value members := by
  simp [Heap.isAmong]

theorem hash_parse : heap.hash? (parse heap sample value) = heap.hash? value := by
  rcases parse_cases heap sample value with same | ⟨place, whole, stored, counts, integral⟩
  · rw [same]
  · have number : (heap.look (.int whole)).quantity? = some (.ofInt whole) := rfl
    rw [stored, Heap.hash_of_quantity number, Heap.hash_of_quantity counts]
    simp only [Quantity.ofInt, Value.hashQuantity, Value.hashPoint,
      Number.Dyadic.truncate_of_toInt integral,
      Number.Dyadic.truncate_of_toInt Number.Dyadic.toInt_ofInt]

/-- A set takes what is stored for a value exactly where it takes the value. -/
theorem addMember_parse :
    heap.addMember (members.map (parse heap sample)) (parse heap sample value) =
      (heap.addMember members value).map (·.map (parse heap sample)) := by
  simp only [Heap.addMember, hash_parse, isAmong_parse]
  cases heap.hash? value with
  | error fault => rfl
  | ok hash => by_cases known : heap.isAmong value members = true <;> simp [known, Except.map]

theorem parse_parse : parse heap sample (parse heap sample value) = parse heap sample value := by
  generalize result : parse heap sample value = stored
  unfold parse at result ⊢
  split at result
  next whole number shape given =>
    split at result
    next integral found =>
      subst result
      have stored : heap.look (.int integral) = .int integral := rfl
      simp only [shape, stored]
    next broken =>
      subst result
      simp only [shape, given, broken]
  next apart =>
    subst result
    split
    next whole number shape given => exact (apart whole number shape given).elim
    next => rfl

theorem order_parse {side : Side} {answer : Bool}
    (ordered : heap.order side value other = .ok answer) :
    heap.order side (parse heap sample value) other = .ok answer := by
  rcases parse_cases heap sample value with same | ⟨place, whole, stored, counts, integral⟩
  · rw [same, ordered]
  · obtain ⟨limit, number, rfl⟩ := (Heap.order_of_quantity counts).mp ordered
    have number' : (heap.look (.int whole)).quantity? = some (.ofInt whole) := rfl
    rw [stored]
    refine (Heap.order_of_quantity number').mpr ⟨limit, number, ?_⟩
    rcases limit with _ | _ | other | _ <;> cases side <;>
      simp only [Side.ask, Quantity.less, Quantity.ofInt, Number.Binary64.Point.less,
        Number.Dyadic.less_ofInt integral]

@[simp] theorem holdsSafeInteger_parse :
    heap.holdsSafeInteger (parse heap sample value) = heap.holdsSafeInteger value := by
  unfold parse
  split
  next whole number shape given =>
    split
    next integral found =>
      rw [Heap.holdsSafeInteger, Heap.holdsSafeInteger, given]
      simp [Heap.look, found]
    next => rfl
  next => rfl

@[simp] theorem holds_parse {choices : Choices} :
    choices.holds heap (parse heap sample value) = choices.holds heap value := by
  rcases parse_cases heap sample value with same | ⟨place, whole, stored, counts, integral⟩
  · rw [same]
  · cases choices with
    | listed choices => exact isAmong_parse_of_any
    | hashed choices =>
        simp only [Choices.holds, hash_parse, Heap.hash_of_quantity counts, Choices.findHashed,
          equal_parse_left]

end Primitive

end Exemplar
