/-!
Floating-point numbers of 64 bits, held exactly: a finite number is a sign, a mantissa and a power
of two. Numbers are compared by value, with integers too, and rounding a quotient to the nearest
number is done in exact integer arithmetic with ties to even.
-/

namespace Exemplar.Number

/-- The number `numerator * 2 ^ exponent`. -/
structure Dyadic where
  numerator : Int
  exponent : Int
deriving DecidableEq, Inhabited

namespace Dyadic

def ofInt (value : Int) : Dyadic := ⟨value, 0⟩

/-- The numerator that the same number has over the power of two `exponent`, which must not be
larger than its own. -/
def numeratorOver (value : Dyadic) (exponent : Int) : Int :=
  value.numerator * Nat.pow 2 (value.exponent - exponent).toNat

/-- Both numerators over the smaller of the two powers. -/
def aligned (left right : Dyadic) : Int × Int :=
  let exponent := min left.exponent right.exponent
  (left.numeratorOver exponent, right.numeratorOver exponent)

def less (left right : Dyadic) : Bool :=
  let sides := aligned left right
  decide (sides.1 < sides.2)

def same (left right : Dyadic) : Bool :=
  let sides := aligned left right
  decide (sides.1 = sides.2)

/-- The integer that the number equals, if it is one. -/
def toInt? (value : Dyadic) : Option Int :=
  if 0 ≤ value.exponent then some (value.numerator * Nat.pow 2 value.exponent.toNat)
  else
    let unit : Int := Nat.pow 2 (-value.exponent).toNat
    if value.numerator % unit = 0 then some (value.numerator / unit) else none

/-- The integer part, cut off toward zero. -/
def truncate (value : Dyadic) : Int :=
  if 0 ≤ value.exponent then value.numerator * Nat.pow 2 value.exponent.toNat
  else value.numerator.tdiv (Nat.pow 2 (-value.exponent).toNat)

end Dyadic

/-- A floating-point number. The sign of zero is kept. -/
inductive Binary64 where
  | nan
  | infinite (negative : Bool)
  | finite (negative : Bool) (mantissa : Nat) (exponent : Int)
deriving DecidableEq, Inhabited

namespace Binary64

def signed (negative : Bool) (magnitude : Nat) : Int :=
  if negative then -(magnitude : Int) else magnitude

/-- A number for comparison: either end of the line, or a point on it. -/
inductive Point where
  | bottom
  | at (value : Dyadic)
  | top
deriving DecidableEq

namespace Point

def less : Point → Point → Bool
  | .at left, .at right => left.less right
  | .bottom, .bottom => false
  | .bottom, _ => true
  | _, .bottom => false
  | .top, _ => false
  | _, .top => true

def same : Point → Point → Bool
  | .at left, .at right => left.same right
  | .bottom, .bottom => true
  | .top, .top => true
  | _, _ => false

end Point

/-- The place of a number on the line; a number that is none has no place, so it is neither below,
above nor equal to any other. -/
def point? : Binary64 → Option Point
  | .nan => none
  | .infinite true => some .bottom
  | .infinite false => some .top
  | .finite negative mantissa exponent => some (.at ⟨signed negative mantissa, exponent⟩)

def toInt? : Binary64 → Option Int
  | .finite negative mantissa exponent => Dyadic.toInt? ⟨signed negative mantissa, exponent⟩
  | _ => none

def isZero : Binary64 → Bool
  | .finite _ mantissa _ => mantissa == 0
  | _ => false

/-- The quotient of two naturals rounded to an integer, a tie to the even neighbour. -/
def roundQuotient (numerator denominator : Nat) : Nat :=
  let quotient := numerator / denominator
  let twice := 2 * (numerator % denominator)
  if twice < denominator then quotient
  else if denominator < twice then quotient + 1
  else if quotient % 2 = 0 then quotient else quotient + 1

/-- The quotient over a power of two, rounded to an integer. -/
def roundScaled (numerator denominator : Nat) (exponent : Int) : Nat :=
  roundQuotient (numerator * Nat.pow 2 (-exponent).toNat)
    (denominator * Nat.pow 2 exponent.toNat)

/-- The power of two at which the quotient has a mantissa of 53 bits, or the least power there
is. -/
def scale (numerator denominator : Nat) : Int :=
  let guess : Int := max ((numerator.log2 : Int) - denominator.log2 - 52) (-1074)
  let units := numerator * Nat.pow 2 (-guess).toNat / (denominator * Nat.pow 2 guess.toNat)
  if units < Nat.pow 2 52 ∧ -1074 < guess then guess - 1 else guess

/-- The floating-point number nearest to a quotient. -/
def ofQuotient (negative : Bool) (numerator denominator : Nat) : Binary64 :=
  if numerator = 0 then .finite negative 0 0
  else
    let exponent := scale numerator denominator
    let mantissa := roundScaled numerator denominator exponent
    let carried : Nat × Int :=
      if mantissa = Nat.pow 2 53 then (Nat.pow 2 52, exponent + 1) else (mantissa, exponent)
    if 971 < carried.2 then .infinite negative
    else .finite negative carried.1 carried.2

/-- The floating-point number nearest to `digits * 10 ^ exponent`. Exponents far outside the range
are settled by the count of digits alone. -/
def ofDecimal (negative : Bool) (digits : Nat) (exponent : Int) : Binary64 :=
  let magnitude : Int := exponent + ((Nat.log2 digits + 1) * 30103 / 100000 : Nat)
  if digits = 0 then .finite negative 0 0
  else if 400 < magnitude then .infinite negative
  else if magnitude < -400 then .finite negative 0 0
  else ofQuotient negative (digits * Nat.pow 10 exponent.toNat) (Nat.pow 10 (-exponent).toNat)

def ofInt (value : Int) : Binary64 := ofQuotient (decide (value < 0)) value.natAbs 1

end Binary64

end Exemplar.Number
