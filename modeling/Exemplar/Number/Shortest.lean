import Exemplar.Number.Binary64

/-!
The text of a floating-point number: the fewest decimal digits that read back to it, the nearest
such decimal where there are several, written positionally for leading exponents from -4 to 15 and
with a signed exponent of at least two digits otherwise.
-/

namespace Exemplar.Number

/-- The number `digits * 10 ^ exponent`. -/
structure Decimal where
  digits : Nat
  exponent : Int
deriving DecidableEq, Inhabited

namespace Shortest

/-- Compares `count * 10 ^ tens` with `units * 2 ^ twos`. -/
def compareScaled (count : Nat) (tens : Int) (units : Nat) (twos : Int) : Ordering :=
  compare (count * Nat.pow 10 tens.toNat * Nat.pow 2 (-twos).toNat)
    (units * Nat.pow 2 twos.toNat * Nat.pow 10 (-tens).toNat)

/-- The decimal is nearer to `mantissa * 2 ^ exponent` than to either neighbouring float, a tie
counting when the mantissa is even. Below a power of two the neighbours stand closer. -/
def readsBack (mantissa : Nat) (exponent : Int) (decimal : Decimal) : Bool :=
  let narrow := mantissa == Nat.pow 2 52 && decide (-1074 < exponent)
  let lower := if narrow then 4 * mantissa - 1 else 4 * mantissa - 2
  let upper := 4 * mantissa + 2
  let tie := mantissa % 2 == 0
  let below := compareScaled decimal.digits decimal.exponent lower (exponent - 2)
  let above := compareScaled decimal.digits decimal.exponent upper (exponent - 2)
  (below == .gt || (tie && below == .eq)) && (above == .lt || (tie && above == .eq))

/-- The least power of ten above the number, searched upward from a power that is not above it. -/
def tensAbove (mantissa : Nat) (exponent : Int) : Nat → Int → Int
  | 0, tens => tens
  | steps + 1, tens =>
      if compareScaled 1 tens mantissa exponent == .gt then tens
      else tensAbove mantissa exponent steps (tens + 1)

/-- The decimal of the grid `10 ^ tens` that reads back, the nearer one where both neighbours of
the number do. -/
def onGrid? (mantissa : Nat) (exponent tens : Int) : Option Decimal :=
  let units :=
    mantissa * Nat.pow 2 exponent.toNat * Nat.pow 10 (-tens).toNat /
      (Nat.pow 10 tens.toNat * Nat.pow 2 (-exponent).toNat)
  let lower : Decimal := ⟨units, tens⟩
  let upper : Decimal := ⟨units + 1, tens⟩
  match readsBack mantissa exponent lower, readsBack mantissa exponent upper with
  | true, true =>
      match compareScaled (2 * units + 1) tens (2 * mantissa) exponent with
      | .gt => some lower
      | .lt => some upper
      | .eq => some (if units % 2 = 0 then lower else upper)
  | true, false => some lower
  | false, true => some upper
  | false, false => none

/-- The fewest digits that read back, tried from one digit upward. -/
def search (mantissa : Nat) (exponent top : Int) : Nat → Nat → Option Decimal
  | 0, _ => none
  | steps + 1, count =>
      match onGrid? mantissa exponent (top - count) with
      | some decimal => some decimal
      | none => search mantissa exponent top steps (count + 1)

/-- Moves trailing zeros of the digits into the exponent. -/
def strip : Nat → Decimal → Decimal
  | 0, decimal => decimal
  | steps + 1, decimal =>
      if decimal.digits % 10 = 0 then strip steps ⟨decimal.digits / 10, decimal.exponent + 1⟩
      else decimal

/-- The shortest decimal that reads back to the number, which must not be zero. Should none of
seventeen digits do, the exact value is taken. -/
def decimal (mantissa : Nat) (exponent : Int) : Decimal :=
  let guess := ((mantissa.log2 : Int) + exponent) * 30103 / 100000 - 1
  let top := tensAbove mantissa exponent 8 guess
  let exact : Decimal :=
    ⟨mantissa * Nat.pow 2 exponent.toNat * Nat.pow 5 (-exponent).toNat, min exponent 0⟩
  strip 400 ((search mantissa exponent top 17 1).getD exact)

end Shortest

def zeros (count : Nat) : String := String.ofList (List.replicate count '0')

/-- The digits of a positive decimal with the point, or the exponent, in its place. -/
def Decimal.layout (value : Decimal) : String :=
  let digits := toString value.digits
  let count : Int := digits.length
  let lead := value.exponent + count - 1
  if -4 ≤ lead ∧ lead < 16 then
    if 0 ≤ value.exponent then digits ++ zeros value.exponent.toNat ++ ".0"
    else if lead < 0 then "0." ++ zeros (-lead - 1).toNat ++ digits
    else
      let whole := digits.toList.take (lead + 1).toNat
      let rest := digits.toList.drop (lead + 1).toNat
      String.ofList whole ++ "." ++ String.ofList rest
  else
    let fraction := match digits.toList with
      | [] => ""
      | [digit] => String.ofList [digit]
      | digit :: rest => String.ofList (digit :: '.' :: rest)
    let size := toString lead.natAbs
    let padded := if size.length < 2 then "0" ++ size else size
    fraction ++ "e" ++ (if lead < 0 then "-" else "+") ++ padded

/-- The text of a floating-point number. -/
def Binary64.text : Binary64 → String
  | .nan => "nan"
  | .infinite negative => if negative then "-inf" else "inf"
  | .finite negative mantissa exponent =>
      let magnitude :=
        if mantissa = 0 then "0.0" else (Shortest.decimal mantissa exponent).layout
      if negative then "-" ++ magnitude else magnitude

end Exemplar.Number
