import SqlLayout.Decimal.Binary64

/-! The fewest decimal digits that still name a binary number, and the text made
of them. A decimal names a number when it lies in the interval of reals that round
to the number; the ends belong to it when the mantissa is even. For one digit, two
digits and so on the two neighbours of the number on that decimal grid are tried,
in exact arithmetic. -/
namespace SqlLayout.Decimal

structure Ratio where
  num : Nat
  den : Nat

namespace Ratio

def scaled (count : Nat) : Int → Ratio
  | .ofNat up => ⟨count * Nat.pow 2 up, 1⟩
  | .negSucc down => ⟨count, Nat.pow 2 (down + 1)⟩

def shift (r : Ratio) : Int → Ratio
  | .ofNat up => ⟨r.num * Nat.pow 10 up, r.den⟩
  | .negSucc down => ⟨r.num, r.den * Nat.pow 10 (down + 1)⟩

def lt (a b : Ratio) : Bool :=
  a.num * b.den < b.num * a.den

def le (a b : Ratio) : Bool :=
  a.num * b.den ≤ b.num * a.den

end Ratio

/-- How many places stand before the point when the number is written out; zero and
below count the zeros after it. `fuel` bounds the leading zeros looked at. -/
def pointPlace (r : Ratio) (fuel : Nat) : Int :=
  if r.den ≤ r.num then ((r.num / r.den).repr.length : Int)
  else match fuel with
    | 0 => 0
    | fuel + 1 => pointPlace ⟨r.num * 10, r.den⟩ fuel - 1

/-- The interval of reals that round to a number. -/
structure Rounding where
  value : Ratio
  low : Ratio
  high : Ratio
  closed : Bool

namespace Rounding

def ofFinite (x : Binary64) : Rounding :=
  let quarter := x.power - 2
  let below := if x.fractionField = 0 ∧ 1 < x.exponentField then 1 else 2
  { value := Ratio.scaled (4 * x.mantissa) quarter
    low := Ratio.scaled (4 * x.mantissa - below) quarter
    high := Ratio.scaled (4 * x.mantissa + 2) quarter
    closed := x.mantissa % 2 = 0 }

def contains (interval : Rounding) (r : Ratio) : Bool :=
  if interval.closed then interval.low.le r && r.le interval.high
  else interval.low.lt r && r.lt interval.high

/-- The neighbour of the value on the grid of `count` digits that names it: the nearer
one if both do, the even one if they are equally near. -/
def onGrid? (interval : Rounding) (place : Int) (count : Nat) : Option Nat :=
  let unit : Int := place - count
  let exact := interval.value.shift (-unit)
  let lower := exact.num / exact.den
  let lowerNames := interval.contains ((Ratio.mk lower 1).shift unit)
  let upperNames := interval.contains ((Ratio.mk (lower + 1) 1).shift unit)
  let below := 2 * (exact.num - lower * exact.den)
  if lowerNames && upperNames then
    if below < exact.den then some lower
    else if exact.den < below then some (lower + 1)
    else some (if lower % 2 = 0 then lower else lower + 1)
  else if lowerNames then some lower
  else if upperNames then some (lower + 1)
  else none

end Rounding

/-- Digits without zeros at the end, and the place of the point before them. -/
structure Digits where
  digits : List Char
  place : Int
  deriving DecidableEq, Repr

def Digits.ofGrid (mark : Nat) (place : Int) (count : Nat) : Digits :=
  let written := mark.repr.toList
  { digits := (written.reverse.dropWhile (· == '0')).reverse
    place := place + ((written.length : Int) - count) }

/-- Seventeen digits always suffice. -/
def shortestFrom (interval : Rounding) (place : Int) : Nat → Nat → Digits
  | 0, count => .ofGrid (interval.value.shift (count - place)).num place count
  | fuel + 1, count =>
    match interval.onGrid? place count with
    | some mark => .ofGrid mark place count
    | none => shortestFrom interval place fuel (count + 1)

def shortest (x : Binary64) : Digits :=
  let interval := Rounding.ofFinite x
  shortestFrom interval (pointPlace interval.value 330) 17 1

/-- Numbers whose point lies from `leastPlace` to `greatestPlace` are written out, others
with an exponent, which is padded to `exponentWidth`. -/
structure Spelling where
  leastPlace : Int
  greatestPlace : Int
  exponentWidth : Nat

def plainSpelling : Spelling :=
  { leastPlace := -3, greatestPlace := 16, exponentWidth := 2 }

def exponentText (spelling : Spelling) (exponent : Int) : String :=
  let written := exponent.natAbs.repr
  let padding := String.ofList (List.replicate (spelling.exponentWidth - written.length) '0')
  (if exponent < 0 then "e-" else "e+") ++ padding ++ written

def magnitudeText (spelling : Spelling) (number : Digits) : String :=
  let digits := number.digits
  let zeros (count : Int) := List.replicate count.toNat '0'
  if spelling.leastPlace ≤ number.place ∧ number.place ≤ spelling.greatestPlace then
    if number.place ≤ 0 then
      "0." ++ String.ofList (zeros (-number.place) ++ digits)
    else if (digits.length : Int) ≤ number.place then
      String.ofList (digits ++ zeros (number.place - digits.length)) ++ ".0"
    else
      String.ofList (digits.take number.place.toNat) ++ "." ++
        String.ofList (digits.drop number.place.toNat)
  else
    String.ofList (digits.take 1) ++
      (if digits.length ≤ 1 then "" else "." ++ String.ofList (digits.drop 1)) ++
      exponentText spelling (number.place - 1)

/-- The shortest text that reads back as the number. -/
def Binary64.text (x : Binary64) : String :=
  if x.isNan then "nan"
  else
    (if x.isNegative then "-" else "") ++
      (if !x.isFinite then "inf"
       else if x.isZero then "0.0"
       else magnitudeText plainSpelling (shortest x))

end SqlLayout.Decimal
