/-! Binary floating-point numbers of 64 bits as exact values: a sign, a mantissa and
a power of two. Nothing here computes in floating point. -/
namespace SqlLayout.Decimal

structure Binary64 where
  bits : UInt64
  deriving DecidableEq, Repr

namespace Binary64

def fractionCount : Nat := 4503599627370496

def exponentCount : Nat := 2048

def isNegative (x : Binary64) : Bool :=
  x.bits.toNat / (fractionCount * exponentCount) = 1

def exponentField (x : Binary64) : Nat :=
  x.bits.toNat / fractionCount % exponentCount

def fractionField (x : Binary64) : Nat :=
  x.bits.toNat % fractionCount

def isFinite (x : Binary64) : Bool :=
  x.exponentField ≠ exponentCount - 1

def isNan (x : Binary64) : Bool :=
  !x.isFinite && x.fractionField ≠ 0

def isInfinite (x : Binary64) : Bool :=
  !x.isFinite && x.fractionField = 0

/-- The mantissa `m` of a finite magnitude `m * 2 ^ power`. -/
def mantissa (x : Binary64) : Nat :=
  if x.exponentField = 0 then x.fractionField else x.fractionField + fractionCount

def power (x : Binary64) : Int :=
  if x.exponentField = 0 then -1074 else (x.exponentField : Int) - 1075

def isZero (x : Binary64) : Bool :=
  x.isFinite && x.mantissa = 0

/-- The integer between zero and a finite number that is nearest to the number. -/
def truncate (x : Binary64) : Int :=
  let magnitude :=
    match x.power with
    | .ofNat up => x.mantissa * Nat.pow 2 up
    | .negSucc down => x.mantissa / Nat.pow 2 (down + 1)
  if x.isNegative then -(magnitude : Int) else magnitude

end Binary64

end SqlLayout.Decimal
