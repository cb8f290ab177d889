import Scriptlet.Decimal.Basic

/-! The shortest decimal that reads back as a given binary number. A binary number stands for
every real that rounds to it; the answer is the multiple of the largest possible power of ten
among those reals, the nearest one if there are two, and the larger one if both are as near. -/

namespace Scriptlet

/-- The number `mantissa * 2 ^ exponent`. `narrow` says that its lower neighbour is half as
far away as its upper one, as it is where the exponent changes. -/
structure Binary where
  mantissa : Nat
  exponent : Int
  narrow : Bool

namespace Binary

def twoTo (n : Nat) : Nat := Nat.pow 2 n

def fractionBits : Nat := 52

def exponentBits : Nat := 11

def ofBits (bits : Nat) : Binary :=
  let fraction := bits % twoTo fractionBits
  let biased := bits / twoTo fractionBits % twoTo exponentBits
  if biased = 0 then ⟨fraction, -1074, false⟩
  else ⟨twoTo fractionBits + fraction, biased - 1075, fraction = 0 && 1 < biased⟩

structure Interval where
  low : Nat
  value : Nat
  high : Nat
  denominator : Nat
  closed : Bool

/-- The bounds lie half-way to the neighbours, and belong to the interval of an even
mantissa. -/
def interval (b : Binary) : Interval :=
  let unit := twoTo (b.exponent - 2).toNat
  { low := (4 * b.mantissa - if b.narrow then 1 else 2) * unit
    value := 4 * b.mantissa * unit
    high := (4 * b.mantissa + 2) * unit
    denominator := twoTo (2 - b.exponent).toNat
    closed := b.mantissa % 2 = 0 }

namespace Interval

def contains (i : Interval) (numerator : Nat) : Bool :=
  if i.closed then i.low ≤ numerator && numerator ≤ i.high
  else i.low < numerator && numerator < i.high

def inUnits (i : Interval) (power : Int) : Interval :=
  let up := Decimal.tenTo (-power).toNat
  { i with
    low := i.low * up
    value := i.value * up
    high := i.high * up
    denominator := i.denominator * Decimal.tenTo power.toNat }

def whole? (i : Interval) : Option Nat :=
  let below := i.value / i.denominator
  let rest := i.value % i.denominator
  let above := below + 1
  match i.contains (below * i.denominator), i.contains (above * i.denominator) with
  | true, true => some (if 2 * rest < i.denominator then below else above)
  | true, false => some below
  | false, true => some above
  | false, false => none

end Interval

/-- No power of ten above this one has a multiple near the number. -/
def topPower (i : Interval) : Int := (Nat.toDigits 10 (i.high / i.denominator)).length

def exact (b : Binary) : Decimal :=
  if b.exponent < 0 then ⟨b.mantissa * Nat.pow 5 b.exponent.natAbs, b.exponent⟩
  else ⟨b.mantissa * twoTo b.exponent.toNat, 0⟩

def shortest (b : Binary) : Decimal :=
  let i := b.interval
  let top := topPower i
  let steps := List.range (top - min b.exponent 0 + 1).toNat
  let found := steps.findSome? fun (step : Nat) =>
    let power := top - step
    (i.inUnits power).whole?.map (⟨·, power⟩)
  found.getD b.exact

end Binary
end Scriptlet
