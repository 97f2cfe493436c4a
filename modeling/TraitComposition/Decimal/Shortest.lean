/-!
The shortest decimal that reads back as a given double. A double stands for every
real number that rounds to it; among the decimals in that interval with the fewest
digits, the one nearest to the double is taken, the larger of two that are equally
near.
-/
namespace TraitComposition.Decimal

structure Binary where
  significand : Nat
  exponent : Int
  /-- The neighbour below is only half as far away as the one above. -/
  closeBelow : Bool

def Binary.ofBits (bits : Nat) : Binary :=
  let field : Nat := bits / Nat.pow 2 52 % Nat.pow 2 11
  let fraction : Nat := bits % Nat.pow 2 52
  if field = 0 then
    ⟨fraction, -1074, false⟩
  else
    ⟨Nat.pow 2 52 + fraction, field - 1075, fraction = 0 && 1 < field⟩

structure Scaled where
  digits : Nat
  exponent : Int

/-- A double and the ends of its interval, in quarters of a unit in the last place
and as numerators over one denominator. -/
structure Interval where
  low : Nat
  middle : Nat
  high : Nat
  denominator : Nat
  /-- Whether the ends belong to the interval. -/
  closed : Bool

def Binary.interval (binary : Binary) : Interval :=
  let scale := Nat.pow 2 binary.exponent.toNat
  let quarters := 4 * binary.significand
  { low := (quarters - if binary.closeBelow then 1 else 2) * scale
    middle := quarters * scale
    high := (quarters + 2) * scale
    denominator := 4 * Nat.pow 2 (-binary.exponent).toNat
    closed := binary.significand % 2 = 0 }

def Interval.inUnits (interval : Interval) (exponent : Int) : Interval :=
  let up := Nat.pow 10 (-exponent).toNat
  { interval with
    low := interval.low * up
    middle := interval.middle * up
    high := interval.high * up
    denominator := interval.denominator * Nat.pow 10 exponent.toNat }

def Interval.contains (interval : Interval) (amount : Nat) : Bool :=
  let scaled := amount * interval.denominator
  if interval.closed then
    interval.low ≤ scaled && scaled ≤ interval.high
  else
    interval.low < scaled && scaled < interval.high

/-- The whole number of the interval that is nearest to its middle, the larger of
two; only the two neighbours of the middle have to be looked at. -/
def Interval.nearest? (interval : Interval) : Option Nat :=
  let below := interval.middle / interval.denominator
  let rest := interval.middle % interval.denominator
  match interval.contains below, interval.contains (below + 1) with
  | true, true => if 2 * rest < interval.denominator then some below else some (below + 1)
  | true, false => some below
  | false, true => some (below + 1)
  | false, false => none

def Interval.pointPosition (interval : Interval) : Int :=
  let whole := interval.middle / interval.denominator
  if whole = 0 then
    -(((List.range 400).find? fun zeros =>
        interval.denominator ≤ interval.middle * Nat.pow 10 (zeros + 1)).getD 0 : Nat)
  else
    (Nat.toDigits 10 whole).length

/-- The shortest decimal in the interval of a double that is not zero. The coarsest
grid holds the next power of ten; on the finest, seventeen digits always suffice. -/
def Binary.shortest (binary : Binary) : Scaled :=
  let interval := binary.interval
  let point := interval.pointPosition
  let found := (List.range 18).findSome? fun count =>
    let exponent := point - (count : Nat)
    ((interval.inUnits exponent).nearest?).map fun digits => (⟨digits, exponent⟩ : Scaled)
  found.getD ⟨binary.significand, binary.exponent⟩

def Scaled.positional (decimal : Scaled) : List Char :=
  let digits := Nat.toDigits 10 decimal.digits
  let zeros := List.replicate decimal.exponent.toNat '0'
  let places := (-decimal.exponent).toNat
  if places = 0 then
    digits ++ zeros
  else if places < digits.length then
    digits.take (digits.length - places) ++ ['.'] ++ digits.drop (digits.length - places)
  else
    ['0', '.'] ++ List.replicate (places - digits.length) '0' ++ digits

def render (amount : Float) : String :=
  let bits := amount.toBits.toNat
  if amount.isNaN then
    "NaN"
  else
    let sign := if bits / Nat.pow 2 63 = 1 then "-" else ""
    if amount.isInf then
      sign ++ "inf"
    else if bits % Nat.pow 2 63 = 0 then
      sign ++ "0"
    else
      sign ++ String.ofList (Binary.ofBits bits).shortest.positional

example : (Binary.ofBits 0x3fb999999999999a).shortest.positional = ['0', '.', '1'] := by
  decide

example : (Binary.ofBits 0x444b1ae4d6e2ef50).shortest.positional =
    '1' :: List.replicate 21 '0' := by
  decide

end TraitComposition.Decimal
