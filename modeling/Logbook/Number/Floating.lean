import Logbook.Number.Digits
import Logbook.Number.Rounding
set_option autoImplicit false

/-!
# Binary floating-point numbers

A finite number is a sign, a natural significand and a power of two; its value is exact. Reading
the bits of the two interchange formats, rounding an exact value to sixty-four bits and choosing
the shortest decimal digits are all done in integers. What is written around the digits is in the
module of formats.
-/
namespace Logbook.Number

structure BinaryFormat where
  fractionBits : Nat
  exponentBits : Nat

def binary32 : BinaryFormat := ⟨23, 8⟩

def binary64 : BinaryFormat := ⟨52, 11⟩

namespace BinaryFormat

def bias (f : BinaryFormat) : Nat := Nat.pow 2 (f.exponentBits - 1) - 1

/-- The power of two of the last place of the smallest numbers. -/
def leastExponent (f : BinaryFormat) : Int := 1 - (f.bias : Int) - f.fractionBits

end BinaryFormat

inductive Floating where
  | nan
  | infinite (negative : Bool)
  /-- The value is `significand * 2 ^ exponent`, with the sign; zero has a sign too. -/
  | finite (negative : Bool) (significand : Nat) (exponent : Int)
  deriving DecidableEq

namespace Floating

def ofBits (f : BinaryFormat) (bits : Nat) : Floating :=
  let fraction := bits % Nat.pow 2 f.fractionBits
  let exponent := bits / Nat.pow 2 f.fractionBits % Nat.pow 2 f.exponentBits
  let negative := bits / Nat.pow 2 (f.fractionBits + f.exponentBits) % 2 = 1
  if exponent = Nat.pow 2 f.exponentBits - 1 then
    if fraction = 0 then .infinite negative else .nan
  else if exponent = 0 then
    .finite negative fraction f.leastExponent
  else
    .finite negative (Nat.pow 2 f.fractionBits + fraction) (f.leastExponent + exponent - 1)

def isFinite : Floating → Bool
  | .finite .. => true
  | _ => false

def bitLength (n : Nat) : Nat := if n = 0 then 0 else n.log2 + 1

/-- The sixty-four bit number nearest to `significand * 2 ^ exponent`, ties to even; a value beyond
the largest number is infinite. -/
def round64 (negative : Bool) (significand : Nat) (exponent : Int) : Floating :=
  let least := max (exponent + bitLength significand - 53) binary64.leastExponent
  if least ≤ exponent then
    if exponent + bitLength significand > 1024 then .infinite negative
    else .finite negative significand exponent
  else
    let rounded := roundDiv .even significand (Nat.pow 2 (least - exponent).toNat)
    if least + bitLength rounded > 1024 then .infinite negative
    else .finite negative rounded least

def ofInt (n : Int) : Floating := round64 (n < 0) n.natAbs 0

def percent : Floating → Floating
  | .finite negative significand exponent => round64 negative (significand * 100) exponent
  | x => x

def ratio (significand : Nat) (exponent : Int) : Nat × Nat :=
  (significand * Nat.pow 2 exponent.toNat, Nat.pow 2 (-exponent).toNat)

def leadingPlace (num den : Nat) : Int :=
  if den ≤ num then (decimal (num / den)).length - 1
  else -((decimal ((den + num - 1) / num - 1)).length : Int)

/-- A significand with the full width of the format, as far as the least exponent allows. -/
def normalize (f : BinaryFormat) (significand : Nat) (exponent : Int) : Nat × Int :=
  let shift := min (f.fractionBits + 1 - bitLength significand) (exponent - f.leastExponent).toNat
  (significand * Nat.pow 2 shift, exponent - shift)

/-- Reals that round to one number: those between `low / den` and `high / den`, the ends included
if `closed`. The number itself is `num / den`. -/
structure Neighbourhood where
  num : Nat
  low : Nat
  high : Nat
  den : Nat
  closed : Bool

namespace Neighbourhood

/-- The gap below a power of two is half as wide as the gap above it. -/
def of (f : BinaryFormat) (significand : Nat) (exponent : Int) : Neighbourhood :=
  let (m, e) := normalize f significand exponent
  let (unit, den) := ratio 1 e
  let below := if m = Nat.pow 2 f.fractionBits ∧ f.leastExponent < e then 1 else 2
  { num := 4 * m * unit
    low := (4 * m - below) * unit
    high := (4 * m + 2) * unit
    den := 4 * den
    closed := m % 2 = 0 }

def contains (r : Neighbourhood) (n scale : Nat) : Bool :=
  if r.closed then decide (r.low * scale ≤ n * r.den) && decide (n * r.den ≤ r.high * scale)
  else decide (r.low * scale < n * r.den) && decide (n * r.den < r.high * scale)

/-- The multiple of `10 ^ place` among the reals that is nearest to the number, of two equally near
the larger one. -/
def nearest? (r : Neighbourhood) (place : Int) : Option Nat :=
  let step := Nat.pow 10 place.toNat
  let scale := Nat.pow 10 (-place).toNat
  let down := r.num * scale / (r.den * step)
  let up := down + 1
  let downIn := r.contains (down * step) scale
  let upIn := r.contains (up * step) scale
  if downIn && upIn then
    if up * step * r.den + down * step * r.den ≤ 2 * (r.num * scale) then some up else some down
  else if downIn then some down
  else if upIn then some up
  else none

def search (r : Neighbourhood) : Nat → Int → Nat × Int
  | 0, place => ((r.nearest? place).getD 0, place)
  | fuel + 1, place =>
    match r.nearest? place with
    | some n => (n, place)
    | none => search r fuel (place - 1)

end Neighbourhood

/-- The fewest decimal digits that read back as the number, as an integer and the power of ten of
its last digit. Seventeen digits always suffice. -/
def shortest (f : BinaryFormat) (significand : Nat) (exponent : Int) : Nat × Int :=
  if significand = 0 then (0, 0)
  else
    let r := Neighbourhood.of f significand exponent
    r.search 20 (leadingPlace r.num r.den + 1)

end Floating
end Logbook.Number
