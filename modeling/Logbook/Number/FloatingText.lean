import Logbook.Number.Floating
import Logbook.Number.Grouping
import Logbook.Number.Specifier
set_option autoImplicit false

/-!
# Texts of floating-point numbers

The default text has the fewest digits that read back, always in positional notation, with no
point in an integer. Fixed places and the scientific form round the exact binary value, ties to
even. Infinities are `inf` and `-inf`, and what is no number is `NaN`, whatever the format.
-/
namespace Logbook.Number.Floating

def positional (digits : Nat) (place : Int) : List Char :=
  if 0 ≤ place then
    if digits = 0 then ['0'] else decimal digits ++ List.replicate place.toNat '0'
  else pointed (-place).toNat digits

def plain (f : BinaryFormat) : Floating → List Char
  | .nan => "NaN".toList
  | .infinite negative => signed negative "inf".toList
  | .finite negative significand exponent =>
    let (digits, place) := shortest f significand exponent
    signed negative (positional digits place)

def fixed (places : Nat) : Floating → List Char
  | .nan => "NaN".toList
  | .infinite negative => signed negative "inf".toList
  | .finite negative significand exponent =>
    let (num, den) := ratio significand exponent
    signed negative (pointed places (roundDiv .even (num * Nat.pow 10 places) den))

/-- One digit, a point and `places` digits, rounded to that many from `num / den`, and the power of
ten of the first digit. -/
def scientificDigits (places num den : Nat) : Nat × Int :=
  if num = 0 then (0, 0)
  else
    let lead := leadingPlace num den
    let last := lead - places
    let digits := roundDiv .even (num * Nat.pow 10 (-last).toNat)
      (den * Nat.pow 10 last.toNat)
    if digits = Nat.pow 10 (places + 1) then (Nat.pow 10 places, lead + 1) else (digits, lead)

def scientific (letter : Char) (places : Nat) : Floating → List Char
  | .nan => "NaN".toList
  | .infinite negative => signed negative "inf".toList
  | .finite negative significand exponent =>
    let (num, den) := ratio significand exponent
    let (digits, power) := scientificDigits places num den
    signed negative (pointed places digits ++ letter :: integer power)

def scratchSize : Nat := 512

/-- Fixed places with grouped thousands, or ungrouped if the grouped text is too long to be worked
on. -/
def grouped (places : Nat) (x : Floating) : List Char :=
  let text := x.fixed places
  if text.length ≤ scratchSize ∧ (group text).length ≤ scratchSize then group text else text

def specified (x : Floating) (s : Specifier) : List Char :=
  match s.letter with
  | 'F' | 'f' => x.fixed (s.places 2)
  | 'N' | 'n' => x.grouped (s.places 2)
  | 'E' => x.scientific 'E' (s.places 6)
  | 'e' => x.scientific 'e' (s.places 6)
  | 'P' | 'p' => x.percent.fixed (s.places 2) ++ " %".toList
  | _ => x.plain binary64

/-- A number of the given format under a format string. Only the default text depends on the
number's own format. -/
def format (f : BinaryFormat) (x : Floating) (format : Option String) : List Char :=
  match format.bind Specifier.parse? with
  | some s => if x.isFinite then x.specified s else x.plain f
  | none => x.plain f

end Logbook.Number.Floating
