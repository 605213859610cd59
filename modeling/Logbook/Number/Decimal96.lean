import Logbook.Number.Digits
import Logbook.Number.Grouping
import Logbook.Number.Rounding
import Logbook.Number.Specifier
set_option autoImplicit false

/-!
# Decimal numbers with a coefficient of ninety-six bits

A decimal is a sign, a coefficient below `2 ^ 96` and a scale of at most 28: its value is the
coefficient over ten to the scale. Trailing zeros and the sign of zero are kept. Formats round once,
half away from zero; a number that rounds to zero loses its sign. What a format asks for is worked out
with operations that are a parameter, and of which the standard ones are an instance.

A text with a number of places is put together in 32 characters, without its sign and with at most
as many places as a decimal has; the zeros of further places are added behind it. Where the digits
need more than that, formatting breaks off. `format` is the text by itself, and `tryFormat` what
becomes of it.
-/
namespace Logbook.Number

def maxScale : Nat := 28

structure Decimal96 where
  negative : Bool
  coefficient : Nat
  scale : Nat
  coefficient_lt : coefficient < 0x1_00000000_00000000_00000000 := by omega
  scale_le : scale ≤ maxScale := by decide
  deriving DecidableEq

namespace Decimal96

def ofParts? (negative : Bool) (coefficient scale : Nat) : Option Decimal96 :=
  if h : coefficient < 0x1_00000000_00000000_00000000 ∧ scale ≤ maxScale then
    some ⟨negative, coefficient, scale, h.1, h.2⟩
  else none

/-- A number with any number of fraction digits, on its way to being written. -/
structure Rounded where
  negative : Bool
  coefficient : Nat
  scale : Nat

def exact (d : Decimal96) : Rounded := ⟨d.negative, d.coefficient, d.scale⟩

namespace Rounded

def fixedDigits (places : Nat) (r : Rounded) : List Char :=
  if places ≤ r.scale then pointed places (r.coefficient / Nat.pow 10 (r.scale - places))
  else pointed places (r.coefficient * Nat.pow 10 (places - r.scale))

def fixed (places : Nat) (r : Rounded) : List Char :=
  signed r.negative (r.fixedDigits places)

/-- At most `places` fraction digits are kept, a half goes away from zero. Zero keeps its sign, and
what becomes zero by rounding has none. -/
def round (places : Nat) (r : Rounded) : Rounded :=
  if r.coefficient = 0 then ⟨r.negative, 0, places⟩
  else if r.scale ≤ places then r
  else
    let rounded := roundDiv .away r.coefficient (Nat.pow 10 (r.scale - places))
    ⟨r.negative && rounded ≠ 0, rounded, places⟩

/-- Characters in which a text with a number of places is put together. -/
def displaySize : Nat := 32

def isDisplayable (places : Nat) (r : Rounded) : Bool :=
  decide ((r.fixedDigits (min places maxScale)).length ≤ displaySize)

end Rounded

def plain (d : Decimal96) : List Char := d.exact.fixed d.scale

/-- A hundred times the number, if a coefficient of ninety-six bits can hold it after dropping as
many of the scale's digits as needed. Zero becomes plain zero. -/
def percent? (d : Decimal96) : Option Rounded :=
  if d.coefficient = 0 then some ⟨false, 0, 0⟩
  else if d.coefficient * 100 < 0x1_00000000_00000000_00000000 then
    some ⟨d.negative, d.coefficient * 100, d.scale⟩
  else if d.coefficient * 10 < 0x1_00000000_00000000_00000000 then
    if 1 ≤ d.scale then some ⟨d.negative, d.coefficient * 10, d.scale - 1⟩ else none
  else if 2 ≤ d.scale then some ⟨d.negative, d.coefficient, d.scale - 2⟩
  else none

def scratchSize : Nat := 512

/-- What decimals are rounded, multiplied and written with. -/
structure Arithmetic where
  round (places : Nat) (r : Rounded) : Rounded
  fixed (places : Nat) (r : Rounded) : List Char
  plain (d : Decimal96) : List Char
  percent? (d : Decimal96) : Option Rounded

namespace Arithmetic

def standard : Arithmetic where
  round := Rounded.round
  fixed := Rounded.fixed
  plain := Decimal96.plain
  percent? := Decimal96.percent?

variable (a : Arithmetic)

def rounded (places : Nat) (r : Rounded) : List Char := a.fixed places (a.round places r)

def grouped (d : Decimal96) (places : Nat) : List Char :=
  let text := a.rounded places d.exact
  if text.length ≤ scratchSize ∧ (group text).length ≤ scratchSize then group text else a.plain d

/-- A decimal under a specifier. Letters without a meaning give the default text. -/
def specified (d : Decimal96) (s : Specifier) : List Char :=
  match s.letter with
  | 'F' | 'f' => a.rounded (s.places 2) d.exact
  | 'N' | 'n' => a.grouped d (s.places 2)
  | 'P' | 'p' =>
    match a.percent? d with
    | some r => a.rounded (s.places 2) r ++ " %".toList
    | none => a.plain d
  | _ => a.plain d

def format (d : Decimal96) (format : Option String) : List Char :=
  match format.bind Specifier.parse? with
  | some s => a.specified d s
  | none => a.plain d

end Arithmetic

def format (d : Decimal96) (format : Option String) : List Char := Arithmetic.standard.format d format

/-- The number that is rounded to the places of a specifier, if it asks for places. -/
def scaled? (d : Decimal96) (s : Specifier) : Option Rounded :=
  match s.letter with
  | 'F' | 'f' | 'N' | 'n' => some d.exact
  | 'P' | 'p' => d.percent?
  | _ => none

def isOverlong (d : Decimal96) (format : Option String) : Bool :=
  (format.bind Specifier.parse?).any fun s =>
    (d.scaled? s).any fun r => !(r.round (s.places 2)).isDisplayable (s.places 2)

/-- The text under a format. If it is too long to be put together, formatting breaks off. -/
def tryFormat (d : Decimal96) (format : Option String) : Option (List Char) :=
  if d.isOverlong format then none else some (d.format format)

end Decimal96
end Logbook.Number
