import Logbook.Number.FloatingText
set_option autoImplicit false

/-!
# Texts of integers

An integer of a known width is written in decimal unless a specifier asks for padding, hexadecimal
digits of its two's complement pattern, grouped thousands, a zero fraction, or one of the forms of
a floating-point number. A format string that is no specifier, or a letter without a meaning,
gives the decimal text: a bad format string never loses the value.
-/
namespace Logbook.Number

def bitPattern (width : Nat) (n : Int) : Nat := (n % (Nat.pow 2 width : Nat)).toNat

def integerScratchSize : Nat := 48

/-- Grouped decimal text, or the plain one if it is too long to be worked on. -/
def groupedInteger (n : Int) : List Char :=
  if (integer n).length ≤ integerScratchSize then group (integer n) else integer n

def integerSpecified (width : Nat) (n : Int) (s : Specifier) : List Char :=
  match s.letter with
  | 'D' | 'd' => signed (n < 0) (zeroPad (s.places 0) (decimal n.natAbs))
  | 'X' => zeroPad (s.places 0) (hexadecimal true (bitPattern width n))
  | 'x' => zeroPad (s.places 0) (hexadecimal false (bitPattern width n))
  | 'N' | 'n' => groupedInteger n ++ zeroFraction (s.places 2)
  | 'F' | 'f' => integer n ++ zeroFraction (s.places 2)
  | 'E' | 'e' | 'P' | 'p' => (Floating.ofInt n).specified s
  | _ => integer n

def integerFormat (width : Nat) (n : Int) (format : Option String) : List Char :=
  match format.bind Specifier.parse? with
  | some s => integerSpecified width n s
  | none => integer n

end Logbook.Number
