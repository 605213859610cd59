set_option autoImplicit false

/-!
# Numeric format specifiers

A specifier is one ASCII letter, optionally followed by one or two ASCII digits that give a
precision: `X8`, `N2`, `F`. Any other format string is no specifier.
-/
namespace Logbook.Number

structure Specifier where
  letter : Char
  precision : Option Nat
  deriving DecidableEq

namespace Specifier

/-- A precision is written with at most two digits; the empty text gives none. -/
def precision? : List Char → Option (Option Nat)
  | [] => some none
  | [a] => if a.isDigit then some (some (Nat.ofDigitChars 10 [a] 0)) else none
  | [a, b] =>
    if a.isDigit && b.isDigit then some (some (Nat.ofDigitChars 10 [a, b] 0)) else none
  | _ => none

def parse? (format : String) : Option Specifier :=
  match format.toList with
  | [] => none
  | letter :: digits =>
    if letter.isAlpha then (precision? digits).map (⟨letter, ·⟩) else none

def places (s : Specifier) (default : Nat) : Nat := s.precision.getD default

end Specifier
end Logbook.Number
