set_option autoImplicit false

/-!
# Digit strings

Decimal and hexadecimal digits of natural numbers, padding with zeros, and the position of the
decimal point. Signs, grouping and rounding are elsewhere.
-/
namespace Logbook.Number

def decimal (n : Nat) : List Char := Nat.toDigits 10 n

def decimalText (n : Nat) : String := String.ofList (decimal n)

def hexadecimal (upper : Bool) (n : Nat) : List Char :=
  if upper then (Nat.toDigits 16 n).map Char.toUpper else Nat.toDigits 16 n

def zeroPad (width : Nat) (digits : List Char) : List Char :=
  List.replicate (width - digits.length) '0' ++ digits

def signed (negative : Bool) (digits : List Char) : List Char :=
  if negative then '-' :: digits else digits

def integer (n : Int) : List Char :=
  signed (n < 0) (decimal n.natAbs)

def zeroFraction (places : Nat) : List Char :=
  if places = 0 then [] else '.' :: List.replicate places '0'

/-- The text of `n / 10 ^ places`, with exactly `places` fraction digits and at least one digit
before the point. -/
def pointed (places n : Nat) : List Char :=
  let digits := zeroPad (places + 1) (decimal n)
  let whole := digits.length - places
  if places = 0 then digits else digits.take whole ++ '.' :: digits.drop whole

theorem length_zeroPad (width : Nat) (digits : List Char) :
    (zeroPad width digits).length = max width digits.length := by
  simp only [zeroPad, List.length_append, List.length_replicate]
  omega

theorem decimal_ne_nil (n : Nat) : decimal n ≠ [] := Nat.toDigits_ne_nil

theorem isDigit_of_mem_decimal {n : Nat} {c : Char} (h : c ∈ decimal n) : c.isDigit = true :=
  Nat.isDigit_of_mem_toDigits (by decide) (by decide) h

end Logbook.Number
