import Logbook.Number.Digits
set_option autoImplicit false

/-!
# Universally unique identifiers

Sixteen bytes, written as lower-case hexadecimal digits: in five groups joined by hyphens, or all
together, in braces or in parentheses as a format string asks.
-/
namespace Logbook

structure Identifier where
  bytes : List UInt8
  length_eq : bytes.length = 16 := by rfl
  deriving DecidableEq

namespace Identifier

def ofBytes? (bytes : List UInt8) : Option Identifier :=
  if h : bytes.length = 16 then some ⟨bytes, h⟩ else none

def digits (bytes : List UInt8) : List Char :=
  bytes.flatMap fun b => Number.zeroPad 2 (Number.hexadecimal false b.toNat)

def simple (id : Identifier) : List Char := digits id.bytes

def hyphenated (id : Identifier) : List Char :=
  digits (id.bytes.take 4) ++ '-' :: digits ((id.bytes.drop 4).take 2) ++
    '-' :: digits ((id.bytes.drop 6).take 2) ++ '-' :: digits ((id.bytes.drop 8).take 2) ++
    '-' :: digits (id.bytes.drop 10)

def format (id : Identifier) (format : Option String) : List Char :=
  match format with
  | some "N" | some "n" => id.simple
  | some "B" | some "b" => '\x7b' :: id.hyphenated ++ ['\x7d']
  | some "P" | some "p" => '(' :: id.hyphenated ++ [')']
  | _ => id.hyphenated

end Identifier
end Logbook
