import Logbook.Text.Encoding
import Logbook.Text.JsonString
set_option autoImplicit false

/-!
# Outputs of fixed capacity

An output holds the code units written so far and never more than its capacity. A plain write is
all or nothing. Text inside a JSON string is escaped on its way and written run by run, so there a
write that fails may leave the runs before the failure; whoever must not show half a value goes
back to an earlier length.

`markCut` places the truncation suffix: after the text if it fits, else over its tail, cut between
two characters, and as much of the suffix as fits where even that is too long.
-/
namespace Logbook

open Text

structure Output (e : Encoding) where
  /-- The most units it takes; an output without a limit has none. -/
  capacity : Option Nat
  units : Array e.CodeUnit := #[]

namespace Output

variable {e : Encoding}

def bounded (e : Encoding) (capacity : Nat) : Output e := { capacity := some capacity }

def unlimited (e : Encoding) : Output e := { capacity := none }

def length (out : Output e) : Nat := out.units.size

def hasRoom (out : Output e) (count : Nat) : Bool :=
  match out.capacity with
  | some capacity => decide (out.units.size + count ≤ capacity)
  | none => true

/-- Appends the whole text if it fits, and nothing otherwise; tells whether it did. -/
def write (out : Output e) (text : String) : Output e × Bool :=
  let more := e.encodeChars text.toList
  if out.hasRoom more.length then ({ out with units := out.units ++ more }, true)
  else (out, false)

def writeAll (out : Output e) : List String → Output e × Bool
  | [] => (out, true)
  | text :: rest =>
    match out.write text with
    | (out, true) => out.writeAll rest
    | (out, false) => (out, false)

def writeQuoted (out : Output e) (text : String) : Output e × Bool :=
  out.writeAll (JsonString.pieces text)

def rewind (out : Output e) (count : Nat) : Output e :=
  { out with units := out.units.take count }

/-- The last position up to `position` at which no unit continues a character. -/
def boundary (e : Encoding) (units : Array e.CodeUnit) : Nat → Nat
  | 0 => 0
  | position + 1 =>
    match units[position + 1]? with
    | some unit => if e.continues unit then boundary e units position else position + 1
    | none => position + 1

def floor (out : Output e) (position : Nat) : Nat :=
  boundary e out.units (min position out.length)

def writeChars (out : Output e) : List Char → Output e
  | [] => out
  | c :: rest =>
    match out.write (String.singleton c) with
    | (out, true) => out.writeChars rest
    | (out, false) => out

def markCut (out : Output e) (suffix : String) : Output e :=
  let needed := e.measure suffix
  if out.hasRoom needed then (out.write suffix).1
  else
    match out.capacity with
    | none => out
    | some capacity =>
      if needed ≤ capacity then
        ((out.rewind (out.floor (capacity - needed))).write suffix).1
      else
        (out.rewind 0).writeChars suffix.toList

end Output

inductive Form where
  | plain
  | quoted
  deriving DecidableEq

def Output.put {e : Encoding} (out : Output e) (form : Form) (text : String) : Output e × Bool :=
  match form with
  | .plain => out.write text
  | .quoted => out.writeQuoted text

/-- The text that an output of bytes holds; empty if some character is cut. -/
def Output.text (out : Output utf8) : String :=
  (String.fromUTF8? ⟨out.units⟩).getD ""

end Logbook
