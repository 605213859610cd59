import Logbook.Script
import Logbook.Number.Digits
set_option autoImplicit false

/-!
# Names of enum values and formatters of unmanaged values

Entries identify a type by a token of sixty-four bits and never hold a name. A registry resolves
tokens when a record is rendered: to the names of an enum's values, or to a formatter. Registering a
type again replaces what was registered before. Of two variants with the same bits the later one
names the value.
-/
namespace Logbook

abbrev TypeToken := BitVec 64

/-- An enumeration: its values are widened to sixty-four bits, with their sign if it is signed. -/
structure EnumType where
  token : TypeToken
  signed : Bool
  variants : List (BitVec 64 × String)

namespace EnumType

def name? (type : EnumType) (bits : BitVec 64) : Option String :=
  (type.variants.reverse.find? fun v => v.1 = bits).map Prod.snd

end EnumType

structure Registry where
  enums : List EnumType := []
  formatters : List (TypeToken × Formatter) := []

namespace Registry

def empty : Registry := {}

def registerEnum (r : Registry) (type : EnumType) : Registry :=
  { r with enums := type :: r.enums.filter fun t => t.token ≠ type.token }

def registerFormatter (r : Registry) (token : TypeToken) (formatter : Formatter) : Registry :=
  { r with formatters := (token, formatter) :: r.formatters.filter fun f => f.1 ≠ token }

def enum? (r : Registry) (token : TypeToken) : Option EnumType :=
  r.enums.find? fun t => t.token = token

def enumName? (r : Registry) (token : TypeToken) (bits : BitVec 64) : Option String :=
  (r.enum? token).bind fun type => type.name? bits

def isSignedEnum (r : Registry) (token : TypeToken) : Bool :=
  ((r.enum? token).map EnumType.signed).getD false

def formatter? (r : Registry) (token : TypeToken) : Option Formatter :=
  (r.formatters.find? fun f => f.1 = token).map Prod.snd

def describe (r : Registry) : String :=
  "TypeRegistry \x7b enums: " ++ Number.decimalText r.enums.length ++ ", formatters: " ++
    Number.decimalText r.formatters.length ++ " \x7d"

end Registry
end Logbook
