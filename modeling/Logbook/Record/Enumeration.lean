import Logbook.Record.Tag
import Logbook.Registry
set_option autoImplicit false

/-!
# Enumerations over integers

An enumeration is declared over a kind of integers of at most eight bytes, and names some of them. Its
values are widened to sixty-four bits with the sign of that kind, and so are the integers that it
names.
-/
namespace Logbook

namespace Record.IntegerKind

def widen (kind : IntegerKind) (bits : BitVec kind.width) : BitVec 64 :=
  if kind.isSigned then bits.signExtend 64 else bits.setWidth 64

end Record.IntegerKind

namespace EnumType

open Record

def declare (token : TypeToken) (kind : IntegerKind)
    (variants : List (BitVec kind.width × String)) : EnumType where
  token
  signed := kind.isSigned
  variants := variants.map fun v => (kind.widen v.1, v.2)

end EnumType
end Logbook
