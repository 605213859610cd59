import Logbook.Proofs.Number.Decimals
import Logbook.Proofs.Render.Placed
set_option autoImplicit false

/-!
# Passes that break off

A pass breaks off where it comes to a decimal that is too long for its format, and only there. One
that does not break off is the pass that pays no heed to the length.
-/
namespace Logbook

open Calendar Number Record Render Text

namespace Record

def Payload.Overlong (format : Option String) : Payload → Prop
  | .decimal flags low mid high => (decimalOf flags low mid high).Overlong format
  | _ => False

def Stored.isReadable (ctx : Context) (skipFormats : Bool) (s : Stored) : Bool :=
  (s.shown? ctx skipFormats).isSome

def Stored.Overlong (ctx : Context) (skipFormats : Bool) : Stored → Prop
  | .value v => v.payload.Overlong (formatAt ctx skipFormats v.format)
  | .field _ _ => False

end Record

namespace Render

variable {e : Encoding} {ctx : Context} {suffix : String} {skipFormats : Bool}

section Steps

variable {s : StoredValue} (h : s.payload.Storable) (fuel position : Nat) (rest : List UInt8)
  (out : Output e) (fields : FieldList)
include h

end Steps

end Render

namespace Record

variable {e : Encoding} {r : Record} {registry : Registry} {settings : Settings}
  {skipFormats : Bool} {fields : FieldList}

namespace Addition

def Overlong (skipFormats : Bool) : Addition → Prop
  | .value (.decimal d) format => d.Overlong (if skipFormats then none else format)
  | _ => False

end Addition

open Addition

section Additions

variable {ctx : Context}

end Additions

end Record
end Logbook
