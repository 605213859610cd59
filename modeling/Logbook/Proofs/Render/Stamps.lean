import Logbook.Proofs.Render.Overlong
import Logbook.Proofs.Render.Texts
set_option autoImplicit false

/-!
# Dates, times and instants in a record

The entry of a date, a time or an instant is read back as what was logged, so a pass writes its text
and goes on to the next entry. There is one exception. A time may carry a leap second in any second,
but is read back only if the second ends a minute: at any other leap second the pass ends, and what
comes after it is not shown either. In a field the value is then empty and the object goes on.
-/
namespace Logbook

open Calendar Record Render Text

namespace Render

end Render

namespace Record

open Addition

end Record
end Logbook
