import Logbook.Output
set_option autoImplicit false

/-!
# What a formatter does to an output

Formatters of unmanaged values are supplied by the program that logs, and nothing is known about
them: they may write any pieces, look at which of them fitted or ignore it, and end well, report
that the output was full, or break off. A script records exactly that, so statements about all
scripts are statements about all formatters.
-/
namespace Logbook

open Text

/-- The behaviour of a formatter towards the output it writes to. -/
inductive Script where
  | write (text : String) (next : Bool → Script)
  /-- Returns; `complete` is false when the formatter says that the output was full. -/
  | finish (complete : Bool)
  | abort

inductive Ending where
  | complete
  | incomplete
  | aborted
  deriving DecidableEq

namespace Script

def run {e : Encoding} (form : Form) : Script → Output e → Output e × Ending
  | .write text next, out =>
    match out.put form text with
    | (out, fitted) => (next fitted).run form out
  | .finish true, out => (out, .complete)
  | .finish false, out => (out, .incomplete)
  | .abort, out => (out, .aborted)

def writeAll : List String → Script
  | [] => .finish true
  | text :: rest => .write text fun fitted => if fitted then writeAll rest else .finish false

/-- Writes the texts in turn, whether they fit or not, and then ends as `last` does. -/
def attempt (last : Script) : List String → Script
  | [] => last
  | text :: rest => .write text fun _ => attempt last rest

end Script

abbrev Formatter := List UInt8 → Option String → Script

end Logbook
