import Logbook.Text.Quoted
set_option autoImplicit false

/-!
# Settings of rendered text
-/
namespace Logbook

structure Settings where
  nullDisplay : String := "null"
  truncatedSuffix : String := " [TRUNCATED]"
  separator : String := " ~~ "
  deriving DecidableEq

namespace Settings

def describe (s : Settings) : String :=
  "RenderSettings \x7b null_display: " ++ Text.Quoted.encode s.nullDisplay ++
    ", truncated_suffix: " ++ Text.Quoted.encode s.truncatedSuffix ++
    ", key_value_separator: " ++ Text.Quoted.encode s.separator ++ " \x7d"

end Settings
end Logbook
