import Logbook.Proofs.Record.Invariant
import Logbook.Proofs.Record.Skip
import Logbook.Proofs.Render.Overlong
set_option autoImplicit false

/-!
# Rendering an entry and stepping over it

Where a walk renders an entry to the end, stepping over the entry stops at the same place; and where
stepping over the entry of a value succeeds, it can be rendered, unless it is of a day or a second
that the calendar does not have, or a decimal that is too long for its format. The bytes may be any:
neither way needs to know who wrote them.
-/
namespace Logbook

open Calendar Record Render Text

namespace Calendar

def InYears (number : Int) : Prop :=
  Day.firstOfYear leastYear ≤ number ∧ number < Day.firstOfYear (greatestYear + 1)

def OnClock (second nanos : Nat) : Prop :=
  second < 86400 ∧ nanos < 2 * billion ∧ (nanos < billion ∨ second % 60 = 59)

theorem isSome_ofNumber?_iff (number : Int) :
    (Date.ofNumber? number).isSome = true ↔ InYears number := by
  rw [Date.ofNumber?, InYears]
  split <;> simp_all

theorem isSome_ofParts?_iff (second nanos : Nat) :
    (Time.ofParts? second nanos).isSome = true ↔ OnClock second nanos := by
  rw [Time.ofParts?, OnClock]
  by_cases hrange : second < 86400 ∧ nanos < 2 * billion
  · rw [dif_pos hrange]
    by_cases hleap : nanos < billion ∨ second % 60 = 59
    · simp [hleap, hrange]
    · simp [hleap]
  · rw [dif_neg hrange]
    simp only [Option.isSome_none, Bool.false_eq_true, false_iff]
    exact fun h => hrange ⟨h.1, h.2.1⟩

theorem isSome_ofSeconds?_iff (seconds : Int) (nanos : Nat) :
    (Instant.ofSeconds? seconds nanos).isSome = true ↔
      InYears (seconds / 86400 + epochDay) ∧ OnClock (seconds % 86400).toNat nanos := by
  rw [← isSome_ofNumber?_iff, ← isSome_ofParts?_iff, Instant.ofSeconds?]
  cases Date.ofNumber? (seconds / 86400 + epochDay) with
  | none => simp
  | some date => simp

end Calendar

/-- A payload whose day, time or instant, if it has one, is one of the calendar. -/
def Record.Payload.OnCalendar : Payload → Prop
  | .instant _ seconds nanos =>
    InYears (seconds.toInt / 86400 + epochDay) ∧
      OnClock (seconds.toInt % 86400).toNat nanos.toNat
  | .date number => InYears number.toInt
  | .time second nanos => OnClock second.toNat nanos.toNat
  | _ => True

namespace Render

variable {e : Encoding} {ctx : Context} {skipFormats : Bool} {form : Form} {out : Output e}

theorem isSome_shown?_stampText (stamp : Option Stamp) (format : Option String) :
    (stampText stamp format).shown?.isSome = stamp.isSome := by
  cases stamp <;> rfl

theorem isSome_shown?_present_iff (ctx : Context) (format : Option String) (p : Payload) :
    (present ctx format p).shown?.isSome = true ↔ p.OnCalendar := by
  cases p with
  | instant utc seconds nanos =>
    rw [present, isSome_shown?_stampText, Option.isSome_map]
    exact isSome_ofSeconds?_iff seconds.toInt nanos.toNat
  | date number =>
    rw [present, isSome_shown?_stampText, Option.isSome_map]
    exact isSome_ofNumber?_iff number.toInt
  | time second nanos =>
    rw [present, isSome_shown?_stampText, Option.isSome_map]
    exact isSome_ofParts?_iff second.toNat nanos.toNat
  | unmanaged token raw =>
    rw [present]
    cases ctx.registry.formatter? token with
    | none => exact iff_of_true rfl trivial
    | some formatter => exact iff_of_true rfl trivial
  | _ => exact iff_of_true rfl trivial

end Render

namespace Record

end Record

variable {e : Encoding} {ctx : Context} {skipFormats : Bool} {form : Form} {out : Output e}

end Logbook
