import Logbook.Proofs.Record.Kept
import Logbook.Proofs.Render.RoundTrip
set_option autoImplicit false

/-!
# A value at its place

A rendering without a limit shows what a record keeps, one text after the other, up to the first
value that is not read back. So a value that is read back stands behind the texts of those before it
and in front of all that comes after it, which depends on nothing that it is or says.
-/
namespace Logbook

open Record Render Text

namespace Record

open Addition

theorem Addition.allShown_at {before : List Addition} (hbefore : ∀ b ∈ before, b.isReadable = true)
    (a : Addition) (after : List Addition) (registry : Registry) (nullDisplay : String)
    (skipFormats : Bool) (tail : List Char) :
    let texts := allShown registry nullDisplay skipFormats
    let kept := before ++ a :: after
    texts (kept.takeWhile isReadable) ++ (if kept.all isReadable then tail else []) =
      texts before ++
        if a.isReadable then
          a.shown registry nullDisplay skipFormats ++
            (texts (after.takeWhile isReadable) ++ if after.all isReadable then tail else [])
        else [] := by
  intro texts kept
  have hall : before.all isReadable = true := List.all_eq_true.2 hbefore
  have happend : ∀ a b, texts (a ++ b) = texts a ++ texts b := fun a b => List.flatMap_append
  rw [List.takeWhile_append_of_pos hbefore, List.all_append, hall, Bool.true_and, List.all_cons,
    happend, List.append_assoc]
  cases ha : a.isReadable with
  | false =>
    rw [List.takeWhile_cons_of_neg (by simp [ha])]
    rfl
  | true =>
    have hcons : ∀ l, texts (a :: l) = a.shown registry nullDisplay skipFormats ++ texts l :=
      fun l => List.flatMap_cons
    rw [List.takeWhile_cons_of_pos ha, hcons, Bool.true_and, List.append_assoc]
    rfl

/-- Rendering finds the strings of what is kept in the table, from its first on. -/
theorem Keeps.strings_context {r : Record} {asked kept : List Addition} {part : Option Stored}
    {marked : Bool} (h : r.Keeps asked kept part marked) (registry : Registry)
    (settings : Settings) :
    (r.context registry settings).strings.toList =
        [] ++ kept.flatMap Addition.strings ++ [] ∧
      ([] : List String).length + totalSlots kept ≤ maxStringCapacity := by
  constructor
  · rw [List.nil_append, List.append_nil]
    exact h.strings_eq
  · rw [List.length_nil, Nat.zero_add]
    exact h.totalSlots_le

/-- Rendered without a limit, a record shows the texts of the additions that it keeps, up to the
first that is not read back, and after the last of them the part of the one that was cut. -/
theorem Keeps.render_unlimited {r : Record} {asked kept : List Addition} {part : Option Stored}
    {marked : Bool} (h : r.Keeps asked kept part marked) (hsize : r.segment.size < 0x1_0000_0000)
    {registry : Registry} (hregistry : registry.All Script.Completes) {e : Encoding}
    (settings : Settings) (skipFormats : Bool) (fields : FieldList) :
    (r.render registry settings skipFormats fields (Output.unlimited e)).out =
      (Output.unlimited e).add
        (allShown registry settings.nullDisplay skipFormats (kept.takeWhile isReadable) ++
          (if kept.all isReadable then
            Stored.shownUntil (r.context registry settings) skipFormats part.toList else []) ++
          if r.truncated then settings.truncatedSuffix.toList else []) := by
  have hstorable := fun s hs => h.holds.storable_of_size_lt hsize (s := s) hs
  obtain ⟨hstrings, hcount⟩ := h.strings_context registry settings
  have hshown : Stored.shownUntil (r.context registry settings) skipFormats
      (entries 0 kept ++ part.toList) = _ :=
    shownUntil_entries_append kept part.toList hstrings hcount
  rw [Record.render_unlimited hregistry hstorable h.holds.encoded_eq settings skipFormats fields,
    hshown]
  rfl

def shownAfter (r : Record) (part : Option Stored) (registry : Registry) (settings : Settings)
    (after : List Addition) : List Char :=
  allShown registry settings.nullDisplay false (after.takeWhile isReadable) ++
    (if after.all isReadable then
      Stored.shownUntil (r.context registry settings) false part.toList else []) ++
    if r.truncated then settings.truncatedSuffix.toList else []

/-- Wherever the record keeps the addition, a rendering without a limit shows `text` for it, if all
before it is read back. -/
def Shows (r : Record) (kept : List Addition) (part : Option Stored) (a : Addition)
    (text : List Char) : Prop :=
  ∀ before after, kept = before ++ a :: after → (∀ b ∈ before, b.isReadable = true) →
    ∀ registry : Registry, registry.All Script.Completes →
      ∀ (settings : Settings) (fields : FieldList) (e : Encoding),
        (r.render registry settings false fields (Output.unlimited e)).out =
          (Output.unlimited e).add (allShown registry settings.nullDisplay false before ++ text ++
            r.shownAfter part registry settings after)

theorem Keeps.shows {r : Record} {asked kept : List Addition} {part : Option Stored}
    {marked : Bool} (h : r.Keeps asked kept part marked) (hsize : r.segment.size < 0x1_0000_0000)
    {a : Addition} {text : List Char} (ha : a.isReadable = true)
    (htext : ∀ registry nullDisplay, a.shown registry nullDisplay false = text) :
    r.Shows kept part a text := by
  rintro before after rfl hbefore registry hregistry settings fields e
  have hplace := allShown_at hbefore a after registry settings.nullDisplay false
    (Stored.shownUntil (r.context registry settings) false part.toList)
  simp only [ha, htext, ↓reduceIte] at hplace
  rw [h.render_unlimited hsize hregistry settings false fields, hplace, shownAfter]
  simp only [List.append_assoc]

theorem Shows.toList_units {r : Record} {part : Option Stored} {before after : List Addition}
    {a : Addition} {text : List Char} (h : r.Shows (before ++ a :: after) part a text)
    (hbefore : ∀ b ∈ before, b.isReadable = true) (registry : Registry)
    (hregistry : registry.All Script.Completes) (settings : Settings) (fields : FieldList)
    (e : Encoding) :
    (r.render registry settings false fields (Output.unlimited e)).out.units.toList =
      e.encodeChars (allShown registry settings.nullDisplay false before ++ text ++
        r.shownAfter part registry settings after) := by
  rw [h before after rfl hbefore registry hregistry settings fields e, Output.toList_units_add]
  rfl

end Record
end Logbook
