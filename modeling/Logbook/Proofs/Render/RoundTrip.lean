import Logbook.Proofs.Record.Truncation
import Logbook.Proofs.Render.Value
import Logbook.Proofs.Render.Walk
set_option autoImplicit false

/-!
# From values to entries to text

Strings and formats are stored as indices that follow each other, so an entry finds its own strings
as long as those before it are in the table. Hence the text of a record that was not cut is made of
the texts of its values, in their order, up to the first time or instant whose leap second does not
end a minute. There the text ends, although the record goes on.
-/
namespace Logbook

open Calendar Record Render Text

namespace Record

namespace Addition

def shown (registry : Registry) (nullDisplay : String) (skipFormats : Bool) :
    Addition → List Char
  | .value v format => v.shown registry nullDisplay (if skipFormats then none else format)
  | .field _ _ => []

def isReadable : Addition → Bool
  | .value v _ => v.isReadable
  | .field _ _ => true

def allShown (registry : Registry) (nullDisplay : String) (skipFormats : Bool)
    (additions : List Addition) : List Char :=
  additions.flatMap (shown registry nullDisplay skipFormats)

end Addition

open Addition

section Texts

variable {ctx : Context} {skipFormats : Bool}

theorem format?_eq_some {v : Value} {format : Option String} {f : String}
    (h : format? (.value v format) = some f) : v.takesFormat = true ∧ format = some f := by
  rw [format?] at h
  cases htakes : v.takesFormat with
  | false => rw [htakes] at h; cases h
  | true => exact ⟨rfl, by rw [htakes] at h; exact h⟩

/-- A value whose format is not stored has the same text without it. -/
theorem shown_of_format?_eq_none {v : Value} {format : Option String}
    (h : format? (.value v format) = none) (registry : Registry) (nullDisplay : String) :
    v.shown registry nullDisplay none =
      v.shown registry nullDisplay (if skipFormats then none else format) := by
  cases htakes : v.takesFormat with
  | false => exact Value.shown_of_not_takesFormat htakes _ _ _ _
  | true =>
    rw [format?, if_pos htakes] at h
    rw [h, ite_self]

theorem getElem?_toNat_index {a : Addition} {index : Nat}
    (hindex : index + a.slots ≤ maxStringCapacity)
    (hstrings : ∀ k, k < a.slots → ctx.strings[index + k]? = a.strings[k]?) {s : String}
    (hs : a.strings[0]? = some s) : ctx.strings[(UInt8.ofNat index).toNat]? = some s := by
  have hpos : 0 < a.slots := (List.getElem?_eq_some_iff.1 hs).1
  have hlt : index < UInt8.size := by
    rw [maxStringCapacity] at hindex
    rw [UInt8.size]
    omega
  rw [UInt8.toNat_ofNat_of_lt' hlt, ← hs]
  exact hstrings 0 hpos

theorem formatAt_stored {v : Value} (htakes : v.takesFormat = true) (format : Option String)
    {index : Nat} (hindex : index + (Addition.value v format).slots ≤ maxStringCapacity)
    (hstrings : ∀ k, k < (Addition.value v format).slots →
      ctx.strings[index + k]? = (Addition.value v format).strings[k]?) :
    formatAt ctx skipFormats (format.map fun _ => UInt8.ofNat index) =
      if skipFormats then none else format := by
  cases format with
  | none => cases skipFormats <;> rfl
  | some f =>
    have hlookup : ctx.strings[(UInt8.ofNat index).toNat]? = some f := by
      apply getElem?_toNat_index hindex hstrings
      rw [Addition.strings, format?, if_pos htakes]
      rfl
    rw [Option.map_some, formatAt, Option.bind_some, hlookup]

/-- An entry whose strings are in the table at its indices shows the text of its value. -/
theorem shown?_stored (a : Addition) {index : Nat} (hindex : index + a.slots ≤ maxStringCapacity)
    (hstrings : ∀ k, k < a.slots → ctx.strings[index + k]? = a.strings[k]?) :
    (a.stored (UInt8.ofNat index)).shown? ctx skipFormats =
      if a.isReadable then some (a.shown ctx.registry ctx.nullDisplay skipFormats) else none := by
  cases a with
  | field key v => rfl
  | value v format =>
    cases hf : format? (.value v format) with
    | none =>
      -- the only string is the text, if there is one
      have htext : ∀ s, v.tableText? = some s →
          ctx.strings[(UInt8.ofNat index).toNat]? = some s := by
        intro s hs
        apply getElem?_toNat_index hindex hstrings
        rw [Addition.strings, hf, hs]
        rfl
      have hformat : formatAt ctx skipFormats none = none := by
        cases skipFormats <;> rfl
      rw [stored, hf, Stored.shown?, shown, ← shown_of_format?_eq_none hf]
      simp only [Option.map_none, Option.isSome_none, Bool.false_eq_true, ↓reduceIte, hformat]
      exact present_payload ctx none _ v htext
    | some f =>
      -- the only string is the format, as no kind takes both
      obtain ⟨htakes, rfl⟩ := format?_eq_some hf
      have htext : ∀ s, v.tableText? = some s →
          ctx.strings[(UInt8.ofNat index + 1).toNat]? = some s := by
        intro s hs
        rw [Value.tableText?_of_takesFormat htakes] at hs
        cases hs
      have hat : formatAt ctx skipFormats (some (UInt8.ofNat index)) = _ :=
        formatAt_stored htakes (some f) hindex hstrings
      rw [stored, hf, Stored.shown?, shown]
      simp only [Option.map_some, Option.isSome_some, ↓reduceIte, hat]
      exact present_payload ctx _ _ v htext

theorem table_cons {a : Addition} {rest : List Addition} {before after : List String}
    (h : ctx.strings.toList = before ++ (a :: rest).flatMap Addition.strings ++ after) :
    (∀ k, k < a.slots → ctx.strings[before.length + k]? = a.strings[k]?) ∧
      ctx.strings.toList = (before ++ a.strings) ++ rest.flatMap Addition.strings ++ after ∧
      (before ++ a.strings).length = before.length + a.slots := by
  refine ⟨fun k hk => ?_, ?_, List.length_append⟩
  · rw [← Array.getElem?_toList, h, List.flatMap_cons, List.append_assoc,
      List.getElem?_append_right (Nat.le_add_right _ _), Nat.add_sub_cancel_left,
      List.append_assoc, List.getElem?_append_left hk]
  · rw [h, List.flatMap_cons]
    simp only [List.append_assoc]

/-- The entries of additions show the texts of the additions before the first that cannot be read
back; what comes after them is shown if there is no such addition. -/
theorem shownUntil_entries_append (additions : List Addition) (tail : List Stored)
    {before after : List String}
    (hstrings : ctx.strings.toList = before ++ additions.flatMap Addition.strings ++ after)
    (hcount : before.length + totalSlots additions ≤ maxStringCapacity) :
    Stored.shownUntil ctx skipFormats (entries before.length additions ++ tail) =
      allShown ctx.registry ctx.nullDisplay skipFormats (additions.takeWhile isReadable) ++
        if additions.all isReadable then Stored.shownUntil ctx skipFormats tail else [] := by
  induction additions generalizing before with
  | nil => rfl
  | cons a rest ih =>
    rw [totalSlots] at hcount
    obtain ⟨hget, hmore, hlen⟩ := table_cons hstrings
    rw [entries, List.cons_append, Stored.shownUntil, shown?_stored a (by omega) hget,
      List.all_cons]
    cases hr : a.isReadable with
    | false =>
      rw [List.takeWhile_cons_of_neg (by simp [hr])]
      rfl
    | true =>
      have hrest := ih hmore (by omega)
      rw [hlen] at hrest
      rw [List.takeWhile_cons_of_pos hr, allShown, List.flatMap_cons, Bool.true_and]
      simp only [↓reduceIte]
      rw [hrest, List.append_assoc]
      rfl

end Texts

end Record
end Logbook
