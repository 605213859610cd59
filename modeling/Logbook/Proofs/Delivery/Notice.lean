import Logbook.Delivery.Outlet
import Logbook.Proofs.Line.Bounded
import Logbook.Proofs.Record.Truncation
import Mathlib.Algebra.GroupWithZero.Nat
set_option autoImplicit false

/-!
# Notices about dropped events

A notice is a record of its own, and a small one. Text that is shared and a number of fixed width
have room in it whatever the number is, so a notice is never cut. It holds nothing that a formatter
is asked for: its line is the heading and the text, where the buffer has room for them.
-/
namespace Logbook

open Calendar Record Render Text

namespace Render

variable {e : Encoding} {ctx : Context} {skipFormats : Bool}

/-- Values that are shown as text are all written where there is room for the text, whatever is
registered. -/
theorem walk_texts (suffix : String) {values : List StoredValue} {texts : List String}
    (hshown : values.map (fun v => present ctx (formatAt ctx skipFormats v.format) v.payload) =
      texts.map .text)
    (hstorable : ∀ v ∈ values, v.payload.Storable) {fuel : Nat} (hfuel : values.length ≤ fuel)
    (position : Nat) {out : Output e}
    (hroom : out.hasRoom (e.encodeChars (texts.flatMap String.toList)).length = true)
    (fields : FieldList) :
    walk ctx suffix skipFormats fuel position ((values.map Stored.value).flatMap Stored.bytes) out
        fields =
      ⟨out.add (texts.flatMap String.toList), fields, true⟩ := by
  induction values generalizing texts fuel position out with
  | nil =>
    obtain rfl : texts = [] := List.map_eq_nil_iff.1 hshown.symm
    rw [List.map_nil, List.flatMap_nil, List.flatMap_nil, out.add_nil]
    exact walk_end false fuel position out fields
  | cons v values ih =>
    obtain ⟨fuel, rfl⟩ : ∃ n, fuel = n + 1 := ⟨fuel - 1, by rw [List.length_cons] at hfuel; omega⟩
    obtain ⟨text, texts, rfl⟩ : ∃ t ts, texts = t :: ts := by
      cases texts with
      | nil => cases hshown
      | cons t ts => exact ⟨t, ts, rfl⟩
    rw [List.map_cons, List.map_cons] at hshown
    obtain ⟨hfirst, hothers⟩ := List.cons.inj hshown
    have hv := hstorable v List.mem_cons_self
    have hrest := fun v hv => hstorable v (List.mem_cons_of_mem _ hv)
    rw [List.flatMap_cons, Encoding.encodeChars_append, List.length_append] at hroom
    have hnow := Output.hasRoom_of_le (Nat.le_add_right _ _) hroom
    rw [← Output.hasRoom_add] at hroom
    have hwrite : (present ctx (formatAt ctx skipFormats v.format) v.payload).write .plain out =
        (out.add text.toList, .done) := by
      rw [hfirst]
      exact @writeText_of_hasRoom _ .plain out text hnow
    rw [List.map_cons, List.flatMap_cons, walk_done hv _ _ _ _ hwrite,
      ih hothers hrest (Nat.le_of_succ_le_succ hfuel) _ hroom, Output.add_add]
    rfl

end Render

namespace Outlet

def noticeParts (dropped : Nat) : List String :=
  ["Log message skipped due to pool exhaustion (", Number.decimalText dropped, " dropped)"]

def noticeText (dropped : Nat) : String := String.join (noticeParts dropped)

def noticeAdditions (dropped : Nat) : List Addition :=
  [.value (.text "Log message skipped due to pool exhaustion (") none,
    .value (.ofInt .uword dropped) none, .value (.text " dropped)") none]

def noticeValues (dropped : Nat) : List StoredValue :=
  [⟨none, .text 0⟩, ⟨none, .integer .uword (BitVec.ofInt _ dropped)⟩, ⟨none, .text 1⟩]

section Notices

variable (now : Instant) (thread : String) (dropped : Nat)

def emptyNotice : Record :=
  (Record.create (Segment.zeroed noticeSize) noticeStrings).reset none .warn now thread

theorem notice_eq :
    notice now thread dropped = (emptyNotice now thread).extendAll (noticeAdditions dropped) := rfl

theorem fitIn_notice : Addition.FitIn noticeSize noticeStrings (noticeAdditions dropped) := by
  have hopening : 2 ≤ noticeSize ∧ 1 ≤ noticeStrings := by decide
  have hcount : 9 ≤ noticeSize - 2 ∧ 0 ≤ noticeStrings - 1 := by decide
  have hclosing : 2 ≤ noticeSize - 2 - 9 ∧ 1 ≤ noticeStrings - 1 - 0 := by decide
  exact ⟨hopening, hcount, hclosing, trivial⟩

theorem stores_notice :
    (emptyNotice now thread).Stores (noticeAdditions dropped) (notice now thread dropped) :=
  have hnone : (emptyNotice now thread).strings.size ≤ (emptyNotice now thread).stringCapacity :=
    Nat.zero_le _
  stores_extendAll rfl hnone (fitIn_notice dropped)

/-- Whatever the count is, the record of a notice holds all of it. -/
theorem truncated_notice : (notice now thread dropped).truncated = false :=
  (stores_notice now thread dropped).truncated_eq

theorem strings_notice : (notice now thread dropped).strings =
    #["Log message skipped due to pool exhaustion (", " dropped)"] :=
  Array.toList_inj.1 (stores_notice now thread dropped).strings_eq

theorem encoded_notice : (notice now thread dropped).encoded =
    ((noticeValues dropped).map Stored.value).flatMap Stored.bytes := by
  have hempty : (emptyNotice now thread).encoded = [] := rfl
  rw [(stores_notice now thread dropped).encoded_eq, hempty]
  rfl

@[simp] theorem level_notice : (notice now thread dropped).level = .warn := by
  obtain ⟨_, _, _, _, heq⟩ := (emptyNotice now thread).extendAll_eq (noticeAdditions dropped)
  rw [notice_eq, heq]
  rfl

theorem exception_notice : (notice now thread dropped).exception = none := by
  obtain ⟨_, _, _, _, heq⟩ := (emptyNotice now thread).extendAll_eq (noticeAdditions dropped)
  rw [notice_eq, heq]
  rfl

end Notices

section Lines

variable {e : Encoding} {dropped : Nat}

theorem shown_notice (hdropped : dropped < 2 ^ 64) (now : Instant) (thread : String)
    (registry : Registry) (settings : Settings) :
    let ctx := (notice now thread dropped).context registry settings
    (noticeValues dropped).map (fun v => present ctx (formatAt ctx false v.format) v.payload) =
      (noticeParts dropped).map .text := by
  intro ctx
  have hcount : IntegerKind.value .uword (BitVec.ofInt _ dropped) = dropped := by
    change ((BitVec.ofInt 64 dropped).toNat : Int) = dropped
    rw [BitVec.ofInt_natCast, BitVec.toNat_ofNat, Nat.mod_eq_of_lt hdropped]
  have hnumber : Number.integer dropped = Number.decimal dropped := by
    rw [Number.integer, Int.natAbs_natCast, Number.signed, if_neg (by simp)]
  have hstrings : ctx.strings = #["Log message skipped due to pool exhaustion (", " dropped)"] :=
    strings_notice now thread dropped
  have hopening : present ctx none (.text 0) =
      .text "Log message skipped due to pool exhaustion (" := by
    rw [present, hstrings]
    rfl
  have hclosing : present ctx none (.text 1) = .text " dropped)" := by
    rw [present, hstrings]
    rfl
  have hmiddle : present ctx none (.integer .uword (BitVec.ofInt _ dropped)) =
      .text (Number.decimalText dropped) := by
    rw [Number.decimalText, ← hnumber]
    exact congrArg (fun n => Presentation.text (String.ofList (Number.integer n))) hcount
  change [present ctx none _, present ctx none _, present ctx none _] = _
  rw [hopening, hmiddle, hclosing]
  rfl

theorem render_notice (hdropped : dropped < 2 ^ 64) (now : Instant) (thread : String)
    (registry : Registry) (settings : Settings) (fields : FieldList) {out : Output e}
    (hroom : out.hasRoom (e.encodeChars (noticeText dropped).toList).length = true) :
    (notice now thread dropped).render registry settings false fields out =
      ⟨out.add (noticeText dropped).toList, fields.clear, true⟩ := by
  have htext : (noticeText dropped).toList = (noticeParts dropped).flatMap String.toList :=
    String.toList_join
  have hencoded : (notice now thread dropped).encoded =
      ((noticeValues dropped).map Stored.value).flatMap Stored.bytes ++
        if false then [Tag.cut.code] else [] :=
    (encoded_notice now thread dropped).trans (List.append_nil _).symm
  have hfuel : (noticeValues dropped).length ≤ (notice now thread dropped).encoded.length := by
    have hle := length_le_encoded hencoded
    rwa [List.length_map] at hle
  have hstorable : ∀ v ∈ noticeValues dropped, v.payload.Storable := by
    simp [noticeValues, Payload.Storable]
  have hwalk := walk_texts settings.truncatedSuffix
    (shown_notice hdropped now thread registry settings) hstorable hfuel 0 (htext ▸ hroom)
    fields.clear
  rw [← htext, ← encoded_notice now thread dropped] at hwalk
  rw [render]
  simp only [hwalk, truncated_notice, Bool.and_false, Bool.false_eq_true, ↓reduceIte]

theorem format_notice (hdropped : dropped < 2 ^ 64) (f : Line.Formatter) (registry : Registry)
    (now : Instant) (thread : String)
    (hfits : utf8.measure (f.heading.text (notice now thread dropped) ++ noticeText dropped) ≤
      f.capacity) :
    (f.format registry (notice now thread dropped)).1.text =
        f.heading.text (notice now thread dropped) ++ noticeText dropped ∧
      (f.format registry (notice now thread dropped)).1.level = .warn := by
  refine ⟨?_, level_notice now thread dropped⟩
  have hshows : ((Output.bounded utf8 f.capacity).add
      (f.heading.text (notice now thread dropped) ++ noticeText dropped).toList).Shows f.capacity
        (f.heading.text (notice now thread dropped) ++ noticeText dropped).toList :=
    (Output.Shows.bounded f.capacity).add _
  rw [Encoding.measure, String.toList_append, Encoding.encodeChars_append,
    List.length_append] at hfits
  have hroom : (Output.bounded utf8 f.capacity).hasRoom
      ((utf8.encodeChars (f.heading.text (notice now thread dropped)).toList).length +
        (utf8.encodeChars (noticeText dropped).toList).length) = true := by
    rw [(Output.Shows.bounded f.capacity).hasRoom_eq]
    simpa using hfits
  have hheading := Output.hasRoom_of_le (Nat.le_add_right _ _) hroom
  rw [← Output.hasRoom_add] at hroom
  have hwrite : (f.write registry (notice now thread dropped)).1 =
      (Output.bounded utf8 f.capacity).add
        (f.heading.text (notice now thread dropped) ++ noticeText dropped).toList := by
    rw [Line.Formatter.write, Line.Formatter.writeTo, Output.write_of_hasRoom hheading]
    simp only [render_notice hdropped now thread registry f.settings f.fields hroom, ↓reduceIte,
      Output.add_add]
    rw [Line.Formatter.writeRest, renderFields_of_isEmpty rfl, String.toList_append]
    simp only [Line.Formatter.writeException, exception_notice]
  rw [← hwrite] at hshows
  exact String.toList_injective (Line.Formatter.toList_text_format hshows)

end Lines
end Outlet
end Logbook
