import Logbook.Proofs.Output
set_option autoImplicit false

/-!
# Writes as a whole

A plain write is there as a whole or not at all. Inside a quoted string that holds of each piece but
not of the text: an escape is a piece of its own, and so is the run of characters before it, so a
write that fails leaves the pieces that still had room. Only a text with nothing to escape is as
good as a plain one. Going back to the length before the write undoes it in any case.
-/
namespace Logbook

open Text

namespace Text.JsonString

theorem piecesAfter_of_plain {text : List Char} (h : ∀ c ∈ text, escape? c = none)
    (run : List Char) : piecesAfter run text = [String.ofList (run.reverse ++ text)] := by
  induction text generalizing run with
  | nil => rw [piecesAfter, List.append_nil]
  | cons c rest ih =>
    obtain ⟨hc, hrest⟩ := List.forall_mem_cons.1 h
    rw [piecesAfter, hc]
    simp only
    rw [ih hrest, List.reverse_cons, List.append_assoc, List.singleton_append]

theorem pieces_of_plain {text : String} (h : ∀ c ∈ text.toList, escape? c = none) :
    pieces text = [text] := by
  rw [pieces, piecesAfter_of_plain h, List.reverse_nil, List.nil_append, String.ofList_toList]

end Text.JsonString

namespace Output

variable {e : Encoding}

theorem add_eq_self_iff (he : e.Lawful) (out : Output e) (cs : List Char) :
    out.add cs = out ↔ cs = [] := by
  constructor
  · intro h
    have hsize := out.size_units_add cs
    rw [h] at hsize
    exact (Encoding.encodeChars_eq_nil_iff he cs).1 (List.length_eq_zero_iff.1 (by omega))
  · intro h
    rw [h, out.add_nil]

theorem writeAll_of_not_hasRoom {out : Output e} (hzero : out.hasRoom 0 = true)
    {texts : List String}
    (h : out.hasRoom (e.encodeChars (texts.flatMap String.toList)).length = false) :
    ∃ before piece after, texts = before ++ piece :: after ∧
      out.writeAll texts = (out.add (before.flatMap String.toList), false) ∧
      out.hasRoom (e.encodeChars (before.flatMap String.toList)).length = true ∧
      (out.add (before.flatMap String.toList)).hasRoom (e.measure piece) = false := by
  induction texts generalizing out with
  | nil =>
    rw [List.flatMap_nil, Encoding.encodeChars_nil, List.length_nil, hzero] at h
    cases h
  | cons text rest ih =>
    cases hroom : out.hasRoom (e.measure text) with
    | false =>
      refine ⟨[], text, rest, rfl, ?_, hzero, ?_⟩
      · rw [writeAll, write_of_not_hasRoom hroom, List.flatMap_nil, add_nil]
      · rw [List.flatMap_nil, add_nil]
        exact hroom
    | true =>
      -- the text takes away room, so one of those after it does not fit
      have hzero' : (out.add text.toList).hasRoom 0 = true := by
        rw [hasRoom_add]
        exact hroom
      rw [List.flatMap_cons, Encoding.encodeChars_append, List.length_append, ← hasRoom_add] at h
      obtain ⟨before, piece, after, rfl, hwrite, hbefore, hpiece⟩ := ih hzero' h
      refine ⟨text :: before, piece, after, rfl, ?_, ?_, ?_⟩
      · rw [writeAll, write_of_hasRoom hroom]
        simp only
        rw [hwrite, List.flatMap_cons, add_add]
      · rw [List.flatMap_cons, Encoding.encodeChars_append, List.length_append, ← hasRoom_add]
        exact hbefore
      · rw [List.flatMap_cons, ← add_add]
        exact hpiece

theorem rewind_put (form : Form) (out : Output e) (text : String) :
    (out.put form text).1.rewind out.length = out := by
  obtain ⟨part, hpart⟩ := (writes_put form text).appends out
  rw [hpart, out.rewind_add]

theorem writeQuoted_of_plain {text : String}
    (h : ∀ c ∈ text.toList, JsonString.escape? c = none) (out : Output e) :
    out.writeQuoted text = out.write text := by
  rw [writeQuoted, JsonString.pieces_of_plain h]
  cases hroom : out.hasRoom (e.measure text) with
  | true =>
    rw [writeAll, write_of_hasRoom hroom]
    rfl
  | false => rw [writeAll, write_of_not_hasRoom hroom]

/-- A plain write adds the whole text or leaves the output alone. A quoted one adds the whole
escaped text if it fits, and else the pieces before the first that does not: nothing only if those
are empty, as they are if there is nothing to escape. -/
theorem whole_or_by_pieces (he : e.Lawful) {out : Output e} (hout : out.hasRoom 0 = true)
    (text : String) :
    let escaped := text.toList.flatMap JsonString.escapeChar
    (out.write text =
      if out.hasRoom (e.measure text) then (out.add text.toList, true) else (out, false)) ∧
    (out.hasRoom (e.encodeChars escaped).length = true →
      out.writeQuoted text = (out.add escaped, true)) ∧
    (out.hasRoom (e.encodeChars escaped).length = false →
      ∃ before piece after, JsonString.pieces text = before ++ piece :: after ∧
        let left := before.flatMap String.toList
        out.writeQuoted text = (out.add left, false) ∧
        out.hasRoom (e.encodeChars left).length = true ∧
        (out.add left).hasRoom (e.measure piece) = false ∧
        (out.add left = out ↔ left = [])) ∧
    ((∀ c ∈ text.toList, JsonString.escape? c = none) → out.writeQuoted text = out.write text) ∧
    ∀ form, (out.put form text).1.rewind out.length = out := by
  intro escaped
  refine ⟨?_, ?_, ?_, ?_, ?_⟩
  · cases hroom : out.hasRoom (e.measure text) with
    | true => exact write_of_hasRoom hroom
    | false => exact write_of_not_hasRoom hroom
  · exact fun hroom => (writes_put .quoted text).of_hasRoom out hroom
  · intro hroom
    have hjoin : (JsonString.pieces text).flatMap String.toList = escaped :=
      JsonString.join_pieces text
    rw [← hjoin] at hroom
    obtain ⟨before, piece, after, hpieces, hwrite, hbefore, hpiece⟩ :=
      writeAll_of_not_hasRoom hout hroom
    exact ⟨before, piece, after, hpieces, hwrite, hbefore, hpiece, add_eq_self_iff he out _⟩
  · exact fun hplain => writeQuoted_of_plain hplain out
  · exact fun form => rewind_put form out text

/-- Three bytes have room for a letter and an escaped quote. -/
theorem whole_or_by_pieces_three_bytes :
    let out := Output.bounded utf8 3
    out.hasRoom 0 = true ∧ out.writeQuoted "a\"" = (out.add "a\\\"".toList, true) := by
  intro out
  have hout : out.hasRoom 0 = true := by decide
  have h := whole_or_by_pieces utf8_lawful hout "a\""
  exact ⟨hout, h.2.1 (by decide)⟩

/-- One byte has room for the letter only; the write fails and the letter stays. -/
theorem writeQuoted_leaves_letter :
    let out := Output.bounded utf8 1
    (out.writeQuoted "a\"").2 = false ∧ out.length = 0 ∧ (out.writeQuoted "a\"").1.length = 1 := by
  decide

end Output
end Logbook
