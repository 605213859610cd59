import Logbook.Script
import Logbook.Proofs.Output
set_option autoImplicit false

/-!
# Formatters that keep to their contract

A formatter is asked to return false when the output ran out of room, and then only. `Faithful`
says so for every course its writes can take; `Succeeds` and `Completes` only for the course on which
every write fits, and `Completes` allows it to break off there. A formatter that breaks off is
served whatever it wrote before.
-/
namespace Logbook.Script

open Text

/-- The text written if every write fits; none if the script breaks off then. -/
def printed : Script → Option (List Char)
  | .write text next => (next true).printed.map (text.toList ++ ·)
  | .finish _ => some []
  | .abort => none

/-- As long as its writes fit, the script does not report that the output was full. -/
def Completes : Script → Prop
  | .write _ next => (next true).Completes
  | .finish complete => complete = true
  | .abort => True

def Succeeds : Script → Prop
  | .write _ next => (next true).Succeeds
  | .finish complete => complete = true
  | .abort => False

def Fails : Script → Prop
  | .write _ next => ∀ fitted, (next fitted).Fails
  | .finish complete => complete = false
  | .abort => False

/-- Reports that the output was full exactly if one of its writes failed. -/
def Faithful : Script → Prop
  | .write _ next => (next true).Faithful ∧ (next false).Fails
  | .finish complete => complete = true
  | .abort => False

def BreaksOff : Script → Prop
  | .write _ next => ∀ fitted, (next fitted).BreaksOff
  | .finish _ => False
  | .abort => True

def Sound (s : Script) : Prop := s.Faithful ∨ s.BreaksOff

theorem completes_of_faithful {s : Script} (h : s.Faithful) : s.Completes := by
  induction s with
  | write text next ih => exact ih true h.1
  | finish complete => exact h
  | abort => exact h.elim

theorem succeeds_of_faithful {s : Script} (h : s.Faithful) : s.Succeeds := by
  induction s with
  | write text next ih => exact ih true h.1
  | finish complete => exact h
  | abort => exact h.elim

theorem completes_of_breaksOff {s : Script} (h : s.BreaksOff) : s.Completes := by
  induction s with
  | write text next ih => exact ih true (h true)
  | finish complete => exact h.elim
  | abort => trivial

theorem completes_of_sound {s : Script} (h : s.Sound) : s.Completes := by
  rcases h with h | h
  · exact completes_of_faithful h
  · exact completes_of_breaksOff h

theorem printed_of_breaksOff {s : Script} (h : s.BreaksOff) : s.printed = none := by
  induction s with
  | write text next ih => rw [printed, ih true (h true), Option.map_none]
  | finish complete => exact h.elim
  | abort => rfl

theorem printed_of_succeeds {s : Script} (h : s.Succeeds) : ∃ cs, s.printed = some cs := by
  induction s with
  | write text next ih =>
    obtain ⟨cs, hcs⟩ := ih true h
    exact ⟨text.toList ++ cs, by rw [printed, hcs, Option.map_some]⟩
  | finish complete => exact ⟨[], rfl⟩
  | abort => exact h.elim

theorem faithful_writeAll (texts : List String) : (writeAll texts).Faithful := by
  induction texts with
  | nil => rfl
  | cons text texts ih => exact ⟨ih, rfl⟩

variable {e : Encoding}

theorem run_appends (s : Script) (form : Form) (out : Output e) :
    ∃ cs, (s.run form out).1 = out.add cs := by
  induction s generalizing out with
  | write text next ih =>
    obtain ⟨part, hpart⟩ := (Output.writes_put form text).appends out
    rw [run]
    generalize out.put form text = written at hpart
    obtain ⟨after, fitted⟩ := written
    obtain rfl : after = out.add part := hpart
    obtain ⟨cs, hcs⟩ := ih fitted (out.add part)
    exact ⟨part ++ cs, hcs.trans (out.add_add _ _)⟩
  | finish complete => cases complete <;> exact ⟨[], out.add_nil.symm⟩
  | abort => exact ⟨[], out.add_nil.symm⟩

theorem rewind_run (s : Script) (form : Form) (out : Output e) :
    (s.run form out).1.rewind out.length = out := by
  obtain ⟨cs, hcs⟩ := s.run_appends form out
  rw [hcs]
  exact out.rewind_add cs

theorem run_of_fails {s : Script} (h : s.Fails) (form : Form) (out : Output e) :
    (s.run form out).2 = .incomplete := by
  induction s generalizing out with
  | write text next ih => exact ih _ (h _) _
  | finish complete =>
    have hf : complete = false := h
    rw [hf]
    rfl
  | abort => exact h.elim

theorem run_of_breaksOff {s : Script} (h : s.BreaksOff) (form : Form) (out : Output e) :
    (s.run form out).2 = .aborted := by
  induction s generalizing out with
  | write text next ih => exact ih _ (h _) _
  | finish complete => exact h.elim
  | abort => rfl

theorem run_succeeds_of_hasRoom {s : Script} (h : s.Succeeds) {cs : List Char}
    (hp : s.printed = some cs) {form : Form} {out : Output e}
    (hroom : out.hasRoom (e.encodeChars (form.image cs)).length = true) :
    s.run form out = (out.add (form.image cs), .complete) := by
  induction s generalizing out cs with
  | write text next ih =>
    obtain ⟨rest, hrest, rfl⟩ := Option.map_eq_some_iff.1 hp
    rw [Form.image_append, Encoding.encodeChars_append, List.length_append] at hroom
    have hfirst := Output.hasRoom_of_le (Nat.le_add_right _ _) hroom
    rw [← Output.hasRoom_add] at hroom
    rw [run, (Output.writes_put form text).of_hasRoom out hfirst]
    rw [Form.image_append, ← Output.add_add]
    exact ih true h hrest hroom
  | finish complete =>
    have hc : complete = true := h
    obtain rfl : [] = cs := Option.some.inj hp
    rw [hc, Form.image_nil, Output.add_nil]
    rfl
  | abort => exact h.elim

theorem run_faithful_of_not_hasRoom {s : Script} (h : s.Faithful) {cs : List Char}
    (hp : s.printed = some cs) {form : Form} {out : Output e}
    (hroom : out.hasRoom (e.encodeChars (form.image cs)).length = false)
    (hzero : out.hasRoom 0 = true) : (s.run form out).2 = .incomplete := by
  induction s generalizing out cs with
  | write text next ih =>
    obtain ⟨rest, hrest, rfl⟩ := Option.map_eq_some_iff.1 hp
    rw [Form.image_append, Encoding.encodeChars_append, List.length_append,
      ← Output.hasRoom_add] at hroom
    have hput := Output.writes_put (e := e) form text
    rw [run]
    -- a text that fits takes away room, so one of those after it does not
    cases hfirst : out.hasRoom (e.encodeChars (form.image text.toList)).length with
    | true =>
      rw [hput.of_hasRoom out hfirst]
      exact ih true h.1 hrest hroom (by rw [Output.hasRoom_add]; exact hfirst)
    | false =>
      have hfull := hput.of_not_hasRoom out hzero hfirst
      generalize out.put form text = written at hfull
      obtain ⟨after, fitted⟩ := written
      obtain rfl : fitted = false := hfull
      exact run_of_fails h.2 form after
  | finish complete =>
    obtain rfl : [] = cs := Option.some.inj hp
    rw [Form.image_nil, Encoding.encodeChars_nil, List.length_nil, hzero] at hroom
    cases hroom
  | abort => exact h.elim

theorem run_unlimited {s : Script} (h : s.Completes) {form : Form} {out : Output e}
    (hc : out.capacity = none) :
    match s.printed with
    | some cs => s.run form out = (out.add (form.image cs), .complete)
    | none => (s.run form out).2 = .aborted := by
  induction s generalizing out with
  | write text next ih =>
    have hroom := Output.hasRoom_unlimited hc (e.encodeChars (form.image text.toList)).length
    have hcapacity : (out.add (form.image text.toList)).capacity = none := hc
    have hnext := ih true h hcapacity
    rw [run, (Output.writes_put form text).of_hasRoom out hroom]
    rw [printed]
    cases hp : (next true).printed with
    | some cs =>
      rw [hp] at hnext
      simpa using hnext
    | none =>
      rw [hp] at hnext
      simpa using hnext
  | finish complete =>
    have hf : complete = true := h
    rw [hf]
    simp [printed, run]
  | abort => rfl

end Logbook.Script
