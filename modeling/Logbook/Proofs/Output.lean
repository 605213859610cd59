import Logbook.Proofs.Text.Encoding
set_option autoImplicit false

/-!
# What outputs hold

A write adds the units of its text or nothing, and going back to an earlier length undoes it. The
cut mark goes after the text, over the end of the text, or stands alone and is cut itself: three
cases that depend on the lengths of text and mark only. Text that is written in pieces, escaped or
not, is there as a whole or can be taken back.
-/
namespace Logbook

open Text

namespace Output

variable {e : Encoding}

def add (out : Output e) (cs : List Char) : Output e :=
  { out with units := out.units ++ e.encodeChars cs }

@[simp] theorem capacity_add (out : Output e) (cs : List Char) :
    (out.add cs).capacity = out.capacity := rfl

theorem toList_units_add (out : Output e) (cs : List Char) :
    (out.add cs).units.toList = out.units.toList ++ e.encodeChars cs := by
  simp [add]

theorem size_units_add (out : Output e) (cs : List Char) :
    (out.add cs).units.size = out.units.size + (e.encodeChars cs).length := by
  rw [← Array.length_toList, toList_units_add, List.length_append, Array.length_toList]

@[simp] theorem add_nil (out : Output e) : out.add [] = out := by
  simp [add]

@[simp] theorem add_add (out : Output e) (a b : List Char) :
    (out.add a).add b = out.add (a ++ b) := by
  have hu : ((out.add a).add b).units = (out.add (a ++ b)).units := by
    apply Array.toList_inj.1
    simp only [toList_units_add, Encoding.encodeChars_append, List.append_assoc]
  simp only [add] at hu ⊢
  rw [hu]

theorem hasRoom_of_le {out : Output e} {a b : Nat} (hab : a ≤ b) (h : out.hasRoom b = true) :
    out.hasRoom a = true := by
  cases hc : out.capacity with
  | none => simp [hasRoom, hc]
  | some capacity =>
    simp only [hasRoom, hc, decide_eq_true_eq] at h ⊢
    omega

theorem hasRoom_add (out : Output e) (cs : List Char) (count : Nat) :
    (out.add cs).hasRoom count = out.hasRoom ((e.encodeChars cs).length + count) := by
  cases hc : out.capacity with
  | none => simp [hasRoom, hc]
  | some capacity =>
    simp only [hasRoom, capacity_add, hc, size_units_add, Nat.add_assoc]

theorem hasRoom_unlimited {out : Output e} (h : out.capacity = none) (count : Nat) :
    out.hasRoom count = true := by
  simp [hasRoom, h]

theorem hasRoom_bounded {limit : Nat} {out : Output e} (hc : out.capacity = some limit)
    (hsize : out.units.size ≤ limit) (count : Nat) :
    out.hasRoom count = decide (count ≤ limit - out.units.size) := by
  rw [hasRoom, hc]
  have hiff : out.units.size + count ≤ limit ↔ count ≤ limit - out.units.size := by omega
  simp only [hiff]

theorem write_of_hasRoom {out : Output e} {text : String}
    (h : out.hasRoom (e.encodeChars text.toList).length = true) :
    out.write text = (out.add text.toList, true) := by
  simp [write, h, add]

theorem write_of_not_hasRoom {out : Output e} {text : String}
    (h : out.hasRoom (e.encodeChars text.toList).length = false) :
    out.write text = (out, false) := by
  simp [write, h]

theorem rewind_add (out : Output e) (cs : List Char) : (out.add cs).rewind out.length = out := by
  obtain ⟨capacity, units⟩ := out
  simp only [add, rewind, length, mk.injEq, true_and]
  apply Array.toList_inj.1
  simp

theorem rewind_to_prefix {out : Output e} {kept rest : List e.CodeUnit}
    (h : out.units.toList = kept ++ rest) :
    (out.rewind kept.length).units.toList = kept := by
  simp [rewind, h]

theorem markCut_of_hasRoom {out : Output e} {suffix : String}
    (h : out.hasRoom (e.measure suffix) = true) : out.markCut suffix = out.add suffix.toList := by
  rw [markCut]
  simp only [h, ↓reduceIte]
  rw [write_of_hasRoom h]

@[simp] theorem capacity_write (out : Output e) (text : String) :
    (out.write text).1.capacity = out.capacity := by
  simp only [write]
  split <;> rfl

theorem capacity_writeChars (out : Output e) (cs : List Char) :
    (out.writeChars cs).capacity = out.capacity := by
  induction cs generalizing out with
  | nil => rfl
  | cons c cs ih =>
    have hwrite := out.capacity_write (String.singleton c)
    rw [writeChars]
    generalize out.write (String.singleton c) = written at hwrite
    obtain ⟨after, fitted⟩ := written
    cases fitted with
    | true => exact (ih after).trans hwrite
    | false => exact hwrite

@[simp] theorem capacity_markCut (out : Output e) (suffix : String) :
    (out.markCut suffix).capacity = out.capacity := by
  simp only [markCut]
  split
  · exact out.capacity_write suffix
  · split
    · rfl
    · split
      · exact capacity_write _ suffix
      · exact capacity_writeChars _ _

section Cut

variable {limit : Nat} {out : Output e} {base : List Char}

/-- Characters written one by one up to the first that does not fit make the longest beginning
that fits. -/
theorem toList_units_writeChars (hc : out.capacity = some limit) (hb : out.units.size ≤ limit)
    (cs : List Char) :
    (out.writeChars cs).units.toList =
      out.units.toList ++ e.encodeChars (e.fit (limit - out.units.size) cs) := by
  induction cs generalizing out with
  | nil => simp [writeChars, Encoding.fit]
  | cons c cs ih =>
    have hone : e.encodeChars (String.singleton c).toList = e.encode c := by simp
    rw [writeChars, Encoding.fit]
    by_cases h : (e.encode c).length ≤ limit - out.units.size
    · have hroom : out.hasRoom (e.encodeChars (String.singleton c).toList).length = true := by
        rw [hone, hasRoom, hc]
        exact decide_eq_true (by omega)
      have hsize : (out.add [c]).units.size = out.units.size + (e.encode c).length := by
        rw [size_units_add, Encoding.encodeChars_cons, Encoding.encodeChars_nil, List.append_nil]
      have hmore := @ih (out.add [c]) hc (by omega)
      rw [write_of_hasRoom hroom, if_pos h]
      simp only [String.toList_singleton]
      rw [hmore, toList_units_add, hsize, Nat.sub_add_eq]
      simp
    · have hroom : out.hasRoom (e.encodeChars (String.singleton c).toList).length = false := by
        rw [hone, hasRoom, hc]
        exact decide_eq_false (by omega)
      rw [write_of_not_hasRoom hroom, if_neg h]
      simp

theorem toList_units_markCut (he : e.Lawful) (hc : out.capacity = some limit)
    (hb : out.units.toList = e.encodeChars base) (suffix : String) :
    (out.markCut suffix).units.toList = e.encodeChars (e.marked limit base suffix) := by
  have hsize : out.units.size = (e.encodeChars base).length := by
    rw [← hb, Array.length_toList]
  have hroom : out.hasRoom (e.measure suffix) =
      decide ((e.encodeChars base).length + e.measure suffix ≤ limit) := by
    rw [hasRoom, hc, ← hsize]
  rw [markCut, Encoding.marked]
  simp only [hroom, hc]
  by_cases hfits : (e.encodeChars base).length + e.measure suffix ≤ limit
  · have hwrite : out.write suffix = (out.add suffix.toList, true) :=
      write_of_hasRoom (hroom.trans (decide_eq_true hfits))
    rw [if_pos (decide_eq_true hfits), if_pos hfits, hwrite]
    simp [toList_units_add, hb]
  · rw [if_neg (by simpa using hfits), if_neg hfits]
    by_cases hover : e.measure suffix ≤ limit
    · rw [if_pos hover, if_pos hover]
      -- the tail goes back to the last boundary that leaves room for the mark
      have hbefore : min (limit - e.measure suffix) out.length = limit - e.measure suffix :=
        Nat.min_eq_left (by rw [length]; omega)
      have hfloor : out.floor (limit - e.measure suffix) =
          (e.encodeChars (e.fit (limit - e.measure suffix) base)).length := by
        rw [floor, hbefore]
        exact boundary_eq_fit he hb (by omega)
      have hfit := e.fit_isLongest (limit - e.measure suffix) base
      obtain ⟨left, hleft⟩ := hfit.begins
      have hsplit : out.units.toList =
          e.encodeChars (e.fit (limit - e.measure suffix) base) ++ e.encodeChars left := by
        rw [hb, ← Encoding.encodeChars_append, hleft]
      have hunits := rewind_to_prefix hsplit
      rw [hfloor]
      generalize hr : out.rewind
        (e.encodeChars (e.fit (limit - e.measure suffix) base)).length = cut at hunits ⊢
      have hcapacity : cut.capacity = some limit := by rw [← hr]; exact hc
      have hcut : cut.hasRoom (e.encodeChars suffix.toList).length = true := by
        have hlen : cut.units.size =
            (e.encodeChars (e.fit (limit - e.measure suffix) base)).length := by
          rw [← hunits, Array.length_toList]
        have hle := hfit.size_le
        rw [hasRoom, hcapacity]
        refine decide_eq_true ?_
        rw [hlen]
        change _ + e.measure suffix ≤ limit
        omega
      rw [write_of_hasRoom hcut]
      simp [toList_units_add, hunits]
    · rw [if_neg hover, if_neg hover]
      have hempty : (out.rewind 0).units = #[] := by simp [rewind]
      have hcapacity : (out.rewind 0).capacity = some limit := hc
      have hchars := toList_units_writeChars hcapacity (by simp [hempty]) suffix.toList
      rw [hchars, hempty]
      simp

end Cut

structure Shows (out : Output e) (limit : Nat) (cs : List Char) : Prop where
  capacity_eq : out.capacity = some limit
  units_eq : out.units.toList = e.encodeChars cs

namespace Shows

variable {out : Output e} {limit : Nat} {cs : List Char}

theorem bounded (limit : Nat) : (Output.bounded e limit).Shows limit [] := ⟨rfl, rfl⟩

theorem add (h : out.Shows limit cs) (more : List Char) : (out.add more).Shows limit (cs ++ more) :=
  ⟨h.capacity_eq, by rw [toList_units_add, h.units_eq, Encoding.encodeChars_append]⟩

theorem hasRoom_eq (h : out.Shows limit cs) (count : Nat) :
    out.hasRoom count = decide ((e.encodeChars cs).length + count ≤ limit) := by
  rw [hasRoom, h.capacity_eq, ← h.units_eq, Array.length_toList]

theorem markCut (he : e.Lawful) (h : out.Shows limit cs) (suffix : String) :
    (out.markCut suffix).Shows limit (e.marked limit cs suffix) :=
  ⟨by rw [capacity_markCut, h.capacity_eq],
    toList_units_markCut he h.capacity_eq h.units_eq suffix⟩

end Shows

/-! ## Writing some text or none of it -/

/-- `w` adds the characters `cs` if there is room for them. If not it says so, and what it has
added by then can be taken back. -/
structure Writes (w : Output e → Output e × Bool) (cs : List Char) : Prop where
  appends : ∀ out, ∃ part, (w out).1 = out.add part
  of_hasRoom : ∀ out, out.hasRoom (e.encodeChars cs).length = true → w out = (out.add cs, true)
  of_not_hasRoom : ∀ out, out.hasRoom 0 = true →
    out.hasRoom (e.encodeChars cs).length = false → (w out).2 = false

theorem writes_nil : Writes (fun out : Output e => (out, true)) [] where
  appends out := ⟨[], out.add_nil.symm⟩
  of_hasRoom out _ := by rw [out.add_nil]
  of_not_hasRoom out hzero h := by
    rw [Encoding.encodeChars_nil, List.length_nil, hzero] at h
    cases h

theorem writes_write (text : String) : Writes (fun out : Output e => out.write text) text.toList where
  appends out := by
    cases h : out.hasRoom (e.encodeChars text.toList).length with
    | true => exact ⟨text.toList, by rw [write_of_hasRoom h]⟩
    | false => exact ⟨[], by rw [write_of_not_hasRoom h, add_nil]⟩
  of_hasRoom out h := write_of_hasRoom h
  of_not_hasRoom out _ h := by rw [write_of_not_hasRoom h]

theorem Writes.seq {first second both : Output e → Output e × Bool} {a b : List Char}
    (ha : Writes first a) (hb : Writes second b)
    (h : ∀ out, both out =
      match first out with
      | (out, true) => second out
      | (out, false) => (out, false)) : Writes both (a ++ b) := by
  constructor
  case appends =>
    intro out
    obtain ⟨part, hpart⟩ := ha.appends out
    rw [h]
    generalize first out = written at hpart
    obtain ⟨after, fitted⟩ := written
    obtain rfl : after = out.add part := hpart
    cases fitted with
    | true =>
      obtain ⟨more, hmore⟩ := hb.appends (out.add part)
      exact ⟨part ++ more, hmore.trans (out.add_add _ _)⟩
    | false => exact ⟨part, rfl⟩
  case of_hasRoom =>
    intro out hroom
    rw [Encoding.encodeChars_append, List.length_append] at hroom
    have hfirst := hasRoom_of_le (Nat.le_add_right _ _) hroom
    rw [← hasRoom_add] at hroom
    rw [h, ha.of_hasRoom out hfirst]
    simp only
    rw [hb.of_hasRoom _ hroom, add_add]
  case of_not_hasRoom =>
    intro out hzero hroom
    rw [Encoding.encodeChars_append, List.length_append, ← hasRoom_add] at hroom
    rw [h]
    -- a first text that fits takes away room, so that the second does not fit
    cases hfirst : out.hasRoom (e.encodeChars a).length with
    | true =>
      rw [ha.of_hasRoom out hfirst]
      exact hb.of_not_hasRoom _ (by rw [hasRoom_add]; exact hfirst) hroom
    | false =>
      have hfull := ha.of_not_hasRoom out hzero hfirst
      generalize first out = written at hfull
      obtain ⟨after, fitted⟩ := written
      obtain rfl : fitted = false := hfull
      rfl

theorem writes_writeAll (texts : List String) :
    Writes (fun out : Output e => out.writeAll texts) (texts.flatMap String.toList) := by
  induction texts with
  | nil => exact writes_nil
  | cons text rest ih => exact (writes_write text).seq ih fun _ => rfl

end Output

def Form.image : Form → List Char → List Char
  | .plain, cs => cs
  | .quoted, cs => cs.flatMap JsonString.escapeChar

@[simp] theorem Form.image_plain (cs : List Char) : Form.image .plain cs = cs := rfl

@[simp] theorem Form.image_nil (form : Form) : form.image [] = [] := by
  cases form <;> rfl

@[simp] theorem Form.image_append (form : Form) (a b : List Char) :
    form.image (a ++ b) = form.image a ++ form.image b := by
  cases form with
  | plain => rfl
  | quoted => exact List.flatMap_append

theorem Output.writes_put {e : Encoding} (form : Form) (text : String) :
    Writes (fun out : Output e => out.put form text) (form.image text.toList) := by
  cases form with
  | plain => exact writes_write text
  | quoted =>
    have h := writes_writeAll (e := e) (JsonString.pieces text)
    rw [JsonString.join_pieces] at h
    exact h

end Logbook
