import Logbook.Output
set_option autoImplicit false

/-!
# Cutting encoded text between two characters

Both encodings are lawful: a character has a first unit, which continues nothing, and the others
continue it. Hence going back from any position of encoded text to the last unit that continues
nothing finds the longest beginning in whole characters.
-/
namespace Logbook

structure IsLongestWithin {α : Type} (size : List α → Nat) (room : Nat) (kept all : List α) :
    Prop where
  begins : kept <+: all
  size_le : size kept ≤ room
  longest : ∀ other, other <+: all → size other ≤ room → other <+: kept

section Longest

variable {α : Type} {size : List α → Nat} {room : Nat}

theorem isLongestWithin_nil (h : size [] ≤ room) : IsLongestWithin size room [] [] :=
  ⟨List.prefix_refl [], h, fun _ hother _ => hother⟩

theorem isLongestWithin_cons {a : α} {cost : Nat} {kept all : List α}
    (hcost : ∀ rest, size (a :: rest) = cost + size rest) (hle : cost ≤ room)
    (h : IsLongestWithin size (room - cost) kept all) :
    IsLongestWithin size room (a :: kept) (a :: all) := by
  obtain ⟨hbegins, hsize, hlongest⟩ := h
  refine ⟨(List.prefix_cons_inj a).2 hbegins, ?_, ?_⟩
  · rw [hcost]
    omega
  · intro other hother hroom
    cases other with
    | nil => exact List.nil_prefix
    | cons b other =>
      obtain ⟨rfl, hrest⟩ := List.cons_prefix_cons.1 hother
      rw [hcost] at hroom
      exact (List.prefix_cons_inj _).2 (hlongest other hrest (by omega))

theorem isLongestWithin_of_misfit {a : α} {all : List α} (hnil : size [] ≤ room)
    (hmisfit : ∀ rest, room < size (a :: rest)) : IsLongestWithin size room [] (a :: all) := by
  refine ⟨List.nil_prefix, hnil, ?_⟩
  intro other hother hroom
  cases other with
  | nil => exact List.nil_prefix
  | cons b other =>
    obtain ⟨rfl, _⟩ := List.cons_prefix_cons.1 hother
    exact absurd hroom (Nat.not_le_of_lt (hmisfit other))

end Longest

theorem isLongestWithin_take {α : Type} (room : Nat) (all : List α) :
    IsLongestWithin List.length room (all.take room) all := by
  refine ⟨List.take_prefix room all, ?_, ?_⟩
  · rw [List.length_take]
    exact Nat.min_le_left _ _
  · intro other hother hsize
    rw [List.prefix_iff_eq_take.1 hother]
    exact List.take_prefix_take_left hsize

namespace Text

theorem continues_utf8 (b : UInt8) :
    utf8.continues b = (decide (128 ≤ b.toNat) && decide (b.toNat < 192)) := by
  have h : ∀ v : BitVec 8, (v &&& 0xC0#8 == 0x80#8) =
      (decide (128 ≤ v.toNat) && decide (v.toNat < 192)) := by decide
  have hb := h b.toBitVec
  rw [UInt8.toNat_toBitVec] at hb
  rw [← hb]
  change (b &&& 0xC0 == 0x80) = _
  rw [Bool.eq_iff_iff, beq_iff_eq, beq_iff_eq, ← UInt8.toBitVec_inj]
  rfl

theorem continues_utf8_ofNat (n : Nat) (h : n < 256) :
    utf8.continues (UInt8.ofNat n) = (decide (128 ≤ n) && decide (n < 192)) := by
  rw [continues_utf8, UInt8.toNat_ofNat_of_lt' h]

theorem lawful_of_units {e : Encoding}
    (h : ∀ c, ∃ u rest, e.encode c = u :: rest ∧ e.continues u = false ∧
      ∀ x ∈ rest, e.continues x = true) : e.Lawful := by
  refine ⟨?_, ?_, ?_⟩
  · intro c
    obtain ⟨u, rest, hc, _, _⟩ := h c
    rw [hc]
    exact List.cons_ne_nil u rest
  · intro c v more hv
    obtain ⟨u, rest, hc, hu, _⟩ := h c
    rw [hc] at hv
    injection hv with hv _
    rw [← hv]
    exact hu
  · intro c v more hv
    obtain ⟨u, rest, hc, _, hr⟩ := h c
    rw [hc] at hv
    injection hv with _ hm
    rw [← hm]
    exact hr

theorem utf8_lawful : utf8.Lawful := by
  apply lawful_of_units
  intro c
  have hc : c.val.toNat < 0x110000 := by
    have h := c.valid
    simp only [UInt32.isValidChar, Nat.isValidChar] at h
    omega
  have hnil : ∀ x ∈ ([] : List UInt8), utf8.continues x = true := List.forall_mem_nil _
  -- the bytes after the first are all of one form
  have hcons : ∀ n (rest : List UInt8), (∀ x ∈ rest, utf8.continues x = true) →
      ∀ x ∈ UInt8.ofNat (n % 64 + 128) :: rest, utf8.continues x = true := by
    intro n rest hrest
    refine List.forall_mem_cons.2 ⟨?_, hrest⟩
    rw [continues_utf8_ofNat _ (by omega)]
    simp only [Bool.and_eq_true, decide_eq_true_eq]
    omega
  have hhead : ∀ n, n < 128 ∨ 192 ≤ n → n < 256 → utf8.continues (UInt8.ofNat n) = false := by
    intro n hn hlt
    rw [continues_utf8_ofNat _ hlt]
    simp only [Bool.and_eq_false_iff, decide_eq_false_iff_not]
    omega
  change ∃ u rest, String.utf8EncodeChar c = u :: rest ∧ _
  unfold String.utf8EncodeChar
  dsimp only
  split
  · exact ⟨_, _, rfl, hhead _ (by omega) (by omega), hnil⟩
  · split
    · exact ⟨_, _, rfl, hhead _ (by omega) (by omega), hcons _ _ hnil⟩
    · split
      · exact ⟨_, _, rfl, hhead _ (by omega) (by omega), hcons _ _ (hcons _ _ hnil)⟩
      · exact ⟨_, _, rfl, hhead _ (by omega) (by omega),
          hcons _ _ (hcons _ _ (hcons _ _ hnil))⟩

theorem continues_utf16_ofNat (n : Nat) (h : n < 0x10000) :
    utf16.continues (UInt16.ofNat n) = (decide (0xDC00 ≤ n) && decide (n ≤ 0xDFFF)) := by
  change (decide (0xDC00 ≤ UInt16.ofNat n) && decide (UInt16.ofNat n ≤ 0xDFFF)) = _
  simp only [UInt16.le_iff_toNat_le, UInt16.toNat_ofNat_of_lt' h]
  rfl

theorem utf16_lawful : utf16.Lawful := by
  apply lawful_of_units
  intro c
  have hc : c.toNat < 0xD800 ∨ 0xDFFF < c.toNat ∧ c.toNat < 0x110000 := c.valid
  change ∃ u rest, utf16Units c = u :: rest ∧ _
  unfold utf16Units
  split
  · refine ⟨_, _, rfl, ?_, List.forall_mem_nil _⟩
    rw [continues_utf16_ofNat _ (by omega)]
    simp only [Bool.and_eq_false_iff, decide_eq_false_iff_not]
    omega
  · refine ⟨_, _, rfl, ?_, ?_⟩
    · rw [continues_utf16_ofNat _ (by omega)]
      simp only [Bool.and_eq_false_iff, decide_eq_false_iff_not]
      omega
    · intro x hx
      rw [List.mem_singleton.1 hx, continues_utf16_ofNat _ (by omega)]
      simp only [Bool.and_eq_true, decide_eq_true_eq]
      omega

namespace Encoding

variable {e : Encoding}

theorem encode_length_pos (he : e.Lawful) (c : Char) : 0 < (e.encode c).length :=
  List.length_pos_iff.2 (he.encode_ne_nil c)

theorem encodeChars_eq_nil_iff (he : e.Lawful) (cs : List Char) :
    e.encodeChars cs = [] ↔ cs = [] := by
  constructor
  · intro h
    cases cs with
    | nil => rfl
    | cons c rest => exact absurd (List.append_eq_nil_iff.1 h).1 (he.encode_ne_nil c)
  · intro h
    rw [h]
    rfl

/-- The longest beginning of some characters that takes at most `room` units. -/
def fit (e : Encoding) : Nat → List Char → List Char
  | _, [] => []
  | room, c :: rest =>
    if (e.encode c).length ≤ room then c :: e.fit (room - (e.encode c).length) rest else []

theorem fit_isLongest (room : Nat) (cs : List Char) :
    IsLongestWithin (fun cs => (e.encodeChars cs).length) room (e.fit room cs) cs := by
  induction cs generalizing room with
  | nil => exact isLongestWithin_nil (Nat.zero_le _)
  | cons c rest ih =>
    have hcost : ∀ more, (e.encodeChars (c :: more)).length =
        (e.encode c).length + (e.encodeChars more).length := by
      intro more
      rw [encodeChars_cons, List.length_append]
    rw [fit]
    by_cases hc : (e.encode c).length ≤ room
    · rw [if_pos hc]
      exact isLongestWithin_cons hcost hc (ih _)
    · rw [if_neg hc]
      refine isLongestWithin_of_misfit (Nat.zero_le _) fun more => ?_
      rw [hcost]
      omega

theorem fit_append (room : Nat) (cs : List Char) :
    e.fit room cs = cs ∨ ∃ c rest, cs = e.fit room cs ++ c :: rest ∧
      room < (e.encodeChars (e.fit room cs)).length + (e.encode c).length := by
  have hf := e.fit_isLongest room cs
  obtain ⟨left, hleft⟩ := hf.begins
  cases left with
  | nil => exact .inl (by simpa using hleft)
  | cons c rest =>
    refine .inr ⟨c, rest, hleft.symm, Nat.lt_of_not_le fun hle => ?_⟩
    have hmore : e.fit room cs ++ [c] <+: cs := ⟨rest, by simpa using hleft⟩
    have hlen := (hf.longest _ hmore (by simpa using hle)).length_le
    simp only [List.length_append, List.length_singleton] at hlen
    omega

/-- What is beyond the longest beginning that fits starts with a character that takes more units
than are left. -/
theorem lt_length_fit {most room : Nat} {cs : List Char}
    (hmost : ∀ c, (e.encode c).length ≤ most) (h : room < (e.encodeChars cs).length) :
    room < (e.encodeChars (e.fit room cs)).length + most := by
  have hle := (e.fit_isLongest room cs).size_le
  rcases e.fit_append room cs with hall | ⟨c, rest, _, hlt⟩
  · rw [hall] at hle
    omega
  · have hc := hmost c
    omega

/-- Some characters and a mark after them in at most `limit` units: if there is no room for both,
the mark goes over the end of the characters, and is cut if it is too long by itself. -/
def marked (e : Encoding) (limit : Nat) (base : List Char) (mark : String) : List Char :=
  if (e.encodeChars base).length + e.measure mark ≤ limit then base ++ mark.toList
  else if e.measure mark ≤ limit then e.fit (limit - e.measure mark) base ++ mark.toList
  else e.fit limit mark.toList

theorem lt_length_marked {most limit : Nat} {base : List Char} {mark : String}
    (hmost : ∀ c, (e.encode c).length ≤ most)
    (h : limit < (e.encodeChars base).length + e.measure mark) :
    limit < (e.encodeChars (e.marked limit base mark)).length + most := by
  rw [marked, if_neg (Nat.not_le_of_lt h)]
  by_cases hover : e.measure mark ≤ limit
  · rw [if_pos hover, encodeChars_append, List.length_append]
    change _ < _ + e.measure mark + most
    have hlt : limit - e.measure mark < (e.encodeChars base).length := by omega
    have hfit := lt_length_fit hmost hlt
    omega
  · rw [if_neg hover]
    exact lt_length_fit hmost (Nat.lt_of_not_le hover)

end Encoding
end Text

namespace Output

open Text

variable {e : Encoding}

theorem boundary_inside (he : e.Lawful) {units : Array e.CodeUnit} {before : List Char} {c : Char}
    {after : List Char} (hu : units.toList = e.encodeChars (before ++ c :: after)) (k : Nat)
    (hk : k < (e.encode c).length) :
    boundary e units ((e.encodeChars before).length + k) = (e.encodeChars before).length := by
  have hget : ∀ j, j < (e.encode c).length →
      units[(e.encodeChars before).length + j]? = (e.encode c)[j]? := by
    intro j hj
    rw [← Array.getElem?_toList, hu, Encoding.encodeChars_append, Encoding.encodeChars_cons,
      List.getElem?_append_right (Nat.le_add_right _ _), Nat.add_sub_cancel_left,
      List.getElem?_append_left hj]
  obtain ⟨u, rest, hc⟩ := List.exists_cons_of_ne_nil (he.encode_ne_nil c)
  induction k with
  | zero =>
    have h0 := hget 0 hk
    simp only [hc, List.getElem?_cons_zero, Nat.add_zero] at h0 ⊢
    cases hb : (e.encodeChars before).length with
    | zero => rfl
    | succ n =>
      rw [hb] at h0
      simp only [boundary, h0, he.continues_head c u rest hc, Bool.false_eq_true, ↓reduceIte]
  | succ k ih =>
    have hs := hget (k + 1) hk
    have hlt : k < rest.length := by
      rw [hc] at hk
      simpa using hk
    rw [hc, List.getElem?_cons_succ, List.getElem?_eq_getElem hlt] at hs
    have hcont := he.continues_tail c u rest hc _ (List.getElem_mem hlt)
    rw [← Nat.add_assoc] at hs ⊢
    simp only [boundary, hs, hcont, ↓reduceIte]
    exact ih (Nat.lt_of_succ_lt hk)

theorem boundary_end {units : Array e.CodeUnit} {position : Nat} (h : units.size ≤ position) :
    boundary e units position = position := by
  cases position with
  | zero => rfl
  | succ position => simp only [boundary, Array.getElem?_eq_none h]

/-- The boundary at a position ends the longest beginning in whole characters. -/
theorem boundary_eq_fit (he : e.Lawful) {units : Array e.CodeUnit} {cs : List Char}
    (hu : units.toList = e.encodeChars cs) {position : Nat} (hp : position ≤ units.size) :
    boundary e units position = (e.encodeChars (e.fit position cs)).length := by
  have hsize : units.size = (e.encodeChars cs).length := by
    rw [← hu, Array.length_toList]
  have hle := (e.fit_isLongest position cs).size_le
  rcases e.fit_append position cs with hall | ⟨c, rest, hcs, hlt⟩
  · rw [hall] at hle ⊢
    rw [boundary_end (by omega)]
    omega
  · have hin := boundary_inside he (hcs ▸ hu) (position - (e.encodeChars (e.fit position cs)).length)
      (by omega)
    rw [Nat.add_sub_cancel' hle] at hin
    exact hin

end Output
end Logbook
