import Logbook.Proofs.Output
import Logbook.Proofs.Text.Slice
set_option autoImplicit false

/-!
# Outputs in memory

An output lies in memory: in a buffer of fixed size, of which some cells are in use, or in a text
that grows. The operations of an output are written out here on memory, cell by cell. What reaches
beyond the cells, takes more units away than there are or ends a growing text inside of a character
has no result. On memory that carries an output none of this happens: the operation has the answer
that the output gives, and the memory then carries what the output has become.
-/
namespace Logbook

open Text

inductive Memory (e : Encoding) where
  /-- A buffer, whose first `used` cells are in use. -/
  | buffer (cells : List e.CodeUnit) (used : Nat)
  | growing (units : List e.CodeUnit)

namespace Memory

variable {e : Encoding}

/-- What is done on memory, with an answer if nothing goes wrong. -/
abbrev Work (e : Encoding) := StateT (Memory e) Option

def store? {α : Type} (cells : List α) (position : Nat) : List α → Option (List α)
  | [] => some cells
  | unit :: rest =>
    if position < cells.length then store? (cells.set position unit) (position + 1) rest else none

def length : Work e Nat
  | buffer cells used => some (used, buffer cells used)
  | growing units => some (units.length, growing units)

/-- The cells of a buffer. The size of a text that grows is no number to reckon with. -/
def size? : Work e Nat
  | buffer cells used => some (cells.length, buffer cells used)
  | growing _ => none

def hasRoom? (count : Nat) : Work e Bool
  | buffer cells used =>
    if used ≤ cells.length then some (decide (count ≤ cells.length - used), buffer cells used)
    else none
  | growing units => some (true, growing units)

def write? (text : String) : Work e Bool
  | buffer cells used =>
    if used + e.measure text ≤ cells.length then
      (store? cells used (e.encodeChars text.toList)).map fun cells =>
        (true, buffer cells (used + e.measure text))
    else some (false, buffer cells used)
  | growing units => some (true, growing (units ++ e.encodeChars text.toList))

def boundary? (e : Encoding) (cells : List e.CodeUnit) (used : Nat) : (position : Nat) → Option Nat
  | 0 => some 0
  | position + 1 =>
    if position + 1 < used then
      match cells[position + 1]? with
      | some unit =>
        if e.continues unit then boundary? e cells used position else some (position + 1)
      | none => none
    else some (position + 1)

def floor? (position : Nat) : Work e Nat
  | buffer cells used =>
    (boundary? e cells used (min position used)).map fun stop => (stop, buffer cells used)
  | growing units =>
    (boundary? e units units.length (min position units.length)).map fun stop =>
      (stop, growing units)

def truncate? (units : List e.CodeUnit) (count : Nat) : Option (List e.CodeUnit) :=
  match units[count]? with
  | some unit => if 0 < count ∧ e.continues unit then none else some (units.take count)
  | none => some units

def rewind? (count : Nat) : Work e Unit
  | buffer cells used => some ((), buffer cells (min count used))
  | growing units =>
    if count < units.length then do
      let (stop, _) ← floor? count (growing units)
      let kept ← truncate? units stop
      return ((), growing kept)
    else some ((), growing units)

def writeAll? : List String → Work e Bool
  | [] => pure true
  | text :: rest => do
    if ← write? text then writeAll? rest else return false

def writeQuoted? (text : String) : Work e Bool := do
  let pieces ← (JsonString.pieces? text : Option (List String))
  writeAll? pieces

def put? (form : Form) (text : String) : Work e Bool :=
  match form with
  | .plain => write? text
  | .quoted => writeQuoted? text

def writeChars? : List Char → Work e Unit
  | [] => pure ()
  | c :: rest => do
    if ← write? (String.singleton c) then writeChars? rest

def markCut? (suffix : String) : Work e Unit := do
  let needed := e.measure suffix
  if ← hasRoom? needed then
    let _ ← write? suffix
  else
    let size ← size?
    if needed ≤ size then
      let start ← floor? (size - needed)
      rewind? (min start (← length))
      let _ ← write? suffix
    else
      rewind? 0
      writeChars? suffix.toList

/-! ## Memory and output -/

inductive Carries : Memory e → Output e → Prop where
  | buffer {cells : List e.CodeUnit} {used : Nat} {out : Output e}
      (capacity_eq : out.capacity = some cells.length) (used_le : used ≤ cells.length)
      (units_eq : cells.take used = out.units.toList)
      (whole : e.WellFormed out.units.toList) : Carries (.buffer cells used) out
  | growing {units : List e.CodeUnit} {out : Output e} (capacity_eq : out.capacity = none)
      (units_eq : units = out.units.toList) (whole : e.WellFormed out.units.toList) :
      Carries (.growing units) out

def Leads {α : Type} (result : Option (α × Memory e)) (after : Output e × α) : Prop :=
  ∃ m, result = some (after.2, m) ∧ m.Carries after.1

theorem Carries.whole {m : Memory e} {out : Output e} (h : m.Carries out) :
    e.WellFormed out.units.toList := by
  cases h with
  | buffer _ _ _ whole => exact whole
  | growing _ _ whole => exact whole

theorem Carries.used_eq {cells : List e.CodeUnit} {used : Nat} {out : Output e}
    (h : (Memory.buffer cells used).Carries out) : used = out.units.size := by
  cases h with
  | buffer _ used_le units_eq _ =>
    rw [← Array.length_toList, ← units_eq, List.length_take, Nat.min_eq_left used_le]

section Leads

variable {α β : Type} {m : Memory e} {out : Output e}

theorem leads_pure (h : m.Carries out) (a : α) : Leads ((pure a : Work e α) m) (out, a) :=
  ⟨m, rfl, h⟩

theorem leads_lift (h : m.Carries out) (a : α) :
    Leads ((liftM (some a) : Work e α) m) (out, a) :=
  ⟨m, rfl, h⟩

theorem bind_eq {x : Work e α} {a : α} {m' : Memory e} (hx : x m = some (a, m'))
    (k : α → Work e β) : (x >>= k) m = k a m' := by
  change (x m).bind (fun p => k p.1 p.2) = _
  rw [hx]
  rfl

theorem Leads.bind {x : Work e α} {k : α → Work e β} {a : α} {after : Output e × β}
    (hx : Leads (x m) (out, a)) (hk : ∀ m', m'.Carries out → Leads (k a m') after) :
    Leads ((x >>= k) m) after := by
  obtain ⟨m', hm, h'⟩ := hx
  rw [bind_eq hm]
  exact hk m' h'

end Leads

/-! ## One lemma for each operation -/

theorem store?_eq {α : Type} (cells : List α) (position : Nat) (units : List α)
    (h : position + units.length ≤ cells.length) :
    store? cells position units =
      some (cells.take position ++ units ++ cells.drop (position + units.length)) := by
  induction units generalizing cells position with
  | nil => simp [store?]
  | cons unit rest ih =>
    rw [List.length_cons] at h
    have hlt : position < cells.length := by omega
    have hrest : position + 1 + rest.length = position + (rest.length + 1) := by omega
    rw [store?, if_pos hlt, ih _ _ (by rw [List.length_set]; omega), List.length_cons,
      List.take_succ_eq_append_getElem (by rw [List.length_set]; exact hlt), List.getElem_set_self,
      List.take_set_of_le (Nat.le_refl _), List.drop_set_of_lt (by omega), hrest]
    simp

section Operations

variable {m : Memory e} {out : Output e}

theorem leads_length (h : m.Carries out) : Leads (length m) (out, out.length) := by
  cases h with
  | @buffer cells used _ capacity_eq used_le units_eq whole =>
    have hcarries := Carries.buffer capacity_eq used_le units_eq whole
    refine ⟨_, ?_, hcarries⟩
    rw [length, hcarries.used_eq]
    rfl
  | growing capacity_eq units_eq whole =>
    refine ⟨_, ?_, .growing capacity_eq units_eq whole⟩
    rw [length, units_eq, Array.length_toList]
    rfl

theorem leads_hasRoom (h : m.Carries out) (count : Nat) :
    Leads (hasRoom? count m) (out, out.hasRoom count) := by
  cases h with
  | @buffer cells used _ capacity_eq used_le units_eq whole =>
    have hcarries := Carries.buffer capacity_eq used_le units_eq whole
    refine ⟨_, ?_, hcarries⟩
    rw [hasRoom?, if_pos used_le,
      Output.hasRoom_bounded capacity_eq (hcarries.used_eq ▸ used_le), hcarries.used_eq]
  | growing capacity_eq units_eq whole =>
    refine ⟨_, ?_, .growing capacity_eq units_eq whole⟩
    rw [hasRoom?, Output.hasRoom_unlimited capacity_eq]

theorem leads_write (h : m.Carries out) (text : String) :
    Leads (write? text m) (out.write text) := by
  have hadd : e.WellFormed (out.add text.toList).units.toList := by
    rw [Output.toList_units_add]
    exact Encoding.wellFormed_append h.whole ⟨text.toList, rfl⟩
  cases h with
  | @buffer cells used _ capacity_eq used_le units_eq whole =>
    have hcarries := Carries.buffer capacity_eq used_le units_eq whole
    have hroom : out.hasRoom (e.encodeChars text.toList).length =
        decide (used + e.measure text ≤ cells.length) := by
      rw [Output.hasRoom, capacity_eq, hcarries.used_eq]
      rfl
    rw [write?]
    by_cases hfits : used + e.measure text ≤ cells.length
    · rw [if_pos hfits, Output.write_of_hasRoom (hroom.trans (decide_eq_true hfits)),
        store?_eq _ _ _ hfits, Option.map_some]
      have hlen : (cells.take used ++ e.encodeChars text.toList ++
          cells.drop (used + e.measure text)).length = cells.length := by
        simp only [List.length_append, List.length_take, List.length_drop, Encoding.measure]
          at hfits ⊢
        omega
      have htake : (cells.take used ++ e.encodeChars text.toList).length =
          used + e.measure text := by
        rw [List.length_append, List.length_take, Nat.min_eq_left used_le]
        rfl
      refine ⟨_, rfl, .buffer ?_ ?_ ?_ hadd⟩
      · rw [Output.capacity_add, capacity_eq]
        exact congrArg some hlen.symm
      · exact Nat.le_trans hfits (Nat.le_of_eq hlen.symm)
      · rw [Output.toList_units_add, ← units_eq]
        exact List.take_left' htake
    · rw [if_neg hfits, Output.write_of_not_hasRoom (hroom.trans (decide_eq_false hfits))]
      exact ⟨_, rfl, hcarries⟩
  | growing capacity_eq units_eq whole =>
    rw [Output.write_of_hasRoom (Output.hasRoom_unlimited capacity_eq _)]
    refine ⟨_, rfl, .growing capacity_eq ?_ hadd⟩
    rw [Output.toList_units_add, units_eq]

theorem boundary?_eq {cells : List e.CodeUnit} {used : Nat}
    (h : used ≤ cells.length) {units : Array e.CodeUnit} (hu : cells.take used = units.toList)
    (position : Nat) :
    boundary? e cells used position = some (Output.boundary e units position) := by
  induction position with
  | zero => rfl
  | succ position ih =>
    have hget : units[position + 1]? = (cells.take used)[position + 1]? := by
      rw [hu, Array.getElem?_toList]
    rw [boundary?, Output.boundary, hget]
    by_cases hlt : position + 1 < used
    · have hcell : position + 1 < cells.length := Nat.lt_of_lt_of_le hlt h
      rw [if_pos hlt, List.getElem?_take_of_lt hlt, List.getElem?_eq_getElem hcell]
      simp only
      split
      · exact ih
      · rfl
    · have hnone : (cells.take used)[position + 1]? = none := by
        rw [List.getElem?_eq_none_iff, List.length_take]
        omega
      rw [if_neg hlt, hnone]

theorem leads_floor (h : m.Carries out) (position : Nat) :
    Leads (floor? position m) (out, out.floor position) := by
  cases h with
  | @buffer cells used _ capacity_eq used_le units_eq whole =>
    have hcarries := Carries.buffer capacity_eq used_le units_eq whole
    refine ⟨_, ?_, hcarries⟩
    rw [floor?, boundary?_eq used_le units_eq, Option.map_some, Output.floor, Output.length,
      hcarries.used_eq]
  | @growing units _ capacity_eq units_eq whole =>
    refine ⟨_, ?_, .growing capacity_eq units_eq whole⟩
    have htake : units.take units.length = out.units.toList := by
      rw [List.take_length, units_eq]
    rw [floor?, boundary?_eq (Nat.le_refl _) htake, Option.map_some, Output.floor, Output.length,
      units_eq, Array.length_toList]

/-- A buffer can go back to any earlier length that leaves whole characters. -/
theorem Carries.rewind {cells : List e.CodeUnit} {used : Nat}
    (h : (Memory.buffer cells used).Carries out) (count : Nat)
    (hwhole : e.WellFormed (out.rewind count).units.toList) :
    (Memory.buffer cells (min count used)).Carries (out.rewind count) := by
  cases h with
  | buffer capacity_eq used_le units_eq whole =>
    refine .buffer capacity_eq (Nat.le_trans (Nat.min_le_right _ _) used_le) ?_ hwhole
    rw [← List.take_take, units_eq, Output.rewind]
    simp

theorem leads_size (h : m.Carries out) {size : Nat} (hcapacity : out.capacity = some size) :
    Leads (size? m) (out, size) := by
  cases h with
  | @buffer cells used _ capacity_eq used_le units_eq whole =>
    obtain rfl : cells.length = size := Option.some.inj (capacity_eq.symm.trans hcapacity)
    exact ⟨_, rfl, .buffer capacity_eq used_le units_eq whole⟩
  | growing capacity_eq _ _ =>
    rw [capacity_eq] at hcapacity
    cases hcapacity

theorem leads_rewind_bounded (h : m.Carries out) {size : Nat} (hcapacity : out.capacity = some size)
    {count : Nat} (hwhole : e.WellFormed (out.rewind count).units.toList) :
    Leads (rewind? count m) (out.rewind count, ()) := by
  cases h with
  | buffer capacity_eq used_le units_eq whole =>
    exact ⟨_, rfl, (Carries.buffer capacity_eq used_le units_eq whole).rewind count hwhole⟩
  | growing capacity_eq _ _ =>
    rw [capacity_eq] at hcapacity
    cases hcapacity

section Lawful

variable (he : e.Lawful)
include he

theorem truncate?_add (out : Output e) (c : Char) (rest : List Char) :
    truncate? (out.add (c :: rest)).units.toList out.length = some out.units.toList := by
  obtain ⟨unit, more, hc⟩ := List.exists_cons_of_ne_nil (he.encode_ne_nil c)
  have hunits : (out.add (c :: rest)).units.toList =
      out.units.toList ++ unit :: (more ++ e.encodeChars rest) := by
    rw [Output.toList_units_add, Encoding.encodeChars_cons, hc, List.cons_append]
  have hlen : out.length = out.units.toList.length := Array.length_toList.symm
  have hnot : ¬ (0 < out.length ∧ e.continues unit = true) := by
    rw [he.continues_head c unit more hc]
    simp
  rw [truncate?, hunits, hlen, List.getElem?_append_right (Nat.le_refl _), Nat.sub_self,
    List.getElem?_cons_zero, ← hlen]
  simp only [hnot, ↓reduceIte]
  rw [hlen, List.take_left]

theorem floor_add {cs : List Char} (hcs : out.units.toList = e.encodeChars cs) (c : Char)
    (rest : List Char) : (out.add (c :: rest)).floor out.length = out.length := by
  have hunits : (out.add (c :: rest)).units.toList = e.encodeChars (cs ++ c :: rest) := by
    rw [Output.toList_units_add, hcs, Encoding.encodeChars_append]
  have hlen : out.length = (e.encodeChars cs).length := by
    rw [Output.length, ← Array.length_toList, hcs]
  have hle : out.length ≤ (out.add (c :: rest)).length := by
    rw [Output.length, Output.length, Output.size_units_add]
    exact Nat.le_add_right _ _
  rw [Output.floor, Nat.min_eq_left hle, hlen]
  exact Output.boundary_inside he hunits 0 (Encoding.encode_length_pos he c)

theorem leads_rewind {part : List Char} (h : m.Carries (out.add part))
    (hwhole : e.WellFormed out.units.toList) : Leads (rewind? out.length m) (out, ()) := by
  cases h with
  | buffer capacity_eq used_le units_eq whole =>
    have hcarries := Carries.buffer capacity_eq used_le units_eq whole
    have hrewind := hcarries.rewind out.length (by rw [out.rewind_add part]; exact hwhole)
    rw [out.rewind_add part] at hrewind
    exact ⟨_, rfl, hrewind⟩
  | @growing units _ capacity_eq units_eq whole =>
    have hcapacity : out.capacity = none := capacity_eq
    have hcarries := Carries.growing capacity_eq units_eq whole
    obtain ⟨cs, hcs⟩ := hwhole
    refine ⟨.growing out.units.toList, ?_, .growing hcapacity rfl ⟨cs, hcs⟩⟩
    cases part with
    | nil =>
      have hnot : ¬ out.length < units.length := by
        rw [units_eq, out.add_nil, Array.length_toList, Output.length]
        exact Nat.lt_irrefl _
      rw [out.add_nil] at units_eq
      rw [rewind?, if_neg hnot, units_eq]
    | cons c rest =>
      obtain ⟨m, hfloor, _⟩ := leads_floor hcarries out.length
      rw [floor_add he hcs] at hfloor
      have htruncate := truncate?_add he out c rest
      rw [← units_eq] at htruncate
      have hlt : out.length < units.length := by
        rw [units_eq, Array.length_toList, Output.size_units_add, Encoding.encodeChars_cons,
          List.length_append]
        have hpos := Encoding.encode_length_pos he c
        rw [Output.length]
        omega
      rw [rewind?, if_pos hlt]
      simp [hfloor, htruncate]

end Lawful

theorem leads_writeAll (h : m.Carries out) (texts : List String) :
    Leads (writeAll? texts m) (out.writeAll texts) := by
  induction texts generalizing m out with
  | nil => exact leads_pure h true
  | cons text rest ih =>
    have hwrite := leads_write h text
    rw [writeAll?, Output.writeAll]
    generalize out.write text = written at hwrite
    obtain ⟨after, fitted⟩ := written
    refine hwrite.bind fun m' h' => ?_
    cases fitted with
    | true => exact ih h'
    | false => exact leads_pure h' false

theorem leads_put (h : m.Carries out) (form : Form) (text : String) :
    Leads (put? form text m) (out.put form text) := by
  cases form with
  | plain => exact leads_write h text
  | quoted =>
    have hpieces : writeQuoted? (e := e) text = writeAll? (JsonString.pieces text) := by
      rw [writeQuoted?, JsonString.pieces?_eq]
      rfl
    rw [put?, hpieces]
    exact leads_writeAll h (JsonString.pieces text)

theorem leads_writeChars (h : m.Carries out) (cs : List Char) :
    Leads (writeChars? cs m) (out.writeChars cs, ()) := by
  induction cs generalizing m out with
  | nil => exact leads_pure h ()
  | cons c rest ih =>
    have hwrite := leads_write h (String.singleton c)
    rw [writeChars?, Output.writeChars]
    generalize out.write (String.singleton c) = written at hwrite
    obtain ⟨after, fitted⟩ := written
    refine hwrite.bind fun m' h' => ?_
    cases fitted with
    | true => exact ih h'
    | false => exact leads_pure h' ()

theorem floor_le (out : Output e) (position : Nat) : out.floor position ≤ out.length := by
  have hle : ∀ position, Output.boundary e out.units position ≤ position := by
    intro position
    induction position with
    | zero => exact Nat.le_refl 0
    | succ position ih =>
      rw [Output.boundary]
      split
      · split
        · exact Nat.le_succ_of_le ih
        · exact Nat.le_refl _
      · exact Nat.le_refl _
  exact Nat.le_trans (hle _) (Nat.min_le_right _ _)

theorem whole_rewind_floor (he : e.Lawful) (hwhole : e.WellFormed out.units.toList)
    (position : Nat) : e.WellFormed (out.rewind (out.floor position)).units.toList := by
  obtain ⟨cs, hcs⟩ := hwhole
  have hfloor : out.floor position =
      (e.encodeChars (e.fit (min position out.length) cs)).length :=
    Output.boundary_eq_fit he hcs (Nat.min_le_right _ _)
  obtain ⟨left, hleft⟩ := (e.fit_isLongest (min position out.length) cs).begins
  have hsplit : out.units.toList =
      e.encodeChars (e.fit (min position out.length) cs) ++ e.encodeChars left := by
    rw [hcs, ← Encoding.encodeChars_append, hleft]
  rw [hfloor]
  exact ⟨_, Output.rewind_to_prefix hsplit⟩

/-- Only the write matters, not whether it fitted. -/
theorem leads_suffix (h : m.Carries out) (suffix : String) :
    Leads ((write? suffix >>= fun _ => pure ()) m) ((out.write suffix).1, ()) := by
  have hwrite := leads_write h suffix
  generalize out.write suffix = written at hwrite
  obtain ⟨after, fitted⟩ := written
  exact hwrite.bind fun m' h' => leads_pure h' ()

theorem leads_markCut (he : e.Lawful) (h : m.Carries out) (suffix : String) :
    Leads (markCut? suffix m) (out.markCut suffix, ()) := by
  rw [markCut?, Output.markCut]
  refine (leads_hasRoom h (e.measure suffix)).bind fun m₁ h₁ => ?_
  cases hroom : out.hasRoom (e.measure suffix) with
  | true => exact leads_suffix h₁ suffix
  | false =>
    cases hcapacity : out.capacity with
    | none =>
      rw [Output.hasRoom_unlimited hcapacity] at hroom
      cases hroom
    | some size =>
      refine (leads_size h₁ hcapacity).bind fun m₂ h₂ => ?_
      simp only [Bool.false_eq_true, ↓reduceIte]
      by_cases hover : e.measure suffix ≤ size
      · rw [if_pos hover, if_pos hover]
        refine (leads_floor h₂ (size - e.measure suffix)).bind fun m₃ h₃ => ?_
        refine (leads_length h₃).bind fun m₄ h₄ => ?_
        rw [Nat.min_eq_left (floor_le out _)]
        refine (leads_rewind_bounded h₄ hcapacity (whole_rewind_floor he h.whole _)).bind
          fun m₅ h₅ => ?_
        exact leads_suffix h₅ suffix
      · rw [if_neg hover, if_neg hover]
        have hempty : e.WellFormed (out.rewind 0).units.toList := ⟨[], by simp [Output.rewind]⟩
        refine (leads_rewind_bounded h₂ hcapacity hempty).bind fun m₃ h₃ => ?_
        exact leads_writeChars h₃ suffix.toList

end Operations
end Memory
end Logbook
