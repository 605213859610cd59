import Logbook.Proofs.Record.Kept
import Logbook.Proofs.Render.Bounded
set_option autoImplicit false

/-!
# Text and fields

A walk does two things that do not touch each other. The text depends on the values alone, as if
the record had no fields; the list gets the places of the fields before the point where the walk
stops, in their order. A list that was new once has room for the fields of any record, as each
takes a string of the table.
-/
namespace Logbook

open Record Render Text

namespace Record

namespace Stored

def isValue : Stored → Bool
  | .value _ => true
  | .field _ _ => false

end Stored

def fieldStarts : Nat → List Stored → List Nat
  | _, [] => []
  | position, s :: rest =>
    (if s.isValue then [] else [position]) ++ fieldStarts (position + s.bytes.length) rest

theorem fieldStarts_append (position : Nat) (a b : List Stored) :
    fieldStarts position (a ++ b) =
      fieldStarts position a ++ fieldStarts (position + (a.flatMap Stored.bytes).length) b := by
  induction a generalizing position with
  | nil => rfl
  | cons s a ih =>
    rw [List.cons_append, fieldStarts, fieldStarts, ih, List.flatMap_cons, List.length_append,
      List.append_assoc, Nat.add_assoc]

theorem le_of_mem_fieldStarts {position : Nat} {entries : List Stored} {start : Nat}
    (h : start ∈ fieldStarts position entries) : position ≤ start := by
  induction entries generalizing position with
  | nil => cases h
  | cons s rest ih =>
    rcases List.mem_append.1 h with hfirst | hrest
    · split at hfirst
      · cases hfirst
      · exact Nat.le_of_eq (List.mem_singleton.1 hfirst).symm
    · have hle := ih hrest
      omega

theorem pairwise_fieldStarts (position : Nat) (entries : List Stored) :
    (fieldStarts position entries).Pairwise (· < ·) := by
  induction entries generalizing position with
  | nil => exact List.Pairwise.nil
  | cons s rest ih =>
    -- entries are not empty, so no two start at one place
    have hpos := s.length_bytes_pos
    rw [fieldStarts, List.pairwise_append]
    refine ⟨?_, ih _, ?_⟩
    · split
      · exact List.Pairwise.nil
      · exact List.pairwise_singleton _ _
    · intro a ha b hb
      have hle := le_of_mem_fieldStarts hb
      split at ha
      · cases ha
      · rw [List.mem_singleton.1 ha]
        omega

theorem take_fieldStarts (count position : Nat) (entries : List Stored) :
    ∃ before after, entries = before ++ after ∧
      (fieldStarts position entries).take count = fieldStarts position before := by
  induction entries generalizing count position with
  | nil => exact ⟨[], [], rfl, List.take_nil⟩
  | cons s rest ih =>
    cases s with
    | value v =>
      obtain ⟨before, after, rfl, htake⟩ := ih count (position + (Stored.value v).bytes.length)
      exact ⟨.value v :: before, after, rfl, htake⟩
    | field key v =>
      cases count with
      | zero => exact ⟨[], .field key v :: rest, rfl, List.take_zero⟩
      | succ count =>
        obtain ⟨before, after, rfl, htake⟩ :=
          ih count (position + (Stored.field key v).bytes.length)
        exact ⟨.field key v :: before, after, rfl, congrArg (position :: ·) htake⟩

theorem fieldStarts_eq_nil {entries : List Stored} (h : ∀ s ∈ entries, s.isValue = true)
    (position : Nat) : fieldStarts position entries = [] := by
  induction entries generalizing position with
  | nil => rfl
  | cons s rest ih =>
    rw [fieldStarts, if_pos (h s List.mem_cons_self), List.nil_append]
    exact ih (fun s hs => h s (List.mem_cons_of_mem _ hs)) _

theorem Keeps.isValue_of_mem_part {r : Record} {asked kept : List Addition} {part : Option Stored}
    {marked : Bool} (h : r.Keeps asked kept part marked) {s : Stored} (hs : s ∈ part.toList) :
    s.isValue = true := by
  obtain ⟨a, _, room, hroom⟩ := h.part_of s (Option.mem_toList.1 hs)
  cases a with
  | value v format =>
    cases v with
    | span text | ascii bytes =>
      rw [Addition.part?] at hroom
      split at hroom
      · cases hroom
      · rw [← Option.some.inj hroom]
        rfl
    | _ => cases hroom
  | field key v => cases hroom

theorem length_fieldStarts_entries (position index : Nat) (additions : List Addition) :
    (fieldStarts position (Addition.entries index additions)).length ≤
      Addition.totalSlots additions := by
  induction additions generalizing position index with
  | nil => exact Nat.le_refl _
  | cons a rest ih =>
    have hrest := ih (position + (a.stored (UInt8.ofNat index)).bytes.length) (index + a.slots)
    rw [Addition.entries, fieldStarts, List.length_append, Addition.totalSlots]
    have hfirst : (if (a.stored (UInt8.ofNat index)).isValue then [] else [position]).length ≤
        a.slots := by
      cases a with
      | value v format => exact Nat.zero_le _
      | field key v => exact Nat.succ_le_succ (Nat.zero_le _)
    omega

theorem Keeps.length_fieldStarts {r : Record} {asked kept : List Addition} {part : Option Stored}
    {marked : Bool} (h : r.Keeps asked kept part marked) :
    (fieldStarts 0 (Addition.entries 0 kept ++ part.toList)).length ≤ maxStringCapacity := by
  -- each field has its key in the table of strings, and the part that was kept is no field
  have hkept := length_fieldStarts_entries 0 0 kept
  have hslots := h.totalSlots_le
  rw [fieldStarts_append, fieldStarts_eq_nil (fun _ => h.isValue_of_mem_part), List.append_nil]
  omega

def holding (r : Record) (entries : List Stored) (marked : Bool) : Record :=
  let bytes := entries.flatMap Stored.bytes ++ if marked then [Tag.cut.code] else []
  { r with segment := (Segment.zeroed bytes.length).write 0 bytes, position := bytes.length }

theorem encoded_holding (r : Record) (entries : List Stored) (marked : Bool) :
    (r.holding entries marked).encoded =
      entries.flatMap Stored.bytes ++ if marked then [Tag.cut.code] else [] := by
  generalize hbytes : entries.flatMap Stored.bytes ++ (if marked then [Tag.cut.code] else []) =
    bytes
  have h := (Segment.zeroed bytes.length).firstBytes_write 0 bytes
  rw [Nat.zero_add] at h
  rw [holding, hbytes]
  exact h

end Record

namespace Render

/-! ## Lists -/

namespace FieldList

/-- A list that was new once and has been through any passes since. -/
inductive Recycled : FieldList → Prop
  | new : Recycled {}
  | clear {fields : FieldList} : Recycled fields → Recycled fields.clear
  | pass {e : Encoding} {fields : FieldList} (r : Record) (registry : Registry)
      (settings : Settings) (skipFormats : Bool) (out : Output e) :
      Recycled fields → Recycled (r.render registry settings skipFormats fields out).fields

theorem capacity_push (fields : FieldList) (offset : Nat) :
    (fields.push offset).capacity = fields.capacity := by
  rw [push]
  split <;> rfl

theorem toList_foldl_push (fields : FieldList) (offsets : List Nat) :
    (offsets.foldl push fields).offsets.toList =
      fields.offsets.toList ++ offsets.take (fields.capacity - fields.offsets.size) := by
  induction offsets generalizing fields with
  | nil => rw [List.take_nil, List.append_nil]; rfl
  | cons offset rest ih =>
    rw [List.foldl_cons, ih, capacity_push]
    by_cases hroom : fields.offsets.size < fields.capacity
    · have hpush := toList_push_of_lt hroom offset
      have hsize : (fields.push offset).offsets.size = fields.offsets.size + 1 := by
        rw [← Array.length_toList, hpush, List.length_append, List.length_singleton,
          Array.length_toList]
      have hleft : fields.capacity - fields.offsets.size =
          fields.capacity - (fields.offsets.size + 1) + 1 := by omega
      rw [hpush, hsize, hleft, List.take_succ_cons, List.append_assoc]
      rfl
    · rw [push_eq_self_of_le (Nat.le_of_not_lt hroom), Nat.sub_eq_zero_of_le (by omega),
        List.take_zero, List.take_zero]

end FieldList

/-! ## The text of a walk -/

variable {e : Encoding} {ctx : Context} {suffix : String} {skipFormats : Bool}

def writeValues (ctx : Context) (suffix : String) (skipFormats : Bool) :
    List Stored → Output e → Output e × Bool
  | [], out => (out, true)
  | .field _ _ :: rest, out => writeValues ctx suffix skipFormats rest out
  | .value v :: rest, out =>
    match (present ctx (formatAt ctx skipFormats v.format) v.payload).write .plain out with
    | (out, .done) => writeValues ctx suffix skipFormats rest out
    | (out, .unreadable) => (out, true)
    | (after, .full) => ((after.rewind out.length).markCut suffix, false)

theorem writeValues_filter (entries : List Stored) (out : Output e) :
    writeValues ctx suffix skipFormats (entries.filter Stored.isValue) out =
      writeValues ctx suffix skipFormats entries out := by
  induction entries generalizing out with
  | nil => rfl
  | cons s rest ih =>
    cases s with
    | field key v => exact ih out
    | value v =>
      have hkeep : (Stored.value v :: rest).filter Stored.isValue =
          .value v :: rest.filter Stored.isValue := rfl
      rw [hkeep, writeValues, writeValues]
      split
      · exact ih _
      · rfl
      · rfl

variable (ctx suffix skipFormats) in
theorem walk_writes (entries : List Stored) (hstorable : ∀ s ∈ entries, s.payload.Storable)
    (marked : Bool) {fuel : Nat} (hfuel : entries.length ≤ fuel) (position : Nat)
    (out : Output e) (fields : FieldList) :
    let pass := walk ctx suffix skipFormats fuel position
      (entries.flatMap Stored.bytes ++ if marked then [Tag.cut.code] else []) out fields
    (pass.out, pass.fitted) = writeValues ctx suffix skipFormats entries out := by
  induction entries generalizing fuel position out fields with
  | nil =>
    rw [List.flatMap_nil, List.nil_append, walk_end]
    rfl
  | cons s rest ih =>
    obtain ⟨fuel, rfl⟩ : ∃ n, fuel = n + 1 := ⟨fuel - 1, by rw [List.length_cons] at hfuel; omega⟩
    have hs := hstorable s List.mem_cons_self
    have hrest := fun s hs => hstorable s (List.mem_cons_of_mem _ hs)
    have hle : rest.length ≤ fuel := Nat.le_of_succ_le_succ hfuel
    rw [List.flatMap_cons, List.append_assoc]
    cases s with
    | field key v =>
      rw [walk_field hs, writeValues]
      exact ih hrest hle _ out _
    | value v =>
      rw [writeValues]
      generalize hw : (present ctx (formatAt ctx skipFormats v.format) v.payload).write .plain out =
        written
      obtain ⟨after, progress⟩ := written
      cases progress with
      | done =>
        rw [walk_done hs _ _ _ _ hw]
        exact ih hrest hle _ after _
      | unreadable =>
        rw [walk_unreadable hs _ _ _ _ hw]
      | full =>
        rw [walk_full hs _ _ _ _ hw]

/-! ## What a walk notes -/

variable (ctx suffix skipFormats) in
/-- The walk notes the fields among the entries before the point where it stops. It stops at the
first value that does not fit, and only there if all can be read. -/
theorem walk_notes (entries : List Stored) (hstorable : ∀ s ∈ entries, s.payload.Storable)
    (marked : Bool) {fuel : Nat} (hfuel : entries.length ≤ fuel) (position : Nat)
    (out : Output e) (fields : FieldList) :
    ∃ before after, entries = before ++ after ∧
      (walk ctx suffix skipFormats fuel position
          (entries.flatMap Stored.bytes ++ if marked then [Tag.cut.code] else []) out
          fields).fields =
        (fieldStarts position before).foldl FieldList.push fields ∧
      (writeValues ctx suffix skipFormats before out).2 = true ∧
      ((writeValues ctx suffix skipFormats entries out).2 = false →
        ∃ s rest, after = s :: rest ∧
          (writeValues ctx suffix skipFormats (before ++ [s]) out).2 = false) ∧
      ((writeValues ctx suffix skipFormats entries out).2 = true →
        (∀ s ∈ entries, ∃ cs, s.shown? ctx skipFormats = some cs) → after = []) := by
  induction entries generalizing fuel position out fields with
  | nil =>
    rw [List.flatMap_nil, List.nil_append, walk_end]
    exact ⟨[], [], rfl, rfl, rfl, nofun, fun _ _ => rfl⟩
  | cons s rest ih =>
    obtain ⟨fuel, rfl⟩ : ∃ n, fuel = n + 1 := ⟨fuel - 1, by rw [List.length_cons] at hfuel; omega⟩
    have hs := hstorable s List.mem_cons_self
    have hrest := fun s hs => hstorable s (List.mem_cons_of_mem _ hs)
    have hle : rest.length ≤ fuel := Nat.le_of_succ_le_succ hfuel
    rw [List.flatMap_cons, List.append_assoc]
    -- the point where the walk stops is one entry further on than for the rest, unless it stops here
    cases s with
    | field key v =>
      obtain ⟨before, after, rfl, hnoted, hbefore, hstop, hend⟩ :=
        ih hrest hle (position + (Stored.field key v).bytes.length) out (fields.push position)
      refine ⟨.field key v :: before, after, rfl, ?_, hbefore, hstop, fun hfit hread => ?_⟩
      · rw [walk_field hs, hnoted]
        rfl
      · exact hend hfit fun s hs => hread s (List.mem_cons_of_mem _ hs)
    | value v =>
      generalize hw : (present ctx (formatAt ctx skipFormats v.format) v.payload).write .plain out =
        written
      obtain ⟨next, progress⟩ := written
      cases progress with
      | done =>
        have hfirst : ∀ entries, writeValues ctx suffix skipFormats (.value v :: entries) out =
            writeValues ctx suffix skipFormats entries next := by
          intro entries
          rw [writeValues, hw]
        obtain ⟨before, after, rfl, hnoted, hbefore, hstop, hend⟩ :=
          ih hrest hle (position + (Stored.value v).bytes.length) next fields
        refine ⟨.value v :: before, after, rfl, ?_, ?_, fun hfull => ?_, fun hfit hread => ?_⟩
        · rw [walk_done hs _ _ _ _ hw, hnoted]
          rfl
        · rw [hfirst]
          exact hbefore
        · rw [hfirst] at hfull
          obtain ⟨s, rest, hafter, hmisfit⟩ := hstop hfull
          refine ⟨s, rest, hafter, ?_⟩
          rw [List.cons_append, hfirst]
          exact hmisfit
        · rw [hfirst] at hfit
          exact hend hfit fun s hs => hread s (List.mem_cons_of_mem _ hs)
      | unreadable =>
        refine ⟨[], .value v :: rest, rfl, ?_, rfl, fun hfull => ?_, fun _ hread => ?_⟩
        · rw [walk_unreadable hs _ _ _ _ hw]
          rfl
        · rw [writeValues, hw] at hfull
          cases hfull
        · obtain ⟨cs, hcs⟩ := hread (.value v) List.mem_cons_self
          rw [Stored.shown?, Presentation.shown?_of_write_unreadable hw] at hcs
          cases hcs
      | full =>
        refine ⟨[], .value v :: rest, rfl, ?_, rfl, fun _ => ⟨.value v, rest, rfl, ?_⟩,
          fun hfit _ => ?_⟩
        · rw [walk_full hs _ _ _ _ hw]
          rfl
        · rw [List.nil_append, writeValues, hw]
        · rw [writeValues, hw] at hfit
          cases hfit

theorem capacity_walk (fuel position : Nat) (data : List UInt8) (out : Output e)
    (fields : FieldList) :
    (walk ctx suffix skipFormats fuel position data out fields).fields.capacity =
      fields.capacity := by
  induction fuel generalizing position data out fields with
  | zero => rfl
  | succ fuel ih =>
    rw [walk]
    split
    · rfl
    · rfl
    · rw [ih, FieldList.capacity_push]
    · split
      · exact ih _ _ _ _
      · rfl
      · rfl

end Render

namespace Record

theorem fields_render {e : Encoding} (r : Record) (registry : Registry) (settings : Settings)
    (skipFormats : Bool) (fields : FieldList) (out : Output e) :
    (r.render registry settings skipFormats fields out).fields =
      (walk (r.context registry settings) settings.truncatedSuffix skipFormats r.encoded.length 0
        r.encoded out fields.clear).fields := by
  rw [render]
  split <;> rfl

end Record

namespace Render

variable {e : Encoding} {ctx : Context} {suffix : String} {skipFormats : Bool}

theorem FieldList.Recycled.capacity_eq {fields : FieldList} (h : fields.Recycled) :
    fields.capacity = maxStringCapacity := by
  induction h with
  | new => rfl
  | clear _ ih => exact ih
  | pass r registry settings skipFormats out _ ih =>
    rw [fields_render, capacity_walk]
    exact ih

theorem FieldList.Recycled.clear_eq {fields : FieldList} (h : fields.Recycled) :
    fields.clear = {} := by
  have hcapacity := h.capacity_eq
  rw [FieldList.clear, hcapacity]
  rfl

theorem walkText_eq (fuel position : Nat) (data : List UInt8) (out : Output e)
    (fields : FieldList) :
    walkText ctx suffix skipFormats fuel data out =
      ((walk ctx suffix skipFormats fuel position data out fields).out,
        (walk ctx suffix skipFormats fuel position data out fields).fitted) := by
  induction fuel generalizing position data out fields with
  | zero => rfl
  | succ fuel ih =>
    rw [walkText, walk]
    generalize Entry.take? data = taken
    cases taken with
    | none => rfl
    | some taken =>
      obtain ⟨entry, rest⟩ := taken
      cases entry with
      | cut => rfl
      | field => exact ih _ _ _ _
      | value format payload =>
        simp only
        generalize (present ctx (formatAt ctx skipFormats format) payload).write .plain out = written
        obtain ⟨after, progress⟩ := written
        cases progress with
        | done => exact ih _ _ _ _
        | unreadable => rfl
        | full => rfl

end Render

namespace Record

variable {e : Encoding} {r : Record} {registry : Registry} {entries : List Stored} {marked : Bool}

variable (registry) in
theorem render_writes (hstorable : ∀ s ∈ entries, s.payload.Storable)
    (hencoded : r.encoded =
      entries.flatMap Stored.bytes ++ if marked then [Tag.cut.code] else [])
    (settings : Settings) (skipFormats : Bool) (fields : FieldList) (out : Output e) :
    let pass := r.render registry settings skipFormats fields out
    let written := writeValues (r.context registry settings) settings.truncatedSuffix skipFormats
      entries out
    pass.fitted = written.2 ∧
      pass.out = if written.2 && r.truncated then written.1.markCut settings.truncatedSuffix
        else written.1 := by
  intro pass written
  have hwalk := walk_writes (r.context registry settings) settings.truncatedSuffix skipFormats
    entries hstorable marked (length_le_encoded hencoded) 0 out fields.clear
  simp only [← hencoded] at hwalk
  have hpair : written = (_, _) := hwalk.symm
  simp only [pass, render]
  rw [hpair]
  split <;> exact ⟨rfl, rfl⟩

theorem render_recycled (r : Record) (registry : Registry) (settings : Settings)
    (skipFormats : Bool) {fields : FieldList} (h : fields.Recycled) (out : Output e) :
    r.render registry settings skipFormats fields out =
      r.render registry settings skipFormats {} out := by
  rw [render, render, h.clear_eq]
  rfl

theorem renderText_eq (r : Record) (registry : Registry) (settings : Settings)
    (skipFormats : Bool) (fields : FieldList) (out : Output e) :
    r.renderText registry settings skipFormats out =
      ((r.render registry settings skipFormats fields out).out,
        (r.render registry settings skipFormats fields out).fitted) := by
  rw [renderText, render, walkText_eq r.encoded.length 0 r.encoded out fields.clear]
  generalize walk (r.context registry settings) settings.truncatedSuffix skipFormats
    r.encoded.length 0 r.encoded out fields.clear = pass
  obtain ⟨after, noted, fitted⟩ := pass
  cases hcut : fitted && r.truncated <;> simp only [hcut, Bool.false_eq_true, ↓reduceIte]

variable (registry) in
theorem render_notes (hstorable : ∀ s ∈ entries, s.payload.Storable)
    (hencoded : r.encoded =
      entries.flatMap Stored.bytes ++ if marked then [Tag.cut.code] else [])
    (settings : Settings) (skipFormats : Bool) (fields : FieldList) (out : Output e) :
    let written := fun shown : List Stored =>
      writeValues (r.context registry settings) settings.truncatedSuffix skipFormats shown out
    ∃ before after, entries = before ++ after ∧
      (r.render registry settings skipFormats fields out).fields.offsets.toList =
        (fieldStarts 0 before).take fields.capacity ∧
      (written before).2 = true ∧
      ((written entries).2 = false →
        ∃ s rest, after = s :: rest ∧ (written (before ++ [s])).2 = false) ∧
      ((written entries).2 = true →
        (∀ s ∈ entries, ∃ cs, s.shown? (r.context registry settings) skipFormats = some cs) →
        after = []) := by
  intro written
  obtain ⟨before, after, rfl, hnoted, hbefore, hstop, hend⟩ :=
    walk_notes (r.context registry settings) settings.truncatedSuffix skipFormats entries hstorable
      marked (length_le_encoded hencoded) 0 out fields.clear
  refine ⟨before, after, rfl, ?_, hbefore, hstop, hend⟩
  rw [← hencoded, ← fields_render] at hnoted
  rw [hnoted, FieldList.toList_foldl_push]
  rfl

theorem render_holding (r : Record) (registry : Registry) {shown : List Stored}
    (hstorable : ∀ s ∈ shown, s.payload.Storable) (marked : Bool) (settings : Settings)
    (skipFormats : Bool) (out : Output e) :
    let pass := (r.holding shown marked).render registry settings skipFormats {} out
    let written := writeValues (r.context registry settings) settings.truncatedSuffix skipFormats
      shown out
    pass.fitted = written.2 ∧
      pass.out = if written.2 && r.truncated then written.1.markCut settings.truncatedSuffix
        else written.1 :=
  render_writes (r := r.holding shown marked) registry hstorable (r.encoded_holding shown marked)
    settings skipFormats {} out

/-- A list that was new once has room for the fields before any point. -/
theorem Keeps.take_fieldStarts_eq {asked kept : List Addition} {part : Option Stored}
    (h : r.Keeps asked kept part marked) {fields : FieldList} (hfields : fields.Recycled)
    {before after : List Stored} (hsplit : Addition.entries 0 kept ++ part.toList = before ++ after) :
    (fieldStarts 0 before).take fields.capacity = fieldStarts 0 before := by
  have hall := h.length_fieldStarts
  rw [hsplit, fieldStarts_append, List.length_append] at hall
  refine List.take_of_length_le ?_
  rw [hfields.capacity_eq]
  exact Nat.le_of_add_right_le hall

/-- Whatever was done to a record, a pass writes what it would write if the fields were not there,
and notes those before the point where it stops, all of them unless the output filled up. Neither
depends on what the list held before. -/
theorem run_partition (segment : Segment) (capacity serial : Nat) (ops : List Operation)
    (registry : Registry) (hsize : segment.size < 0x1_0000_0000)
    (hreadable : ∀ a, Operation.add a ∈ ops → a.isReadable = true) :
    let r := (create segment capacity serial).run ops
    ∃ kept part marked, r.Keeps (Operation.lastAdded ops) kept part marked ∧
      ∀ (e : Encoding) (settings : Settings) (skipFormats : Bool) (fields : FieldList)
        (out : Output e), fields.Recycled →
        let entries := Addition.entries 0 kept ++ part.toList
        let pass := r.render registry settings skipFormats fields out
        let passOver := fun shown marked =>
          (r.holding shown marked).render registry settings skipFormats {} out
        (pass.out = (passOver (entries.filter Stored.isValue) marked).out ∧
          pass.fitted = (passOver (entries.filter Stored.isValue) marked).fitted) ∧
        (∃ before after, entries = before ++ after ∧
          pass.fields.offsets.toList = fieldStarts 0 before ∧
          pass.fields.offsets.toList.Pairwise (· < ·) ∧
          (passOver before false).fitted = true ∧
          (pass.fitted = true → after = []) ∧
          (pass.fitted = false →
            ∃ s rest, after = s :: rest ∧ (passOver (before ++ [s]) false).fitted = false)) ∧
        pass = r.render registry settings skipFormats {} out ∧
        r.renderText registry settings skipFormats out = (pass.out, pass.fitted) := by
  intro r
  obtain ⟨kept, part, marked, h⟩ := keeps_run segment capacity serial ops
  refine ⟨kept, part, marked, h, fun e settings skipFormats fields out hfields => ?_⟩
  intro entries pass passOver
  have hr : r.segment.size < 0x1_0000_0000 := size_run_lt hsize capacity serial ops
  have hstorable : ∀ s ∈ entries, s.payload.Storable := fun s hs =>
    h.holds.storable_of_size_lt hr hs
  have hshown : ∀ s ∈ entries, ∃ cs,
      s.shown? (r.context registry settings) skipFormats = some cs := by
    intro s hs
    obtain ⟨a, ha, hwrites⟩ := h.exists_writes hs
    exact isSome_shown?_of_writes (hreadable a (Operation.add_mem_of_mem_lastAdded ha)) hwrites _ _
  obtain ⟨hfitted, hout⟩ :=
    render_writes registry hstorable h.holds.encoded_eq settings skipFormats fields out
  obtain ⟨before, after, hsplit, hnoted, hbefore, hstop, hend⟩ :=
    render_notes registry hstorable h.holds.encoded_eq settings skipFormats fields out
  rw [h.take_fieldStarts_eq hfields hsplit] at hnoted
  have hbegin : ∀ shown rest, entries = shown ++ rest → (passOver shown false).fitted =
      (writeValues (r.context registry settings) settings.truncatedSuffix skipFormats shown out).2 :=
    fun shown rest heq => (r.render_holding registry
      (fun s hs => hstorable s (heq ▸ List.mem_append_left rest hs)) false settings skipFormats
      out).1
  refine ⟨?_, ⟨before, after, hsplit, hnoted, ?_, ?_, ?_, ?_⟩,
    r.render_recycled registry settings skipFormats hfields out,
    r.renderText_eq registry settings skipFormats fields out⟩
  · obtain ⟨hfitted', hout'⟩ := r.render_holding registry
      (fun s hs => hstorable s (List.mem_filter.1 hs).1) marked settings skipFormats out
    rw [writeValues_filter] at hfitted' hout'
    exact ⟨hout.trans hout'.symm, hfitted.trans hfitted'.symm⟩
  · rw [hnoted]
    exact pairwise_fieldStarts 0 before
  · rw [hbegin before after hsplit]
    exact hbefore
  · intro hfit
    exact hend (hfitted.symm.trans hfit) hshown
  · intro hfull
    obtain ⟨s, rest, rfl, hmisfit⟩ := hstop (hfitted.symm.trans hfull)
    refine ⟨s, rest, rfl, ?_⟩
    rw [hbegin (before ++ [s]) rest (by rw [hsplit, List.append_assoc]; rfl)]
    exact hmisfit

/-- The list comes from a pass that had room for the first text only. -/
theorem run_partition_used_list :
    let ops : List Operation := [.reset none .info .epoch "main",
      .add (.value (.text "a") none), .add (.field "k" (.integer .uint8 1)),
      .add (.value (.text "b") none), .add (.field "n" .null)]
    let r := (create (Segment.zeroed 64) 8 0).run ops
    let used := (r.render Registry.empty {} false {} (Output.bounded utf8 1)).fields
    let pass := r.render Registry.empty {} false used (Output.bounded utf8 2)
    let units : Array UInt8 := pass.out.units
    used.offsets.toList = [2] ∧ pass.fields.offsets.toList = [2, 8] ∧
      units.toList = Utf8.bytes "ab" ∧
      pass = r.render Registry.empty {} false {} (Output.bounded utf8 2) ∧
      r.renderText Registry.empty {} false (Output.bounded utf8 2) = (pass.out, pass.fitted) := by
  intro ops r used pass units
  have hreadable : ∀ a, Operation.add a ∈ ops → a.isReadable = true := by
    intro a ha
    simp only [ops, List.mem_cons, Operation.add.injEq, reduceCtorEq, List.not_mem_nil, false_or,
      or_false] at ha
    rcases ha with rfl | rfl | rfl | rfl <;> rfl
  have hused : used.Recycled := .pass r Registry.empty {} false (Output.bounded utf8 1) .new
  obtain ⟨kept, part, marked, _, h⟩ := run_partition (Segment.zeroed 64) 8 0 ops Registry.empty
    (by decide) hreadable
  obtain ⟨_, _, hnew, htext⟩ := h utf8 {} false used (Output.bounded utf8 2) hused
  exact ⟨by decide, by decide, by decide, hnew, htext⟩

end Record
end Logbook
