import Logbook.Proofs.Render.Block
set_option autoImplicit false

/-!
# Copied lists of fields

A pass writes the same whatever list it is given, and notes the first of the fields that it comes
to, as many as the list has room for. A list keeps the room that it was made with, which is enough
for every record, until it is copied: a copy has room for as many offsets as its original held just
then, and the block lacks the fields beyond.
-/
namespace Logbook

open Record Render Text

namespace Render

/-! ## The room of a list -/

namespace FieldList

inductive Use where
  | clear
  | copy
  | pass {e : Encoding} (r : Record) (registry : Registry) (settings : Settings)
      (skipFormats : Bool) (out : Output e)

/-- The list to go on with, which is the copy if one is made. -/
def use (fields : FieldList) : Use → FieldList
  | .clear => fields.clear
  | .copy => fields.copy
  | .pass r registry settings skipFormats out =>
    (r.render registry settings skipFormats fields out).fields

def used (room : Nat) (uses : List Use) : FieldList := uses.foldl use { capacity := room }

end FieldList

theorem exists_fields_walk {e : Encoding} (ctx : Context) (suffix : String) (skipFormats : Bool)
    (fuel position : Nat) (data : List UInt8) (out : Output e) :
    ∃ offsets : List Nat, ∀ fields,
      (walk ctx suffix skipFormats fuel position data out fields).fields =
        offsets.foldl FieldList.push fields := by
  induction fuel generalizing position data out with
  | zero => exact ⟨[], fun _ => rfl⟩
  | succ fuel ih =>
    simp only [walk]
    generalize Entry.take? data = taken
    cases taken with
    | none => exact ⟨[], fun _ => rfl⟩
    | some taken =>
      obtain ⟨entry, rest⟩ := taken
      cases entry with
      | cut => exact ⟨[], fun _ => rfl⟩
      | field =>
        obtain ⟨offsets, hoffsets⟩ := ih (position + (data.length - rest.length)) rest out
        exact ⟨position :: offsets, fun fields => hoffsets (fields.push position)⟩
      | value format payload =>
        simp only
        generalize (present ctx (formatAt ctx skipFormats format) payload).write .plain out = written
        obtain ⟨after, progress⟩ := written
        cases progress with
        | done => exact ih _ _ _
        | unreadable => exact ⟨[], fun _ => rfl⟩
        | full => exact ⟨[], fun _ => rfl⟩

end Render

namespace Record

variable {e : Encoding} (r : Record) (registry : Registry) (settings : Settings)
  (skipFormats : Bool) (out : Output e)

theorem capacity_fields_render (fields : FieldList) :
    (r.render registry settings skipFormats fields out).fields.capacity = fields.capacity := by
  rw [fields_render, capacity_walk]
  rfl

/-- A list has the first of the fields that a pass comes to, as many as it has room for. -/
theorem exists_toList_fields_render : ∃ offsets : List Nat, ∀ fields,
    (r.render registry settings skipFormats fields out).fields.offsets.toList =
      offsets.take fields.capacity := by
  obtain ⟨offsets, hoffsets⟩ := exists_fields_walk (r.context registry settings)
    settings.truncatedSuffix skipFormats r.encoded.length 0 r.encoded out
  refine ⟨offsets, fun fields => ?_⟩
  rw [fields_render, hoffsets, FieldList.toList_foldl_push]
  rfl

end Record

namespace Render.FieldList

variable {fields : FieldList} {uses : List Use}

theorem capacity_use_of_ne {u : Use} (h : u ≠ .copy) :
    (fields.use u).capacity = fields.capacity := by
  cases u with
  | clear => rfl
  | copy => exact absurd rfl h
  | pass r registry settings skipFormats out =>
    exact r.capacity_fields_render registry settings skipFormats out fields

theorem capacity_foldl_use_eq (h : Use.copy ∉ uses) :
    (uses.foldl use fields).capacity = fields.capacity := by
  induction uses generalizing fields with
  | nil => rfl
  | cons u rest ih =>
    obtain ⟨hu, hrest⟩ := not_or.1 (fun hmem => h (List.mem_cons.2 hmem))
    exact (ih hrest).trans (capacity_use_of_ne fun heq => hu heq.symm)

/-- The last copy decides the room. -/
theorem capacity_used_append_copy (room : Nat) (before : List Use) {after : List Use}
    (h : Use.copy ∉ after) :
    (used room (before ++ .copy :: after)).capacity = (used room before).length := by
  rw [used, List.foldl_append, List.foldl_cons, capacity_foldl_use_eq h]
  rfl

end Render.FieldList

/-! ## The block of the fields that have room -/

namespace Render

theorem joined_append (a b : List (List Char)) :
    joined false (a ++ b) = joined false a ++ joined false b := by
  induction a with
  | nil => rfl
  | cons text rest ih =>
    rw [List.cons_append, joined, joined, ih]
    simp only [List.append_assoc]

theorem length_joined_pos {texts : List (List Char)} (h : texts ≠ []) :
    0 < (joined false texts).length := by
  obtain ⟨text, rest, rfl⟩ := List.exists_cons_of_ne_nil h
  rw [joined, List.append_assoc, List.length_append]
  exact Nat.add_pos_left (by decide) _

end Render

namespace Record

open Addition

def membersText (registry : Registry) (settings : Settings) (members : List (String × Value)) :
    List Char :=
  if members.isEmpty then []
  else settings.separator.toList ++ ("\x7b ".toList ++
    joined true (members.map (memberText registry settings.nullDisplay)) ++ " \x7d".toList)

theorem length_membersText_take_lt (registry : Registry) (settings : Settings)
    {members : List (String × Value)} {count : Nat} (h : count < members.length) :
    (membersText registry settings (members.take count)).length <
      (membersText registry settings members).length := by
  cases members with
  | nil => exact absurd h (Nat.not_lt_zero _)
  | cons member rest =>
    cases count with
    | zero =>
      have hopen : 0 < "\x7b ".toList.length := by decide
      simp only [membersText, List.take_zero, List.isEmpty_nil, List.isEmpty_cons, List.length_nil,
        List.length_append, Bool.false_eq_true, ↓reduceIte]
      omega
    | succ count =>
      have hlost : (rest.drop count).map (memberText registry settings.nullDisplay) ≠ [] := by
        rw [ne_eq, List.map_eq_nil_iff, List.drop_eq_nil_iff, Nat.not_le]
        exact Nat.lt_of_succ_lt_succ h
      have hpos := length_joined_pos hlost
      have hwhole : joined false (rest.map (memberText registry settings.nullDisplay)) =
          joined false ((rest.take count).map (memberText registry settings.nullDisplay)) ++
            joined false ((rest.drop count).map (memberText registry settings.nullDisplay)) := by
        rw [← joined_append, ← List.map_append, List.take_append_drop]
      simp only [membersText, List.take_succ_cons, List.isEmpty_cons, List.map_cons, joined, hwhole,
        List.length_append, Bool.false_eq_true, ↓reduceIte]
      omega

theorem fields_append (a b : List Addition) : fields (a ++ b) = fields a ++ fields b := by
  induction a with
  | nil => rfl
  | cons first rest ih =>
    cases first with
    | value v format => exact ih
    | field key v => exact congrArg ((key, v) :: ·) ih

theorem exists_take_fieldStarts (count : Nat) (seen : List Addition) :
    ∃ first, first <+: seen ∧
      (fieldStarts 0 (entries 0 seen)).take count = fieldStarts 0 (entries 0 first) ∧
      fields first = (fields seen).take count := by
  obtain ⟨before, after, hsplit, htake⟩ := take_fieldStarts count 0 (entries 0 seen)
  obtain ⟨first, ⟨rest, rfl⟩, rfl⟩ := exists_entries_eq hsplit
  refine ⟨first, ⟨rest, rfl⟩, htake, ?_⟩
  have hlength : (fields first).length = min count (fields (first ++ rest)).length := by
    rw [← length_fieldStarts_eq 0 0 first, ← htake, List.length_take, length_fieldStarts_eq]
  have hprefix : fields first <+: fields (first ++ rest) := by
    rw [fields_append]
    exact List.prefix_append _ _
  have hfirst := List.prefix_iff_eq_take.1 hprefix
  rw [hlength] at hfirst
  exact hfirst.trans (List.take_eq_take_iff.2 (by omega))

variable {r : Record} {asked kept seen unseen : List Addition} {part : Option Stored}
  {marked : Bool}

theorem Keeps.length_fields_le (h : r.Keeps asked (seen ++ unseen) part marked) :
    (fields seen).length ≤ maxStringCapacity := by
  have hall := h.length_fieldStarts
  rw [fieldStarts_append, List.length_append, length_fieldStarts_eq, fields_append,
    List.length_append] at hall
  omega

/-- The fields that a pass comes to are those of the first additions, whatever list notes them. -/
theorem Keeps.exists_toList_fields_render {e : Encoding} (h : r.Keeps asked kept part marked)
    (hsize : r.segment.size < 0x1_0000_0000) (registry : Registry) (settings : Settings)
    (skipFormats : Bool) (out : Output e) :
    ∃ seen, seen <+: kept ∧ ∀ list,
      (r.render registry settings skipFormats list out).fields.offsets.toList =
        (fieldStarts 0 (entries 0 seen)).take list.capacity := by
  obtain ⟨offsets, hoffsets⟩ :=
    r.exists_toList_fields_render registry settings skipFormats out
  have hstorable := fun s hs => h.holds.storable_of_size_lt hsize (s := s) hs
  -- a list that has room for them all shows what they are
  obtain ⟨before, after, hsplit, hnoted, -⟩ := render_notes registry hstorable
    h.holds.encoded_eq settings skipFormats { capacity := offsets.length } out
  obtain ⟨first, rest, hbefore, htake⟩ := take_fieldStarts offsets.length 0 before
  rw [hbefore, List.append_assoc] at hsplit
  obtain ⟨seen, hseen, hstarts⟩ := h.exists_fieldStarts_eq hsplit
  rw [hoffsets, List.take_length, htake, hstarts] at hnoted
  exact ⟨seen, hseen, fun list => by rw [hoffsets, hnoted]⟩

theorem Keeps.fieldsText_eq_membersText (h : r.Keeps asked (seen ++ unseen) part marked)
    (hsize : r.segment.size < 0x1_0000_0000) {noted : FieldList}
    (hnoted : noted.offsets.toList = fieldStarts 0 (entries 0 seen))
    (registry : Registry) (settings : Settings) :
    r.fieldsText registry settings noted = membersText registry settings (fields seen) := by
  by_cases hempty : noted.offsets = #[]
  · have hnone : fields seen = [] := by
      rw [← List.length_eq_zero_iff, ← length_fieldStarts_eq 0 0 seen, ← hnoted, hempty]
      rfl
    rw [fieldsText, hempty, hnone]
    rfl
  · obtain ⟨hmembers, htext⟩ := h.fieldsText_eq hsize hnoted hempty registry settings
    rw [htext, membersText, if_neg (by rwa [List.isEmpty_iff])]

theorem Keeps.fieldsText_take (h : r.Keeps asked (seen ++ unseen) part marked)
    (hsize : r.segment.size < 0x1_0000_0000) {noted : FieldList} {count : Nat}
    (hnoted : noted.offsets.toList = (fieldStarts 0 (entries 0 seen)).take count)
    (registry : Registry) (settings : Settings) :
    r.fieldsText registry settings noted =
      membersText registry settings ((fields seen).take count) := by
  obtain ⟨first, ⟨rest, rfl⟩, htake, hfields⟩ := exists_take_fieldStarts count seen
  rw [List.append_assoc] at h
  rw [← hfields]
  exact h.fieldsText_eq_membersText hsize (hnoted.trans htake) registry settings

theorem add_unlimited_injective {a b : List Char}
    (h : (Output.unlimited utf8).add a = (Output.unlimited utf8).add b) : a = b := by
  have hunits := congrArg (fun out : Output utf8 => out.units.toList) h
  simp only [Output.toList_units_add] at hunits
  rw [← Utf8.validPrefix_encodeChars a, ← Utf8.validPrefix_encodeChars b,
    List.append_cancel_left hunits]

theorem fieldsText_eq_of_renderFields_eq {registry : Registry} {settings : Settings}
    {a b : FieldList} (hregistry : registry.All Script.Sound)
    (h : r.renderFields registry settings a (Output.unlimited utf8) =
      r.renderFields registry settings b (Output.unlimited utf8)) :
    r.fieldsText registry settings a = r.fieldsText registry settings b := by
  rw [renderFields_of_hasRoom hregistry (Output.hasRoom_unlimited rfl _),
    renderFields_of_hasRoom hregistry (Output.hasRoom_unlimited rfl _)] at h
  exact add_unlimited_injective (Prod.mk.inj h).1

theorem length_le_of_renderFields_eq {registry : Registry} {settings : Settings}
    {a b : FieldList} {members : List (String × Value)} {count : Nat}
    (hregistry : registry.All Script.Sound)
    (ha : r.fieldsText registry settings a = membersText registry settings (members.take count))
    (hb : r.fieldsText registry settings b = membersText registry settings members)
    (h : r.renderFields registry settings a (Output.unlimited utf8) =
      r.renderFields registry settings b (Output.unlimited utf8)) :
    members.length ≤ count := by
  have htext := fieldsText_eq_of_renderFields_eq hregistry h
  rw [ha, hb] at htext
  refine Nat.le_of_not_lt fun hlack => ?_
  have hlonger := length_membersText_take_lt registry settings hlack
  rw [htext] at hlonger
  exact Nat.lt_irrefl _ hlonger

/-- Whatever was done to a record and to a list, a pass with the list writes what it would write
with a new one and notes the first of the fields that a new one would have, as many as the list has
room for: all of them unless it was copied when it held fewer, and then the block lacks the rest. -/
theorem run_copies (segment : Segment) (capacity serial : Nat) (ops : List Operation)
    (registry : Registry) (hsize : segment.size < 0x1_0000_0000) :
    let r := (create segment capacity serial).run ops
    ∃ kept part marked, r.Keeps (Operation.lastAdded ops) kept part marked ∧
      ∀ (room : Nat) (uses : List FieldList.Use) (e : Encoding) (collecting : Settings)
        (skipFormats : Bool) (shown : Output e), maxStringCapacity ≤ room →
        let list := FieldList.used room uses
        let pass := r.render registry collecting skipFormats list shown
        let fresh := r.render registry collecting skipFormats {} shown
        (pass.out = fresh.out ∧ pass.fitted = fresh.fitted) ∧
        pass.fields.offsets.toList = fresh.fields.offsets.toList.take list.capacity ∧
        (pass.fields.offsets = fresh.fields.offsets ↔ fresh.fields.length ≤ list.capacity) ∧
        (.copy ∉ uses → pass.fields.offsets = fresh.fields.offsets) ∧
        (∀ before after, uses = before ++ .copy :: after → .copy ∉ after →
          list.capacity = (FieldList.used room before).length) ∧
        ∃ seen, seen <+: kept ∧ fresh.fields.offsets.toList = fieldStarts 0 (entries 0 seen) ∧
          (registry.All Script.Sound → ∀ settings : Settings,
            (∀ (e : Encoding) (out : Output e),
              let text := membersText registry settings ((fields seen).take list.capacity)
              let block := r.renderFields registry settings pass.fields out
              (out.hasRoom (e.encodeChars text).length = true → block = (out.add text, true)) ∧
              (out.hasRoom 0 = true → out.hasRoom (e.encodeChars text).length = false →
                block = (out.markCut settings.truncatedSuffix, false))) ∧
            ((∀ (e : Encoding) (out : Output e),
              r.renderFields registry settings pass.fields out =
                r.renderFields registry settings fresh.fields out) ↔
              fresh.fields.length ≤ list.capacity)) := by
  intro r
  obtain ⟨kept, part, marked, h⟩ := keeps_run segment capacity serial ops
  refine ⟨kept, part, marked, h, fun room uses e collecting skipFormats shown hmade => ?_⟩
  intro list pass fresh
  have hr : r.segment.size < 0x1_0000_0000 := size_run_lt hsize capacity serial ops
  obtain ⟨seen, ⟨unseen, rfl⟩, hnoted⟩ :=
    h.exists_toList_fields_render hr registry collecting skipFormats shown
  have hall := h.length_fields_le
  rw [← length_fieldStarts_eq 0 0 seen] at hall
  have hwhole : fresh.fields.offsets.toList = fieldStarts 0 (entries 0 seen) :=
    (hnoted {}).trans (List.take_of_length_le hall)
  have hpass : pass.fields.offsets.toList = fresh.fields.offsets.toList.take list.capacity := by
    rw [hwhole]
    exact hnoted list
  have hlength : fresh.fields.length = (fieldStarts 0 (entries 0 seen)).length := by
    rw [← hwhole, Array.length_toList]
    rfl
  have hequal : pass.fields.offsets = fresh.fields.offsets ↔
      fresh.fields.length ≤ list.capacity := by
    rw [← Array.toList_inj, hpass, FieldList.length, ← Array.length_toList]
    refine ⟨fun heq => ?_, List.take_of_length_le⟩
    rw [← heq]
    exact List.length_take_le _ _
  have hwritten := (r.renderText_eq registry collecting skipFormats list shown).symm.trans
    (r.renderText_eq registry collecting skipFormats {} shown)
  refine ⟨Prod.mk.inj hwritten, hpass, hequal, fun hcopy => hequal.2 ?_,
    fun before after huses hcopy => ?_, seen, ⟨unseen, rfl⟩, hwhole, fun hregistry settings => ?_⟩
  · have hroom : list.capacity = room := FieldList.capacity_foldl_use_eq hcopy
    rw [hroom, hlength]
    exact Nat.le_trans hall hmade
  · simp only [list, huses]
    exact FieldList.capacity_used_append_copy room before hcopy
  have hfresh := h.fieldsText_eq_membersText hr hwhole registry settings
  have hshort := h.fieldsText_take hr (hnoted list) registry settings
  refine ⟨fun e out => ?_, fun hsame => ?_, fun hroom e out => ?_⟩
  · rw [← hshort]
    exact ⟨renderFields_of_hasRoom hregistry, renderFields_of_not_hasRoom hregistry⟩
  · rw [hlength, length_fieldStarts_eq]
    exact length_le_of_renderFields_eq hregistry hshort hfresh
      (hsame utf8 (Output.unlimited utf8))
  · rw [renderFields, renderFields, hequal.2 hroom]

/-- The list is copied after a pass over a record with one field, cleared, and used for a record
with two, of which a formatter writes the first. -/
theorem run_copies_one_of_two :
    let registry := Registry.empty.registerFormatter 7 fun _ _ => Script.writeAll ["<", ">"]
    let record := fun fields : List (String × Value) =>
      (create (Segment.zeroed 64) 4 0).run (.reset none .info .epoch "main" ::
        fields.map fun field => .add (.field field.1 field.2))
    let out := Output.unlimited utf8
    let first : FieldList.Use := .pass (record [("a", .integer .uint8 1)]) .empty {} false out
    let list := FieldList.used maxStringCapacity [first, .copy, .clear]
    let r := record [("b", .unmanaged ⟨7, 0, [], nofun⟩), ("c", .bool true)]
    let pass := r.render registry {} false list out
    let fresh := r.render registry {} false {} out
    let units : Array UInt8 := (r.renderFields registry {} pass.fields out).1.units
    registry.All Script.Sound ∧
      pass.fields.offsets.toList = fresh.fields.offsets.toList.take 1 ∧
      (¬ ∀ (e : Encoding) (out : Output e),
        r.renderFields registry {} pass.fields out = r.renderFields registry {} fresh.fields out) ∧
      units.toList = Utf8.bytes " ~~ \x7b \"b\": \"<>\" \x7d" := by
  intro registry record out first list r pass fresh units
  have hregistry : registry.All Script.Sound :=
    Registry.All.registerFormatter nofun 7 fun _ _ => .inl (Script.faithful_writeAll _)
  obtain ⟨_, _, _, _, h⟩ := run_copies (Segment.zeroed 64) 4 0
    [.reset none .info .epoch "main", .add (.field "b" (.unmanaged ⟨7, 0, [], nofun⟩)),
      .add (.field "c" (.bool true))] registry (by decide)
  obtain ⟨_, hpass, _, _, hcopied, _, _, _, hblocks⟩ :=
    h maxStringCapacity [first, .copy, .clear] utf8 {} false out (Nat.le_refl _)
  have hroom : list.capacity = 1 := hcopied [first] [.clear] rfl nofun
  rw [hroom] at hpass hblocks
  have hlack : ¬ fresh.fields.length ≤ 1 := by decide
  exact ⟨hregistry, hpass, fun hsame => hlack ((hblocks hregistry {}).2.1 hsame), by decide⟩

/-- A copy of a new list notes no field. -/
theorem copy_of_new_lacks_field :
    let r := (create (Segment.zeroed 64) 4 0).run [.reset none .info .epoch "main",
      .add (.field "k" (.integer .uint8 7))]
    let noted := fun list =>
      (r.render .empty {} false list (Output.unlimited utf8)).fields
    let units : FieldList → Array UInt8 := fun list =>
      (r.renderFields .empty {} (noted list) (Output.unlimited utf8)).1.units
    let copy := FieldList.used maxStringCapacity [.copy]
    r.truncated = false ∧ (noted {}).offsets = #[0] ∧ (noted copy).offsets = #[] ∧
      (units {}).toList = Utf8.bytes " ~~ \x7b \"k\": 7 \x7d" ∧ (units copy).toList = [] := by
  decide

end Record
end Logbook
