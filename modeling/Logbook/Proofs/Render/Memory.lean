import Logbook.Proofs.Memory
import Logbook.Proofs.Record.Invariant
import Logbook.Proofs.Record.Skip
import Logbook.Proofs.Render.Partition
import Logbook.Render.Fields
set_option autoImplicit false

/-!
# Rendering in memory

Rendering, written out on memory. It takes marks before what may have to be taken back, cuts the
bytes in use out of the segment, and its walk has to come to the end of the bytes within as many
steps as there are bytes. Formatters are any scripts. Whatever they do, the work on memory that
carries an output comes to the end to which rendering on the output comes.
-/
namespace Logbook

open Record Render Text

variable {e : Encoding}

def Script.run? (form : Form) : Script → Memory.Work e Ending
  | .write text next => do
    let fitted ← Memory.put? form text
    (next fitted).run? form
  | .finish true => pure .complete
  | .finish false => pure .incomplete
  | .abort => pure .aborted

namespace Render

open Memory

def writeText? (form : Form) (text : String) : Work e Progress := do
  return .ofFit (← put? form text)

def Presentation.write? (form : Form) : Presentation → Work e Progress
  | .text s => writeText? form s
  | .raw none bytes _ => writeText? form (hexDump bytes)
  | .raw (some formatter) bytes format => do
    let mark ← length
    match ← (formatter bytes format).run? form with
    | .complete => return .done
    | .incomplete => return .full
    | .aborted =>
      rewind? mark
      writeText? form (hexDump bytes)
  | .unreadable => return .unreadable

/-- The walk, with a list for the fields or without one. Bytes that are left when the fuel is used
up would be read for ever. -/
def walk? (ctx : Context) (suffix : String) (skipFormats : Bool) :
    (fuel : Nat) → (position : Nat) → (data : List UInt8) → Option FieldList →
      Work e (Option FieldList × Bool)
  | _, _, [], list => pure (list, true)
  | 0, _, _ :: _, _ => failure
  | fuel + 1, position, byte :: bytes, list => do
    let data := byte :: bytes
    let mark ← length
    match Entry.take? data with
    | none => return (list, true)
    | some (.cut, _) => return (list, true)
    | some (.field, rest) =>
      walk? ctx suffix skipFormats fuel (position + (data.length - rest.length)) rest
        (list.map fun fields => fields.push position)
    | some (.value format payload, rest) =>
      match ← (present ctx (formatAt ctx skipFormats format) payload).write? .plain with
      | .done =>
        walk? ctx suffix skipFormats fuel (position + (data.length - rest.length)) rest list
      | .unreadable => return (list, true)
      | .full =>
        rewind? mark
        markCut? suffix
        return (list, false)

def andThen? (first next : Work e Bool) : Work e Bool := do
  if ← first then next else return false

def writeValue? (ctx : Context) (form : Form) (field : Field) : Work e Bool :=
  match Payload.take? field.tag field.data with
  | none => pure true
  | some (payload, _) => do
    match ← (present ctx none payload).write? form with
    | .full => return false
    | _ => return true

def writeField? (ctx : Context) (field : Field) : Work e Bool :=
  let keyed := andThen? (andThen? (write? "\"") (writeQuoted? field.key)) (write? "\": ")
  match fieldFormOf field.tag field.data with
  | .null => andThen? keyed (write? "null")
  | .bare => andThen? keyed (writeValue? ctx .plain field)
  | .quoted =>
    andThen? (andThen? (andThen? keyed (write? "\"")) (writeValue? ctx .quoted field)) (write? "\"")

def writeMembers? (ctx : Context) (first : Bool) : List Field → Work e Bool
  | [] => pure true
  | field :: rest =>
    let lead := if first then pure true else write? ", "
    andThen? (andThen? lead (writeField? ctx field)) (writeMembers? ctx false rest)

def writeBlock? (ctx : Context) (separator : String) (fields : List Field) : Work e Bool :=
  andThen? (andThen? (andThen? (write? separator) (write? "\x7b ")) (writeMembers? ctx true fields))
    (write? " \x7d")

end Render

namespace Record

open Memory

def encoded? (r : Record) : Option (List UInt8) :=
  if r.position ≤ r.segment.size then some r.encoded else none

def render? (r : Record) (registry : Registry) (settings : Settings) (skipFormats : Bool)
    (list : Option FieldList) : Work e (Option FieldList × Bool) := do
  let data ← (r.encoded? : Option (List UInt8))
  let (list, fitted) ← walk? (r.context registry settings) settings.truncatedSuffix skipFormats
    data.length 0 data (list.map FieldList.clear)
  if fitted && r.truncated then markCut? settings.truncatedSuffix
  return (list, fitted)

def renderFields? (r : Record) (registry : Registry) (settings : Settings) (fields : FieldList) :
    Work e Bool := do
  if fields.offsets.isEmpty then return true
  let mark ← length
  let data ← (r.encoded? : Option (List UInt8))
  let found := fields.offsets.toList.filterMap (fieldAt? r.strings data)
  if ← writeBlock? (r.context registry settings) settings.separator found then return true
  rewind? mark
  markCut? settings.truncatedSuffix
  return false

end Record

namespace Memory

/-- Work that only adds characters, and goes through wherever a write on the output does. -/
structure Adds {α : Type} (work : Work e α) (write : Output e → Output e × α) : Prop where
  leads : ∀ {m : Memory e} {out : Output e}, m.Carries out → Leads (work m) (write out)
  appends : ∀ out : Output e, ∃ part, (write out).1 = out.add part

section Adds

variable {α β : Type} {work : Work e α} {write : Output e → Output e × α}

theorem adds_pure (a : α) : Adds (pure a : Work e α) (fun out => (out, a)) where
  leads h := leads_pure h a
  appends out := ⟨[], out.add_nil.symm⟩

theorem adds_put (form : Form) (text : String) :
    Adds (put? (e := e) form text) (fun out => out.put form text) where
  leads h := leads_put h form text
  appends := (Output.writes_put form text).appends

theorem adds_write (text : String) : Adds (write? (e := e) text) (fun out => out.write text) :=
  adds_put .plain text

theorem Adds.bind (h : Adds work write) {next : α → Work e β}
    {writeNext : α → Output e → Output e × β} (hnext : ∀ a, Adds (next a) (writeNext a)) :
    Adds (work >>= next) (fun out => writeNext (write out).2 (write out).1) where
  leads hm := (h.leads hm).bind fun _ h' => (hnext _).leads h'
  appends out := by
    obtain ⟨part, hpart⟩ := h.appends out
    obtain ⟨more, hmore⟩ := (hnext (write out).2).appends (write out).1
    exact ⟨part ++ more, by rw [hmore, hpart, Output.add_add]⟩

theorem Adds.andThen {first next : Work e Bool} {writeFirst writeNext : Output e → Output e × Bool}
    (h : Adds first writeFirst) (hnext : Adds next writeNext) :
    Adds (andThen? first next) (fun out => Render.andThen (writeFirst out) writeNext) := by
  have hcontinue : ∀ fitted : Bool, Adds (if fitted then next else pure false)
      (fun out => if fitted then writeNext out else (out, false)) := by
    intro fitted
    cases fitted with
    | true => exact hnext
    | false => exact adds_pure false
  have heq : ∀ out, Render.andThen (writeFirst out) writeNext =
      if (writeFirst out).2 then writeNext (writeFirst out).1 else ((writeFirst out).1, false) := by
    intro out
    generalize writeFirst out = written
    obtain ⟨after, fitted⟩ := written
    cases fitted <;> rfl
  rw [funext heq]
  exact h.bind hcontinue

theorem Adds.rewind_eq (h : Adds work write) (out : Output e) :
    (write out).1.rewind out.length = out := by
  obtain ⟨part, hpart⟩ := h.appends out
  rw [hpart]
  exact out.rewind_add part

theorem Adds.leads_rewind (h : Adds work write) (he : e.Lawful) {out : Output e}
    (hwhole : e.WellFormed out.units.toList) {m : Memory e} (hm : m.Carries (write out).1) :
    Leads (rewind? out.length m) (out, ()) := by
  obtain ⟨part, hpart⟩ := h.appends out
  rw [hpart] at hm
  exact Memory.leads_rewind he hm hwhole

end Adds

section Writers

variable (he : e.Lawful)

theorem adds_run (form : Form) (s : Script) : Adds (s.run? (e := e) form) (s.run form) where
  appends := s.run_appends form
  leads := by
    induction s with
    | write text next ih =>
      intro m out h
      rw [Script.run?, Script.run]
      have hput := leads_put h form text
      generalize out.put form text = written at hput
      obtain ⟨after, fitted⟩ := written
      exact hput.bind fun m' h' => ih fitted h'
    | finish complete =>
      intro m out h
      cases complete with
      | true => exact leads_pure h Ending.complete
      | false => exact leads_pure h Ending.incomplete
    | abort =>
      intro m out h
      exact leads_pure h Ending.aborted

theorem adds_writeText (form : Form) (text : String) :
    Adds (writeText? (e := e) form text) (writeText form text) :=
  (adds_put form text).bind fun fitted => adds_pure (Progress.ofFit fitted)

include he in
theorem adds_presentation (form : Form) (p : Presentation) :
    Adds (p.write? (e := e) form) (fun out => p.write form out) where
  appends := p.write_appends form
  leads := by
    intro m out h
    cases p with
    | text s => exact (adds_writeText form s).leads h
    | raw formatter bytes format =>
      cases formatter with
      | none => exact (adds_writeText form (hexDump bytes)).leads h
      | some formatter =>
        rw [Presentation.write?, Presentation.write]
        refine (leads_length h).bind fun m₁ h₁ => ?_
        have hrun := adds_run (e := e) form (formatter bytes format)
        have hleads := hrun.leads h₁
        have hback := hrun.rewind_eq out
        have hrewind := fun m' => hrun.leads_rewind he h.whole (m := m')
        generalize (formatter bytes format).run form out = ran at hleads hback hrewind
        obtain ⟨after, ending⟩ := ran
        refine hleads.bind fun m₂ h₂ => ?_
        cases ending with
        | complete => exact leads_pure h₂ Progress.done
        | incomplete => exact leads_pure h₂ Progress.full
        | aborted =>
          simp only [hback]
          exact (hrewind m₂ h₂).bind fun m₃ h₃ => (adds_writeText form (hexDump bytes)).leads h₃
    | unreadable => exact leads_pure h Progress.unreadable

variable (ctx : Context)

include he in
theorem adds_writeValue (form : Form) (field : Field) :
    Adds (writeValue? (e := e) ctx form field) (writeValue ctx form field) := by
  cases htake : Payload.take? field.tag field.data with
  | none =>
    have hwork : writeValue? (e := e) ctx form field = pure true := by rw [writeValue?, htake]
    have hwrite : writeValue (e := e) ctx form field = fun out => (out, true) := by
      funext out
      rw [writeValue, htake]
    rw [hwork, hwrite]
    exact adds_pure true
  | some taken =>
    obtain ⟨payload, rest⟩ := taken
    have hbind := (adds_presentation he form (present ctx none payload)).bind
      fun progress => adds_pure (e := e) (progress != .full)
    have hwork : writeValue? (e := e) ctx form field =
        ((present ctx none payload).write? form >>= fun progress => pure (progress != .full)) := by
      rw [writeValue?, htake]
      refine congrArg (Bind.bind _) (funext fun progress => ?_)
      cases progress <;> rfl
    have hwrite : writeValue (e := e) ctx form field = fun out =>
        (((present ctx none payload).write form out).1,
          ((present ctx none payload).write form out).2 != .full) := by
      funext out
      simp only [writeValue, htake]
      generalize (present ctx none payload).write form out = written
      obtain ⟨after, progress⟩ := written
      cases progress <;> rfl
    rw [hwork, hwrite]
    exact hbind

include he in
theorem adds_writeField (field : Field) :
    Adds (writeField? (e := e) ctx field) (writeField ctx field) := by
  have hkeyed : Adds
      (andThen? (andThen? (write? (e := e) "\"") (writeQuoted? field.key)) (write? "\": "))
      (fun out => Render.andThen (Render.andThen (out.write "\"") (·.writeQuoted field.key))
        (·.write "\": ")) :=
    ((adds_write "\"").andThen (adds_put .quoted field.key)).andThen (adds_write "\": ")
  unfold writeField? writeField
  cases fieldFormOf field.tag field.data with
  | null => exact hkeyed.andThen (adds_write "null")
  | bare => exact hkeyed.andThen (adds_writeValue he ctx .plain field)
  | quoted =>
    exact ((hkeyed.andThen (adds_write "\"")).andThen
      (adds_writeValue he ctx .quoted field)).andThen (adds_write "\"")

include he in
theorem adds_writeMembers (first : Bool) (fields : List Field) :
    Adds (writeMembers? (e := e) ctx first fields) (writeMembers ctx first fields) := by
  induction fields generalizing first with
  | nil => exact adds_pure true
  | cons field rest ih =>
    have hfield := adds_writeField he ctx field
    cases first with
    | true => exact ((adds_pure true).andThen hfield).andThen (ih false)
    | false => exact ((adds_write ", ").andThen hfield).andThen (ih false)

include he in
theorem adds_writeBlock (separator : String) (fields : List Field) :
    Adds (writeBlock? (e := e) ctx separator fields) (writeBlock ctx separator fields) :=
  (((adds_write separator).andThen (adds_write "\x7b ")).andThen
    (adds_writeMembers he ctx true fields)).andThen (adds_write " \x7d")

end Writers

/-! ## Passes over a record -/

theorem map_const_map {list : Option FieldList} {fields : FieldList}
    (h : (list.map fun _ => fields) = list) (change : FieldList → FieldList) :
    ((list.map change).map fun _ => change fields) = list.map change := by
  cases list with
  | none => rfl
  | some noted =>
    obtain rfl : fields = noted := Option.some.inj h
    rfl

section Passes

variable (he : e.Lawful) {m : Memory e} {out : Output e}
include he

/-- The walk ends within as many steps as there are bytes, with a list for the fields or without
one. -/
theorem leads_walk (ctx : Context) (suffix : String) (skipFormats : Bool) {fuel : Nat}
    {data : List UInt8} (hfuel : data.length ≤ fuel) (position : Nat) {list : Option FieldList}
    {fields : FieldList} (hlist : (list.map fun _ => fields) = list) (h : m.Carries out) :
    Leads (walk? ctx suffix skipFormats fuel position data list m)
      ((walk ctx suffix skipFormats fuel position data out fields).out,
        (list.map fun _ => (walk ctx suffix skipFormats fuel position data out fields).fields,
          (walk ctx suffix skipFormats fuel position data out fields).fitted)) := by
  induction fuel generalizing position data list fields m out with
  | zero =>
    obtain rfl : data = [] := List.eq_nil_of_length_eq_zero (Nat.le_zero.1 hfuel)
    rw [walk?, walk, hlist]
    exact leads_pure h (list, true)
  | succ fuel ih =>
    cases data with
    | nil =>
      have hnone : Entry.take? [] = none := rfl
      rw [walk?, walk, hnone]
      simp only
      rw [hlist]
      exact leads_pure h (list, true)
    | cons byte bytes =>
      rw [walk?, walk]
      refine (leads_length h).bind fun m₁ h₁ => ?_
      cases htake : Entry.take? (byte :: bytes) with
      | none =>
        simp only
        rw [hlist]
        exact leads_pure h₁ (list, true)
      | some taken =>
        obtain ⟨entry, rest⟩ := taken
        have hlt := Entry.length_lt_of_take? htake
        have hrest : rest.length ≤ fuel := by omega
        cases entry with
        | cut =>
          simp only
          rw [hlist]
          exact leads_pure h₁ (list, true)
        | field =>
          have hpush := map_const_map hlist fun noted => noted.push position
          have hpass := ih hrest (position + ((byte :: bytes).length - rest.length)) hpush h₁
          rw [Option.map_map] at hpass
          exact hpass
        | value format payload =>
          simp only
          have hpresent := adds_presentation he .plain
            (present ctx (formatAt ctx skipFormats format) payload)
          have hleads := hpresent.leads h₁
          have hrewind := fun m' => hpresent.leads_rewind he h.whole (m := m')
          have hback := hpresent.rewind_eq out
          generalize (present ctx (formatAt ctx skipFormats format) payload).write .plain out =
            written at hleads hback hrewind
          obtain ⟨after, progress⟩ := written
          refine hleads.bind fun m₂ h₂ => ?_
          cases progress with
          | done => exact ih hrest _ hlist h₂
          | unreadable =>
            simp only
            rw [hlist]
            exact leads_pure h₂ (list, true)
          | full =>
            simp only [hback]
            refine (hrewind m₂ h₂).bind fun m₃ h₃ => ?_
            refine (leads_markCut he h₃ suffix).bind fun m₄ h₄ => ?_
            rw [hlist]
            exact leads_pure h₄ (list, false)

theorem leads_render {r : Record} (hr : r.position ≤ r.segment.size) (registry : Registry)
    (settings : Settings) (skipFormats : Bool) {list : Option FieldList} {fields : FieldList}
    (hlist : (list.map fun _ => fields) = list) (h : m.Carries out) :
    Leads (r.render? registry settings skipFormats list m)
      ((r.render registry settings skipFormats fields out).out,
        (list.map fun _ => (r.render registry settings skipFormats fields out).fields,
          (r.render registry settings skipFormats fields out).fitted)) := by
  rw [Record.render?, Record.encoded?, if_pos hr, Record.render]
  refine (leads_lift h r.encoded).bind fun m₁ h₁ => ?_
  have hwalk := leads_walk he (r.context registry settings) settings.truncatedSuffix skipFormats
    (Nat.le_refl r.encoded.length) 0 (map_const_map hlist FieldList.clear) h₁
  rw [Option.map_map] at hwalk
  refine hwalk.bind fun m' h' => ?_
  generalize walk (r.context registry settings) settings.truncatedSuffix skipFormats
    r.encoded.length 0 r.encoded out fields.clear = pass at h'
  cases hmark : pass.fitted && r.truncated with
  | true =>
    simp only [hmark, ↓reduceIte]
    exact (leads_markCut he h' settings.truncatedSuffix).bind fun m'' h'' => leads_pure h'' _
  | false =>
    simp only [hmark, Bool.false_eq_true, ↓reduceIte]
    exact leads_pure h' _

theorem leads_renderFields {r : Record} (hr : r.position ≤ r.segment.size) (registry : Registry)
    (settings : Settings) (fields : FieldList) (h : m.Carries out) :
    Leads (r.renderFields? registry settings fields m)
      (r.renderFields registry settings fields out) := by
  rw [Record.renderFields?, Record.renderFields]
  cases hempty : fields.offsets.isEmpty with
  | true => exact leads_pure h true
  | false =>
    simp only [Bool.false_eq_true, ↓reduceIte]
    refine (leads_length h).bind fun m₁ h₁ => ?_
    rw [Record.encoded?, if_pos hr]
    refine (leads_lift h₁ r.encoded).bind fun m₂ h₂ => ?_
    have hblock := adds_writeBlock he (r.context registry settings) settings.separator
      (fields.offsets.toList.filterMap (fieldAt? r.strings r.encoded))
    have hleads := hblock.leads h₂
    have hrewind := fun m' => hblock.leads_rewind he h.whole (m := m')
    have hback := hblock.rewind_eq out
    generalize writeBlock (r.context registry settings) settings.separator
      (fields.offsets.toList.filterMap (fieldAt? r.strings r.encoded)) out = written
      at hleads hrewind hback
    obtain ⟨after, fitted⟩ := written
    refine hleads.bind fun m₃ h₃ => ?_
    cases fitted with
    | true => exact leads_pure h₃ true
    | false =>
      simp only [hback]
      refine (hrewind m₃ h₃).bind fun m₄ h₄ => ?_
      exact (leads_markCut he h₄ settings.truncatedSuffix).bind fun m₅ h₅ => leads_pure h₅ false

end Passes
end Memory

/-! ## Passes keep the capacity -/

theorem Render.capacity_out_walk (ctx : Context) (suffix : String) (skipFormats : Bool)
    (fuel position : Nat) (data : List UInt8) (out : Output e) (fields : FieldList) :
    (walk ctx suffix skipFormats fuel position data out fields).out.capacity = out.capacity := by
  induction fuel generalizing position data out fields with
  | zero => rfl
  | succ fuel ih =>
    rw [walk]
    cases Entry.take? data with
    | none => rfl
    | some taken =>
      obtain ⟨entry, rest⟩ := taken
      cases entry with
      | cut => rfl
      | field => exact ih _ _ _ _
      | value format payload =>
        obtain ⟨part, hpart⟩ := (present ctx (formatAt ctx skipFormats format) payload).write_appends
          .plain out
        simp only
        generalize (present ctx (formatAt ctx skipFormats format) payload).write .plain out =
          written at hpart
        obtain ⟨after, progress⟩ := written
        obtain rfl : after = out.add part := hpart
        cases progress with
        | done => exact ih _ _ _ _
        | unreadable => rfl
        | full => exact Output.capacity_markCut _ suffix

namespace Record

theorem capacity_out_render (r : Record) (registry : Registry) (settings : Settings)
    (skipFormats : Bool) (fields : FieldList) (out : Output e) :
    (r.render registry settings skipFormats fields out).out.capacity = out.capacity := by
  have hwalk := capacity_out_walk (r.context registry settings) settings.truncatedSuffix skipFormats
    r.encoded.length 0 r.encoded out fields.clear
  rw [render]
  split
  · exact (Output.capacity_markCut _ _).trans hwalk
  · exact hwalk

theorem capacity_renderFields (he : e.Lawful) (r : Record) (registry : Registry)
    (settings : Settings) (fields : FieldList) (out : Output e) :
    (r.renderFields registry settings fields out).1.capacity = out.capacity := by
  obtain ⟨part, hpart⟩ := (Memory.adds_writeBlock he (r.context registry settings)
    settings.separator (fields.offsets.toList.filterMap (fieldAt? r.strings r.encoded))).appends out
  rw [renderFields]
  split
  · rfl
  · simp only
    generalize writeBlock (r.context registry settings) settings.separator
      (fields.offsets.toList.filterMap (fieldAt? r.strings r.encoded)) out = written at hpart
    obtain ⟨after, fitted⟩ := written
    obtain rfl : after = out.add part := hpart
    cases fitted with
    | true => rfl
    | false => exact Output.capacity_markCut _ _

end Record

end Logbook
