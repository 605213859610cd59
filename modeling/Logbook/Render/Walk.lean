import Logbook.Render.Presentation
import Logbook.Render.FieldList
import Logbook.Settings
set_option autoImplicit false

/-!
# The text of a record

Rendering walks over the entries in order and writes each value. A value that does not fit is taken
back, the suffix marks the cut and the walk ends; so it does, without a suffix, at bytes that stand
for nothing. Fields are not part of the text: where one starts is noted in a list. A record that was
cut when it was filled gets the suffix after its last value.

A pass breaks off at a decimal that is too long for its format. `tryWalk` and `tryRender` say so;
where they give something, it is what `walk` and `render` give, which pay no heed to the length.
-/
namespace Logbook
namespace Render

open Record

variable {e : Text.Encoding}

/-- What a pass leaves behind; `fitted` tells whether the output had room for all it came to. -/
structure Pass (e : Text.Encoding) where
  out : Output e
  fields : FieldList
  fitted : Bool

def formatAt (ctx : Context) (skipFormats : Bool) (index : Option UInt8) : Option String :=
  if skipFormats then none else index.bind fun i => ctx.strings[i.toNat]?

/-- Renders the entries of `data`, which starts at `position` in the record. Each entry has a byte
at least, so `fuel` may be the length of the data. The suffix is for a value that does not fit. -/
def walk (ctx : Context) (suffix : String) (skipFormats : Bool) :
    (fuel : Nat) → (position : Nat) → (data : List UInt8) → Output e → FieldList → Pass e
  | 0, _, _, out, fields => ⟨out, fields, true⟩
  | fuel + 1, position, data, out, fields =>
    match Entry.take? data with
    | none => ⟨out, fields, true⟩
    | some (.cut, _) => ⟨out, fields, true⟩
    | some (.field, rest) =>
      walk ctx suffix skipFormats fuel (position + (data.length - rest.length)) rest out
        (fields.push position)
    | some (.value format payload, rest) =>
      match (present ctx (formatAt ctx skipFormats format) payload).write .plain out with
      | (out, .done) =>
        walk ctx suffix skipFormats fuel (position + (data.length - rest.length)) rest out fields
      | (out, .unreadable) => ⟨out, fields, true⟩
      | (after, .full) => ⟨(after.rewind out.length).markCut suffix, fields, false⟩

/-- The walk that breaks off at a decimal that is too long for its format. -/
def tryWalk (ctx : Context) (suffix : String) (skipFormats : Bool) :
    (fuel : Nat) → (position : Nat) → (data : List UInt8) → Output e → FieldList → Option (Pass e)
  | 0, _, _, out, fields => some ⟨out, fields, true⟩
  | fuel + 1, position, data, out, fields =>
    match Entry.take? data with
    | none => some ⟨out, fields, true⟩
    | some (.cut, _) => some ⟨out, fields, true⟩
    | some (.field, rest) =>
      tryWalk ctx suffix skipFormats fuel (position + (data.length - rest.length)) rest out
        (fields.push position)
    | some (.value format payload, rest) =>
      match tryPresent ctx (formatAt ctx skipFormats format) payload with
      | none => none
      | some shown =>
        match shown.write .plain out with
        | (out, .done) =>
          tryWalk ctx suffix skipFormats fuel (position + (data.length - rest.length)) rest out
            fields
        | (out, .unreadable) => some ⟨out, fields, true⟩
        | (after, .full) => some ⟨(after.rewind out.length).markCut suffix, fields, false⟩

def walkText (ctx : Context) (suffix : String) (skipFormats : Bool) :
    (fuel : Nat) → (data : List UInt8) → Output e → Output e × Bool
  | 0, _, out => (out, true)
  | fuel + 1, data, out =>
    match Entry.take? data with
    | none | some (.cut, _) => (out, true)
    | some (.field, rest) => walkText ctx suffix skipFormats fuel rest out
    | some (.value format payload, rest) =>
      match (present ctx (formatAt ctx skipFormats format) payload).write .plain out with
      | (out, .done) => walkText ctx suffix skipFormats fuel rest out
      | (out, .unreadable) => (out, true)
      | (after, .full) => ((after.rewind out.length).markCut suffix, false)

end Render

namespace Record

open Render

variable {e : Text.Encoding}

def context (r : Record) (registry : Registry) (settings : Settings) : Context :=
  ⟨registry, r.strings, settings.nullDisplay⟩

def render (r : Record) (registry : Registry) (settings : Settings) (skipFormats : Bool)
    (fields : FieldList) (out : Output e) : Pass e :=
  let data := r.encoded
  let pass := walk (r.context registry settings) settings.truncatedSuffix skipFormats data.length 0
    data out fields.clear
  if pass.fitted && r.truncated then
    { pass with out := pass.out.markCut settings.truncatedSuffix }
  else pass

def tryRender (r : Record) (registry : Registry) (settings : Settings) (skipFormats : Bool)
    (fields : FieldList) (out : Output e) : Option (Pass e) :=
  let data := r.encoded
  (tryWalk (r.context registry settings) settings.truncatedSuffix skipFormats data.length 0 data out
    fields.clear).map fun pass =>
      if pass.fitted && r.truncated then
        { pass with out := pass.out.markCut settings.truncatedSuffix }
      else pass

def renderText (r : Record) (registry : Registry) (settings : Settings) (skipFormats : Bool)
    (out : Output e) : Output e × Bool :=
  let data := r.encoded
  let (out, fitted) := walkText (r.context registry settings) settings.truncatedSuffix skipFormats
    data.length data out
  (if fitted && r.truncated then out.markCut settings.truncatedSuffix else out, fitted)

/-- A pass without a list comes to the same values as one with a list, and breaks off with it. -/
def tryRenderText (r : Record) (registry : Registry) (settings : Settings) (skipFormats : Bool)
    (out : Output e) : Option (Output e × Bool) :=
  (r.tryRender registry settings skipFormats {} out).map fun _ =>
    r.renderText registry settings skipFormats out

end Record
end Logbook
