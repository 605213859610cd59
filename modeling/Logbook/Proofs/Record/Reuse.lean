import Logbook.Proofs.Record.Invariant
import Logbook.Render.Fields
set_option autoImplicit false

/-!
# Records that are used again

A segment is not wiped between events, so two records that went through different events differ in
the bytes beyond those in use. `Alike` allows for that difference only. A reset makes any two
records of one size alike, every operation keeps them alike, and nothing that is read off a record
looks beyond the bytes in use. The parts of an unmanaged value may be written straight into the
segment: the bytes that no part covers are cleared before.
-/
namespace Logbook

open Calendar Record Render Text

namespace Segment

def writeParts (s : Segment) (start size : Nat) (parts : List (Nat × List UInt8)) : Segment :=
  parts.foldl (fun s part => s.write (start + part.1) part.2)
    (s.write start (List.replicate size 0))

theorem firstBytes_write_overlay {s : Segment} {front raw : List UInt8} {part : Nat × List UInt8}
    (hs : s.firstBytes (front.length + raw.length) = front ++ raw)
    (hpart : part.1 + part.2.length ≤ raw.length) :
    (s.write (front.length + part.1) part.2).firstBytes (front.length + raw.length) =
      front ++ RawValue.overlay raw part := by
  rw [s.firstBytes_write_within (by omega), hs, List.take_append, List.drop_append,
    List.take_of_length_le (Nat.le_add_right _ _), Nat.add_sub_cancel_left,
    List.drop_eq_nil_of_le (by omega), Nat.add_assoc, Nat.add_sub_cancel_left, RawValue.overlay]
  simp only [List.nil_append, List.append_assoc]

theorem firstBytes_foldl_overlay {s : Segment} {front raw : List UInt8}
    (hs : s.firstBytes (front.length + raw.length) = front ++ raw)
    (parts : List (Nat × List UInt8))
    (hparts : ∀ part ∈ parts, part.1 + part.2.length ≤ raw.length) :
    (parts.foldl (fun s part => s.write (front.length + part.1) part.2) s).firstBytes
        (front.length + raw.length) = front ++ parts.foldl RawValue.overlay raw := by
  induction parts generalizing s raw with
  | nil => exact hs
  | cons part parts ih =>
    have hpart := hparts part List.mem_cons_self
    have hlen := RawValue.length_overlay hpart
    have hnext := firstBytes_write_overlay hs hpart
    rw [← hlen] at hnext
    have hrest := ih hnext fun p hp => by
      rw [hlen]
      exact hparts p (List.mem_cons_of_mem part hp)
    rw [hlen] at hrest
    exact hrest

/-- The bytes are those of the value, whatever was there before. -/
theorem firstBytes_writeParts (s : Segment) (start : Nat) (v : RawValue) :
    (s.writeParts start v.size v.parts).firstBytes (start + v.size) =
      s.firstBytes start ++ v.bytes := by
  have hzeros : (List.replicate v.size (0 : UInt8)).length = v.size := List.length_replicate
  have hfront := s.length_firstBytes start
  have hcleared : (s.write start (List.replicate v.size 0)).firstBytes
      ((s.firstBytes start).length + (List.replicate v.size (0 : UInt8)).length) =
        s.firstBytes start ++ List.replicate v.size 0 := by
    rw [hfront]
    exact s.firstBytes_write start _
  have hparts := firstBytes_foldl_overlay hcleared v.parts (by rw [hzeros]; exact v.parts_within)
  rw [hfront, hzeros] at hparts
  exact hparts

theorem size_writeParts (s : Segment) (start size : Nat) (parts : List (Nat × List UInt8)) :
    (s.writeParts start size parts).size = s.size := by
  have hfold : ∀ s : Segment, (parts.foldl (fun s part => s.write (start + part.1) part.2) s).size =
      s.size := by
    induction parts with
    | nil => exact fun _ => rfl
    | cons part parts ih => exact fun s => ih (s.write (start + part.1) part.2)
  exact hfold _

end Segment

namespace Record

/-- Two records that differ at most in the bytes beyond those in use, and in their owners. -/
structure Alike (r s : Record) : Prop where
  size_eq : r.segment.size = s.segment.size
  capacity_eq : r.stringCapacity = s.stringCapacity
  encoded_eq : r.encoded = s.encoded
  strings_eq : r.strings = s.strings
  truncated_eq : r.truncated = s.truncated
  level_eq : r.level = s.level
  timestamp_eq : r.timestamp = s.timestamp
  thread_eq : r.thread = s.thread
  loggerName_eq : r.loggerName = s.loggerName
  exception_eq : r.exception = s.exception

namespace Alike

variable {r s : Record}

theorem refl (r : Record) : r.Alike r where
  size_eq := rfl
  capacity_eq := rfl
  encoded_eq := rfl
  strings_eq := rfl
  truncated_eq := rfl
  level_eq := rfl
  timestamp_eq := rfl
  thread_eq := rfl
  loggerName_eq := rfl
  exception_eq := rfl

theorem symm (h : r.Alike s) : s.Alike r where
  size_eq := h.size_eq.symm
  capacity_eq := h.capacity_eq.symm
  encoded_eq := h.encoded_eq.symm
  strings_eq := h.strings_eq.symm
  truncated_eq := h.truncated_eq.symm
  level_eq := h.level_eq.symm
  timestamp_eq := h.timestamp_eq.symm
  thread_eq := h.thread_eq.symm
  loggerName_eq := h.loggerName_eq.symm
  exception_eq := h.exception_eq.symm

theorem trans {t : Record} (h : r.Alike s) (h' : s.Alike t) : r.Alike t where
  size_eq := h.size_eq.trans h'.size_eq
  capacity_eq := h.capacity_eq.trans h'.capacity_eq
  encoded_eq := h.encoded_eq.trans h'.encoded_eq
  strings_eq := h.strings_eq.trans h'.strings_eq
  truncated_eq := h.truncated_eq.trans h'.truncated_eq
  level_eq := h.level_eq.trans h'.level_eq
  timestamp_eq := h.timestamp_eq.trans h'.timestamp_eq
  thread_eq := h.thread_eq.trans h'.thread_eq
  loggerName_eq := h.loggerName_eq.trans h'.loggerName_eq
  exception_eq := h.exception_eq.trans h'.exception_eq

theorem position_eq (h : r.Alike s) : r.position = s.position := by
  rw [← length_encoded r, ← length_encoded s, h.encoded_eq]

theorem remaining_eq (h : r.Alike s) : r.remaining = s.remaining := by
  rw [remaining, remaining, h.size_eq, h.position_eq]

theorem nextIndex_eq (h : r.Alike s) : r.nextIndex = s.nextIndex := by
  rw [nextIndex, nextIndex, h.strings_eq]

theorem strings_le (h : r.Alike s) (hr : r.strings.size ≤ r.stringCapacity) :
    s.strings.size ≤ s.stringCapacity := by
  rw [← h.strings_eq, ← h.capacity_eq]
  exact hr

theorem fits_iff (h : r.Alike s) (a : Addition) : r.Fits a ↔ s.Fits a := by
  rw [Fits, Fits, h.remaining_eq, h.strings_eq, h.capacity_eq]

theorem put (h : r.Alike s) (bytes : List UInt8) : (r.put bytes).Alike (s.put bytes) :=
  { h with encoded_eq := by rw [encoded_put, encoded_put, h.encoded_eq] }

theorem intern (h : r.Alike s) (strings : List String) :
    (r.intern strings).Alike (s.intern strings) :=
  { h with strings_eq := by rw [Record.intern, Record.intern, h.strings_eq] }

theorem putPart (h : r.Alike s) (part : Option Stored) :
    (r.putPart part).Alike (s.putPart part) := by
  cases part with
  | none => exact h
  | some s => exact h.put s.bytes

theorem truncate (h : r.Alike s) : r.truncate.Alike s.truncate := by
  have hroom : r.position < r.segment.size ↔ s.position < s.segment.size := by
    rw [h.position_eq, h.size_eq]
  simp only [Record.truncate, h.truncated_eq, hroom]
  split
  · exact h
  · split
    · exact { h.put [Tag.cut.code] with truncated_eq := rfl }
    · exact { h with truncated_eq := rfl }

theorem extend (h : r.Alike s) (hs : r.strings.size ≤ r.stringCapacity) (a : Addition) :
    (r.extend a).Alike (s.extend a) := by
  cases ht : r.truncated with
  | true =>
    have ht' : s.truncated = true := h.truncated_eq.symm.trans ht
    rw [extend_of_truncated ht, extend_of_truncated ht']
    exact h
  | false =>
    have ht' : s.truncated = false := h.truncated_eq.symm.trans ht
    by_cases hf : r.Fits a
    · rw [extend_of_fits ht hf, extend_of_fits ht' ((h.fits_iff a).1 hf), h.nextIndex_eq]
      exact (h.put _).intern _
    · rw [extend_of_not_fits ht hs hf,
        extend_of_not_fits ht' (h.strings_le hs) fun hf' => hf ((h.fits_iff a).2 hf'),
        h.remaining_eq]
      exact (h.putPart _).truncate

theorem reset (hsize : r.segment.size = s.segment.size)
    (hcapacity : r.stringCapacity = s.stringCapacity) (loggerName : Option Label) (level : Level)
    (now : Instant) (thread : String) :
    (r.reset loggerName level now thread).Alike (s.reset loggerName level now thread) where
  size_eq := hsize
  capacity_eq := hcapacity
  encoded_eq := by
    rw [List.length_eq_zero_iff.1 (length_encoded (r.reset loggerName level now thread)),
      List.length_eq_zero_iff.1 (length_encoded (s.reset loggerName level now thread))]
  strings_eq := rfl
  truncated_eq := rfl
  level_eq := rfl
  timestamp_eq := rfl
  thread_eq := rfl
  loggerName_eq := rfl
  exception_eq := rfl

theorem perform (h : r.Alike s) (hs : r.strings.size ≤ r.stringCapacity) (op : Operation) :
    (r.perform op).Alike (s.perform op) := by
  cases op with
  | add a => exact h.extend hs a
  | truncate => exact h.truncate
  | reset loggerName level now thread =>
    exact reset h.size_eq h.capacity_eq loggerName level now thread
  | attach exception => exact { h with exception_eq := rfl }

theorem run (h : r.Alike s) {entries : List Stored} {marked : Bool} (hr : r.Holds entries marked)
    (ops : List Operation) : (r.run ops).Alike (s.run ops) := by
  induction ops generalizing r s entries marked with
  | nil => exact h
  | cons op ops ih =>
    obtain ⟨entries', marked', hr', -⟩ := hr.perform op
    exact ih (h.perform hr.strings_le op) hr'

end Alike

/-! ## Values written in place -/

/-- Adds bytes and an unmanaged value after them, whose parts are written straight into the
segment. -/
def putInPlace (r : Record) (front : List UInt8) (v : RawValue) : Record :=
  let r := r.put front
  { r with
    segment := r.segment.writeParts r.position v.size v.parts
    position := r.position + v.size }

def Addition.raw? : Addition → Option RawValue
  | .value (.unmanaged v) _ | .field _ (.unmanaged v) => some v
  | _ => none

def extendInPlace (r : Record) (a : Addition) : Record :=
  match a.raw? with
  | none => r.extend a
  | some v =>
    if r.truncated then r
    else if r.hasRoom a.size a.slots then
      (r.putInPlace ((a.stored r.nextIndex).bytes.take (a.size - v.size)) v).intern a.strings
    else r.truncate

def performInPlace (r : Record) : Operation → Record
  | .add a => r.extendInPlace a
  | op => r.perform op

def runInPlace (r : Record) (ops : List Operation) : Record := ops.foldl performInPlace r

theorem Addition.bytes_stored_of_raw? {a : Addition} {v : RawValue} (h : a.raw? = some v)
    (index : UInt8) :
    (a.stored index).bytes = (a.stored index).bytes.take (a.size - v.size) ++ v.bytes := by
  obtain ⟨front, hfront⟩ : ∃ front, (a.stored index).bytes = front ++ v.bytes := by
    cases a with
    | value w format =>
      cases w with
      | unmanaged w =>
        obtain rfl : w = v := Option.some.inj h
        simp only [stored, Stored.bytes, StoredValue.bytes, Value.payload, Payload.bytes,
          Payload.spanBytes, ← List.append_assoc]
        exact ⟨_, rfl⟩
      | _ => cases h
    | field key w =>
      cases w with
      | unmanaged w =>
        obtain rfl : w = v := Option.some.inj h
        simp only [stored, Stored.bytes, StoredValue.bytes, Value.payload, Payload.bytes,
          Payload.spanBytes, ← List.append_assoc]
        exact ⟨_, rfl⟩
      | _ => cases h
  -- the bytes of the value come last, so what is before them is as long as the rest
  have hlen := congrArg List.length hfront
  rw [a.length_bytes_stored, List.length_append, v.length_bytes] at hlen
  rw [hfront, List.take_left' (by omega)]

theorem Addition.part?_of_raw? {a : Addition} {v : RawValue} (h : a.raw? = some v) (room : Nat) :
    a.part? room = none := by
  cases a with
  | value w format =>
    cases w with
    | unmanaged w => rfl
    | _ => cases h
  | field key w => rfl

namespace Alike

variable {r s : Record}

theorem putInPlace (h : r.Alike s) (front : List UInt8) (v : RawValue) :
    (r.putInPlace front v).Alike (s.put (front ++ v.bytes)) := by
  have hbytes := (r.put front).segment.firstBytes_writeParts (r.put front).position v
  have hsize := (r.put front).segment.size_writeParts (r.put front).position v.size v.parts
  have hencoded : (r.putInPlace front v).encoded = (s.put (front ++ v.bytes)).encoded := by
    rw [encoded_put, ← h.encoded_eq, ← List.append_assoc, ← encoded_put]
    exact hbytes
  exact { h with size_eq := hsize.trans h.size_eq, encoded_eq := hencoded }

theorem extendInPlace (h : r.Alike s) (hs : r.strings.size ≤ r.stringCapacity) (a : Addition) :
    (r.extendInPlace a).Alike (s.extend a) := by
  cases hraw : a.raw? with
  | none =>
    rw [Record.extendInPlace, hraw]
    exact h.extend hs a
  | some v =>
    rw [Record.extendInPlace, hraw]
    cases ht : r.truncated with
    | true =>
      rw [extend_of_truncated (h.truncated_eq.symm.trans ht)]
      exact h
    | false =>
      have ht' : s.truncated = false := h.truncated_eq.symm.trans ht
      simp only [Bool.false_eq_true, ↓reduceIte]
      by_cases hf : r.Fits a
      · rw [if_pos ((r.hasRoom_iff_fits a).2 hf), extend_of_fits ht' ((h.fits_iff a).1 hf),
          ← h.nextIndex_eq]
        have hput := h.putInPlace ((a.stored r.nextIndex).bytes.take (a.size - v.size)) v
        rw [← Addition.bytes_stored_of_raw? hraw] at hput
        exact hput.intern a.strings
      · rw [if_neg fun hroom => hf ((r.hasRoom_iff_fits a).1 hroom),
          extend_of_not_fits ht' (h.strings_le hs) fun hf' => hf ((h.fits_iff a).2 hf'),
          Addition.part?_of_raw? hraw]
        exact h.truncate

theorem runInPlace (h : r.Alike s) {entries : List Stored} {marked : Bool}
    (hs : s.Holds entries marked) (ops : List Operation) :
    (r.runInPlace ops).Alike (s.run ops) := by
  induction ops generalizing r s entries marked with
  | nil => exact h
  | cons op ops ih =>
    have hr := h.symm.strings_le hs.strings_le
    obtain ⟨entries', marked', hs', -⟩ := hs.perform op
    have hnext : (r.performInPlace op).Alike (s.perform op) := by
      cases op with
      | add a => exact h.extendInPlace hr a
      | truncate => exact h.perform hr .truncate
      | reset loggerName level now thread => exact h.perform hr (.reset loggerName level now thread)
      | attach exception => exact h.perform hr (.attach exception)
    exact ih hnext hs'

end Alike

/-! ## What is read off a record -/

structure Indistinct (r s : Record) : Prop where
  encoded_eq : r.encoded = s.encoded
  strings_eq : r.strings = s.strings
  truncated_eq : r.truncated = s.truncated
  exception_eq : r.exception = s.exception
  describe_eq : r.describe = s.describe
  render_eq : ∀ {e : Encoding} (registry : Registry) (settings : Settings) (skipFormats : Bool)
    (fields : FieldList) (out : Output e),
    r.render registry settings skipFormats fields out =
      s.render registry settings skipFormats fields out
  renderText_eq : ∀ {e : Encoding} (registry : Registry) (settings : Settings)
    (skipFormats : Bool) (out : Output e),
    r.renderText registry settings skipFormats out = s.renderText registry settings skipFormats out
  renderFields_eq : ∀ {e : Encoding} (registry : Registry) (settings : Settings)
    (fields : FieldList) (out : Output e),
    r.renderFields registry settings fields out = s.renderFields registry settings fields out
  toText_eq : ∀ (registry : Registry) (settings : Settings),
    r.toText registry settings = s.toText registry settings

namespace Alike

variable {r s : Record}

theorem context_eq (h : r.Alike s) (registry : Registry) (settings : Settings) :
    r.context registry settings = s.context registry settings := by
  rw [context, context, h.strings_eq]

theorem render_eq (h : r.Alike s) {e : Encoding} (registry : Registry) (settings : Settings)
    (skipFormats : Bool) (fields : FieldList) (out : Output e) :
    r.render registry settings skipFormats fields out =
      s.render registry settings skipFormats fields out := by
  rw [render, render, h.encoded_eq, h.context_eq, h.truncated_eq]

theorem renderFields_eq (h : r.Alike s) {e : Encoding} (registry : Registry) (settings : Settings)
    (fields : FieldList) (out : Output e) :
    r.renderFields registry settings fields out = s.renderFields registry settings fields out := by
  rw [renderFields, renderFields, h.encoded_eq, h.context_eq, h.strings_eq]

theorem indistinct (h : r.Alike s) : r.Indistinct s where
  encoded_eq := h.encoded_eq
  strings_eq := h.strings_eq
  truncated_eq := h.truncated_eq
  exception_eq := h.exception_eq
  describe_eq := by
    unfold Record.describe
    rw [h.level_eq, h.loggerName_eq, h.position_eq, h.size_eq, h.strings_eq, h.truncated_eq]
  render_eq := h.render_eq
  renderText_eq registry settings skipFormats out := by
    rw [renderText, renderText, h.encoded_eq, h.context_eq, h.truncated_eq]
  renderFields_eq := h.renderFields_eq
  toText_eq registry settings := by
    rw [toText, toText, h.render_eq, h.renderFields_eq]

end Alike

section Again

variable {r s : Record} {entries : List Stored} {marked : Bool} (loggerName : Option Label)
  (level : Level) (now : Instant) (thread : String) (more : List Operation)

/-- After a reset it makes no difference which bytes are in the segment, and what the record was
used for. -/
theorem alike_reset_run (hsize : r.segment.size = s.segment.size)
    (hcapacity : r.stringCapacity = s.stringCapacity) (hs : s.Holds entries marked) :
    ((r.reset loggerName level now thread).run more).Alike
      ((s.reset loggerName level now thread).run more) :=
  ((Alike.reset hsize.symm hcapacity.symm loggerName level now thread).run
    (hs.reset loggerName level now thread) more).symm

theorem alike_reset_runInPlace (hsize : r.segment.size = s.segment.size)
    (hcapacity : r.stringCapacity = s.stringCapacity) (hs : s.Holds entries marked) :
    ((r.reset loggerName level now thread).runInPlace more).Alike
      ((s.reset loggerName level now thread).run more) :=
  (Alike.reset hsize hcapacity loggerName level now thread).runInPlace
    (hs.reset loggerName level now thread) more

end Again
end Record
end Logbook
