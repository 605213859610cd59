import Logbook.Proofs.Record.Addition
set_option autoImplicit false

/-!
# Everything that is done to a record

Between two resets a record only grows, and once it is cut it does not change at all until the next
one. Its room is fixed when it is made.
-/
namespace Logbook

open Calendar Record

inductive Operation where
  | add (a : Addition)
  | truncate
  | reset (loggerName : Option Label) (level : Level) (now : Instant) (thread : String)
  | attach (exception : String)

def Operation.isReset : Operation → Bool
  | .reset .. => true
  | _ => false

namespace Record

def perform (r : Record) : Operation → Record
  | .add a => r.extend a
  | .truncate => r.truncate
  | .reset loggerName level now thread => r.reset loggerName level now thread
  | .attach exception => r.attach exception

def run (r : Record) (ops : List Operation) : Record := ops.foldl perform r

/-! ## What stays as it is -/

theorem segmentSize_putPart (r : Record) (part : Option Stored) :
    (r.putPart part).segment.size = r.segment.size := by
  cases part <;> rfl

theorem strings_putPart (r : Record) (part : Option Stored) :
    (r.putPart part).strings = r.strings := by
  cases part <;> rfl

theorem stringCapacity_putPart (r : Record) (part : Option Stored) :
    (r.putPart part).stringCapacity = r.stringCapacity := by
  cases part <;> rfl

theorem truncated_putPart (r : Record) (part : Option Stored) :
    (r.putPart part).truncated = r.truncated := by
  cases part <;> rfl

/-- What an addition can do: nothing to a record that is cut, else store all or cut. -/
theorem extend_cases (r : Record) (hs : r.strings.size ≤ r.stringCapacity) (a : Addition) :
    (r.truncated = true ∧ r.extend a = r) ∨
    (r.truncated = false ∧ r.Fits a ∧
      r.extend a = (r.put (a.stored r.nextIndex).bytes).intern a.strings) ∨
    (r.truncated = false ∧ ¬ r.Fits a ∧ r.extend a = (r.putPart (a.part? r.remaining)).truncate) := by
  cases ht : r.truncated with
  | true => exact .inl ⟨rfl, extend_of_truncated ht a⟩
  | false =>
    by_cases hf : r.Fits a
    · exact .inr (.inl ⟨rfl, hf, extend_of_fits ht hf⟩)
    · exact .inr (.inr ⟨rfl, hf, extend_of_not_fits ht hs hf⟩)

theorem truncate_eq (r : Record) :
    ∃ segment position truncated, r.truncate = { r with segment, position, truncated } := by
  rw [truncate]
  split
  · exact ⟨_, _, _, rfl⟩
  · split <;> exact ⟨_, _, _, rfl⟩

theorem extend_eq (r : Record) (a : Addition) : ∃ segment position strings truncated,
    r.extend a = { r with segment, position, strings, truncated } := by
  have htruncate (r : Record) : ∃ segment position strings truncated,
      r.truncate = { r with segment, position, strings, truncated } := by
    obtain ⟨segment, position, truncated, heq⟩ := r.truncate_eq
    exact ⟨segment, position, r.strings, truncated, heq⟩
  have hentry (v : Value) (format : Option String) : ∃ segment position strings truncated,
      r.appendEntry v format = { r with segment, position, strings, truncated } := by
    rw [appendEntry]
    generalize (if v.takesFormat then format else none) = kept
    split
    · exact ⟨_, _, _, _, rfl⟩
    · simp only
      generalize r.hasRoom _ _ = room
      cases room with
      | true => exact ⟨_, _, _, _, rfl⟩
      | false => exact htruncate r
  have hstored (fits : Prop) [Decidable fits] (bytes : List UInt8) (cut : Prop) [Decidable cut] :
      ∃ segment position strings truncated,
        (if cut then (if fits then r.put bytes else r).truncate
          else if fits then r.put bytes else r) =
            { r with segment, position, strings, truncated } := by
    split <;> split
    · obtain ⟨segment, position, strings, truncated, heq⟩ := htruncate (r.put bytes)
      exact ⟨segment, position, strings, truncated, heq⟩
    · exact htruncate r
    · exact ⟨_, _, _, _, rfl⟩
    · exact ⟨_, _, _, _, rfl⟩
  have hspan (wrap : List UInt8 → Payload) (bytes : List UInt8) (fit : Nat → Nat) :
      ∃ segment position strings truncated,
        r.appendSpan wrap bytes fit = { r with segment, position, strings, truncated } := by
    rw [appendSpan]
    split
    · exact ⟨_, _, _, _, rfl⟩
    · exact hstored _ _ _
  cases a with
  | value v format =>
    cases v with
    | span s => exact hspan .span (Text.Utf8.bytes s) fun room => fittingBytes room s.toList
    | ascii bytes => exact hspan .ascii bytes fun room => room
    | _ => exact hentry _ format
  | field key v =>
    rw [extend, appendField]
    split
    · exact ⟨_, _, _, _, rfl⟩
    · split
      · exact ⟨_, _, _, _, rfl⟩
      · exact htruncate r

theorem perform_room {r : Record} (hs : r.strings.size ≤ r.stringCapacity) (op : Operation) :
    (r.perform op).segment.size = r.segment.size ∧
      (r.perform op).stringCapacity = r.stringCapacity := by
  cases op with
  | add a =>
    rw [perform]
    rcases r.extend_cases hs a with ⟨_, heq⟩ | ⟨_, _, heq⟩ | ⟨_, _, heq⟩
    · rw [heq]
      exact ⟨rfl, rfl⟩
    · rw [heq]
      exact ⟨rfl, rfl⟩
    · rw [heq, segmentSize_truncate, stringCapacity_truncate]
      exact ⟨segmentSize_putPart r _, stringCapacity_putPart r _⟩
  | truncate => exact ⟨segmentSize_truncate r, stringCapacity_truncate r⟩
  | reset loggerName level now thread => exact ⟨rfl, rfl⟩
  | attach exception => exact ⟨rfl, rfl⟩

theorem serial_truncate (r : Record) : r.truncate.serial = r.serial := by
  unfold truncate
  split
  · rfl
  · split <;> rfl

theorem serial_perform {r : Record} (hs : r.strings.size ≤ r.stringCapacity) (op : Operation) :
    (r.perform op).serial = r.serial := by
  cases op with
  | add a =>
    rw [perform]
    rcases r.extend_cases hs a with ⟨_, heq⟩ | ⟨_, _, heq⟩ | ⟨_, _, heq⟩
    · rw [heq]
    · rw [heq]
      rfl
    · rw [heq, serial_truncate]
      cases a.part? r.remaining <;> rfl
  | truncate => exact serial_truncate r
  | reset loggerName level now thread => rfl
  | attach exception => rfl

/-- Once a record is cut, nothing but a reset changes what it holds. -/
theorem perform_of_truncated {r : Record} (h : r.truncated = true) {op : Operation}
    (hop : op.isReset = false) :
    (r.perform op).segment = r.segment ∧ (r.perform op).strings = r.strings ∧
      (r.perform op).position = r.position ∧ (r.perform op).truncated = true := by
  cases op with
  | add a =>
    rw [perform, extend_of_truncated h]
    exact ⟨rfl, rfl, rfl, h⟩
  | truncate =>
    rw [perform, truncate_of_truncated h]
    exact ⟨rfl, rfl, rfl, h⟩
  | reset loggerName level now thread => cases hop
  | attach exception => exact ⟨rfl, rfl, rfl, h⟩

theorem run_of_truncated {r : Record} (h : r.truncated = true) {ops : List Operation}
    (hops : ∀ op ∈ ops, op.isReset = false) :
    (r.run ops).segment = r.segment ∧ (r.run ops).strings = r.strings ∧
      (r.run ops).position = r.position ∧ (r.run ops).truncated = true := by
  induction ops generalizing r with
  | nil => exact ⟨rfl, rfl, rfl, h⟩
  | cons op ops ih =>
    obtain ⟨hsegment, hstrings, hposition, ht⟩ :=
      perform_of_truncated h (hops op List.mem_cons_self)
    obtain ⟨hsegment', hstrings', hposition', ht'⟩ :=
      ih ht fun op hop => hops op (List.mem_cons_of_mem _ hop)
    exact ⟨hsegment'.trans hsegment, hstrings'.trans hstrings, hposition'.trans hposition, ht'⟩

theorem extendAll_of_truncated {r : Record} (h : r.truncated = true) (additions : List Addition) :
    r.extendAll additions = r := by
  induction additions with
  | nil => rfl
  | cons a additions ih =>
    rw [extendAll, List.foldl_cons, extend_of_truncated h]
    exact ih

theorem extendAll_eq (r : Record) (additions : List Addition) :
    ∃ segment position strings truncated,
      r.extendAll additions = { r with segment, position, strings, truncated } := by
  induction additions generalizing r with
  | nil => exact ⟨_, _, _, _, rfl⟩
  | cons a additions ih =>
    obtain ⟨segment, position, strings, truncated, hone⟩ := r.extend_eq a
    obtain ⟨segment', position', strings', truncated', hrest⟩ := ih (r.extend a)
    refine ⟨segment', position', strings', truncated', ?_⟩
    rw [extendAll, List.foldl_cons, ← extendAll, hrest, hone]

theorem extendAll_append (r : Record) (a b : List Addition) :
    r.extendAll (a ++ b) = (r.extendAll a).extendAll b :=
  List.foldl_append

end Record
end Logbook
