import Logbook.Proofs.Number.Numeral
import Logbook.Proofs.Render.Placed
import Mathlib.Data.List.TakeWhile
set_option autoImplicit false

/-!
# Durations and their texts

A clock says a duration in days, hours, minutes, seconds and nanoseconds under one sign. The text of
a duration is the one text of its clock, and the number of nanoseconds is read back from it. The two
parts that a duration is kept in are toward zero, so a duration of less than a second has its sign
from the nanoseconds alone.
-/
namespace Logbook.Calendar

open Number

structure Clock where
  negative : Bool
  days : Nat
  hours : Nat
  minutes : Nat
  seconds : Nat
  nanos : Nat
  hours_lt : hours < 24 := by decide
  minutes_lt : minutes < 60 := by decide
  seconds_lt : seconds < 60 := by decide
  nanos_lt : nanos < billion := by decide

structure IsField (count n : Nat) (cs : List Char) : Prop where
  read : readDigits? decimalDigits 0 cs = some n
  length_eq : cs.length = count

def IsDays (n : Nat) (cs : List Char) : Prop :=
  if n = 0 then cs = [] else ∃ digits, IsNumeral decimalDigits 0 n digits ∧ cs = digits ++ ['.']

def IsNanos (n : Nat) (cs : List Char) : Prop :=
  if n = 0 then cs = [] else ∃ digits, IsField 9 n digits ∧ cs = '.' :: digits

namespace Clock

def nanoseconds (c : Clock) : Int :=
  let magnitude := (((c.days * 24 + c.hours) * 60 + c.minutes) * 60 + c.seconds) * billion + c.nanos
  if c.negative then -(magnitude : Int) else magnitude

/-- A text of the form `[-][d.]hh:mm:ss[.fffffffff]`. -/
inductive IsText (c : Clock) : List Char → Prop
  | mk {days hours minutes seconds nanos : List Char} (hdays : IsDays c.days days)
      (hhours : IsField 2 c.hours hours) (hminutes : IsField 2 c.minutes minutes)
      (hseconds : IsField 2 c.seconds seconds) (hnanos : IsNanos c.nanos nanos) :
      IsText c (signed c.negative
        (days ++ hours ++ ':' :: (minutes ++ ':' :: (seconds ++ nanos))))

end Clock

/-! ## One text -/

theorem isField_iff {count n : Nat} (hcount : 0 < count) (hn : n < 10 ^ count) {cs : List Char} :
    IsField count n cs ↔ cs = zeroPad count (decimal n) := by
  have hpadded : IsField count n (zeroPad count (decimal n)) :=
    ⟨(isNumeral_decimal count n).read, length_zeroPad_decimal hcount hn⟩
  constructor
  · intro h
    exact (readDigits?_injective (h.length_eq.trans hpadded.length_eq.symm) h.read hpadded.read).2
  · rintro rfl
    exact hpadded

theorem isDays_iff {n : Nat} {cs : List Char} :
    IsDays n cs ↔ cs = if n = 0 then [] else decimal n ++ ['.'] := by
  unfold IsDays
  split
  · rfl
  · simp only [isNumeral_zero_iff, exists_eq_left]

theorem isNanos_iff {n : Nat} (hn : n < billion) {cs : List Char} :
    IsNanos n cs ↔ cs = if n = 0 then [] else '.' :: zeroPad 9 (decimal n) := by
  unfold IsNanos
  split
  · rfl
  · simp only [isField_iff (by decide : 0 < 9) hn, exists_eq_left]

theorem Clock.isText_iff {c : Clock} {text : List Char} :
    c.IsText text ↔ text = signed c.negative
      ((if c.days = 0 then [] else decimal c.days ++ ['.']) ++ zeroPad 2 (decimal c.hours) ++
        ':' :: (zeroPad 2 (decimal c.minutes) ++ ':' :: (zeroPad 2 (decimal c.seconds) ++
          if c.nanos = 0 then [] else '.' :: zeroPad 9 (decimal c.nanos)))) := by
  have htwo : ∀ {n : Nat}, n < 60 → ∀ {cs}, IsField 2 n cs ↔ cs = zeroPad 2 (decimal n) :=
    fun hn => isField_iff (by decide) (by omega)
  have hhours := c.hours_lt
  constructor
  · rintro ⟨hdays, hhours, hminutes, hseconds, hnanos⟩
    rw [isDays_iff.1 hdays, (htwo (by omega)).1 hhours, (htwo c.minutes_lt).1 hminutes,
      (htwo c.seconds_lt).1 hseconds, (isNanos_iff c.nanos_lt).1 hnanos]
  · rintro rfl
    exact ⟨isDays_iff.2 rfl, (htwo (by omega)).2 rfl, (htwo c.minutes_lt).2 rfl,
      (htwo c.seconds_lt).2 rfl, (isNanos_iff c.nanos_lt).2 rfl⟩

/-! ## The text of a duration -/

namespace Duration

theorem natAbs_seconds (d : Duration) : d.seconds.natAbs = d.nanoseconds.natAbs / billion := by
  rw [seconds, Int.natAbs_tdiv]
  rfl

theorem natAbs_subsecond (d : Duration) :
    d.subsecond.natAbs = d.nanoseconds.natAbs % billion := by
  rw [subsecond, Int.natAbs_tmod]
  rfl

theorem negative_iff (d : Duration) :
    d.seconds < 0 ∨ d.subsecond < 0 ↔ d.nanoseconds < 0 := by
  have hsum : (billion : Int) * d.seconds + d.subsecond = d.nanoseconds :=
    Int.mul_tdiv_add_tmod d.nanoseconds billion
  simp only [billion] at hsum
  constructor
  · intro hpart
    by_contra hle
    have hseconds : 0 ≤ d.seconds := Int.tdiv_nonneg (Int.not_lt.1 hle) (by decide)
    have hsubsecond : 0 ≤ d.subsecond := Int.tmod_nonneg _ (Int.not_lt.1 hle)
    omega
  · omega

def clock (d : Duration) : Clock where
  negative := d.nanoseconds < 0
  days := d.seconds.natAbs / 86400
  hours := d.seconds.natAbs / 3600 % 24
  minutes := d.seconds.natAbs / 60 % 60
  seconds := d.seconds.natAbs % 60
  nanos := d.subsecond.natAbs
  hours_lt := Nat.mod_lt _ (by decide)
  minutes_lt := Nat.mod_lt _ (by decide)
  seconds_lt := Nat.mod_lt _ (by decide)
  nanos_lt := by
    rw [natAbs_subsecond]
    exact Nat.mod_lt _ (by decide)

theorem nanoseconds_clock (d : Duration) : d.clock.nanoseconds = d.nanoseconds := by
  have hsplit := Nat.div_add_mod d.nanoseconds.natAbs billion
  rw [← natAbs_seconds, ← natAbs_subsecond] at hsplit
  simp only [Clock.nanoseconds, clock, billion, decide_eq_true_eq] at hsplit ⊢
  split <;> omega

theorem isText_clock_iff (d : Duration) {text : List Char} :
    d.clock.IsText text ↔ text = durationText d.seconds d.subsecond := by
  have hsign : (decide (d.seconds < 0) || decide (d.subsecond < 0)) = d.clock.negative := by
    rw [← Bool.decide_or]
    exact decide_eq_decide.2 d.negative_iff
  have hdays : (if d.clock.days = 0 then [] else decimal d.clock.days ++ ['.']) =
      if 86400 ≤ d.seconds.natAbs then decimal (d.seconds.natAbs / 86400) ++ ['.'] else [] := by
    simp only [clock, Nat.div_eq_zero_iff_lt (by decide : 0 < 86400)]
    split
    · rw [if_neg (by omega)]
    · rw [if_pos (by omega)]
  have hnanos : (if d.clock.nanos = 0 then [] else '.' :: zeroPad 9 (decimal d.clock.nanos)) =
      if d.subsecond ≠ 0 then '.' :: zeroPad 9 (decimal d.subsecond.natAbs) else [] := by
    simp only [clock, Int.natAbs_eq_zero, ne_eq, ite_not]
  rw [Clock.isText_iff, hdays, hnanos, ← hsign, durationText]
  simp only [clock, List.append_assoc, List.cons_append]

end Duration

/-! ## Reading the text back -/

def cutAt (separator : Char) (cs : List Char) : List Char × List Char :=
  (cs.takeWhile (· ≠ separator), (cs.dropWhile (· ≠ separator)).tail)

def readHours? (cs : List Char) : Option Nat := do
  let (days, hours) := if '.' ∈ cs then cutAt '.' cs else ([], cs)
  let days ← readDigits? decimalDigits 0 days
  let hours ← readDigits? decimalDigits 0 hours
  return days * 24 + hours

def readSeconds? (cs : List Char) : Option Nat := do
  let (seconds, nanos) := cutAt '.' cs
  let seconds ← readDigits? decimalDigits 0 seconds
  let nanos ← readDigits? decimalDigits 0 nanos
  return seconds * billion + nanos

def readMagnitude? (cs : List Char) : Option Nat := do
  let (hours, rest) := cutAt ':' cs
  let (minutes, seconds) := cutAt ':' rest
  let hours ← readHours? hours
  let minutes ← readDigits? decimalDigits 0 minutes
  let seconds ← readSeconds? seconds
  return (hours * 60 + minutes) * 60 * billion + seconds

/-- The nanoseconds that a text with days, hours, minutes, seconds and a fraction stands for. -/
def readDuration? : List Char → Option Int := readSigned? readMagnitude?

section Cut

variable {separator : Char} {a : List Char} (ha : separator ∉ a)
include ha

theorem decide_ne_of_not_mem : ∀ c ∈ a, decide (c ≠ separator) = true :=
  fun _ hc => decide_eq_true fun heq => ha (heq ▸ hc)

theorem cutAt_append (b : List Char) : cutAt separator (a ++ separator :: b) = (a, b) := by
  have hne := decide_ne_of_not_mem ha
  rw [cutAt, List.takeWhile_append_of_pos hne, List.dropWhile_append_of_pos hne,
    List.takeWhile_cons_of_neg (by simp), List.dropWhile_cons_of_neg (by simp), List.append_nil,
    List.tail_cons]

theorem cutAt_of_not_mem : cutAt separator a = (a, []) := by
  have hne := decide_ne_of_not_mem ha
  rw [cutAt, List.takeWhile_eq_self_iff.2 hne, List.dropWhile_eq_nil_iff.2 hne]
  rfl

end Cut

theorem readHours?_eq {n hours : Nat} {before digits : List Char} (hbefore : IsDays n before)
    (hdigits : IsField 2 hours digits) : readHours? (before ++ digits) = some (n * 24 + hours) := by
  have hpoint := not_mem_of_readDigits? hdigits.read (by decide : '.' ∉ decimalDigits)
  unfold IsDays at hbefore
  split at hbefore
  · rename_i hn
    rw [hbefore, List.nil_append, readHours?, if_neg hpoint]
    simp only [readDigits?, hdigits.read, hn]
    rfl
  · obtain ⟨days, hdays, rfl⟩ := hbefore
    have hcut := cutAt_append (not_mem_of_readDigits? hdays.read (by decide : '.' ∉ decimalDigits))
      digits
    rw [List.append_assoc, List.cons_append, List.nil_append, readHours?,
      if_pos (List.mem_append_right _ List.mem_cons_self), hcut]
    simp only [hdays.read, hdigits.read]
    rfl

theorem readSeconds?_eq {seconds nanos : Nat} {digits behind : List Char}
    (hdigits : IsField 2 seconds digits) (hbehind : IsNanos nanos behind) :
    readSeconds? (digits ++ behind) = some (seconds * billion + nanos) := by
  have hpoint := not_mem_of_readDigits? hdigits.read (by decide : '.' ∉ decimalDigits)
  unfold IsNanos at hbehind
  split at hbehind
  · rename_i hn
    rw [hbehind, List.append_nil, readSeconds?, cutAt_of_not_mem hpoint]
    simp only [readDigits?, hdigits.read, hn]
    rfl
  · obtain ⟨fraction, hfraction, rfl⟩ := hbehind
    rw [readSeconds?, cutAt_append hpoint]
    simp only [hdigits.read, hfraction.read]
    rfl

theorem isDays_chars {n : Nat} {cs : List Char} (h : IsDays n cs) {c : Char}
    (hc : c ∉ '.' :: decimalDigits) : c ∉ cs := by
  unfold IsDays at h
  split at h
  · rw [h]
    exact List.not_mem_nil
  · obtain ⟨digits, hdigits, rfl⟩ := h
    rw [List.mem_append, List.mem_singleton, not_or]
    exact ⟨not_mem_of_readDigits? hdigits.read fun hmem => hc (.tail _ hmem),
      fun heq => hc (heq ▸ .head _)⟩

theorem Clock.IsText.readDuration?_eq {c : Clock} {text : List Char} (h : c.IsText text) :
    readDuration? text = some c.nanoseconds := by
  obtain @⟨days, hours, minutes, seconds, nanos, hdays, hhours, hminutes, hseconds, hnanos⟩ := h
  have hfront : ∀ {c}, c ∉ '.' :: decimalDigits → c ∉ days ++ hours := by
    intro c hc hmem
    rcases List.mem_append.1 hmem with hmem | hmem
    · exact isDays_chars hdays hc hmem
    · exact not_mem_of_readDigits? hhours.read (fun hdigit => hc (.tail _ hdigit)) hmem
  have hcolon := not_mem_of_readDigits? hminutes.read (by decide : ':' ∉ decimalDigits)
  have hmagnitude : readMagnitude? (days ++ hours ++
      ':' :: (minutes ++ ':' :: (seconds ++ nanos))) = some (
        (((c.days * 24 + c.hours) * 60 + c.minutes) * 60 + c.seconds) * billion + c.nanos) := by
    rw [readMagnitude?, cutAt_append (hfront (by decide))]
    simp only [cutAt_append hcolon, readHours?_eq hdays hhours, hminutes.read,
      readSeconds?_eq hseconds hnanos]
    refine congrArg some ?_
    ring
  -- the text of the magnitude begins with a digit
  have hsign : '-' ∉ (days ++ hours ++
      ':' :: (minutes ++ ':' :: (seconds ++ nanos))).head? := by
    have hne : days ++ hours ≠ [] := by
      apply List.ne_nil_of_length_pos
      rw [List.length_append, hhours.length_eq]
      omega
    obtain ⟨digit, more, hcons⟩ := List.exists_cons_of_ne_nil hne
    rw [hcons]
    intro hhead
    cases hhead
    exact hfront (by decide : '-' ∉ '.' :: decimalDigits) (hcons ▸ List.mem_cons_self)
  exact readSigned?_signed hmagnitude hsign c.negative

end Logbook.Calendar

namespace Logbook.Record

open Calendar Text

/-- Whatever was done to a record, a duration in it is shown as the text of its clock under every
format, the text is read back as the duration, and no other duration has it. -/
theorem run_durations (segment : Segment) (capacity serial : Nat) (ops : List Operation)
    (hsize : segment.size < 0x1_0000_0000) :
    let r := (create segment capacity serial).run ops
    ∃ kept part marked, r.Keeps (Operation.lastAdded ops) kept part marked ∧
      ∀ d : Duration,
        let text := durationText d.seconds d.subsecond
        (∃ clock : Clock, (∀ other, clock.IsText other ↔ other = text) ∧
          clock.nanoseconds = d.nanoseconds ∧ (clock.negative = true ↔ d.nanoseconds < 0) ∧
          clock.nanos = d.subsecond.natAbs) ∧
        readDuration? text = some d.nanoseconds ∧
        (∀ other : Duration, durationText other.seconds other.subsecond = text → other = d) ∧
        ∀ format, r.Shows kept part (.value (.duration d) format) text := by
  intro r
  obtain ⟨kept, part, marked, h⟩ := keeps_run segment capacity serial ops
  have hread : ∀ d : Duration,
      readDuration? (durationText d.seconds d.subsecond) = some d.nanoseconds := by
    intro d
    rw [(d.isText_clock_iff.2 rfl).readDuration?_eq, d.nanoseconds_clock]
  refine ⟨kept, part, marked, h, fun d => ⟨⟨d.clock, fun other => d.isText_clock_iff,
    d.nanoseconds_clock, decide_eq_true_iff, rfl⟩, hread d, fun other hother => ?_, fun format =>
    h.shows (size_run_lt hsize capacity serial ops) rfl fun _ _ => rfl⟩⟩
  have hsame : some other.nanoseconds = some d.nanoseconds := by
    rw [← hread other, hother, hread d]
  cases other
  cases d
  cases hsame
  rfl

/-- Less than a second, and negative. -/
theorem run_durations_least_second :
    let less : Duration := ⟨-500000000, by decide, by decide⟩
    let ops : List Operation := [.reset none .info .epoch "main",
      .add (.value (.text "in ") none), .add (.value (.duration less) none),
      .add (.value (.text ".") none)]
    let r := (create (Segment.zeroed 64) 8 0).run ops
    let units : Array UInt8 :=
      (r.render .empty {} false {} (Output.unlimited utf8)).out.units
    r.truncated = false ∧ less.seconds = 0 ∧
      readDuration? "-00:00:00.500000000".toList = some (-500000000) ∧
      units.toList = Utf8.bytes "in -00:00:00.500000000." := by
  intro less ops r units
  obtain ⟨kept, part, marked, h, hdurations⟩ :=
    run_durations (Segment.zeroed 64) 8 0 ops (by decide)
  obtain ⟨-, hread, -, hshows⟩ := hdurations less
  have htext : durationText less.seconds less.subsecond = "-00:00:00.500000000".toList := by
    decide
  rw [htext] at hread hshows
  have htruncated : r.truncated = false := by decide
  obtain ⟨rfl, rfl⟩ := h.all_kept htruncated
  have hplaced : r.Shows ([.value (.text "in ") none] ++
      .value (.duration less) none :: [.value (.text ".") none]) none (.value (.duration less) none)
      "-00:00:00.500000000".toList := hshows none
  have hunits := hplaced.toList_units (by simp [Addition.isReadable, Value.isReadable]) .empty nofun
    {} {} utf8
  exact ⟨htruncated, by decide, hread, hunits.trans (congrArg utf8.encodeChars (by decide))⟩

end Logbook.Record
