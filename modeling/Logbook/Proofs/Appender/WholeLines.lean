import Logbook.Appender.LineWriter
set_option autoImplicit false

/-!
# Lines that are refused

What reached the sink and what the buffer still keeps make up the contents of a writer. Every
single text is written whole or not at all. A line is two of them, so the contents grow by whole
lines except in one case: a text that fills a buffer in use to its last byte is kept without a call
to the sink, and the end of its line is refused with the buffer.
-/
namespace Logbook.LineWriter

variable (w : LineWriter) (text : String)

def contents : String := w.sink.text ++ w.buffer

/-- Whether the text of a line fills the buffer, which is in use, while the sink refuses writes. -/
def LeavesHalf : Prop :=
  w.buffer ≠ "" ∧ text ≠ "" ∧ w.buffer.utf8ByteSize + text.utf8ByteSize = capacity ∧
    w.sink.writeError ≠ none

instance : Decidable (w.LeavesHalf text) := inferInstanceAs (Decidable (_ ∧ _ ∧ _ ∧ _))

@[simp]
def ifWritten : Option String → String
  | none => text
  | some _ => ""

end LineWriter

theorem Sink.text_write (s : Sink) (text : String) :
    (s.write text).1.text = s.text ++ LineWriter.ifWritten text (s.write text).2 := by
  rw [Sink.write]
  split <;> simp

theorem Sink.write_eq_error (s : Sink) (text : String) : (s.write text).2 = s.writeError := by
  rw [Sink.write]
  split <;> simp [*]

namespace LineWriter

variable (w : LineWriter) (text : String)

/-! ### One text -/

theorem contents_drain : w.drain.1.contents = w.contents := by
  have sent := w.sink.text_write w.buffer
  rw [drain]
  split
  · rfl
  · split <;> rename_i answer <;> rw [answer] at sent <;> simpa [contents] using sent

theorem buffer_drain (done : w.drain.2 = none) : w.drain.1.buffer = "" := by
  rw [drain] at done ⊢
  split
  · assumption
  · rename_i inUse
    rw [if_neg inUse] at done
    split
    · rfl
    · rename_i answer
      rw [answer] at done
      cases done

theorem drain_eq_error (inUse : w.buffer ≠ "") : w.drain.2 = w.sink.writeError := by
  have answer := w.sink.write_eq_error w.buffer
  rw [drain, if_neg inUse]
  split <;> rename_i sent <;> rw [← answer, sent]

/-- A text passes the buffer only if that is empty, so nothing is overtaken. -/
theorem contents_keepOrPass (fits : text.utf8ByteSize < capacity ∨ w.buffer = "") :
    (w.keepOrPass text).1.contents = w.contents ++ ifWritten text (w.keepOrPass text).2 := by
  rw [keepOrPass]
  split
  · simp [contents, keep, String.append_assoc]
  · rename_i large
    have isEmpty : w.buffer = "" := fits.resolve_left large
    simp [contents, isEmpty, w.sink.text_write text]

/-- A text is written whole or not at all. -/
theorem contents_put :
    (w.put text).1.contents = w.contents ++ ifWritten text (w.put text).2 := by
  rw [put]
  split
  · rename_i room
    apply contents_keepOrPass
    rw [← String.utf8ByteSize_eq_zero_iff]
    omega
  · have kept := w.contents_drain
    have empties := w.buffer_drain
    split <;> rename_i answer <;> rw [answer] at kept empties
    · rw [contents_keepOrPass _ _ (.inr (empties rfl)), kept]
    · simp [kept]

theorem keepOrPass_of_lt (small : text.utf8ByteSize < capacity) :
    w.keepOrPass text = (w.keep text, none) := by
  rw [keepOrPass, if_pos small]

theorem size_keepOrPass_lt (isEmpty : w.buffer = "") :
    (w.keepOrPass text).1.buffer.utf8ByteSize < capacity := by
  rw [keepOrPass]
  split
  · simpa [keep, isEmpty]
  · simp [isEmpty, capacity]

theorem put_done (done : (w.put text).2 = none) :
    w.buffer.utf8ByteSize + text.utf8ByteSize ≤ capacity ∧ text.utf8ByteSize < capacity ∧
        w.put text = (w.keep text, none) ∨
      (w.put text).1.buffer.utf8ByteSize < capacity := by
  rw [put] at done ⊢
  split
  · rename_i room
    by_cases small : text.utf8ByteSize < capacity
    · exact .inl ⟨room, small, w.keepOrPass_of_lt text small⟩
    · refine .inr (w.size_keepOrPass_lt text ?_)
      rw [← String.utf8ByteSize_eq_zero_iff]
      omega
  · rename_i exceeds
    rw [if_neg exceeds] at done
    have empties := w.buffer_drain
    split <;> rename_i answer <;> rw [answer] at empties done
    · exact .inr (size_keepOrPass_lt _ text (empties rfl))
    · cases done

theorem error_put_end :
    (w.put "\n").2 = if w.buffer.utf8ByteSize < capacity then none else w.sink.writeError := by
  have one : "\n".utf8ByteSize = 1 := rfl
  have small : "\n".utf8ByteSize < capacity := by decide
  by_cases room : w.buffer.utf8ByteSize < capacity
  · rw [put, if_pos (by omega), keepOrPass_of_lt _ _ small, if_pos room]
  · have inUse : w.buffer ≠ "" := by
      intro isEmpty
      simp [isEmpty, capacity] at room
    have answer := w.drain_eq_error inUse
    rw [put, if_neg (by omega), if_neg room, ← answer]
    split <;> rename_i drained <;> rw [drained]
    rw [keepOrPass_of_lt _ _ small]

/-! ### One line -/

def halfLeft : String := if w.LeavesHalf text then text else ""

def lineLeft : Option String → String
  | none => text ++ "\n"
  | some _ => w.halfLeft text

variable {w text}

theorem put_of_leavesHalf (half : w.LeavesHalf text) : w.put text = (w.keep text, none) := by
  obtain ⟨inUse, -, fills, -⟩ := half
  have used : w.buffer.utf8ByteSize ≠ 0 := by simpa [String.utf8ByteSize_eq_zero_iff] using inUse
  rw [put, if_pos (Nat.le_of_eq fills), keepOrPass_of_lt _ _ (by omega)]

theorem writeLine_of_leavesHalf (half : w.LeavesHalf text) :
    (w.writeLine text).2 = w.sink.writeError := by
  rw [writeLine, put_of_leavesHalf half]
  simp only [error_put_end, keep, String.utf8ByteSize_append, half.2.2.1, Nat.lt_irrefl, if_false]

theorem leavesHalf_of_end_refused (some_text : text ≠ "") (done : (w.put text).2 = none)
    (refused : ((w.put text).1.put "\n").2 ≠ none) : w.LeavesHalf text := by
  rw [error_put_end] at refused
  obtain ⟨room, small, kept⟩ | free := w.put_done text done
  · rw [kept, keep, String.utf8ByteSize_append] at refused
    split at refused
    · contradiction
    · refine ⟨?_, some_text, by omega, refused⟩
      intro isEmpty
      simp_all
  · simp [free] at refused

variable (w text)

theorem contents_writeLine :
    (w.writeLine text).1.contents = w.contents ++ w.lineLeft text (w.writeLine text).2 := by
  have first := w.contents_put text
  have half : (w.put text).2 ≠ none → ¬ w.LeavesHalf text := fun refused half =>
    refused (by rw [put_of_leavesHalf half])
  have ended := @leavesHalf_of_end_refused w text
  rw [writeLine]
  generalize w.put text = written at *
  obtain ⟨kept, _ | error⟩ := written
  · have second := kept.contents_put "\n"
    dsimp only at *
    rw [second, first]
    generalize (kept.put "\n").2 = answer at *
    cases answer with
    | none => simp [lineLeft, String.append_assoc]
    | some error =>
      by_cases no_text : text = ""
      · simp [lineLeft, halfLeft, no_text]
      · simp [lineLeft, halfLeft, ended no_text]
  · simpa [lineLeft, halfLeft, half] using first

/-! ### Runs -/

def callLeft : Call → String
  | .write line => w.lineLeft line.text (w.writeLine line.text).2
  | .start | .flush | .dispose => ""

theorem contents_receive (call : Call) :
    (w.receive call).1.contents = w.contents ++ w.callLeft call := by
  have drained := w.contents_drain
  have flushed : w.flush.1.contents = w.contents := by
    rw [flush]
    split <;> rename_i answer <;> rw [answer] at drained
    · simpa [contents, Sink.flush] using drained
    · exact drained
  cases call with
  | write line => exact w.contents_writeLine line.text
  | start => simp [receive, callLeft]
  | flush => simp [receive, callLeft, flushed]
  | dispose => simp [receive, callLeft, flushed]

def left (w : LineWriter) : List Call → String
  | [] => ""
  | call :: rest => w.callLeft call ++ (w.receive call).1.left rest

def answers (w : LineWriter) : List Call → List (Call × Option String)
  | [] => []
  | call :: rest => (call, (w.receive call).2) :: (w.receive call).1.answers rest

/-- The lines that were written without an error, each with its end. -/
def written : List (Call × Option String) → String
  | (.write line, none) :: rest => line.text ++ "\n" ++ written rest
  | _ :: rest => written rest
  | [] => ""

theorem contents_afterCalls (calls : List Call) :
    (w.afterCalls calls).contents = w.contents ++ w.left calls := by
  induction calls generalizing w with
  | nil => simp [afterCalls, left]
  | cons call rest ih =>
    have tail := ih (w.receive call).1
    rw [contents_receive, String.append_assoc] at tail
    exact tail

def SomeHalf (calls : List Call) : Prop :=
  ∃ before line after, calls = before ++ Call.write line :: after ∧
    (w.afterCalls before).LeavesHalf line.text

theorem someHalf_cons (call : Call) (rest : List Call) :
    w.SomeHalf (call :: rest) ↔
      (∃ line, call = .write line ∧ w.LeavesHalf line.text) ∨ (w.receive call).1.SomeHalf rest := by
  constructor
  · rintro ⟨before, line, after, split, half⟩
    cases before with
    | nil =>
      obtain ⟨rfl, -⟩ := List.cons.inj split
      exact .inl ⟨line, rfl, half⟩
    | cons first before =>
      obtain ⟨rfl, rfl⟩ := List.cons.inj split
      exact .inr ⟨before, line, after, rfl, half⟩
  · rintro (⟨line, rfl, half⟩ | ⟨before, line, after, rfl, half⟩)
    · exact ⟨[], line, rest, rfl, half⟩
    · exact ⟨call :: before, line, after, rfl, half⟩

theorem written_receive (call : Call) (rest : List (Call × Option String)) :
    written ((call, (w.receive call).2) :: rest) = w.callLeft call ++ written rest ∧
        (¬ ∃ line, call = .write line ∧ w.LeavesHalf line.text) ∨
      written ((call, (w.receive call).2) :: rest) = written rest ∧ w.callLeft call ≠ "" ∧
        ∃ line, call = .write line ∧ w.LeavesHalf line.text := by
  cases call with
  | write line =>
    have refused := @writeLine_of_leavesHalf w line.text
    by_cases half : w.LeavesHalf line.text
    · obtain ⟨error, refuses⟩ := Option.ne_none_iff_exists'.mp half.2.2.2
      right
      simp [receive, callLeft, lineLeft, halfLeft, written, refused half, refuses, half, half.2.1]
    · left
      simp only [receive, callLeft]
      cases (w.writeLine line.text).2 <;> simp [written, lineLeft, halfLeft, half]
  | start | flush | dispose => simp [callLeft, written]

theorem left_eq_written_iff (calls : List Call) :
    (written (w.answers calls)).utf8ByteSize ≤ (w.left calls).utf8ByteSize ∧
      (w.left calls = written (w.answers calls) ↔ ¬ w.SomeHalf calls) := by
  induction calls generalizing w with
  | nil => simp [left, answers, written, SomeHalf]
  | cons call rest ih =>
    obtain ⟨bound, same⟩ := ih (w.receive call).1
    have first := w.written_receive call ((w.receive call).1.answers rest)
    rw [someHalf_cons, answers, left]
    obtain ⟨whole, noHalf⟩ | ⟨skipped, more, half⟩ := first
    · rw [whole, String.append_right_inj, same]
      simp only [String.utf8ByteSize_append, noHalf, false_or, and_true]
      omega
    · -- The half line makes what is left longer than the lines that were written.
      have longer : (w.callLeft call).utf8ByteSize ≠ 0 := by
        simpa [String.utf8ByteSize_eq_zero_iff] using more
      have differ : w.callLeft call ++ (w.receive call).1.left rest ≠
          written ((w.receive call).1.answers rest) := by
        intro equal
        have sizes := congrArg String.utf8ByteSize equal
        rw [String.utf8ByteSize_append] at sizes
        omega
      rw [skipped]
      simp only [String.utf8ByteSize_append, half, true_or, not_true, differ, and_true]
      omega

/-- After any calls, with any sink: a text goes to the sink or into the buffer whole or not at all,
so that the contents are the lines that were written and nothing else, unless the text of a
refused line filled a buffer in use to its last byte. That text stays, without its end. -/
theorem lines_whole_unless_filled (w : LineWriter) (calls : List Call) :
    (w.afterCalls calls).contents = w.contents ++ w.left calls ∧
      ((w.afterCalls calls).contents = w.contents ++ written (w.answers calls) ↔
        ¬ w.SomeHalf calls) ∧
      ∀ before line after, calls = before ++ Call.write line :: after →
        (w.afterCalls before).LeavesHalf line.text →
          ((w.afterCalls before).receive (.write line)).2 = (w.afterCalls before).sink.writeError := by
  have contents := w.contents_afterCalls calls
  refine ⟨contents, ?_, ?_⟩
  · rw [contents, String.append_right_inj]
    exact (w.left_eq_written_iff calls).2
  · intro before line after _ half
    exact writeLine_of_leavesHalf half

theorem utf8ByteSize_replicate (c : Char) (n : Nat) :
    (String.ofList (List.replicate n c)).utf8ByteSize = n * c.utf8Size := by
  induction n with
  | zero => simp
  | succ n ih =>
    rw [List.replicate_succ', String.ofList_append, String.utf8ByteSize_append, ih]
    simp [Nat.succ_mul]

theorem writeLine_of_room (room : w.buffer.utf8ByteSize + text.utf8ByteSize + 1 < capacity) :
    w.writeLine text = (⟨w.sink, w.buffer ++ text ++ "\n"⟩, none) := by
  have one : "\n".utf8ByteSize = 1 := rfl
  have first : w.put text = (w.keep text, none) := by
    rw [put, if_pos (by omega), keepOrPass_of_lt _ _ (by omega)]
  have second : (w.keep text).put "\n" = ((w.keep text).keep "\n", none) := by
    rw [put, if_pos (by rw [keep, String.utf8ByteSize_append]; omega),
      keepOrPass_of_lt _ _ (by decide)]
  rw [writeLine, first]
  exact second

variable {w text}

/-- Two lines, the second of which fills what the first leaves free. -/
theorem second_line_stays {error : String} (first second : Line)
    (room : w.buffer.utf8ByteSize + first.text.utf8ByteSize + 1 < capacity)
    (fills : w.buffer.utf8ByteSize + first.text.utf8ByteSize + 1 + second.text.utf8ByteSize =
      capacity)
    (some_text : second.text ≠ "") (refuses : w.sink.writeError = some error) :
    w.answers [.write first, .write second] =
        [(.write first, none), (.write second, some error)] ∧
      (w.afterCalls [.write first, .write second]).contents =
        w.contents ++ first.text ++ "\n" ++ second.text := by
  have one : "\n".utf8ByteSize = 1 := rfl
  have kept := w.writeLine_of_room first.text room
  have half : LeavesHalf ⟨w.sink, w.buffer ++ first.text ++ "\n"⟩ second.text := by
    refine ⟨by simp, some_text, ?_, by simp [refuses]⟩
    simp only [String.utf8ByteSize_append]
    omega
  have refused := writeLine_of_leavesHalf half
  constructor
  · simp [answers, receive, kept, refused, refuses]
  · simp only [contents_afterCalls, left, callLeft, receive, kept, refused, refuses, lineLeft,
      halfLeft, if_pos half, String.append_empty]
    simp only [String.append_assoc]

/-- A line leaves two bytes of the buffer free, and the text of the next has two. The sink takes
nothing. -/
theorem two_bytes_stay :
    let line (text : String) : Line := ⟨text, .info, .epoch, none, none⟩
    let first := line (String.ofList (List.replicate 8189 'a'))
    let w : LineWriter := ⟨{ writeError := some "refused" }, ""⟩
    let calls : List Call := [.write first, .write (line "bb")]
    w.answers calls = [(.write first, none), (.write (line "bb"), some "refused")] ∧
      written (w.answers calls) = first.text ++ "\n" ∧
      (w.afterCalls calls).contents = first.text ++ "\n" ++ "bb" := by
  intro line first w calls
  have size : first.text.utf8ByteSize = 8189 := by
    rw [utf8ByteSize_replicate, show 'a'.utf8Size = 1 from rfl, Nat.mul_one]
  obtain ⟨answered, stays⟩ := second_line_stays (w := w) first (line "bb")
    (by rw [size]; decide) (by rw [size]; decide) (by decide) rfl
  have before : w.contents = "" := rfl
  refine ⟨answered, ?_, ?_⟩
  · simp [calls, answered, written]
  · rw [stays, before, String.empty_append]

end LineWriter
end Logbook
