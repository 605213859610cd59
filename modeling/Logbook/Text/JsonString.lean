set_option autoImplicit false

/-!
# Texts as the body of a JSON string

Quotes, backslashes and control characters are escaped; everything else stands as it is. The two
views of the escaped text are `escapeChar`, character by character, and `pieces`, the writes in
which it reaches an output: a run of plain characters is one write, and so is each part of an
escape. `join_pieces` says that they agree.
-/
namespace Logbook.Text.JsonString

def escape? (c : Char) : Option (List String) :=
  if c = '"' then some ["\\\""]
  else if c = '\\' then some ["\\\\"]
  else if c = '\n' then some ["\\n"]
  else if c = '\r' then some ["\\r"]
  else if c = '\t' then some ["\\t"]
  else if c = '\x08' then some ["\\b"]
  else if c = '\x0c' then some ["\\f"]
  else if c.toNat < 32 then
    let digits := Nat.toDigits 16 c.toNat
    some ("\\u" :: List.replicate (4 - digits.length) "0" ++ [String.ofList digits])
  else none

def escapeChar (c : Char) : List Char :=
  match escape? c with
  | some parts => parts.flatMap String.toList
  | none => [c]

/-- The writes for a text that follows the plain characters of `run`, which is reversed. -/
def piecesAfter (run : List Char) : List Char → List String
  | [] => [String.ofList run.reverse]
  | c :: rest =>
    match escape? c with
    | some parts => String.ofList run.reverse :: parts ++ piecesAfter [] rest
    | none => piecesAfter (c :: run) rest

def pieces (text : String) : List String :=
  piecesAfter [] text.toList

theorem join_piecesAfter (run text : List Char) :
    (piecesAfter run text).flatMap String.toList = run.reverse ++ text.flatMap escapeChar := by
  induction text generalizing run with
  | nil => simp [piecesAfter]
  | cons c rest ih =>
    cases h : escape? c with
    | some parts => simp [piecesAfter, escapeChar, h, ih]
    | none => simp [piecesAfter, escapeChar, h, ih]

theorem join_pieces (text : String) :
    (pieces text).flatMap String.toList = text.toList.flatMap escapeChar := by
  simpa [pieces] using join_piecesAfter [] text.toList

end Logbook.Text.JsonString
