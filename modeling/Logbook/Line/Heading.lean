import Logbook.Record.Basic
import Logbook.Calendar.Stamp
set_option autoImplicit false

/-!
# Headings of lines

A heading pattern is text with the directives `%date`, `%time`, `%level`, `%logger` and `%thread`; a
doubled percent sign stands for one, and so does a percent sign that no letter follows. The name of
a directive is as long as the letters go on. `parse` reads a pattern character by character and
reports the first unknown name.
-/
namespace Logbook.Line

open Calendar

inductive Token where
  | literal (text : String)
  | date
  | time
  | level
  | logger
  | thread
  deriving DecidableEq

namespace Token

def ofName? : String → Option Token
  | "date" => some .date
  | "time" => some .time
  | "level" => some .level
  | "logger" => some .logger
  | "thread" => some .thread
  | _ => none

def text (r : Record) : Token → String
  | .literal text => text
  | .date => String.ofList (Stamp.dayText r.timestamp.date.number)
  | .time =>
    String.ofList (((Stamp.utc r.timestamp).patterned? "%H:%M:%S%.3f").getD [])
  | .level => r.level.name
  | .logger => (r.loggerName.map Label.text).getD ""
  | .thread => r.thread.getD ""

end Token

/-- A parsed pattern. Stretches of text are not empty and do not follow each other. -/
structure Heading where
  tokens : List Token
  deriving DecidableEq

namespace Heading

/-- Where the reader stands: in text, after a percent sign, or in a name. What was read of the text
and of the name is reversed. -/
inductive Place where
  | text (literal : List Char)
  | percent (literal : List Char)
  | name (literal : List Char) (name : List Char)

def stretch (literal : List Char) : List Token :=
  if literal = [] then [] else [.literal (String.ofList literal.reverse)]

def parseFrom : Place → List Char → Except String (List Token)
  | .text literal, [] => .ok (stretch literal)
  | .text literal, c :: rest =>
    if c = '%' then parseFrom (.percent literal) rest else parseFrom (.text (c :: literal)) rest
  | .percent literal, [] => .ok (stretch ('%' :: literal))
  | .percent literal, c :: rest =>
    if c = '%' then parseFrom (.text ('%' :: literal)) rest
    else if c.isAlpha then parseFrom (.name literal [c]) rest
    else parseFrom (.text (c :: '%' :: literal)) rest
  | .name literal name, [] =>
    let name := String.ofList name.reverse
    match Token.ofName? name with
    | some token => .ok (stretch literal ++ [token])
    | none => .error name
  | .name literal name, c :: rest =>
    if c.isAlpha then parseFrom (.name literal (c :: name)) rest
    else
      let name := String.ofList name.reverse
      match Token.ofName? name with
      | none => .error name
      | some token =>
        (if c = '%' then parseFrom (.percent []) rest else parseFrom (.text [c]) rest).map
          fun tokens => stretch literal ++ token :: tokens

def parse (pattern : String) : Except String Heading :=
  (parseFrom (.text []) pattern.toList).map Heading.mk

def text (h : Heading) (r : Record) : String :=
  String.join (h.tokens.map (Token.text r))

end Heading
end Logbook.Line
