import Logbook.Text.Printable
import Logbook.Number.Digits
set_option autoImplicit false

/-!
# Quoted texts of descriptions

In the description of a configuration or a record a text stands between double quotes. Quotes,
backslashes and the common control characters have short escapes; other characters that cannot be
seen by themselves are written as their code point in braces.
-/
namespace Logbook.Text.Quoted

def escapeChar (c : Char) : List Char :=
  if c = '"' then ['\\', '"']
  else if c = '\\' then ['\\', '\\']
  else if c = '\x00' then ['\\', '0']
  else if c = '\t' then ['\\', 't']
  else if c = '\n' then ['\\', 'n']
  else if c = '\r' then ['\\', 'r']
  else if isPrintable c then [c]
  else '\\' :: 'u' :: '\x7b' :: Number.hexadecimal false c.toNat ++ ['\x7d']

def encode (text : String) : String :=
  String.ofList ('"' :: text.toList.flatMap escapeChar ++ ['"'])

end Logbook.Text.Quoted
