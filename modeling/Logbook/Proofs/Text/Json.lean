import Logbook.Text.JsonString
set_option autoImplicit false

/-!
# JSON texts

The grammar of JSON as a relation between a text and the value that it denotes. A number denotes its
own text, and an object keeps the order of its members. In the body of a string a character stands
for itself or is written as an escape; a body stands for one text only, and an escaped text is the
body that stands for it.
-/
namespace Logbook.Text

inductive Json where
  | null
  | bool (b : Bool)
  | number (lexeme : List Char)
  | string (text : List Char)
  | array (items : List Json)
  | object (members : List (List Char × Json))

namespace Json

/-! ## Strings -/

def shortEscape? : Char → Option Char
  | '"' => some '"'
  | '\\' => some '\\'
  | '/' => some '/'
  | 'b' => some '\x08'
  | 'f' => some '\x0c'
  | 'n' => some '\n'
  | 'r' => some '\r'
  | 't' => some '\t'
  | _ => none

def hexDigit? (c : Char) : Option Nat :=
  if '0' ≤ c ∧ c ≤ '9' then some (c.toNat - '0'.toNat)
  else if 'a' ≤ c ∧ c ≤ 'f' then some (10 + (c.toNat - 'a'.toNat))
  else if 'A' ≤ c ∧ c ≤ 'F' then some (10 + (c.toNat - 'A'.toNat))
  else none

def hexUnit? (a b c d : Char) : Option Nat := do
  return 4096 * (← hexDigit? a) + 256 * (← hexDigit? b) + 16 * (← hexDigit? c) + (← hexDigit? d)

/-- The body of a string, and the text that it stands for. Characters beyond sixteen bits may be
escaped as the two units of a surrogate pair. -/
inductive Body : List Char → List Char → Prop
  | nil : Body [] []
  | plain {ch : Char} {body text : List Char} : 32 ≤ ch.toNat → ch ≠ '"' → ch ≠ '\\' →
      Body body text → Body (ch :: body) (ch :: text)
  | short {letter ch : Char} {body text : List Char} : shortEscape? letter = some ch →
      Body body text → Body ('\\' :: letter :: body) (ch :: text)
  | unit {a b c d ch : Char} {body text : List Char} : hexUnit? a b c d = some ch.toNat →
      Body body text → Body ('\\' :: 'u' :: a :: b :: c :: d :: body) (ch :: text)
  | pair {a b c d a' b' c' d' ch : Char} {high low : Nat} {body text : List Char} :
      hexUnit? a b c d = some (0xD800 + high) → hexUnit? a' b' c' d' = some (0xDC00 + low) →
      high < 0x400 → low < 0x400 → ch.toNat = 0x10000 + 0x400 * high + low → Body body text →
      Body ('\\' :: 'u' :: a :: b :: c :: d :: '\\' :: 'u' :: a' :: b' :: c' :: d' :: body)
        (ch :: text)

theorem not_surrogate (ch : Char) {high : Nat} (hlt : high < 0x400) :
    ch.toNat ≠ 0xD800 + high := by
  intro heq
  have hvalid : ch.toNat < 0xD800 ∨ 0xDFFF < ch.toNat ∧ ch.toNat < 0x110000 := ch.valid
  omega

theorem Body.unique {body a b : List Char} (ha : Body body a) (hb : Body body b) : a = b := by
  induction ha generalizing b with
  | nil =>
    cases hb
    rfl
  | plain _ _ hslash _ ih =>
    cases hb with
    | plain _ _ _ hrest => rw [ih hrest]
    | short | unit | pair => exact absurd rfl hslash
  | short hletter _ ih =>
    cases hb with
    | plain _ _ hslash => exact absurd rfl hslash
    | short hletter' hrest =>
      obtain rfl := Option.some.inj (hletter.symm.trans hletter')
      rw [ih hrest]
    | unit | pair => cases hletter
  | unit hunit _ ih =>
    cases hb with
    | plain _ _ hslash => exact absurd rfl hslash
    | short hletter => cases hletter
    | unit hunit' hrest =>
      rw [Char.toNat_inj.1 (Option.some.inj (hunit.symm.trans hunit')), ih hrest]
    | pair hhigh _ hlt => exact absurd (Option.some.inj (hunit.symm.trans hhigh)) (not_surrogate _ hlt)
  | pair hhigh hlow hlt _ hch _ ih =>
    cases hb with
    | plain _ _ hslash => exact absurd rfl hslash
    | short hletter => cases hletter
    | unit hunit => exact absurd (Option.some.inj (hunit.symm.trans hhigh)) (not_surrogate _ hlt)
    | pair hhigh' hlow' _ _ hch' hrest =>
      have h1 := Option.some.inj (hhigh.symm.trans hhigh')
      have h2 := Option.some.inj (hlow.symm.trans hlow')
      have hsame := hch.trans ((by omega : _ = _).trans hch'.symm)
      rw [Char.toNat_inj.1 hsame, ih hrest]

theorem hexUnit?_control : ∀ n < 32,
    List.replicate (4 - (Nat.toDigits 16 n).length) '0' ++ Nat.toDigits 16 n =
        ['0', '0', (n / 16).digitChar, (n % 16).digitChar] ∧
      hexUnit? '0' '0' (n / 16).digitChar (n % 16).digitChar = some n := by
  decide

theorem join_escape (count : Nat) (digits : List Char) :
    ("\\u" :: List.replicate count "0" ++ [String.ofList digits]).flatMap String.toList =
      '\\' :: 'u' :: (List.replicate count '0' ++ digits) := by
  have hdigits : (String.ofList digits).toList = digits := String.toList_ofList
  have hzeros : (List.replicate count "0").flatMap String.toList = List.replicate count '0' := by
    rw [List.flatMap_replicate]
    exact List.flatten_replicate_singleton
  rw [List.cons_append, List.flatMap_cons, List.flatMap_append, hzeros, List.flatMap_singleton,
    hdigits]
  rfl

theorem body_escapeChar (ch : Char) {body text : List Char} (h : Body body text) :
    Body (JsonString.escapeChar ch ++ body) (ch :: text) := by
  rw [JsonString.escapeChar, JsonString.escape?]
  by_cases hshort : ch ∈ ['"', '\\', '\n', '\r', '\t', '\x08', '\x0c']
  · simp only [List.mem_cons, List.not_mem_nil, or_false] at hshort
    rcases hshort with rfl | rfl | rfl | rfl | rfl | rfl | rfl <;> exact .short rfl h
  simp only [List.mem_cons, List.not_mem_nil, or_false, not_or] at hshort
  obtain ⟨hquote, hslash, hline, hreturn, htab, hback, hfeed⟩ := hshort
  simp only [hquote, hslash, hline, hreturn, htab, hback, hfeed, ↓reduceIte]
  by_cases hcontrol : ch.toNat < 32
  · obtain ⟨hdigits, hunit⟩ := hexUnit?_control ch.toNat hcontrol
    simp only [hcontrol, ↓reduceIte]
    rw [join_escape, hdigits]
    exact .unit hunit h
  · simp only [hcontrol, ↓reduceIte]
    exact .plain (by omega) hquote hslash h

/-- An escaped text is a body that stands for the text, and for no other. -/
theorem body_escape_iff (text other : List Char) :
    Body (text.flatMap JsonString.escapeChar) other ↔ other = text := by
  have hbody : Body (text.flatMap JsonString.escapeChar) text := by
    induction text with
    | nil => exact .nil
    | cons ch rest ih => exact body_escapeChar ch ih
  constructor
  · exact fun h => h.unique hbody
  · rintro rfl
    exact hbody

/-! ## Numbers -/

def IsDigits (cs : List Char) : Prop := cs ≠ [] ∧ ∀ c ∈ cs, c.isDigit = true

def IsWhole (cs : List Char) : Prop := IsDigits cs ∧ (cs.head? = some '0' → cs = ['0'])

def IsFraction (cs : List Char) : Prop := ∃ digits, cs = '.' :: digits ∧ IsDigits digits

def IsExponent (cs : List Char) : Prop :=
  ∃ letter sign digits, cs = letter :: sign ++ digits ∧ (letter = 'e' ∨ letter = 'E') ∧
    (sign = [] ∨ sign = ['+'] ∨ sign = ['-']) ∧ IsDigits digits

def IsNumber (cs : List Char) : Prop :=
  ∃ sign whole fraction exponent, cs = sign ++ whole ++ fraction ++ exponent ∧
    (sign = [] ∨ sign = ['-']) ∧ IsWhole whole ∧ (fraction = [] ∨ IsFraction fraction) ∧
    (exponent = [] ∨ IsExponent exponent)

/-! ## Values -/

def IsBlank (cs : List Char) : Prop := ∀ c ∈ cs, c = ' ' ∨ c = '\t' ∨ c = '\n' ∨ c = '\r'

mutual

inductive Denotes : List Char → Json → Prop
  | null : Denotes "null".toList .null
  | bool (b : Bool) : Denotes (if b then "true" else "false").toList (.bool b)
  | number {lexeme : List Char} : IsNumber lexeme → Denotes lexeme (.number lexeme)
  | string {body text : List Char} : Body body text → Denotes ('"' :: body ++ ['"']) (.string text)
  | emptyArray {blank : List Char} : IsBlank blank → Denotes ('[' :: blank ++ [']']) (.array [])
  | array {cs : List Char} {items : List Json} : Items cs items →
      Denotes ('[' :: cs ++ [']']) (.array items)
  | emptyObject {blank : List Char} : IsBlank blank →
      Denotes ('\x7b' :: blank ++ ['\x7d']) (.object [])
  | object {cs : List Char} {members : List (List Char × Json)} : Members cs members →
      Denotes ('\x7b' :: cs ++ ['\x7d']) (.object members)

inductive Items : List Char → List Json → Prop
  | one {before cs after : List Char} {v : Json} : IsBlank before → Denotes cs v → IsBlank after →
      Items (before ++ cs ++ after) [v]
  | more {before cs after rest : List Char} {v : Json} {items : List Json} : IsBlank before →
      Denotes cs v → IsBlank after → Items rest items →
      Items (before ++ cs ++ after ++ ',' :: rest) (v :: items)

inductive Members : List Char → List (List Char × Json) → Prop
  | one {before cs after : List Char} {m : List Char × Json} : IsBlank before → Member cs m →
      IsBlank after → Members (before ++ cs ++ after) [m]
  | more {before cs after rest : List Char} {m : List Char × Json}
      {members : List (List Char × Json)} : IsBlank before → Member cs m → IsBlank after →
      Members rest members → Members (before ++ cs ++ after ++ ',' :: rest) (m :: members)

inductive Member : List Char → List Char × Json → Prop
  | mk {body key before after cs : List Char} {v : Json} : Body body key → IsBlank before →
      IsBlank after → Denotes cs v →
      Member ('"' :: body ++ '"' :: before ++ ':' :: after ++ cs) (key, v)

end

end Json
end Logbook.Text
