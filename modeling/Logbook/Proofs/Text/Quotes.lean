import Logbook.Proofs.Text.Json
set_option autoImplicit false

/-!
# Quotes that open and close strings

Going through a text from left to right, a reader of JSON is outside of strings, inside one, or
behind a backslash in one. A text that leads from outside to outside again has a closing quote for
each opening one. Strings with an escaped body do, and so do texts without quotes.
-/
namespace Logbook.Text

inductive Quoting where
  | outside
  | inside
  | escaped
  deriving DecidableEq

namespace Quoting

def next : Quoting → Char → Quoting
  | .outside, c => if c = '"' then .inside else .outside
  | .inside, c => if c = '"' then .outside else if c = '\\' then .escaped else .inside
  | .escaped, _ => .inside

def after (start : Quoting) (text : List Char) : Quoting := text.foldl next start

@[simp] theorem after_cons (start : Quoting) (c : Char) (text : List Char) :
    start.after (c :: text) = (start.next c).after text := rfl

@[simp] theorem after_append (start : Quoting) (a b : List Char) :
    start.after (a ++ b) = (start.after a).after b :=
  List.foldl_append

def IsOrdinary (c : Char) : Prop := c ≠ '"' ∧ c ≠ '\\'

theorem next_inside {c : Char} (h : IsOrdinary c) : Quoting.inside.next c = .inside := by
  rw [next, if_neg h.1, if_neg h.2]

theorem isOrdinary_of_hexDigit? {c : Char} {value : Nat} (h : Json.hexDigit? c = some value) :
    IsOrdinary c := by
  constructor
  · rintro rfl
    cases h
  · rintro rfl
    cases h

theorem after_hexUnit? {a b c d : Char} {unit : Nat} (h : Json.hexUnit? a b c d = some unit) :
    Quoting.inside.after [a, b, c, d] = .inside := by
  obtain ⟨va, ha, h⟩ := Option.bind_eq_some_iff.1 h
  obtain ⟨vb, hb, h⟩ := Option.bind_eq_some_iff.1 h
  obtain ⟨vc, hc, h⟩ := Option.bind_eq_some_iff.1 h
  obtain ⟨vd, hd, h⟩ := Option.bind_eq_some_iff.1 h
  simp only [after_cons, next_inside (isOrdinary_of_hexDigit? ha),
    next_inside (isOrdinary_of_hexDigit? hb), next_inside (isOrdinary_of_hexDigit? hc),
    next_inside (isOrdinary_of_hexDigit? hd)]
  rfl

theorem after_body {body text : List Char} (h : Json.Body body text) :
    Quoting.inside.after body = .inside := by
  induction h with
  | nil => rfl
  | plain _ hquote hslash _ ih => rw [after_cons, next_inside ⟨hquote, hslash⟩, ih]
  | short _ _ ih => exact ih
  | @unit a b c d ch body text hunit _ ih =>
    change Quoting.inside.after ([a, b, c, d] ++ body) = .inside
    rw [after_append, after_hexUnit? hunit, ih]
  | @pair a b c d a' b' c' d' ch high low body text hhigh hlow _ _ _ _ ih =>
    change Quoting.inside.after ([a, b, c, d] ++ ('\\' :: 'u' :: ([a', b', c', d'] ++ body))) =
      .inside
    rw [after_append, after_hexUnit? hhigh]
    change Quoting.inside.after ([a', b', c', d'] ++ body) = .inside
    rw [after_append, after_hexUnit? hlow, ih]

end Quoting

/-- Each quote that opens a string has one that closes it. -/
def QuotesBalanced (text : List Char) : Prop := Quoting.outside.after text = .outside

namespace QuotesBalanced

theorem nil : QuotesBalanced [] := rfl

theorem append {a b : List Char} (ha : QuotesBalanced a) (hb : QuotesBalanced b) :
    QuotesBalanced (a ++ b) := by
  rw [QuotesBalanced, Quoting.after_append, ha]
  exact hb

theorem of_not_mem {text : List Char} (h : '"' ∉ text) : QuotesBalanced text := by
  induction text with
  | nil => rfl
  | cons c text ih =>
    have hc : c ≠ '"' := (List.ne_of_not_mem_cons h).symm
    rw [QuotesBalanced, Quoting.after_cons, Quoting.next, if_neg hc]
    exact ih (List.not_mem_of_not_mem_cons h)

theorem string {body text : List Char} (h : Json.Body body text) :
    QuotesBalanced (['"'] ++ body ++ ['"']) := by
  have hopen : Quoting.outside.after ['"'] = .inside := rfl
  rw [QuotesBalanced, Quoting.after_append, Quoting.after_append, hopen, Quoting.after_body h]
  rfl

theorem intercalate {separator : List Char} {texts : List (List Char)}
    (hseparator : QuotesBalanced separator) (htexts : ∀ text ∈ texts, QuotesBalanced text) :
    QuotesBalanced (separator.intercalate texts) := by
  induction texts with
  | nil => exact nil
  | cons first texts ih =>
    have hfirst := htexts first List.mem_cons_self
    have hrest := ih fun text h => htexts text (List.mem_cons_of_mem _ h)
    cases texts with
    | nil => simpa using hfirst
    | cons second texts =>
      rw [List.intercalate_cons_cons]
      exact (hfirst.append hseparator).append hrest

end QuotesBalanced

namespace Json

theorem quote_not_mem_of_isDigits {cs : List Char} (h : IsDigits cs) : '"' ∉ cs := by
  intro hmem
  have hdigit := h.2 _ hmem
  revert hdigit
  decide

theorem quote_not_mem_of_isNumber {cs : List Char} (h : IsNumber cs) : '"' ∉ cs := by
  obtain ⟨sign, whole, fraction, exponent, rfl, hsign, hwhole, hfraction, hexponent⟩ := h
  have hdigits := quote_not_mem_of_isDigits hwhole.1
  have hsign : '"' ∉ sign := by
    rcases hsign with rfl | rfl <;> decide
  have hfraction : '"' ∉ fraction := by
    rcases hfraction with rfl | ⟨digits, rfl, hdigits⟩
    · decide
    · exact List.not_mem_cons_of_ne_of_not_mem (by decide) (quote_not_mem_of_isDigits hdigits)
  have hexponent : '"' ∉ exponent := by
    rcases hexponent with rfl | ⟨letter, sign, digits, rfl, hletter, hsign, hdigits⟩
    · decide
    · have hletter : '"' ≠ letter := by
        rcases hletter with rfl | rfl <;> decide
      have hsign : '"' ∉ sign := by
        rcases hsign with rfl | rfl | rfl <;> decide
      simp [hletter, hsign, quote_not_mem_of_isDigits hdigits]
  simp [hsign, hdigits, hfraction, hexponent]

end Json
end Logbook.Text
