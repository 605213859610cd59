import Logbook.Line.Formatter
import Logbook.Proofs.Number.Numeral
import Logbook.Proofs.Output
import Logbook.Proofs.Text.Utf8
import Mathlib.Data.List.Chain
set_option autoImplicit false

/-!
# Patterns of headings

`lexemes` reads a pattern by its grammar alone: characters of the text, and the names behind percent
signs, each as long as its letters go on. A pattern is refused for the first name that is not known.
Otherwise its tokens are those that say the same and keep to the shape of `Canonical`, in which a
pattern can be written in one way only, so it is what is read back from them.
-/
namespace Logbook.Line

open Calendar Number Text

inductive Lexeme where
  | char (c : Char)
  | name (name : String)
  deriving DecidableEq

/-- A doubled percent sign stands for one, a percent sign in front of letters makes a name of them,
and any other is a character like the others. -/
def lexemes : List Char → List Lexeme
  | [] => []
  | c :: rest =>
    if c ≠ '%' then .char c :: lexemes rest
    else if rest.head? = some '%' then .char '%' :: lexemes rest.tail
    else if rest.takeWhile Char.isAlpha = [] then .char '%' :: lexemes rest
    else
      .name (String.ofList (rest.takeWhile Char.isAlpha)) :: lexemes (rest.dropWhile Char.isAlpha)
termination_by cs => cs.length
decreasing_by
  all_goals
    have hdrop := (List.dropWhile_sublist Char.isAlpha (l := rest)).length_le
    simp only [List.length_cons, List.length_tail]
    omega

def directives : List String := ["date", "time", "level", "logger", "thread"]

def unknownNames (lexemes : List Lexeme) : List String :=
  lexemes.filterMap fun
    | .char _ => none
    | .name name => if name ∈ directives then none else some name

namespace Token

def lexemes : Token → List Lexeme
  | .literal text => text.toList.map .char
  | .date => [.name "date"]
  | .time => [.name "time"]
  | .level => [.name "level"]
  | .logger => [.name "logger"]
  | .thread => [.name "thread"]

def unparse : Token → List Char
  | .literal text => text.toList.flatMap fun c => if c = '%' then ['%', '%'] else [c]
  | .date => ['%', 'd', 'a', 't', 'e']
  | .time => ['%', 't', 'i', 'm', 'e']
  | .level => ['%', 'l', 'e', 'v', 'e', 'l']
  | .logger => ['%', 'l', 'o', 'g', 'g', 'e', 'r']
  | .thread => ['%', 't', 'h', 'r', 'e', 'a', 'd']

def isLiteral : Token → Bool
  | .literal _ => true
  | _ => false

def shown (r : Record) : Token → List Char
  | .literal text => text.toList
  | .date => Stamp.dayText r.timestamp.date.number
  | .time =>
    let t := r.timestamp.time
    zeroPad 2 (decimal t.hour) ++ ':' :: zeroPad 2 (decimal t.minute) ++
      ':' :: zeroPad 2 (decimal t.secondOfMinute) ++
      '.' :: zeroPad 3 (decimal (t.subsecond / 1000000))
  | .level => r.level.name.toList
  | .logger => (r.loggerName.map fun label => label.text.toList).getD []
  | .thread => (r.thread.map String.toList).getD []

def Apart (a b : Token) : Prop := a.isLiteral = true → b.isLiteral = false

/-- Text may follow a directive if it does not go on with a letter. -/
def Follows (a b : Token) : Prop :=
  a.isLiteral = false → ∀ text, b = .literal text → ∀ c ∈ text.toList.head?, c.isAlpha = false

end Token

/-- No text is empty, none follows another, and none goes on with a letter behind a directive. -/
structure Canonical (tokens : List Token) : Prop where
  literal_ne : ∀ text, .literal text ∈ tokens → text.toList ≠ []
  apart : tokens.IsChain Token.Apart
  follows : tokens.IsChain Token.Follows

/-! ## Tokens of lexemes -/

def assemble (literal : List Char) : List Lexeme → Except String (List Token)
  | [] => .ok (Heading.stretch literal)
  | .char c :: rest => assemble (c :: literal) rest
  | .name name :: rest =>
    match Token.ofName? name with
    | none => .error name
    | some token => (assemble [] rest).map fun tokens => Heading.stretch literal ++ token :: tokens

theorem head?_dropWhile_isAlpha (cs : List Char) :
    ∀ c ∈ (cs.dropWhile Char.isAlpha).head?, c.isAlpha = false := by
  intro c hc
  have hhead := List.head?_dropWhile_not Char.isAlpha cs
  rw [Option.mem_def.1 hc] at hhead
  exact hhead

namespace Heading

theorem parseFrom_letters (literal name : List Char) {letters : List Char}
    (hletters : ∀ c ∈ letters, c.isAlpha = true) (rest : List Char) :
    parseFrom (.name literal name) (letters ++ rest) =
      parseFrom (.name literal (letters.reverse ++ name)) rest := by
  induction letters generalizing name with
  | nil => rfl
  | cons c letters ih =>
    rw [List.cons_append, parseFrom, if_pos (hletters c List.mem_cons_self),
      ih _ fun c hc => hletters c (List.mem_cons_of_mem _ hc), List.reverse_cons,
      List.append_assoc]
    rfl

theorem parseFrom_name (literal name : List Char) {rest : List Char}
    (hrest : ∀ c ∈ rest.head?, c.isAlpha = false) :
    parseFrom (.name literal name) rest =
      match Token.ofName? (String.ofList name.reverse) with
      | none => .error (String.ofList name.reverse)
      | some token => (parseFrom (.text []) rest).map fun tokens =>
          stretch literal ++ token :: tokens := by
  cases rest with
  | nil =>
    simp only [parseFrom]
    cases Token.ofName? (String.ofList name.reverse) <;> rfl
  | cons c rest =>
    cases htoken : Token.ofName? (String.ofList name.reverse) <;>
      simp only [parseFrom, htoken, hrest c rfl, Bool.false_eq_true, ↓reduceIte]

theorem parseFrom_text (literal cs : List Char) :
    parseFrom (.text literal) cs = assemble literal (lexemes cs) := by
  fun_induction lexemes cs generalizing literal with
  | case1 => rfl
  | case2 c rest hc ih => rw [parseFrom, if_neg hc, ih, assemble]
  | case3 c rest hc hdoubled ih =>
    obtain rfl : c = '%' := Decidable.not_not.1 hc
    obtain ⟨more, rfl⟩ := List.head?_eq_some_iff.1 hdoubled
    rw [parseFrom, if_pos rfl, parseFrom, if_pos rfl, assemble]
    exact ih _
  | case4 c rest hc hdoubled hletters ih =>
    obtain rfl : c = '%' := Decidable.not_not.1 hc
    rw [parseFrom, if_pos rfl, assemble, ← ih]
    -- the character behind the percent sign is one of the text
    cases rest with
    | nil => rfl
    | cons d rest =>
      have hd : d ≠ '%' := fun heq => hdoubled (heq ▸ rfl)
      have halpha : d.isAlpha = false := by
        cases h : d.isAlpha with
        | false => rfl
        | true =>
          rw [List.takeWhile_cons_of_pos h] at hletters
          cases hletters
      simp only [parseFrom, if_neg hd, halpha, Bool.false_eq_true, ↓reduceIte]
  | case5 c rest hc hdoubled hletters ih =>
    obtain rfl : c = '%' := Decidable.not_not.1 hc
    have hmaximal := head?_dropWhile_isAlpha rest
    have hall := List.all_eq_true.1 (List.all_takeWhile (p := Char.isAlpha) (l := rest))
    have hsplit := List.takeWhile_append_dropWhile (p := Char.isAlpha) (l := rest)
    rw [parseFrom, if_pos rfl, assemble, ← ih]
    generalize rest.takeWhile Char.isAlpha = name at hletters hall hsplit
    generalize rest.dropWhile Char.isAlpha = behind at hmaximal hsplit
    subst hsplit
    obtain ⟨letter, letters, rfl⟩ := List.exists_cons_of_ne_nil hletters
    have hletter := hall letter List.mem_cons_self
    have hne : letter ≠ '%' := by
      rintro rfl
      exact absurd hletter (by decide)
    rw [List.cons_append, parseFrom, if_neg hne, if_pos hletter,
      parseFrom_letters _ _ (fun c hc => hall c (List.mem_cons_of_mem _ hc)),
      parseFrom_name _ _ hmaximal, List.reverse_append, List.reverse_reverse]
    rfl

theorem parse_eq (pattern : String) :
    parse pattern = (assemble [] (lexemes pattern.toList)).map Heading.mk := by
  rw [parse, parseFrom_text]

theorem parse_eq_ok_iff {pattern : String} {tokens : List Token} :
    parse pattern = .ok ⟨tokens⟩ ↔ assemble [] (lexemes pattern.toList) = .ok tokens := by
  rw [parse_eq]
  cases assemble [] (lexemes pattern.toList) with
  | error name => exact ⟨nofun, nofun⟩
  | ok read => exact ⟨fun h => by cases h; rfl, fun h => by cases h; rfl⟩

theorem parse_eq_error_iff {pattern name : String} :
    parse pattern = .error name ↔ assemble [] (lexemes pattern.toList) = .error name := by
  rw [parse_eq]
  cases assemble [] (lexemes pattern.toList) with
  | error other => exact ⟨fun h => by cases h; rfl, fun h => by cases h; rfl⟩
  | ok tokens => exact ⟨nofun, nofun⟩

end Heading

/-! ## Unknown names -/

theorem ofName?_eq_none_iff {name : String} : Token.ofName? name = none ↔ name ∉ directives := by
  unfold Token.ofName?
  split <;> simp_all [directives]

theorem lexemes_of_ofName? {name : String} {token : Token} (h : Token.ofName? name = some token) :
    token.isLiteral = false ∧ token.lexemes = [.name name] := by
  unfold Token.ofName? at h
  split at h
  case h_6 => cases h
  all_goals
    cases h
    exact ⟨rfl, rfl⟩

theorem assemble_eq_error_iff {literal : List Char} {ls : List Lexeme} {name : String} :
    assemble literal ls = .error name ↔ (unknownNames ls).head? = some name := by
  induction ls generalizing literal with
  | nil => exact ⟨nofun, nofun⟩
  | cons lexeme rest ih =>
    cases lexeme with
    | char c => exact ih
    | name other =>
      rw [assemble]
      cases htoken : Token.ofName? other with
      | none =>
        have hunknown : unknownNames (.name other :: rest) = other :: unknownNames rest := by
          simp only [unknownNames, List.filterMap_cons, if_neg (ofName?_eq_none_iff.1 htoken)]
        rw [hunknown, List.head?_cons, Except.error.injEq, Option.some.injEq]
      | some token =>
        have hknown : other ∈ directives := by
          by_contra hnot
          rw [ofName?_eq_none_iff.2 hnot] at htoken
          cases htoken
        have hsame : unknownNames (.name other :: rest) = unknownNames rest := by
          simp only [unknownNames, List.filterMap_cons, if_pos hknown]
        rw [hsame, ← @ih []]
        cases assemble [] rest with
        | error other => exact Iff.rfl
        | ok tokens => exact ⟨nofun, nofun⟩

/-! ## The shape of what is read -/

theorem stretch_cases (literal : List Char) :
    literal = [] ∧ Heading.stretch literal = [] ∨
      literal ≠ [] ∧ Heading.stretch literal = [.literal (String.ofList literal.reverse)] := by
  by_cases h : literal = []
  · exact .inl ⟨h, if_pos h⟩
  · exact .inr ⟨h, if_neg h⟩

theorem lexemes_stretch (literal : List Char) :
    (Heading.stretch literal).flatMap Token.lexemes = literal.reverse.map .char := by
  rcases stretch_cases literal with ⟨rfl, h⟩ | ⟨-, h⟩
  · rfl
  · rw [h, List.flatMap_singleton, Token.lexemes, String.toList_ofList]

theorem assemble_name_eq_ok {literal : List Char} {name : String} {rest : List Lexeme}
    {tokens : List Token} (h : assemble literal (.name name :: rest) = .ok tokens) :
    ∃ token more, Token.ofName? name = some token ∧ assemble [] rest = .ok more ∧
      tokens = Heading.stretch literal ++ token :: more := by
  rw [assemble] at h
  split at h
  · cases h
  · rename_i token htoken
    cases hrest : assemble [] rest with
    | error other =>
      rw [hrest] at h
      cases h
    | ok more =>
      rw [hrest] at h
      exact ⟨token, more, htoken, rfl, (Except.ok.inj h).symm⟩

theorem lexemes_of_assemble {literal : List Char} {ls : List Lexeme} {tokens : List Token}
    (h : assemble literal ls = .ok tokens) :
    tokens.flatMap Token.lexemes = literal.reverse.map .char ++ ls := by
  induction ls generalizing literal tokens with
  | nil =>
    obtain rfl := Except.ok.inj h
    rw [lexemes_stretch, List.append_nil]
  | cons lexeme rest ih =>
    cases lexeme with
    | char c =>
      rw [ih h, List.reverse_cons, List.map_append, List.append_assoc]
      rfl
    | name name =>
      obtain ⟨token, more, htoken, hrest, rfl⟩ := assemble_name_eq_ok h
      rw [List.flatMap_append, lexemes_stretch, List.flatMap_cons,
        (lexemes_of_ofName? htoken).2, ih hrest]
      rfl

/-- Texts are not empty, and between two of them there is a directive. -/
theorem shape_of_assemble {literal : List Char} {ls : List Lexeme} {tokens : List Token}
    (h : assemble literal ls = .ok tokens) :
    (∀ text, .literal text ∈ tokens → text.toList ≠ []) ∧
      tokens.IsChain Token.Apart := by
  have hstretch : ∀ literal text, .literal text ∈ Heading.stretch literal → text.toList ≠ [] := by
    intro literal text hmem
    rcases stretch_cases literal with ⟨rfl, h⟩ | ⟨hne, h⟩
    · cases hmem
    · rw [h, List.mem_singleton] at hmem
      cases hmem
      rw [String.toList_ofList]
      exact fun hnil => hne (List.reverse_eq_nil_iff.1 hnil)
  induction ls generalizing literal tokens with
  | nil =>
    obtain rfl := Except.ok.inj h
    refine ⟨hstretch literal, ?_⟩
    rcases stretch_cases literal with ⟨-, h⟩ | ⟨-, h⟩ <;> rw [h]
    · exact .nil
    · exact .singleton _
  | cons lexeme rest ih =>
    cases lexeme with
    | char c => exact ih h
    | name name =>
      obtain ⟨token, more, htoken, hrest, rfl⟩ := assemble_name_eq_ok h
      obtain ⟨hne, hapart⟩ := ih hrest
      have hfield := (lexemes_of_ofName? htoken).1
      have hmore : (token :: more).IsChain Token.Apart := by
        refine List.isChain_cons.2 ⟨fun b _ htext => ?_, hapart⟩
        rw [hfield] at htext
        cases htext
      constructor
      · intro text hmem
        rcases List.mem_append.1 hmem with hmem | hmem
        · exact hstretch literal text hmem
        · rcases List.mem_cons.1 hmem with rfl | hmem
          · cases hfield
          · exact hne text hmem
      · rcases stretch_cases literal with ⟨-, h⟩ | ⟨-, h⟩ <;> rw [h]
        · exact hmore
        · exact List.isChain_cons_cons.2 ⟨fun _ => hfield, hmore⟩

def Lexeme.Follows (a b : Lexeme) : Prop :=
  ∀ name c, a = .name name → b = .char c → c.isAlpha = false

theorem head?_lexemes (cs : List Char) (c : Char) :
    (lexemes cs).head? = some (.char c) → cs.head? = some c := by
  fun_cases lexemes cs with
  | case1 => exact nofun
  | case2 d rest hd =>
    intro h
    cases h
    rfl
  | case3 d rest hd | case4 d rest hd =>
    intro h
    cases h
    rw [Decidable.not_not.1 hd, List.head?_cons]
  | case5 d rest hd => exact nofun

theorem isChain_lexemes (cs : List Char) : (lexemes cs).IsChain Lexeme.Follows := by
  fun_induction lexemes cs with
  | case1 => exact .nil
  | case2 c rest hc ih => exact List.isChain_cons.2 ⟨nofun, ih⟩
  | case3 c rest hc hdoubled ih => exact List.isChain_cons.2 ⟨nofun, ih⟩
  | case4 c rest hc hdoubled hletters ih => exact List.isChain_cons.2 ⟨nofun, ih⟩
  | case5 c rest hc hdoubled hletters ih =>
    refine List.isChain_cons.2 ⟨?_, ih⟩
    rintro _ hhead name c - rfl
    exact head?_dropWhile_isAlpha rest c (head?_lexemes _ c hhead)

theorem exists_directive {token : Token} (h : token.isLiteral = false) :
    ∃ name, Token.ofName? name = some token ∧ token.lexemes = [.name name] ∧
      token.unparse = '%' :: name.toList ∧ name.toList ≠ [] ∧
      ∀ c ∈ name.toList, c.isAlpha = true := by
  cases token with
  | literal text => cases h
  | _ => exact ⟨_, rfl, rfl, rfl, by decide, List.all_eq_true.1 rfl⟩

theorem follows_of_lexemes {tokens : List Token}
    (h : (tokens.flatMap Token.lexemes).IsChain Lexeme.Follows) :
    tokens.IsChain Token.Follows := by
  induction tokens with
  | nil => exact .nil
  | cons a rest ih =>
    rw [List.flatMap_cons] at h
    obtain ⟨-, hrest, hlink⟩ := List.isChain_append.1 h
    refine List.isChain_cons.2 ⟨?_, ih hrest⟩
    rintro _ hb hfield text rfl c hc
    obtain ⟨name, -, hname, -⟩ := exists_directive hfield
    obtain ⟨more, rfl⟩ := List.head?_eq_some_iff.1 hb
    obtain ⟨cs, hcs⟩ := List.head?_eq_some_iff.1 hc
    refine hlink (.name name) (by rw [hname]; rfl) (.char c) ?_ name c rfl rfl
    rw [List.flatMap_cons, Token.lexemes, hcs]
    rfl

theorem assemble_chars (literal cs : List Char) (rest : List Lexeme) :
    assemble literal (cs.map .char ++ rest) = assemble (cs.reverse ++ literal) rest := by
  induction cs generalizing literal with
  | nil => rfl
  | cons c cs ih =>
    rw [List.reverse_cons, List.append_assoc]
    exact ih (c :: literal)

theorem assemble_name (literal : List Char) (name : String) (rest : List Lexeme) :
    assemble literal (.name name :: rest) =
      (assemble [] (.name name :: rest)).map (Heading.stretch literal ++ ·) := by
  rw [assemble, assemble]
  cases Token.ofName? name with
  | none => rfl
  | some token => cases assemble [] rest <;> rfl

/-- Tokens of this shape are what their lexemes are put together to. -/
theorem assemble_lexemes {tokens : List Token}
    (hne : ∀ text, .literal text ∈ tokens → text.toList ≠ [])
    (hapart : tokens.IsChain Token.Apart) :
    assemble [] (tokens.flatMap Token.lexemes) = .ok tokens := by
  induction tokens with
  | nil => rfl
  | cons a rest ih =>
    obtain ⟨hlink, hrest⟩ := List.isChain_cons.1 hapart
    have hassembled := ih (fun text hmem => hne text (.tail _ hmem)) hrest
    rw [List.flatMap_cons]
    cases ha : a.isLiteral with
    | false =>
      obtain ⟨name, htoken, hname, -⟩ := exists_directive ha
      rw [hname, List.singleton_append, assemble, htoken]
      simp only [hassembled]
      rfl
    | true =>
      obtain ⟨text, rfl⟩ : ∃ text, a = .literal text := by
        cases a with
        | literal text => exact ⟨text, rfl⟩
        | _ => cases ha
      have hstretch : Heading.stretch text.toList.reverse = [.literal text] := by
        rw [Heading.stretch, if_neg fun hnil => hne text List.mem_cons_self
          (List.reverse_eq_nil_iff.1 hnil), List.reverse_reverse, String.ofList_toList]
      rw [Token.lexemes, assemble_chars, List.append_nil]
      cases rest with
      | nil => rw [List.flatMap_nil, assemble, hstretch]
      | cons b more =>
        obtain ⟨name, -, hname, -⟩ := exists_directive (hlink b rfl ha)
        rw [List.flatMap_cons, hname, List.singleton_append] at hassembled ⊢
        rw [assemble_name, hassembled, hstretch]
        rfl

/-! ## Writing a pattern out -/

theorem lexemes_unparse_literal (cs rest : List Char) :
    lexemes ((cs.flatMap fun c => if c = '%' then ['%', '%'] else [c]) ++ rest) =
      cs.map .char ++ lexemes rest := by
  induction cs with
  | nil => rfl
  | cons c cs ih =>
    rw [List.flatMap_cons, List.append_assoc, List.map_cons, List.cons_append, ← ih]
    by_cases hc : c = '%'
    · rw [if_pos hc, hc]
      simp [lexemes]
    · rw [if_neg hc]
      simp [lexemes, hc]

theorem lexemes_directive {name rest : List Char} (hne : name ≠ [])
    (hletters : ∀ c ∈ name, c.isAlpha = true) (hrest : ∀ c ∈ rest.head?, c.isAlpha = false) :
    lexemes ('%' :: (name ++ rest)) = .name (String.ofList name) :: lexemes rest := by
  have hnone : rest.takeWhile Char.isAlpha = [] ∧ rest.dropWhile Char.isAlpha = rest := by
    cases rest with
    | nil => exact ⟨rfl, rfl⟩
    | cons c rest =>
      have hc : ¬c.isAlpha = true := by simp [hrest c rfl]
      exact ⟨List.takeWhile_cons_of_neg hc, List.dropWhile_cons_of_neg hc⟩
  have htake : (name ++ rest).takeWhile Char.isAlpha = name := by
    rw [List.takeWhile_append_of_pos hletters, hnone.1, List.append_nil]
  have hdrop : (name ++ rest).dropWhile Char.isAlpha = rest := by
    rw [List.dropWhile_append_of_pos hletters, hnone.2]
  have hhead : (name ++ rest).head? ≠ some '%' := by
    obtain ⟨c, cs, rfl⟩ := List.exists_cons_of_ne_nil hne
    rintro h
    cases h
    exact absurd (hletters '%' List.mem_cons_self) (by decide)
  rw [lexemes, if_neg (by decide), if_neg hhead, htake, if_neg hne, hdrop]

theorem head?_unparse {tokens : List Token} {a : Token} (ha : a.isLiteral = false)
    (hne : ∀ text, .literal text ∈ tokens → text.toList ≠ [])
    (hlink : ∀ b ∈ tokens.head?, a.Follows b) :
    ∀ c ∈ (tokens.flatMap Token.unparse).head?, c.isAlpha = false := by
  intro c hc
  cases tokens with
  | nil => cases hc
  | cons b more =>
    rw [List.flatMap_cons] at hc
    cases hb : b.isLiteral with
    | false =>
      obtain ⟨name, -, -, hunparse, -⟩ := exists_directive hb
      rw [hunparse] at hc
      cases hc
      rfl
    | true =>
      cases b with
      | literal text =>
        obtain ⟨d, cs, htext⟩ := List.exists_cons_of_ne_nil (hne text List.mem_cons_self)
        rw [Token.unparse, htext, List.flatMap_cons] at hc
        split at hc
        · cases hc
          rfl
        · cases hc
          exact hlink _ rfl ha text rfl c (by rw [htext]; rfl)
      | _ => cases hb

theorem lexemes_unparse {tokens : List Token}
    (hne : ∀ text, .literal text ∈ tokens → text.toList ≠ [])
    (hfollows : tokens.IsChain Token.Follows) :
    lexemes (tokens.flatMap Token.unparse) = tokens.flatMap Token.lexemes := by
  induction tokens with
  | nil => rw [List.flatMap_nil, lexemes]; rfl
  | cons a rest ih =>
    obtain ⟨hlink, hrest⟩ := List.isChain_cons.1 hfollows
    have hmore : ∀ text, .literal text ∈ rest → text.toList ≠ [] :=
      fun text hmem => hne text (.tail _ hmem)
    rw [List.flatMap_cons, List.flatMap_cons, ← ih hmore hrest]
    cases ha : a.isLiteral with
    | false =>
      obtain ⟨name, -, hname, hunparse, hnonempty, hletters⟩ := exists_directive ha
      rw [hunparse, hname, List.cons_append,
        lexemes_directive hnonempty hletters (head?_unparse ha hmore hlink), String.ofList_toList]
      rfl
    | true =>
      cases a with
      | literal text => exact lexemes_unparse_literal text.toList _
      | _ => cases ha

/-! ## Writing a heading -/

theorem twoDigits_zero {n : Nat} (hn : n < 100) :
    Stamp.twoDigits .zero n = zeroPad 2 (decimal n) := by
  have hall : ∀ n < 100, Stamp.twoDigits .zero n = zeroPad 2 (decimal n) := by decide
  exact hall n hn

theorem patterned?_of_items {stamp : Stamp} {pattern : String} {items : List Item}
    {text : List Char} (hparse : Pattern.parse? pattern = some items)
    (hitems : stamp.itemsText items = some text)
    (hlength : (utf8.encodeChars text).length ≤ Stamp.scratchSize) :
    stamp.patterned? pattern = some text := by
  rw [Stamp.patterned?, hparse, Option.bind_some, hitems]
  exact if_pos hlength

def timeItems : List Item :=
  [.numeric .hour .zero, .literal ':', .numeric .minute .zero, .literal ':',
    .numeric .second .zero, .fractionDigits true 3]

theorem Token.toList_text_time (r : Record) :
    (Token.time.text r).toList = Token.time.shown r := by
  have hsecond := r.timestamp.time.second_lt
  have hnanos := r.timestamp.time.nanos_lt
  have hhour : r.timestamp.time.hour < 10 ^ 2 := by
    rw [Time.hour]
    omega
  have hminute : r.timestamp.time.minute < 10 ^ 2 := by
    rw [Time.minute]
    omega
  have hsecondOfMinute : r.timestamp.time.secondOfMinute < 10 ^ 2 := by
    rw [Time.secondOfMinute]
    simp only [billion] at hnanos ⊢
    omega
  have hmillisecond : r.timestamp.time.subsecond / 1000000 < 10 ^ 3 := by
    rw [Time.subsecond]
    simp only [billion]
    omega
  have hcount : (Token.time.shown r).length = 12 := by
    simp only [Token.shown, List.length_append, List.length_cons,
      length_zeroPad_decimal (by decide : 0 < 2) hhour,
      length_zeroPad_decimal (by decide : 0 < 2) hminute,
      length_zeroPad_decimal (by decide : 0 < 2) hsecondOfMinute,
      length_zeroPad_decimal (by decide : 0 < 3) hmillisecond]
  have hlength : (utf8.encodeChars (Token.time.shown r)).length ≤ Stamp.scratchSize := by
    have hle := Utf8.length_encodeChars_le (Token.time.shown r)
    rw [hcount] at hle
    exact Nat.le_trans hle (by decide)
  have hitems : (Stamp.utc r.timestamp).itemsText timeItems = some (Token.time.shown r) := by
    rw [Token.shown, ← twoDigits_zero hhour, ← twoDigits_zero hminute,
      ← twoDigits_zero hsecondOfMinute]
    simp only [timeItems, Stamp.itemsText, Stamp.itemText, Stamp.numericText, Stamp.time?,
      Option.map_some, ↓reduceIte, List.append_assoc, List.append_nil]
    rfl
  have htext : Token.time.text r =
      String.ofList (((Stamp.utc r.timestamp).patterned? "%H:%M:%S%.3f").getD []) := rfl
  rw [htext, patterned?_of_items (by decide) hitems hlength, String.toList_ofList,
    Option.getD_some]

theorem Token.toList_text (r : Record) (token : Token) : (token.text r).toList = token.shown r := by
  cases token with
  | literal text => rfl
  | date => exact String.toList_ofList
  | time => exact toList_text_time r
  | level => rfl
  | logger =>
    rw [text, shown]
    cases r.loggerName <;> rfl
  | thread =>
    rw [text, shown]
    cases r.thread <;> rfl

theorem Heading.toList_text (h : Heading) (r : Record) :
    (h.text r).toList = h.tokens.flatMap (Token.shown r) := by
  have hjoin : (h.text r).toList = (h.tokens.map (Token.text r)).flatMap String.toList :=
    String.toList_join
  rw [hjoin, List.flatMap_map]
  simp only [Token.toList_text]

theorem Formatter.writes_heading (f : Formatter) (r : Record) :
    Output.Writes (fun out : Output utf8 => out.writeAll (f.heading.tokens.map (Token.text r)))
      (f.heading.tokens.flatMap (Token.shown r)) := by
  have hwrites := Output.writes_writeAll (e := utf8) (f.heading.tokens.map (Token.text r))
  rw [List.flatMap_map] at hwrites
  simp only [Token.toList_text] at hwrites
  exact hwrites

/-- With room for the heading, a line goes on behind it like one without a heading. -/
theorem Formatter.writeTo_heading (f : Formatter) (registry : Registry) (r : Record)
    {out : Output utf8}
    (h : out.hasRoom (utf8.encodeChars (f.heading.tokens.flatMap (Token.shown r))).length = true) :
    f.writeTo registry r out =
      { f with heading := ⟨[]⟩ }.writeTo registry r
        (out.add (f.heading.tokens.flatMap (Token.shown r))) := by
  rw [← Heading.toList_text] at h ⊢
  have hnone : (Heading.text ⟨[]⟩ r).toList = [] := by
    rw [Heading.toList_text]
    rfl
  have hempty : (out.add (f.heading.text r).toList).hasRoom
      (utf8.encodeChars (Heading.text ⟨[]⟩ r).toList).length = true := by
    rw [hnone, Output.hasRoom_add]
    exact h
  rw [writeTo, writeTo, Output.write_of_hasRoom h, Output.write_of_hasRoom hempty, hnone,
    Output.add_nil]
  rfl

namespace Heading

/-- A pattern is refused for the first of its names that is unknown. Any other is taken for the one
list of tokens of canonical shape that says what it says, and from such a list a pattern can be
written that is read as the list again. A heading is what its tokens contribute, one after the
other, and stands in front of what is written without it. -/
theorem parse_exact :
    (∀ pattern : String,
      (∀ name, parse pattern = .error name ↔
        (unknownNames (lexemes pattern.toList)).head? = some name) ∧
      ∀ tokens, parse pattern = .ok ⟨tokens⟩ ↔
        Canonical tokens ∧ tokens.flatMap Token.lexemes = lexemes pattern.toList) ∧
    (∀ tokens, Canonical tokens →
      parse (String.ofList (tokens.flatMap Token.unparse)) = .ok ⟨tokens⟩) ∧
    ∀ (f : Formatter) (r : Record),
      let shown := f.heading.tokens.flatMap (Token.shown r)
      Output.Writes (fun out : Output utf8 => out.writeAll (f.heading.tokens.map (Token.text r)))
        shown ∧
      ∀ (registry : Registry) (out : Output utf8),
        out.hasRoom (utf8.encodeChars shown).length = true →
          f.writeTo registry r out =
            { f with heading := ⟨[]⟩ }.writeTo registry r (out.add shown) := by
  have hok : ∀ (pattern : String) tokens, parse pattern = .ok ⟨tokens⟩ ↔
      Canonical tokens ∧ tokens.flatMap Token.lexemes = lexemes pattern.toList := by
    intro pattern tokens
    rw [parse_eq_ok_iff]
    constructor
    · intro h
      obtain ⟨hne, hapart⟩ := shape_of_assemble h
      have hlexemes : tokens.flatMap Token.lexemes = lexemes pattern.toList :=
        lexemes_of_assemble h
      have hchain := isChain_lexemes pattern.toList
      rw [← hlexemes] at hchain
      exact ⟨⟨hne, hapart, follows_of_lexemes hchain⟩, hlexemes⟩
    · rintro ⟨hcanonical, hlexemes⟩
      rw [← hlexemes]
      exact assemble_lexemes hcanonical.literal_ne hcanonical.apart
  refine ⟨fun pattern => ⟨fun name => ?_, hok pattern⟩, fun tokens hcanonical => ?_,
    fun f r => ⟨f.writes_heading r, fun registry out h => f.writeTo_heading registry r h⟩⟩
  · rw [parse_eq_error_iff, assemble_eq_error_iff]
  · refine (hok _ tokens).2 ⟨hcanonical, ?_⟩
    rw [String.toList_ofList, lexemes_unparse hcanonical.literal_ne hcanonical.follows]

/-- Percent signs in a text, at the end of a pattern and behind a name. -/
theorem parse_exact_percent_signs :
    let tokens : List Token := [.level, .literal "|", .thread, .literal " 100% %"]
    let f : Formatter := { heading := ⟨tokens⟩, settings := {} }
    let r := (Record.create (Segment.zeroed 64) 4 0).reset none .warn .epoch "main"
    let out := Output.bounded utf8 20
    parse "%level|%thread 100%% %%" = .ok ⟨tokens⟩ ∧ parse "%date%% %bogus" = .error "bogus" ∧
      out.writeAll (tokens.map (Token.text r)) = (out.add "WARN|main 100% %".toList, true) ∧
      f.writeTo .empty r out =
        { f with heading := ⟨[]⟩ }.writeTo .empty r (out.add "WARN|main 100% %".toList) := by
  intro tokens f r out
  obtain ⟨hparse, hunparse, hwritten⟩ := parse_exact
  have hcanonical : Canonical tokens := by
    refine ⟨?_, ?_, ?_⟩
    · intro text htext
      simp only [tokens, List.mem_cons, Token.literal.injEq, reduceCtorEq, List.not_mem_nil,
        false_or, or_false] at htext
      rcases htext with rfl | rfl <;> decide
    · simp [tokens, Token.Apart, Token.isLiteral]
    · simp [tokens, Token.Follows, Token.isLiteral]
  have hshown : tokens.flatMap (Token.shown r) = "WARN|main 100% %".toList := by decide
  have hroom : out.hasRoom (utf8.encodeChars (tokens.flatMap (Token.shown r))).length = true := by
    rw [hshown]
    decide
  obtain ⟨hwrites, hfollowed⟩ := hwritten f r
  refine ⟨hunparse tokens hcanonical, ((hparse _).1 "bogus").2 ?_, ?_, ?_⟩
  · simp [lexemes, unknownNames, directives]
  · rw [← hshown]
    exact hwrites.of_hasRoom out hroom
  · rw [← hshown]
    exact hfollowed .empty out hroom

end Heading
end Logbook.Line
