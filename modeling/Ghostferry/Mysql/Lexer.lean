import Mathlib.Data.List.Basic
import Mathlib.Algebra.Field.Rat

/-!
# MySQL's lexing of literals

The statements the `BinlogWriter` sends carry row values as literals, and what the server makes of
them is decided by its lexer. This module models the part of MySQL's lexer that reads literals:
`NULL`, a number with an optional sign, a single-quoted string and a `_binary` string. A number is
a decimal integer, or, with a fraction after a point or an exponent after `e`, a number that
stands for the exact value its digits write (`Value.real`).

Inside a string literal a doubled quote `''` stands for one quote. Unless the session's `sql_mode`
contains `NO_BACKSLASH_ESCAPES`, a backslash also starts an escape sequence: `\c` stands for the
character of MySQL's table of special character escape sequences (`\n` a newline, `\0` a NUL, ...),
for `c` itself otherwise, and for both characters when `c` is `%` or `_`. In particular `\'` is a
quote that does not end the string. With `NO_BACKSLASH_ESCAPES` a backslash is an ordinary
character.

`lexValues` reads a comma-separated list of literals, the text between the parentheses of an
`INSERT ... VALUES (...)`.
-/

namespace Mysql

/-! ## Modes -/

/-- Whether a session with this `sql_mode` reads backslashes in strings as escapes. -/
def backslashEscapes (mode : List String) : Bool := decide ("NO_BACKSLASH_ESCAPES" ∉ mode)

/-- The names of the modes in the value of `SET sql_mode=v`: the quoted, comma-separated list. -/
def sqlModeNames (v : String) : List String :=
  ((v.toList.filter (· ≠ '\'')).splitOn ',').map String.ofList

/-- MySQL 5.7's default `sql_mode`, the mode of a session that does not set its own. -/
def defaultSqlMode : List String :=
  ["ONLY_FULL_GROUP_BY", "STRICT_TRANS_TABLES", "NO_ZERO_IN_DATE", "NO_ZERO_DATE",
    "ERROR_FOR_DIVISION_BY_ZERO", "NO_AUTO_CREATE_USER", "NO_ENGINE_SUBSTITUTION"]

theorem backslashEscapes_defaultSqlMode : backslashEscapes defaultSqlMode = true := by decide

/-! ## String literals -/

/-- The characters an escape sequence `\c` stands for. -/
def unescape (c : Char) : List Char :=
  match c with
  | '0' => [Char.ofNat 0]
  | 'b' => [Char.ofNat 8]
  | 'n' => ['\n']
  | 'r' => ['\r']
  | 't' => ['\t']
  | 'Z' => [Char.ofNat 26]
  | '%' => ['\\', '%']
  | '_' => ['\\', '_']
  | c => [c]

/-- The body of a single-quoted string literal, read after its opening quote: the characters the
literal stands for and the text after its closing quote; `none` for a literal that does not end.
The first argument says whether backslashes are escapes. -/
def stringBody : Bool → List Char → Option (List Char × List Char)
  | _, [] => none
  | e, '\'' :: '\'' :: rest => (stringBody e rest).map fun p => ('\'' :: p.1, p.2)
  | _, '\'' :: rest => some ([], rest)
  | true, '\\' :: c :: rest => (stringBody true rest).map fun p => (unescape c ++ p.1, p.2)
  | true, ['\\'] => none
  | e, c :: rest => (stringBody e rest).map fun p => (c :: p.1, p.2)

section StringBody

variable {escapes : Bool} {rest : List Char}

@[simp]
theorem stringBody_quote_quote :
    stringBody escapes ('\'' :: '\'' :: rest) =
      (stringBody escapes rest).map fun p => ('\'' :: p.1, p.2) := by
  simp [stringBody]

theorem stringBody_close (h : rest.head? ≠ some '\'') :
    stringBody escapes ('\'' :: rest) = some ([], rest) := by
  match rest, h with
  | [], _ => simp [stringBody]
  | c :: rest, h =>
    have hc : c ≠ '\'' := by simpa using h
    simp [stringBody, hc]

@[simp]
theorem stringBody_backslash_escape (c : Char) :
    stringBody true ('\\' :: c :: rest) =
      (stringBody true rest).map fun p => (unescape c ++ p.1, p.2) := by
  simp [stringBody]

/-- A character that is not a quote, nor a backslash read as an escape, stands for itself. -/
theorem stringBody_plain {c : Char} (hq : c ≠ '\'') (hb : ¬(escapes = true ∧ c = '\\')) :
    stringBody escapes (c :: rest) = (stringBody escapes rest).map fun p => (c :: p.1, p.2) := by
  rw [stringBody.eq_def]
  split <;> simp_all

@[simp]
theorem stringBody_backslash_plain :
    stringBody false ('\\' :: rest) = (stringBody false rest).map fun p => ('\\' :: p.1, p.2) :=
  stringBody_plain (by decide) (by simp)

/-- What follows a literal is shorter than the literal's text. -/
theorem length_lt_of_stringBody {text : List Char} {p : List Char × List Char}
    (h : stringBody escapes text = some p) : p.2.length < text.length := by
  induction escapes, text using stringBody.induct generalizing p with
  | case1 => simp [stringBody] at h
  | case2 e rest' ih =>
    rw [stringBody_quote_quote] at h
    obtain ⟨q, hq, rfl⟩ := Option.map_eq_some_iff.mp h
    have := ih hq
    simp only [List.length_cons]
    omega
  | case3 e rest' hq =>
    rw [stringBody_close (by cases rest' <;> simp_all)] at h
    obtain rfl := Option.some.inj h
    simp
  | case4 c rest' ih =>
    rw [stringBody_backslash_escape] at h
    obtain ⟨q, hq, rfl⟩ := Option.map_eq_some_iff.mp h
    have := ih hq
    simp only [List.length_cons]
    omega
  | case5 => simp [stringBody] at h
  | case6 e c rest' _ hq hb₁ hb₂ ih =>
    -- a backslash read as an escape has its own cases above
    have hb : ¬(e = true ∧ c = '\\') := by
      rintro ⟨he, hc⟩
      cases rest' with
      | nil => exact hb₂ he hc rfl
      | cons d ds => exact hb₁ d ds he hc rfl
    rw [stringBody_plain hq hb] at h
    obtain ⟨q, hq, rfl⟩ := Option.map_eq_some_iff.mp h
    have := ih hq
    simp only [List.length_cons]
    omega

end StringBody

/-! ## Literals -/

/-- A literal as the server reads it. -/
inductive Literal where
  | null
  /-- A decimal integer, by its text: an optional minus sign and the digits. -/
  | number (text : List Char)
  /-- A number with a point or an exponent: its sign, the digits before and after the point, and
  the exponent. -/
  | real (neg : Bool) (intPart fracPart : List Char) (exponent : ℤ)
  | string (s : List Char)
  /-- A string with the `_binary` introducer. -/
  | binary (b : List Char)
  deriving DecidableEq, Repr

/-- A value of the server's, as a literal gives it. -/
inductive Value where
  | null
  | int (n : Int)
  /-- A number written with a point or an exponent, by the exact value of its digits. -/
  | real (q : ℚ)
  | string (s : List Char)
  | binary (b : List Char)
  deriving DecidableEq, Repr

/-- The value a literal stands for. -/
def Literal.denote : Literal → Value
  | .null => .null
  | .number ('-' :: ds) => .int (-(Nat.ofDigitChars 10 ds 0 : Int))
  | .number ds => .int (Nat.ofDigitChars 10 ds 0)
  | .real neg intPart fracPart exponent =>
    .real ((if neg then -1 else 1) * (Nat.ofDigitChars 10 (intPart ++ fracPart) 0 : ℚ) *
      10 ^ (exponent - fracPart.length))
  | .string s => .string s
  | .binary b => .binary b

theorem denote_number {ds : List Char} (h : ds.head? ≠ some '-') :
    (Literal.number ds).denote = .int (Nat.ofDigitChars 10 ds 0) := by
  rw [Literal.denote.eq_def]
  split <;> simp_all

/-- Whether a character continues an identifier or a keyword. -/
def isIdentChar (c : Char) : Bool := c.isAlphanum || c == '_' || c == '$'

/-- Whether the text starts with a character that would continue a keyword or a number before
it. -/
def continuesToken (text : List Char) : Bool :=
  match text with
  | [] => false
  | c :: _ => isIdentChar c

/-- Whether `text` can follow a literal without running into it: it continues no keyword or
number, it does not start with a point that would be read as a number's fraction, and it does not
start with a quote that would be read as the second half of `''`. -/
def delimits (text : List Char) : Bool :=
  !continuesToken text && text.head? != some '.' && text.head? != some '\''

@[simp]
theorem delimits_nil : delimits [] = true := rfl

@[simp]
theorem delimits_comma (text : List Char) : delimits (',' :: text) = true := rfl

@[simp]
theorem delimits_space (text : List Char) : delimits (' ' :: text) = true := rfl

@[simp]
theorem delimits_paren (text : List Char) : delimits (')' :: text) = true := rfl

/-- The fraction of a number at the start of `text`: a point and the digits after it, with the
text after them; `none` and the text itself when there is no point. -/
def lexFraction : List Char → Option (List Char) × List Char
  | '.' :: rest => (some (rest.takeWhile Char.isDigit), rest.dropWhile Char.isDigit)
  | rest => (none, rest)

/-- The sign of an exponent, `true` for a minus, and the text after it. -/
def exponentSign : List Char → Bool × List Char
  | '-' :: rest => (true, rest)
  | '+' :: rest => (false, rest)
  | rest => (false, rest)

/-- The exponent of a number at the start of `text`: `e` or `E`, an optional sign and at least one
digit; with the text after it. -/
def lexExponent : List Char → Option (ℤ × List Char)
  | c :: rest =>
    if c = 'e' ∨ c = 'E' then
      let digits := (exponentSign rest).2.takeWhile Char.isDigit
      if digits = [] then none
      else
        some ((if (exponentSign rest).1 then -1 else 1) * (Nat.ofDigitChars 10 digits 0 : ℤ),
          (exponentSign rest).2.dropWhile Char.isDigit)
    else none
  | [] => none

/-- The parts of a number at the start of `text`: its digits, the fraction after a point, the
exponent, and the text after the number. -/
def numberParts (text : List Char) : List Char × Option (List Char) × Option ℤ × List Char :=
  match lexExponent (lexFraction (text.dropWhile Char.isDigit)).2 with
  | some (e, rest) =>
    (text.takeWhile Char.isDigit, (lexFraction (text.dropWhile Char.isDigit)).1, some e, rest)
  | none =>
    (text.takeWhile Char.isDigit, (lexFraction (text.dropWhile Char.isDigit)).1, none,
      (lexFraction (text.dropWhile Char.isDigit)).2)

/-- The literal at the start of `text` and the text after it. -/
def lexLiteral (escapes : Bool) (text : List Char) : Option (Literal × List Char) :=
  match text with
  | 'N' :: 'U' :: 'L' :: 'L' :: rest => if continuesToken rest then none else some (.null, rest)
  | '_' :: 'b' :: 'i' :: 'n' :: 'a' :: 'r' :: 'y' :: '\'' :: rest =>
    (stringBody escapes rest).map fun p => (.binary p.1, p.2)
  | '\'' :: rest => (stringBody escapes rest).map fun p => (.string p.1, p.2)
  | '-' :: rest => lexDigits ['-'] rest
  | rest => lexDigits [] rest
where
  /-- The number at the start of `text` after `sign`: at least one digit, with no identifier
  character after it; an integer, or a real number when it has a fraction or an exponent. -/
  lexDigits (sign text : List Char) : Option (Literal × List Char) :=
    match numberParts text with
    | (digits, fraction, exponent, rest) =>
      if digits = [] ∨ continuesToken rest then none
      else if fraction.isSome || exponent.isSome then
        some (.real (!sign.isEmpty) digits (fraction.getD []) (exponent.getD 0), rest)
      else some (.number (sign ++ digits), rest)

/-! ### Reading each kind of literal -/

section Shapes

variable {escapes : Bool} {rest : List Char}

theorem continuesToken_of_isDigit {c : Char} {text : List Char} (hc : c.isDigit = true) :
    continuesToken (c :: text) = true := by
  simp [continuesToken, isIdentChar, Char.isAlphanum, hc]

/-- A text that delimits a literal starts with no digit, point or exponent. -/
theorem head_of_delimits (hr : delimits rest = true) :
    rest.takeWhile Char.isDigit = [] ∧ rest.dropWhile Char.isDigit = rest ∧
      lexFraction rest = (none, rest) ∧ lexExponent rest = none := by
  match rest, hr with
  | [], _ => exact ⟨rfl, rfl, rfl, rfl⟩
  | c :: cs, hr =>
    simp only [delimits, continuesToken, Bool.and_eq_true, Bool.not_eq_true',
      List.head?_cons] at hr
    have hal : c.isAlphanum = false := by
      have hid := hr.1.1
      simp only [isIdentChar, Bool.or_eq_false_iff] at hid
      exact hid.1.1
    have hpt : c ≠ '.' := by simpa using hr.1.2
    -- a digit and the letters of an exponent are alphanumeric
    have hd : c.isDigit = false := by
      cases hd : c.isDigit
      · rfl
      · simp [Char.isAlphanum, hd] at hal
    have he : ¬(c = 'e' ∨ c = 'E') := by
      rintro (rfl | rfl) <;> revert hal <;> decide
    refine ⟨List.takeWhile_cons_of_neg (by simp [hd]), List.dropWhile_cons_of_neg (by simp [hd]),
      ?_, by simp [lexExponent, he]⟩
    unfold lexFraction
    split
    · rename_i heq
      cases heq
      exact absurd rfl hpt
    · rfl

theorem lexDigits_append {sign ds : List Char} (hne : ds ≠ [])
    (hds : ∀ c ∈ ds, c.isDigit = true) (hr : delimits rest = true) :
    lexLiteral.lexDigits sign (ds ++ rest) = some (.number (sign ++ ds), rest) := by
  -- the digits stop where `rest` begins, and nothing after them is a fraction or an exponent
  obtain ⟨htake, hdrop, hfrac, hexp⟩ := head_of_delimits hr
  have hc : continuesToken rest = false := by simp_all [delimits]
  simp [lexLiteral.lexDigits, numberParts, List.takeWhile_append_of_pos hds,
    List.dropWhile_append_of_pos hds, htake, hdrop, hfrac, hexp, hne, hc]

@[simp]
theorem lexLiteral_null (hr : continuesToken rest = false) :
    lexLiteral escapes ('N' :: 'U' :: 'L' :: 'L' :: rest) = some (.null, rest) := by
  simp [lexLiteral, hr]

@[simp]
theorem lexLiteral_string (text : List Char) :
    lexLiteral escapes ('\'' :: text) =
      (stringBody escapes text).map fun p => (.string p.1, p.2) := by
  simp [lexLiteral]

@[simp]
theorem lexLiteral_binary (text : List Char) :
    lexLiteral escapes ('_' :: 'b' :: 'i' :: 'n' :: 'a' :: 'r' :: 'y' :: '\'' :: text) =
      (stringBody escapes text).map fun p => (.binary p.1, p.2) := by
  simp [lexLiteral]

/-- A text that starts with a digit is read as a number. -/
theorem lexLiteral_of_isDigit (escapes : Bool) {c : Char} {text : List Char}
    (hc : c.isDigit = true) :
    lexLiteral escapes (c :: text) = lexLiteral.lexDigits [] (c :: text) := by
  unfold lexLiteral
  split <;> simp_all

theorem lexLiteral_digits (escapes : Bool) {ds : List Char} (hne : ds ≠ [])
    (hds : ∀ c ∈ ds, c.isDigit = true) (hr : delimits rest = true) :
    lexLiteral escapes (ds ++ rest) = some (.number ds, rest) := by
  obtain ⟨c, cs, rfl⟩ := List.exists_cons_of_ne_nil hne
  rw [List.cons_append, lexLiteral_of_isDigit escapes (hds c List.mem_cons_self),
    ← List.cons_append, lexDigits_append hne hds hr, List.nil_append]

theorem lexLiteral_neg_digits (escapes : Bool) {ds : List Char} (hne : ds ≠ [])
    (hds : ∀ c ∈ ds, c.isDigit = true) (hr : delimits rest = true) :
    lexLiteral escapes ('-' :: (ds ++ rest)) = some (.number ('-' :: ds), rest) := by
  rw [lexLiteral, lexDigits_append hne hds hr]
  rfl

end Shapes

/-! ### Every literal takes some text -/

theorem lexFraction_suffix (text : List Char) : (lexFraction text).2 <:+ text := by
  unfold lexFraction
  split
  · exact (List.dropWhile_suffix _).trans (List.suffix_cons _ _)
  · exact List.suffix_refl _

theorem exponentSign_suffix (text : List Char) : (exponentSign text).2 <:+ text := by
  unfold exponentSign
  split
  · exact List.suffix_cons _ _
  · exact List.suffix_cons _ _
  · exact List.suffix_refl _

theorem lexExponent_suffix {text rest : List Char} {e : ℤ}
    (h : lexExponent text = some (e, rest)) : rest <:+ text := by
  match text, h with
  | c :: cs, h =>
    simp only [lexExponent] at h
    -- the exponent's digits come after its sign, and the rest after them
    have hsuf : (exponentSign cs).2.dropWhile Char.isDigit <:+ c :: cs :=
      ((List.dropWhile_suffix _).trans (exponentSign_suffix cs)).trans (List.suffix_cons _ _)
    split_ifs at h
    all_goals
      obtain ⟨-, rfl⟩ := Prod.mk.inj (Option.some.inj h)
      exact hsuf

/-- What follows a number is what follows its digits, or less. -/
theorem numberParts_suffix (text : List Char) :
    (numberParts text).2.2.2 <:+ text.dropWhile Char.isDigit := by
  unfold numberParts
  split
  · rename_i e rest' hexp
    exact (lexExponent_suffix hexp).trans (lexFraction_suffix _)
  · exact lexFraction_suffix _

theorem length_lt_of_lexDigits {sign text rest : List Char} {l : Literal}
    (h : lexLiteral.lexDigits sign text = some (l, rest)) : rest.length < text.length := by
  have hparts : (numberParts text).1 = text.takeWhile Char.isDigit := by
    unfold numberParts
    split <;> rfl
  unfold lexLiteral.lexDigits at h
  split at h
  rename_i digits fraction exponent rest' hnum
  have hsuf : rest' <:+ text.dropWhile Char.isDigit := by
    simpa [hnum] using numberParts_suffix text
  rw [hnum] at hparts
  split_ifs at h with hd hr
  all_goals
    obtain ⟨-, rfl⟩ := Prod.mk.inj (Option.some.inj h)
    have hsplit :=
      congrArg List.length (List.takeWhile_append_dropWhile (p := Char.isDigit) (l := text))
    have hpos : 0 < (text.takeWhile Char.isDigit).length :=
      List.length_pos_of_ne_nil (hparts ▸ (not_or.mp hd).1)
    rw [List.length_append] at hsplit
    have := hsuf.length_le
    omega

/-- Every literal is at least one character long. -/
theorem length_lt_of_lexLiteral {escapes : Bool} {text rest : List Char} {l : Literal}
    (h : lexLiteral escapes text = some (l, rest)) : rest.length < text.length := by
  unfold lexLiteral at h
  split at h
  · split at h
    · simp at h
    · obtain ⟨-, rfl⟩ := Prod.mk.inj (Option.some.inj h)
      simp only [List.length_cons]
      omega
  · obtain ⟨q, hq, hqe⟩ := Option.map_eq_some_iff.mp h
    have := length_lt_of_stringBody hq
    rw [← (Prod.mk.inj hqe).2]
    simp only [List.length_cons]
    omega
  · obtain ⟨q, hq, hqe⟩ := Option.map_eq_some_iff.mp h
    have := length_lt_of_stringBody hq
    rw [← (Prod.mk.inj hqe).2]
    simp only [List.length_cons]
    omega
  · have := length_lt_of_lexDigits h
    simp only [List.length_cons]
    omega
  · exact length_lt_of_lexDigits h

/-! ## Readers of literals -/

/-- A reader of literals: the literal at the start of a text and the text after it. Every literal
takes some text, so a parser that reads one literal after another ends. -/
structure LiteralReader where
  read : List Char → Option (Literal × List Char)
  shortens : ∀ {text rest l}, read text = some (l, rest) → rest.length < text.length

/-- MySQL's reader of literals in a session that reads backslashes as escapes or not. -/
def lexLiteralReader (escapes : Bool) : LiteralReader :=
  ⟨lexLiteral escapes, length_lt_of_lexLiteral⟩

/-- The reader takes `text`, whatever delimiting text follows it, as one literal that stands for
`x`. -/
def LiteralReader.Reads (lex : LiteralReader) (text : List Char) (x : Value) : Prop :=
  ∀ rest, delimits rest = true → ∃ l, lex.read (text ++ rest) = some (l, rest) ∧ l.denote = x

/-- A comma-separated list of literals filling the whole text. -/
def lexValues (escapes : Bool) (text : List Char) : Option (List Literal) :=
  match _hlex : lexLiteral escapes text with
  | some (l, []) => some [l]
  | some (l, ',' :: rest) => (lexValues escapes rest).map (l :: ·)
  | _ => none
termination_by text.length
decreasing_by
  have := length_lt_of_lexLiteral _hlex
  simp only [List.length_cons] at this
  omega

theorem lexValues_of_lexLiteral_nil {escapes : Bool} {text : List Char} {l : Literal}
    (h : lexLiteral escapes text = some (l, [])) : lexValues escapes text = some [l] := by
  rw [lexValues]
  split <;> simp_all

theorem lexValues_of_lexLiteral_comma {escapes : Bool} {text rest : List Char} {l : Literal}
    (h : lexLiteral escapes text = some (l, ',' :: rest)) :
    lexValues escapes text = (lexValues escapes rest).map (l :: ·) := by
  rw [lexValues]
  split <;> simp_all

theorem lexValues_of_lexLiteral_none {escapes : Bool} {text : List Char}
    (h : lexLiteral escapes text = none) : lexValues escapes text = none := by
  rw [lexValues]
  split <;> simp_all

end Mysql
