import Ghostferry.Value
import Ghostferry.Mysql.Lexer

/-!
# The text of a value reads back as the value

`appendEscapedValue` is correct when the server reads its text back as the value it rendered:
one literal, ending where the text does, that stands for the value. This module proves that it
is, for every value but a float, whenever the session reads backslashes as ordinary characters,
and, in a session that reads them as escapes, for every value whose text has no backslash
(`lexLiteral_appendEscapedValue`). `lexValues_buildStringListForValues` lifts this to the
comma-separated list of an `INSERT`: one literal per value, in order.

The quote doubling of `appendEscapedString` is what makes a string's text end at its own closing
quote (`stringBody_escapeQuotes`); a backslash is the one byte it leaves to the session's mode.
-/

namespace Ghostferry

open Mysql

/-- The server value a Go value stands for in a statement: integers of every width as integers,
a boolean as `1` or `0`, a decimal as the string of its text. Floats have none here. -/
def sqlValue : GoValue → Option Mysql.Value
  | .nil => some .null
  | .nilBytes => some .null
  | .int v => some (.int v.toInt)
  | .int8 v => some (.int v.toInt)
  | .int16 v => some (.int v.toInt)
  | .int32 v => some (.int v.toInt)
  | .int64 v => some (.int v.toInt)
  | .uint v => some (.int v.toNat)
  | .uint8 v => some (.int v.toNat)
  | .uint16 v => some (.int v.toNat)
  | .uint32 v => some (.int v.toNat)
  | .uint64 v => some (.int v.toNat)
  | .string s => some (.string s)
  | .bytes b => some (.binary b)
  | .bool b => some (.int (if b then 1 else 0))
  | .float32 _ => none
  | .float64 _ => none
  | .decimal s => some (.string s)

/-- Whether the text a value carries holds a backslash. -/
def hasBackslash : GoValue → Bool
  | .string s => decide ('\\' ∈ s)
  | .bytes b => decide ('\\' ∈ b)
  | .decimal s => decide ('\\' ∈ s)
  | _ => false

/-! ## Strings -/

/-- The text `appendEscapedString` puts between the quotes reads back as the string, and the
literal ends at the closing quote, unless a backslash is read as an escape. -/
theorem stringBody_escapeQuotes {escapes : Bool} {s rest : List Char}
    (hs : escapes = false ∨ '\\' ∉ s) (hr : rest.head? ≠ some '\'') :
    stringBody escapes (escapeQuotes s ++ '\'' :: rest) = some (s, rest) := by
  induction s with
  | nil => exact stringBody_close hr
  | cons c s ih =>
    have hs' : escapes = false ∨ '\\' ∉ s :=
      hs.imp_right fun h hm => h (List.mem_cons_of_mem c hm)
    by_cases hq : c = '\''
    · -- a quote is doubled, and the lexer reads the pair back as one quote
      subst hq
      simp [escapeQuotes, ih hs']
    · have hb : ¬(escapes = true ∧ c = '\\') := by
        rintro ⟨he, rfl⟩
        rcases hs with h | h
        · simp_all
        · exact h List.mem_cons_self
      simp [escapeQuotes, hq, stringBody_plain hq hb, ih hs']

/-! ## One value -/

section Render

variable (AppendFloat : List Char → UInt64 → List Char)

theorem sqlValue_of_Uint64Value {v : GoValue} {u : UInt64} (h : Uint64Value v = some u) :
    sqlValue v = some (.int u.toNat) := by
  cases v <;> simp only [Uint64Value, sqlValue, Option.some.injEq, reduceCtorEq] at h ⊢ <;>
    subst h <;> simp

theorem sqlValue_of_Int64Value {v : GoValue} {i : Int64} (h : Int64Value v = some i) :
    sqlValue v = some (.int i.toInt) := by
  cases v <;> simp only [Int64Value, sqlValue, Option.some.injEq, reduceCtorEq] at h ⊢ <;>
    subst h <;> simp

/-- The decimal digits of a natural number read back as it. -/
theorem lexLiteral_toDigits (escapes : Bool) {rest : List Char} (n : ℕ)
    (hr : delimits rest = true) :
    ∃ l, lexLiteral escapes (Nat.toDigits 10 n ++ rest) = some (l, rest) ∧ l.denote = .int n := by
  have hds : ∀ c ∈ Nat.toDigits 10 n, c.isDigit = true :=
    fun c hc => Nat.isDigit_of_mem_toDigits (by decide) (by decide) hc
  refine ⟨.number (Nat.toDigits 10 n), lexLiteral_digits escapes Nat.toDigits_ne_nil hds hr, ?_⟩
  -- the text starts with a digit, so it is not read as a negative number
  have hd : (Nat.toDigits 10 n).head? ≠ some '-' := by
    intro h
    simpa using hds '-' (List.mem_of_mem_head? h)
  rw [denote_number hd, Nat.ofDigitChars_toDigits (by decide) (Nat.le_refl 10)]

/-- `AppendInt`'s text of an integer reads back as it. -/
theorem lexLiteral_AppendInt (escapes : Bool) {rest : List Char} (i : Int64)
    (hr : delimits rest = true) :
    ∃ l, lexLiteral escapes (AppendInt [] i ++ rest) = some (l, rest) ∧ l.denote = .int i.toInt := by
  have hds : ∀ c ∈ Nat.toDigits 10 i.toInt.natAbs, c.isDigit = true :=
    fun c hc => Nat.isDigit_of_mem_toDigits (by decide) (by decide) hc
  by_cases hneg : i.toInt < 0
  · refine ⟨.number ('-' :: Nat.toDigits 10 i.toInt.natAbs), ?_, ?_⟩
    · simpa [AppendInt, hneg] using lexLiteral_neg_digits escapes Nat.toDigits_ne_nil hds hr
    · simp only [Literal.denote, Nat.ofDigitChars_toDigits (by decide) (Nat.le_refl 10)]
      congr 1
      omega
  · obtain ⟨l, hl, hd⟩ := lexLiteral_toDigits escapes i.toInt.natAbs hr
    refine ⟨l, by simpa [AppendInt, hneg] using hl, ?_⟩
    rw [hd]
    congr 1
    omega

/-- A quoted string reads back as the string. -/
theorem lexLiteral_appendEscapedString {escapes : Bool} {s rest : List Char}
    (hs : escapes = false ∨ '\\' ∉ s) (hr : delimits rest = true) :
    lexLiteral escapes (appendEscapedString [] s ++ rest) = some (.string s, rest) := by
  have hq : rest.head? ≠ some '\'' := by simp_all [delimits]
  simp [appendEscapedString, stringBody_escapeQuotes hs hq]

/-- A `_binary` string reads back as the bytes. -/
theorem lexLiteral_appendEscapedBuffer {escapes : Bool} {b rest : List Char}
    (hs : escapes = false ∨ '\\' ∉ b) (hr : delimits rest = true) :
    lexLiteral escapes (appendEscapedBuffer [] b ++ rest) = some (.binary b, rest) := by
  have hq : rest.head? ≠ some '\'' := by simp_all [delimits]
  simp [appendEscapedBuffer, stringBody_escapeQuotes hs hq]

/-- Every value but a float reads back as the value it stands for, when its text is followed by
anything that delimits a literal; in a session that reads backslashes as escapes, provided its
text has none. -/
theorem lexLiteral_appendEscapedValue {escapes : Bool} {v : GoValue} {x : Mysql.Value}
    {rest : List Char} (hv : sqlValue v = some x)
    (hs : escapes = false ∨ hasBackslash v = false) (hr : delimits rest = true) :
    ∃ l, lexLiteral escapes (appendEscapedValue AppendFloat [] v ++ rest) = some (l, rest) ∧
      l.denote = x := by
  -- the cases follow the branches of `appendEscapedValue`
  by_cases hnil : isNilValue v = true
  · have hx : x = .null := by cases v <;> simp_all [isNilValue, sqlValue]
    have hc : continuesToken rest = false := by simp_all [delimits]
    exact ⟨.null, by simp [appendEscapedValue, hnil, hc], by simp [hx, Literal.denote]⟩
  cases hu : Uint64Value v with
  | some u =>
    rw [sqlValue_of_Uint64Value hu, Option.some.injEq] at hv
    subst hv
    simpa [appendEscapedValue, hnil, hu, AppendUint] using lexLiteral_toDigits escapes u.toNat hr
  | none =>
  cases hi : Int64Value v with
  | some i =>
    rw [sqlValue_of_Int64Value hi, Option.some.injEq] at hv
    subst hv
    simpa [appendEscapedValue, hnil, hu, hi] using lexLiteral_AppendInt escapes i hr
  | none =>
  cases v <;> simp_all [isNilValue, Uint64Value, Int64Value, sqlValue, hasBackslash]
  case string s =>
    subst hv
    exact ⟨_, by simpa [appendEscapedValue, isNilValue, Uint64Value, Int64Value] using lexLiteral_appendEscapedString hs hr, rfl⟩
  case bytes b =>
    subst hv
    exact ⟨_, by simpa [appendEscapedValue, isNilValue, Uint64Value, Int64Value] using lexLiteral_appendEscapedBuffer hs hr, rfl⟩
  case decimal s =>
    subst hv
    exact ⟨_, by simpa [appendEscapedValue, isNilValue, Uint64Value, Int64Value] using lexLiteral_appendEscapedString hs hr, rfl⟩
  case bool b =>
    subst hv
    refine ⟨.number [if b then '1' else '0'], ?_, by cases b <;> rfl⟩
    simpa [appendEscapedValue, isNilValue, Uint64Value, Int64Value] using
      lexLiteral_digits escapes (List.cons_ne_nil _ []) (by cases b <;> simp) hr

/-! ## A list of values -/

/-- `appendEscapedValue` appends: the text of a value that is not a float does not depend on what
is before it. -/
theorem appendEscapedValue_eq_append {v : GoValue} (hv : (sqlValue v).isSome)
    (buffer : List Char) :
    appendEscapedValue AppendFloat buffer v = buffer ++ appendEscapedValue AppendFloat [] v := by
  cases v <;> simp_all [sqlValue, appendEscapedValue, isNilValue, Uint64Value, Int64Value,
    AppendUint, AppendInt, appendEscapedString, appendEscapedBuffer]

/-- With an `AppendFloat` that appends, as Go's does, `appendEscapedValue` appends every value. -/
theorem appendEscapedValue_eq_append_of_appends
    (happ : ∀ buffer bits, AppendFloat buffer bits = buffer ++ AppendFloat [] bits) (v : GoValue)
    (buffer : List Char) :
    appendEscapedValue AppendFloat buffer v = buffer ++ appendEscapedValue AppendFloat [] v := by
  cases v
  case float64 bits => exact happ buffer bits
  case float32 bits => exact happ buffer bits
  all_goals simp [appendEscapedValue, isNilValue, Uint64Value, Int64Value, AppendUint,
    AppendInt, appendEscapedString, appendEscapedBuffer]

/-- The loop of `buildStringListForValues`: each further value after a comma. -/
theorem foldl_appendEscapedValue {vs : List GoValue}
    (hv : ∀ v ∈ vs, ∀ buffer,
      appendEscapedValue AppendFloat buffer v = buffer ++ appendEscapedValue AppendFloat [] v)
    (buffer : List Char) :
    vs.foldl (fun buffer value => appendEscapedValue AppendFloat (buffer ++ [',']) value) buffer =
      buffer ++ vs.flatMap fun v => ',' :: appendEscapedValue AppendFloat [] v := by
  induction vs generalizing buffer with
  | nil => simp
  | cons v vs ih =>
    rw [List.foldl_cons, ih (fun w hw => hv w (List.mem_cons_of_mem v hw)),
      hv v List.mem_cons_self]
    simp

/-- The induction of `lexValues_buildStringListForValues`, on the values after the first. -/
theorem lexValues_flatMap {escapes : Bool} {v : GoValue} {vs : List GoValue}
    (hv : ∀ w ∈ v :: vs, (sqlValue w).isSome)
    (hs : escapes = false ∨ ∀ w ∈ v :: vs, hasBackslash w = false) :
    ∃ ls, lexValues escapes (appendEscapedValue AppendFloat [] v ++
        vs.flatMap fun w => ',' :: appendEscapedValue AppendFloat [] w) = some ls ∧
      ls.map (some ∘ Literal.denote) = (v :: vs).map sqlValue := by
  induction vs generalizing v with
  | nil =>
    obtain ⟨x, hx⟩ := Option.isSome_iff_exists.mp (hv v List.mem_cons_self)
    obtain ⟨l, hl, hd⟩ := lexLiteral_appendEscapedValue AppendFloat hx
      (hs.imp_right (· v List.mem_cons_self)) delimits_nil
    exact ⟨[l], lexValues_of_lexLiteral_nil (by simpa using hl), by simp [hd, hx]⟩
  | cons w ws ih =>
    obtain ⟨x, hx⟩ := Option.isSome_iff_exists.mp (hv v List.mem_cons_self)
    -- the first value's literal ends at the comma before the second
    obtain ⟨l, hl, hd⟩ := lexLiteral_appendEscapedValue AppendFloat hx
      (hs.imp_right (· v List.mem_cons_self)) (delimits_comma _)
    obtain ⟨ls, hls, hmap⟩ := ih (v := w) (fun u hu => hv u (List.mem_cons_of_mem v hu))
      (hs.imp_right fun h u hu => h u (List.mem_cons_of_mem v hu))
    refine ⟨l :: ls, ?_, ?_⟩
    · rw [List.flatMap_cons, List.cons_append, lexValues_of_lexLiteral_comma hl, hls]
      rfl
    · rw [List.map_cons, hmap, List.map_cons (l := w :: ws), Function.comp_apply, hd, hx]

/-- The text of an `INSERT`'s values reads back as one literal per value, each standing for its
value: for values that are not floats, in a session that reads backslashes as ordinary
characters, or in any session when no value's text has a backslash. -/
theorem lexValues_buildStringListForValues {escapes : Bool} {vs : List GoValue} (hne : vs ≠ [])
    (hv : ∀ v ∈ vs, (sqlValue v).isSome)
    (hs : escapes = false ∨ ∀ v ∈ vs, hasBackslash v = false) :
    ∃ ls, lexValues escapes (buildStringListForValues AppendFloat vs) = some ls ∧
      ls.map (some ∘ Literal.denote) = vs.map sqlValue := by
  obtain ⟨v, vs, rfl⟩ := List.exists_cons_of_ne_nil hne
  rw [buildStringListForValues, foldl_appendEscapedValue AppendFloat
    (fun w hw => appendEscapedValue_eq_append AppendFloat (hv w (List.mem_cons_of_mem v hw)))]
  exact lexValues_flatMap AppendFloat hv hs


/-! ## Reading a value back -/

/-- The text of a value reads back as `x` to a reader of literals: whatever text that delimits a
literal follows it, the reader takes the value's text as one literal that stands for `x`; and `x`
is `NULL` exactly for a nil value. -/
def ReadsAs (lex : LiteralReader) (v : GoValue) (x : Mysql.Value) : Prop :=
  (isNilValue v = true ↔ x = .null) ∧ lex.Reads (appendEscapedValue AppendFloat [] v) x

theorem isNilValue_iff_of_sqlValue {v : GoValue} {x : Mysql.Value} (hv : sqlValue v = some x) :
    isNilValue v = true ↔ x = .null := by
  cases v <;> simp only [sqlValue, Option.some.injEq, reduceCtorEq] at hv <;> subst hv <;>
    simp [isNilValue]

/-- A value that is not a float reads back as the value it stands for, in a session that reads
backslashes as ordinary characters, or in any session when its text has no backslash. -/
theorem ReadsAs_of_sqlValue {escapes : Bool} {v : GoValue} {x : Mysql.Value}
    (hv : sqlValue v = some x) (hs : escapes = false ∨ hasBackslash v = false) :
    ReadsAs AppendFloat (lexLiteralReader escapes) v x :=
  ⟨isNilValue_iff_of_sqlValue hv, fun _ hr => lexLiteral_appendEscapedValue AppendFloat hv hs hr⟩

end Render

/-! ## Floats -/

/-- The text of the point and the digits of a number's fraction; none for no digits. -/
def fractionText (fraction : List Char) : List Char :=
  if fraction = [] then [] else '.' :: fraction

/-- The text of a number's exponent: `e`, its sign and its digits. -/
def exponentText : Option (Bool × List Char) → List Char
  | none => []
  | some (neg, digits) => 'e' :: (if neg then '-' else '+') :: digits

/-- The text of a number: an optional minus sign, the digits, an optional fraction and an optional
exponent. `strconv.FormatFloat(f, 'g', -1, 64)` writes every finite `f` so. -/
def numberText (neg : Bool) (digits fraction : List Char) (exponent : Option (Bool × List Char)) :
    List Char :=
  (if neg then ['-'] else []) ++ digits ++ fractionText fraction ++ exponentText exponent

/-- The value of an exponent's text. -/
def exponentValue (e : Bool × List Char) : ℤ :=
  (if e.1 then -1 else 1) * (Nat.ofDigitChars 10 e.2 0 : ℤ)

/-- The literal the text of a number is read as: an integer without fraction or exponent. -/
def numberLiteral (neg : Bool) (digits fraction : List Char)
    (exponent : Option (Bool × List Char)) : Literal :=
  if fraction = [] ∧ exponent = none then .number ((if neg then ['-'] else []) ++ digits)
  else .real neg digits fraction ((exponent.map exponentValue).getD 0)

/-- A float64 that is neither infinite nor NaN: its exponent bits are not all set. MySQL stores no
other float, so no row holds one. -/
def IsFinite (bits : UInt64) : Prop := bits.toNat / 2 ^ 52 % 2 ^ 11 ≠ 2 ^ 11 - 1

/-- What Go documents of `strconv.AppendFloat(buffer, f, 'g', -1, 64)`: it appends to the buffer
the text of `f`, which for a finite `f` is a number. -/
structure AppendFloatSpec (AppendFloat : List Char → UInt64 → List Char) : Prop where
  appends : ∀ buffer bits, AppendFloat buffer bits = buffer ++ AppendFloat [] bits
  number : ∀ bits, IsFinite bits → ∃ neg digits fraction exponent,
    digits ≠ [] ∧ (∀ c ∈ digits ++ fraction, c.isDigit = true) ∧
      (∀ e ∈ exponent, e.2 ≠ [] ∧ ∀ c ∈ e.2, c.isDigit = true) ∧
      AppendFloat [] bits = numberText neg digits fraction exponent

/-- The sign, the significand and the binary exponent of a float64, whose value, when it is
finite, is `(-1)^neg * significand * 2^exponent`. -/
def floatParts (bits : UInt64) : Bool × ℕ × ℤ :=
  (bits.toNat / 2 ^ 63 == 1,
    if bits.toNat / 2 ^ 52 % 2 ^ 11 = 0 then bits.toNat % 2 ^ 52 else bits.toNat % 2 ^ 52 + 2 ^ 52,
    if bits.toNat / 2 ^ 52 % 2 ^ 11 = 0 then -1074 else (bits.toNat / 2 ^ 52 % 2 ^ 11 : ℤ) - 1075)

/-- An `AppendFloat` that writes a float's exact decimal value: the significand times a power of
two, or times a power of five with the matching power of ten as a negative exponent. Go writes the
shortest text that reads back as the same float instead; both are numbers. -/
def exactFloatText (buffer : List Char) (bits : UInt64) : List Char :=
  match floatParts bits with
  | (neg, m, .ofNat k) => buffer ++ numberText neg (Nat.toDigits 10 (m * 2 ^ k)) [] none
  | (neg, m, .negSucc k) =>
    buffer ++ numberText neg (Nat.toDigits 10 (m * 5 ^ (k + 1))) []
      (some (true, Nat.toDigits 10 (k + 1)))

/-- The exact decimal writer appends a number, as Go documents of `strconv.AppendFloat`. -/
theorem exactFloatText_spec : AppendFloatSpec exactFloatText where
  appends buffer bits := by
    unfold exactFloatText
    split <;> simp
  number bits _ := by
    have hds : ∀ n, ∀ c ∈ Nat.toDigits 10 n, c.isDigit = true :=
      fun _ _ hc => Nat.isDigit_of_mem_toDigits (by decide) (by decide) hc
    unfold exactFloatText
    split
    · rename_i neg m k _
      exact ⟨neg, Nat.toDigits 10 (m * 2 ^ k), [], none, Nat.toDigits_ne_nil,
        by simpa using hds _, by simp, by simp⟩
    · rename_i neg m k _
      refine ⟨neg, Nat.toDigits 10 (m * 5 ^ (k + 1)), [], some (true, Nat.toDigits 10 (k + 1)),
        Nat.toDigits_ne_nil, by simpa using hds _, ?_, by simp⟩
      simpa using And.intro (@Nat.toDigits_ne_nil (k + 1) 10) (hds (k + 1))

section Number

variable {rest : List Char} (hr : delimits rest = true)
include hr

theorem lexExponent_exponentText {exponent : Option (Bool × List Char)}
    (he : ∀ e ∈ exponent, e.2 ≠ [] ∧ ∀ c ∈ e.2, c.isDigit = true) :
    lexExponent (exponentText exponent ++ rest) =
      exponent.map fun e => (exponentValue e, rest) := by
  obtain ⟨htake, hdrop, -, hexp⟩ := head_of_delimits hr
  match exponent, he with
  | none, _ => exact hexp
  | some (neg, ds), he =>
    obtain ⟨hne, hds⟩ := he _ rfl
    -- the sign, then the digits up to what follows the number
    have hsign : exponentSign ((if neg then '-' else '+') :: (ds ++ rest)) = (neg, ds ++ rest) := by
      cases neg <;> rfl
    simp [exponentText, lexExponent, hsign, List.takeWhile_append_of_pos hds,
      List.dropWhile_append_of_pos hds, htake, hdrop, hne, exponentValue]

/-- After a number's digits comes no digit: a point, an exponent or the delimiting text. -/
theorem digits_of_fractionText (fraction : List Char) (exponent : Option (Bool × List Char)) :
    (fractionText fraction ++ (exponentText exponent ++ rest)).takeWhile Char.isDigit = [] ∧
      (fractionText fraction ++ (exponentText exponent ++ rest)).dropWhile Char.isDigit =
        fractionText fraction ++ (exponentText exponent ++ rest) := by
  obtain ⟨htake, hdrop, -, -⟩ := head_of_delimits hr
  unfold fractionText exponentText
  split_ifs <;> split <;> simp [htake, hdrop]

theorem lexFraction_fractionText {fraction : List Char} (exponent : Option (Bool × List Char))
    (hf : ∀ c ∈ fraction, c.isDigit = true) :
    lexFraction (fractionText fraction ++ (exponentText exponent ++ rest)) =
      (if fraction = [] then none else some fraction, exponentText exponent ++ rest) := by
  obtain ⟨htake, hdrop, hfrac, -⟩ := head_of_delimits hr
  -- the exponent's text, when there is one, starts with `e`
  have htail : (exponentText exponent ++ rest).takeWhile Char.isDigit = [] ∧
      (exponentText exponent ++ rest).dropWhile Char.isDigit = exponentText exponent ++ rest ∧
      lexFraction (exponentText exponent ++ rest) = (none, exponentText exponent ++ rest) := by
    unfold exponentText
    split
    · exact ⟨htake, hdrop, hfrac⟩
    · simp [lexFraction]
  unfold fractionText
  split_ifs with hnil
  · exact htail.2.2
  · simp only [List.cons_append, lexFraction, List.takeWhile_append_of_pos hf,
      List.dropWhile_append_of_pos hf, htail.1, htail.2.1, List.append_nil]

/-- The text of a number reads back as its literal. -/
theorem lexLiteral_numberText (escapes : Bool) {neg : Bool} {digits fraction : List Char}
    {exponent : Option (Bool × List Char)} (hne : digits ≠ [])
    (hds : ∀ c ∈ digits ++ fraction, c.isDigit = true)
    (he : ∀ e ∈ exponent, e.2 ≠ [] ∧ ∀ c ∈ e.2, c.isDigit = true) :
    lexLiteral escapes (numberText neg digits fraction exponent ++ rest) =
      some (numberLiteral neg digits fraction exponent, rest) := by
  have hd : ∀ c ∈ digits, c.isDigit = true := fun c hc => hds c (List.mem_append_left _ hc)
  have hf : ∀ c ∈ fraction, c.isDigit = true := fun c hc => hds c (List.mem_append_right _ hc)
  have hc : continuesToken rest = false := by simp_all [delimits]
  -- the parts of the number after its sign: the digits, the fraction and the exponent
  have hnum : numberParts (digits ++ (fractionText fraction ++ (exponentText exponent ++ rest))) =
      (digits, if fraction = [] then none else some fraction, exponent.map exponentValue,
        rest) := by
    obtain ⟨htake, hdrop⟩ := digits_of_fractionText hr fraction exponent
    rw [numberParts, List.takeWhile_append_of_pos hd, List.dropWhile_append_of_pos hd, htake, hdrop,
      List.append_nil, lexFraction_fractionText hr exponent hf, lexExponent_exponentText hr he]
    cases exponent <;> rfl
  have hdigits : lexLiteral.lexDigits (if neg then ['-'] else [])
      (digits ++ (fractionText fraction ++ (exponentText exponent ++ rest))) =
        some (numberLiteral neg digits fraction exponent, rest) := by
    unfold lexLiteral.lexDigits
    rw [hnum]
    by_cases hfr : fraction = [] <;> cases exponent <;> cases neg <;>
      simp [hne, hc, hfr, numberLiteral]
  cases neg
  · -- without a sign the text starts with a digit
    obtain ⟨c, cs, rfl⟩ := List.exists_cons_of_ne_nil hne
    simp only [numberText, Bool.false_eq_true, if_false, List.nil_append, List.append_assoc,
      List.cons_append] at hdigits ⊢
    rw [lexLiteral_of_isDigit escapes (hd c List.mem_cons_self)]
    exact hdigits
  · simp only [numberText, if_true, List.append_assoc, List.cons_append, List.nil_append]
      at hdigits ⊢
    rw [lexLiteral]
    exact hdigits

end Number

/-- Only the literal `NULL` stands for `NULL`. -/
theorem denote_eq_null_iff {l : Literal} : l.denote = .null ↔ l = .null := by
  constructor
  · intro h
    revert h
    rw [Literal.denote.eq_def]
    split <;> simp
  · rintro rfl
    rfl

theorem denote_numberLiteral_ne_null (neg : Bool) (digits fraction : List Char)
    (exponent : Option (Bool × List Char)) :
    (numberLiteral neg digits fraction exponent).denote ≠ .null := by
  rw [Ne, denote_eq_null_iff]
  unfold numberLiteral
  split_ifs <;> simp

section Render

variable (AppendFloat : List Char → UInt64 → List Char)

/-- A float whose text is a number reads back as the number's value. -/
theorem ReadsAs_float {escapes : Bool} {bits : UInt64} {v : GoValue}
    (hv : v = .float64 bits ∨ v = .float32 bits) {neg : Bool} {digits fraction : List Char}
    {exponent : Option (Bool × List Char)}
    (htext : AppendFloat [] bits = numberText neg digits fraction exponent) (hne : digits ≠ [])
    (hds : ∀ c ∈ digits ++ fraction, c.isDigit = true)
    (he : ∀ e ∈ exponent, e.2 ≠ [] ∧ ∀ c ∈ e.2, c.isDigit = true) :
    ReadsAs AppendFloat (lexLiteralReader escapes) v
      (numberLiteral neg digits fraction exponent).denote := by
  have hval : appendEscapedValue AppendFloat [] v = AppendFloat [] bits := by
    rcases hv with rfl | rfl <;> simp [appendEscapedValue, isNilValue, Uint64Value, Int64Value]
  refine ⟨?_, fun rest hr => ⟨_, ?_, rfl⟩⟩
  · -- a float is not nil, and a number is not `NULL`
    have hnil : isNilValue v = false := by rcases hv with rfl | rfl <;> rfl
    simp only [hnil, Bool.false_eq_true, false_iff]
    exact denote_numberLiteral_ne_null neg digits fraction exponent
  · rw [hval, htext]
    exact lexLiteral_numberText hr escapes hne hds he

/-- Every finite float reads back as some value, when `AppendFloat` writes as Go documents. -/
theorem exists_ReadsAs_float (hAF : AppendFloatSpec AppendFloat) (escapes : Bool) {bits : UInt64}
    (hfin : IsFinite bits) {v : GoValue} (hv : v = .float64 bits ∨ v = .float32 bits) :
    ∃ x, ReadsAs AppendFloat (lexLiteralReader escapes) v x := by
  obtain ⟨neg, digits, fraction, exponent, hne, hds, he, htext⟩ := hAF.number bits hfin
  exact ⟨_, ReadsAs_float AppendFloat hv htext hne hds he⟩

end Render

end Ghostferry
