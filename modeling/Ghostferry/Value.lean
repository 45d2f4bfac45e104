import Mathlib

/-!
# Row values and their SQL text

A row is a list of Go values (`RowData`, `[]interface{}`): the binlog decoder and the MySQL driver
hand the code integers of every width, strings, byte slices, booleans, floats and decimals, and
`nil` for SQL `NULL`. `GoValue` is that dynamic type. `appendEscapedValue` of `dml_events.go`
renders a value as SQL text for the statements the `BinlogWriter` sends: `NULL`, the decimal
digits of an integer, a quoted string or `_binary` byte string whose single quotes are doubled,
`1` or `0` for a boolean. The text is a list of characters, one per byte of Go's buffer: only
ASCII characters are special to the escaper and to MySQL's lexer (`Mysql/Lexer.lean`).

Floats are rendered by `strconv.AppendFloat(buf, v, 'g', -1, 64)`, the shortest text that reads
back as the same float64; that formatting is the parameter `AppendFloat` here, and nothing proved
reads its result.

The last section models what the code calls of Go's library on values: `reflect.Value.Int`,
which panics on anything but a signed integer, `strconv.ParseUint` and `strings.Repeat`. A call
that does not return normally ends in a `GoFailure`: the error it returns, or a panic.
-/

namespace Ghostferry

/-- A value of a row: the dynamic type and the value of a Go `interface{}`. A float32 is carried
by the bits of its exact float64 conversion, which is what its rendering reads. -/
inductive GoValue where
  | nil
  | int (v : Int64)
  | int8 (v : Int8)
  | int16 (v : Int16)
  | int32 (v : Int32)
  | int64 (v : Int64)
  | uint (v : UInt64)
  | uint8 (v : UInt8)
  | uint16 (v : UInt16)
  | uint32 (v : UInt32)
  | uint64 (v : UInt64)
  /-- A Go string, one character per byte. -/
  | string (s : List Char)
  /-- A non-nil `[]byte`. -/
  | bytes (b : List Char)
  /-- A nil `[]byte`. -/
  | nilBytes
  | bool (b : Bool)
  | float32 (bits : UInt64)
  | float64 (bits : UInt64)
  /-- A `decimal.Decimal`, by the text its `String` method returns. -/
  | decimal (s : List Char)
  deriving DecidableEq, Repr

/-- `isNilValue`: `nil`, or a nil `[]byte`. -/
def isNilValue : GoValue → Bool
  | .nil => true
  | .nilBytes => true
  | _ => false

/-- `Uint64Value`: the value of an unsigned integer of any width. -/
def Uint64Value : GoValue → Option UInt64
  | .uint64 v => some v
  | .uint32 v => some v.toUInt64
  | .uint16 v => some v.toUInt64
  | .uint8 v => some v.toUInt64
  | .uint v => some v
  | _ => none

/-- `Int64Value`: the value of a signed integer of any width. -/
def Int64Value : GoValue → Option Int64
  | .int64 v => some v
  | .int32 v => some v.toInt64
  | .int16 v => some v.toInt64
  | .int8 v => some v.toInt64
  | .int v => some v
  | _ => none

/-- `strconv.AppendUint(buffer, v, 10)`: the decimal digits of `v`. -/
def AppendUint (buffer : List Char) (v : UInt64) : List Char :=
  buffer ++ Nat.toDigits 10 v.toNat

/-- `strconv.AppendInt(buffer, v, 10)`: a minus sign for a negative `v`, then the decimal digits
of its magnitude. -/
def AppendInt (buffer : List Char) (v : Int64) : List Char :=
  buffer ++ (if v.toInt < 0 then ['-'] else []) ++ Nat.toDigits 10 v.toInt.natAbs

/-- The loop of `appendEscapedString` and `appendEscapedBuffer`: every single quote doubled,
every other byte copied. -/
def escapeQuotes : List Char → List Char
  | [] => []
  | c :: cs => if c = '\'' then '\'' :: '\'' :: escapeQuotes cs else c :: escapeQuotes cs

/-- `appendEscapedString`: the value between single quotes, its quotes doubled. Backslashes are
left alone, which is all the escaping a string needs when `NO_BACKSLASH_ESCAPES` is in effect. -/
def appendEscapedString (buffer value : List Char) : List Char :=
  buffer ++ ['\''] ++ escapeQuotes value ++ ['\'']

/-- `appendEscapedBuffer`: the bytes as a `_binary` string, escaped as `appendEscapedString`
escapes a string. -/
def appendEscapedBuffer (buffer value : List Char) : List Char :=
  buffer ++ "_binary'".toList ++ escapeQuotes value ++ ['\'']

section Render

variable (AppendFloat : List Char → UInt64 → List Char)

/-- `appendEscapedValue`: a value's SQL text appended to `buffer`. -/
def appendEscapedValue (buffer : List Char) (value : GoValue) : List Char :=
  if isNilValue value then buffer ++ "NULL".toList
  else match Uint64Value value with
  | some v => AppendUint buffer v
  | none =>
    match Int64Value value with
    | some v => AppendInt buffer v
    | none =>
      match value with
      | .string s => appendEscapedString buffer s
      | .bytes b => appendEscapedBuffer buffer b
      | .bool b => buffer ++ [if b then '1' else '0']
      | .float64 bits => AppendFloat buffer bits
      | .float32 bits => AppendFloat buffer bits
      | .decimal s => appendEscapedString buffer s
      -- The integer cases and `nil` are taken above.
      | _ => buffer

/-- `buildStringListForValues`: the values' texts separated by commas, the list of an `INSERT`'s
`VALUES (...)`. -/
def buildStringListForValues : List GoValue → List Char
  | [] => []
  | v :: vs => vs.foldl (fun buffer value => appendEscapedValue AppendFloat (buffer ++ [',']) value)
      (appendEscapedValue AppendFloat [] v)

end Render

/-! ## Go's library on values -/

/-- How a Go call ends when it does not return a result: with the error it returns, or with a
panic, which the code never recovers. -/
inductive GoFailure where
  | error (err : String)
  | panic (msg : String)
  deriving DecidableEq, Repr

/-- The name of a value's `reflect.Kind`; `none` for `nil`, whose `reflect.ValueOf` is the zero
`Value`. A `decimal.Decimal` is a struct. -/
def GoValue.kind : GoValue → Option String
  | .nil => none
  | .int _ => some "int"
  | .int8 _ => some "int8"
  | .int16 _ => some "int16"
  | .int32 _ => some "int32"
  | .int64 _ => some "int64"
  | .uint _ => some "uint"
  | .uint8 _ => some "uint8"
  | .uint16 _ => some "uint16"
  | .uint32 _ => some "uint32"
  | .uint64 _ => some "uint64"
  | .string _ => some "string"
  | .bytes _ | .nilBytes => some "slice"
  | .bool _ => some "bool"
  | .float32 _ => some "float32"
  | .float64 _ => some "float64"
  | .decimal _ => some "struct"

/-- `reflect.ValueOf(v).Int()`: the value of a signed integer of any width. On a value of any other
kind, `Int` panics with a `reflect.ValueError`. -/
def reflectInt (v : GoValue) : Except GoFailure Int64 :=
  match Int64Value v with
  | some i => .ok i
  | none => .error (.panic ("reflect: call of reflect.Value.Int on " ++ v.kind.getD "zero" ++ " Value"))

/-- The text of a `strconv.NumError` of `ParseUint`. `strconv.Quote` is plain double quotes on the
printable ASCII text this model passes it. -/
def parseUintError (s : List Char) (err : String) : String :=
  "strconv.ParseUint: parsing \"" ++ String.ofList s ++ "\": " ++ err

/-- `strconv.ParseUint(s, 10, 64)`: the number the decimal digits of `s` spell. An empty `s` or a
byte that is not a digit is a syntax error, and a number that leaves 64 bits a range error, found
at the first digit that takes it out of range. -/
def ParseUint (s : List Char) : Except String UInt64 :=
  if s = [] then .error (parseUintError s "invalid syntax") else go s 0
where
  /-- The loop over the bytes, with the number read so far. -/
  go : List Char → ℕ → Except String UInt64
    | [], n => .ok n.toUInt64
    | c :: cs, n =>
      if c.isDigit then
        let n1 := 10 * n + (c.toNat - '0'.toNat)
        if n1 < 2 ^ 64 then go cs n1 else .error (parseUintError s "value out of range")
      else .error (parseUintError s "invalid syntax")

/-- The number read so far only grows. -/
theorem le_ofDigitChars (l : List Char) (init : ℕ) : init ≤ Nat.ofDigitChars 10 l init := by
  induction l generalizing init with
  | nil => simp [Nat.ofDigitChars_nil]
  | cons c cs ih =>
    rw [Nat.ofDigitChars_cons]
    have := ih (10 * init + (c.toNat - '0'.toNat))
    omega

/-- The loop reads a string of digits whose number fits in 64 bits to that number: every number
read on the way is at most the last. -/
theorem ParseUint_go_of_lt {s : List Char} :
    ∀ {l : List Char} {n : ℕ}, (∀ c ∈ l, c.isDigit = true) → Nat.ofDigitChars 10 l n < 2 ^ 64 →
      ParseUint.go s l n = .ok (Nat.ofDigitChars 10 l n).toUInt64
  | [], n, _, _ => by simp [ParseUint.go, Nat.ofDigitChars_nil]
  | c :: cs, n, hd, hlt => by
    rw [Nat.ofDigitChars_cons] at hlt ⊢
    have hc : c.isDigit = true := hd c (List.mem_cons_self ..)
    have hn1 := le_ofDigitChars cs (10 * n + (c.toNat - '0'.toNat))
    simp only [ParseUint.go, hc, if_true, show 10 * n + (c.toNat - '0'.toNat) < 2 ^ 64 by omega]
    exact ParseUint_go_of_lt (fun c' hc' => hd c' (List.mem_cons_of_mem c hc')) hlt

/-- `ParseUint` reads the decimal digits of a 64-bit number back to it. -/
theorem ParseUint_toDigits {n : ℕ} (h : n < 2 ^ 64) : ParseUint (Nat.toDigits 10 n) = .ok n.toUInt64 := by
  have hd : ∀ c ∈ Nat.toDigits 10 n, c.isDigit = true := fun c hc =>
    Nat.isDigit_of_mem_toDigits (by decide) (by decide) hc
  rw [ParseUint, if_neg Nat.toDigits_ne_nil, ParseUint_go_of_lt hd (by simpa using h),
    Nat.ofDigitChars_ten_toDigits]

/-- `strings.Repeat(s, count)`, for a count that is not negative (`Repeat` panics on one that
is). -/
def Repeat (s : List Char) (count : ℕ) : List Char := (List.replicate count s).flatten

/-- `count` copies of `x` followed by `sep`, and one more `x`: the copies of `x` separated by
`sep`. -/
theorem Repeat_append_intercalate (x sep : List Char) (count : ℕ) :
    Repeat (x ++ sep) count ++ x = sep.intercalate (List.replicate (count + 1) x) := by
  induction count with
  | zero => simp [Repeat]
  | succ count ih =>
    have hrep : Repeat (x ++ sep) (count + 1) = x ++ sep ++ Repeat (x ++ sep) count := by
      simp [Repeat, List.replicate_succ]
    rw [hrep, List.append_assoc, List.append_assoc, ih, List.replicate_succ (n := count + 1),
      List.intercalate_cons_of_ne_nil (by simp), List.append_assoc]

end Ghostferry
