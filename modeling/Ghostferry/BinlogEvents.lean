import Ghostferry.Lib.LittleEndian
import Ghostferry.RowBatch

/-!
# Rows events and their integers

A rows event of the binlog carries row images, and the vendored `go-mysql` decoder turns the
bytes of an integer column into a Go value. `decodeValue` reads the column's bytes, least
significant first, as a signed integer of the column's width: `int8`, `int16`, `int32`, or
`int64`. A `MEDIUMINT` (`MYSQL_TYPE_INT24`) is three bytes sign-extended to an `int32`. For an
unsigned column the stored value `u` thus arrives as its two's-complement reading.

`NewBinlogDMLEvents` checks each row's length against the table's columns, then converts the value
of every unsigned column to the unsigned integer with the same bits: `int8` to `uint8`, ...,
`int64` to `uint64`. It turns the rows into insert, update or delete events by the event's type.
For every width but 24 the conversion gives `u` back, and `appendEscapedValue` writes its digits
(`appendEscapedValue_unsigned`). For a `MEDIUMINT` the sign extension fills the top byte, and the
conversion to `uint32` keeps it: a value `u ≥ 2^23` becomes `u + 2^32 - 2^24`
(`Uint64Value_unsigned_INT24_of_le`, `mediumint_unsigned_rendered_wrong`).

`DMLEvent.PK` reads the pk of an event with `RowData.GetUint64`, which sends every value but a
`[]byte` through `reflect.Value.Int`. That is right for the `int64` and decimal `[]byte` values a
scan of the column gives (`GetUint64_int64`, `GetUint64_bytes`) and for the signed integers of a
signed pk column. The unsigned integers the conversion leaves for an unsigned pk column make it
panic (`PK_of_unsigned_pk`, `unsigned_pk_event_panics`).
-/

namespace Ghostferry

open LittleEndian

/-! ## The decoder -/

/-- The integer column types of a rows event, by their `MYSQL_TYPE_*` names. -/
inductive IntType where
  | TINY
  | SHORT
  | INT24
  | LONG
  | LONGLONG
  deriving DecidableEq, Repr

/-- The bits of a column of the type. -/
def IntType.width : IntType → ℕ
  | .TINY => 8
  | .SHORT => 16
  | .INT24 => 24
  | .LONG => 32
  | .LONGLONG => 64

/-- The bytes `decodeValue` reads for a column of the type. -/
def IntType.size : IntType → ℕ
  | .LONG => 4
  | .TINY => 1
  | .SHORT => 2
  | .INT24 => 3
  | .LONGLONG => 8

/-- The bytes of a row image that hold the value `u` of an integer column, least significant
first. -/
def columnBytes (t : IntType) (u : ℕ) : List UInt8 := leBytes t.size u

/-- `ParseBinaryInt8`. -/
def ParseBinaryInt8 (data : List UInt8) : Int8 := (data.headD 0).toInt8

/-- `ParseBinaryInt16`: `binary.LittleEndian.Uint16` of the bytes, as an `int16`. -/
def ParseBinaryInt16 (data : List UInt8) : Int16 := (orShifts (data.take 2)).toUInt16.toInt16

/-- `ParseBinaryUint24`: `uint32(data[0]) | uint32(data[1])<<8 | uint32(data[2])<<16`. -/
def ParseBinaryUint24 (data : List UInt8) : UInt32 := (orShifts (data.take 3)).toUInt32

/-- `ParseBinaryInt24`: the three bytes sign-extended to an `int32`. -/
def ParseBinaryInt24 (data : List UInt8) : Int32 :=
  let u32 := ParseBinaryUint24 data
  let u32 := if u32 &&& 0x00800000 ≠ 0 then u32 ||| 0xFF000000 else u32
  u32.toInt32

/-- `ParseBinaryInt32`: `binary.LittleEndian.Uint32` of the bytes, as an `int32`. -/
def ParseBinaryInt32 (data : List UInt8) : Int32 := (orShifts (data.take 4)).toUInt32.toInt32

/-- `ParseBinaryInt64`: `binary.LittleEndian.Uint64` of the bytes, as an `int64`. -/
def ParseBinaryInt64 (data : List UInt8) : Int64 := (orShifts (data.take 8)).toUInt64.toInt64

/-- The integer cases of `decodeValue`: the value the decoder puts into the row. -/
def decodeValue : IntType → List UInt8 → GoValue
  | .LONG, data => .int32 (ParseBinaryInt32 data)
  | .TINY, data => .int8 (ParseBinaryInt8 data)
  | .SHORT, data => .int16 (ParseBinaryInt16 data)
  | .INT24, data => .int32 (ParseBinaryInt24 data)
  | .LONGLONG, data => .int64 (ParseBinaryInt64 data)

/-- The decoder reads the bytes of a column back to the value they hold. -/
theorem orShifts_take_columnBytes (t : IntType) (u : ℕ) :
    orShifts ((columnBytes t u).take t.size) = u % 256 ^ t.size := by
  rw [columnBytes, List.take_of_length_le (by simp), orShifts_leBytes]

/-- The bit that `ParseBinaryInt24` tests is the top bit of the 24: set exactly from `2^23`. -/
theorem and_bit23_ne_zero_iff {x : ℕ} (hx : x < 2 ^ 24) :
    x &&& 2 ^ 23 ≠ 0 ↔ 2 ^ 23 ≤ x := by
  have htest : x.testBit 23 = decide (x / 2 ^ 23 % 2 = 1) := Nat.testBit_eq_decide_div_mod_eq
  have hand : x &&& 2 ^ 23 = if x.testBit 23 then 2 ^ 23 else 0 := by
    apply Nat.eq_of_testBit_eq
    intro i
    by_cases hi : i = 23
    · subst hi
      split <;> simp_all
    · have hbit : (2 ^ 23 : ℕ).testBit i = false := Nat.testBit_two_pow_of_ne (Ne.symm hi)
      rw [Nat.testBit_and, hbit, Bool.and_false]
      split
      · exact hbit.symm
      · exact (Nat.zero_testBit i).symm
  rw [hand]
  -- below `2^24`, the quotient by `2^23` is the top bit itself
  have hq : x / 2 ^ 23 % 2 = 1 ↔ 2 ^ 23 ≤ x := by omega
  split <;> simp_all

/-- Setting the top byte of a 24-bit number adds it. -/
theorem or_top_byte {x : ℕ} (hx : x < 2 ^ 24) : x ||| 0xFF000000 = x + 0xFF000000 := by
  have h : 0xFF000000 + x = 0xFF000000 ||| x := Nat.two_pow_add_eq_or_of_lt hx 255
  rw [Nat.or_comm, ← h, Nat.add_comm]

/-! ## The events -/

/-- The conversion `NewBinlogDMLEvents` applies to the value of an unsigned column: a signed
integer becomes the unsigned integer of its width with the same bits. -/
def unsignedValue : GoValue → GoValue
  | .int64 v => .uint64 v.toUInt64
  | .int32 v => .uint32 v.toUInt32
  | .int16 v => .uint16 v.toUInt16
  | .int8 v => .uint8 v.toUInt8
  | .int v => .uint v.toUInt64
  | v => v

/-- A row after the conversion: the value of each unsigned column converted. The row has one
value per column, so column `i` goes with value `i`. -/
def convertRow (columns : List TableColumn) (row : RowData) : RowData :=
  List.zipWith (fun col v => if col.IsUnsigned then unsignedValue v else v) columns row

/-- The types of rows events, by their names. -/
inductive EventType where
  | WRITE_ROWS_EVENTv1
  | WRITE_ROWS_EVENTv2
  | UPDATE_ROWS_EVENTv1
  | UPDATE_ROWS_EVENTv2
  | DELETE_ROWS_EVENTv1
  | DELETE_ROWS_EVENTv2
  /-- Any other event, by the name its `String()` gives. -/
  | other (name : String)
  deriving DecidableEq, Repr

/-- `NewBinlogUpdateEvents`: the rows in pairs, old image then new. An odd last row reads past
the end of the rows, and Go panics. -/
def NewBinlogUpdateEvents (table : Table) (Rows : List RowData) : Except GoFailure (List DMLEvent) :=
  if Rows.length % 2 = 1 then
    .error (.panic ("runtime error: index out of range [" ++ toString Rows.length ++
      "] with length " ++ toString Rows.length))
  else .ok (pairs Rows)
where
  /-- The events of the pairs of rows. -/
  pairs : List RowData → List DMLEvent
    | oldValues :: newValues :: rest => .update table oldValues newValues :: pairs rest
    | _ => []

/-- `NewBinlogDMLEvents`: the length check of every row (the text of
`verifyValuesHasTheSameLengthAsColumns`, written out again in the source), the conversion of
unsigned columns, and the events of the event's type. -/
def NewBinlogDMLEvents (table : Table) (eventType : EventType) (Rows : List RowData) :
    Except GoFailure (List DMLEvent) := do
  Rows.forM fun row => (verifyValuesHasTheSameLengthAsColumns table row).mapError .error
  let Rows := Rows.map (convertRow table.Columns)
  match eventType with
  | .WRITE_ROWS_EVENTv1 | .WRITE_ROWS_EVENTv2 => pure (Rows.map (.insert table))
  | .DELETE_ROWS_EVENTv1 | .DELETE_ROWS_EVENTv2 => pure (Rows.map (.delete table))
  | .UPDATE_ROWS_EVENTv1 | .UPDATE_ROWS_EVENTv2 => NewBinlogUpdateEvents table Rows
  | .other name => throw (.error ("unrecognized rows event: " ++ name))

/-- `pkFromEventData`: the image's value in the first pk column, read by `GetUint64`. -/
def pkFromEventData (table : Table) (rowData : RowData) : Except GoFailure UInt64 := do
  (verifyValuesHasTheSameLengthAsColumns table rowData).mapError .error
  match table.PKColumns[0]? with
  | none => throw (.panic "runtime error: index out of range [0] with length 0")
  | some pkIndex => RowData.GetUint64 rowData pkIndex

/-- `PK()`: the pk of the new image of an insert or an update, and of the old image of a
delete. -/
def DMLEvent.PK : DMLEvent → Except GoFailure UInt64
  | .insert table newValues => pkFromEventData table newValues
  | .update table _ newValues => pkFromEventData table newValues
  | .delete table oldValues => pkFromEventData table oldValues

/-! ## The value of an unsigned column -/

/-- A `UInt64` is the one of its value. -/
theorem eq_toUInt64_of_toNat_eq {x : UInt64} {u : ℕ} (h : x.toNat = u) : x = u.toUInt64 := by
  subst h
  simp

/-- `ParseBinaryUint24` reads the bytes of a `MEDIUMINT` back to its value. -/
theorem toNat_ParseBinaryUint24 {u : ℕ} (hu : u < 2 ^ 24) :
    (ParseBinaryUint24 (columnBytes .INT24 u)).toNat = u := by
  have hread := orShifts_take_columnBytes .INT24 u
  simp only [IntType.size] at hread
  simp only [ParseBinaryUint24, hread, Nat.toUInt32, UInt32.toNat_ofNat']
  omega

/-- `ParseBinaryInt24` sign-extends exactly the values from `2^23` on. -/
theorem ParseBinaryInt24_columnBytes {u : ℕ} (hu : u < 2 ^ 24) :
    (ParseBinaryInt24 (columnBytes .INT24 u)).toUInt32.toNat =
      if 2 ^ 23 ≤ u then u + 0xFF000000 else u := by
  have hx := toNat_ParseBinaryUint24 hu
  -- the bit test, read on the value
  have hbit : (ParseBinaryUint24 (columnBytes .INT24 u) &&& 0x00800000 ≠ 0) ↔ 2 ^ 23 ≤ u := by
    rw [← and_bit23_ne_zero_iff hu, ne_eq, ne_eq, ← UInt32.toNat_inj, UInt32.toNat_and, hx]
    rfl
  simp only [ParseBinaryInt24, UInt32.toUInt32_toInt32]
  by_cases hle : 2 ^ 23 ≤ u
  · rw [if_pos (hbit.mpr hle), if_pos hle, UInt32.toNat_or, hx]
    exact or_top_byte hu
  · rw [if_neg (mt hbit.mp hle), if_neg hle, hx]

/-- Below `2^23` for a `MEDIUMINT`, and everywhere for the other widths, the value of an unsigned
column after the conversion is the stored value. -/
theorem Uint64Value_unsigned (t : IntType) {u : ℕ} (hu : u < 2 ^ t.width)
    (h24 : t ≠ .INT24 ∨ u < 2 ^ 23) :
    Uint64Value (unsignedValue (decodeValue t (columnBytes t u))) = some u.toUInt64 := by
  have hread := orShifts_take_columnBytes t u
  -- one case per width: the bytes read back, then the same bits as an unsigned integer
  cases t with
  | TINY =>
    have hb : columnBytes .TINY u = [(u % 256).toUInt8] := rfl
    simp only [decodeValue, ParseBinaryInt8, hb, List.headD_cons, unsignedValue, Uint64Value,
      UInt8.toUInt8_toInt8, Option.some.injEq]
    apply eq_toUInt64_of_toNat_eq
    simp only [IntType.width] at hu
    simp
    omega
  | SHORT =>
    simp only [IntType.width, IntType.size] at hu hread
    simp only [decodeValue, ParseBinaryInt16, unsignedValue, Uint64Value, Option.some.injEq,
      hread, UInt16.toUInt16_toInt16]
    apply eq_toUInt64_of_toNat_eq
    simp
    omega
  | INT24 =>
    have hu' : u < 2 ^ 23 := h24.resolve_left (fun h => h rfl)
    have hval := ParseBinaryInt24_columnBytes (u := u) (by simp only [IntType.width] at hu; omega)
    rw [if_neg (by omega)] at hval
    simp only [decodeValue, unsignedValue, Uint64Value, Option.some.injEq]
    apply eq_toUInt64_of_toNat_eq
    simp [hval]
  | LONG =>
    simp only [IntType.width, IntType.size] at hu hread
    simp only [decodeValue, ParseBinaryInt32, unsignedValue, Uint64Value, Option.some.injEq,
      hread, UInt32.toUInt32_toInt32]
    apply eq_toUInt64_of_toNat_eq
    simp
    omega
  | LONGLONG =>
    simp only [IntType.width, IntType.size] at hu hread
    simp only [decodeValue, ParseBinaryInt64, unsignedValue, Uint64Value, Option.some.injEq,
      hread, UInt64.toUInt64_toInt64]
    apply eq_toUInt64_of_toNat_eq
    simp
    omega

/-- From `2^23` on, an unsigned `MEDIUMINT` comes out of the conversion with its top byte set:
`u + 2^32 - 2^24`. -/
theorem Uint64Value_unsigned_INT24_of_le {u : ℕ} (hu : u < 2 ^ 24) (hle : 2 ^ 23 ≤ u) :
    Uint64Value (unsignedValue (decodeValue .INT24 (columnBytes .INT24 u))) =
      some (u + 0xFF000000).toUInt64 := by
  have hval := ParseBinaryInt24_columnBytes hu
  rw [if_pos hle] at hval
  simp only [decodeValue, unsignedValue, Uint64Value, Option.some.injEq]
  apply eq_toUInt64_of_toNat_eq
  simp [hval]

/-- An unsigned integer is written as the digits of its value. -/
theorem appendEscapedValue_of_Uint64Value (AppendFloat : List Char → UInt64 → List Char)
    (buffer : List Char) {v : GoValue} {x : UInt64} (h : Uint64Value v = some x) :
    appendEscapedValue AppendFloat buffer v = buffer ++ Nat.toDigits 10 x.toNat := by
  -- only unsigned integers have an unsigned value, and none of them is nil
  have hnil : isNilValue v = false := by
    cases v <;> simp_all [Uint64Value, isNilValue]
  simp [appendEscapedValue, hnil, h, AppendUint]

/-- The text of an unsigned column's value, when the conversion gives the stored value back: its
digits. -/
theorem appendEscapedValue_unsigned (AppendFloat : List Char → UInt64 → List Char)
    (buffer : List Char) (t : IntType) {u : ℕ} (hu : u < 2 ^ t.width)
    (h24 : t ≠ .INT24 ∨ u < 2 ^ 23) :
    appendEscapedValue AppendFloat buffer (unsignedValue (decodeValue t (columnBytes t u))) =
      buffer ++ Nat.toDigits 10 u := by
  have hw : u < 2 ^ 64 := by
    have : 2 ^ t.width ≤ 2 ^ 64 := Nat.pow_le_pow_right (by decide) (by cases t <;> decide)
    omega
  rw [appendEscapedValue_of_Uint64Value AppendFloat buffer (Uint64Value_unsigned t hu h24),
    Nat.toUInt64, UInt64.toNat_ofNat', Nat.mod_eq_of_lt hw]

/-! ## The events of a rows event -/

/-- The length check passes exactly when every row has one value per column. -/
theorem forM_verify_eq_ok_iff (table : Table) (Rows : List RowData) :
    (Rows.forM fun row => (verifyValuesHasTheSameLengthAsColumns table row).mapError
      GoFailure.error) = .ok () ↔ ∀ row ∈ Rows, row.length = table.Columns.length := by
  induction Rows with
  | nil => simp only [List.forM, List.not_mem_nil, false_imp_iff, implies_true, iff_true]; rfl
  | cons row rest ih =>
    by_cases h : table.Columns.length = row.length
    · have hv : (verifyValuesHasTheSameLengthAsColumns table row).mapError GoFailure.error =
          .ok () := by
        simp [verifyValuesHasTheSameLengthAsColumns, h, Except.mapError]
      rw [List.forM, hv]
      simp only [bind, Except.bind, ih, List.mem_cons, forall_eq_or_imp, h.symm, true_and]
    · simp [List.forM, verifyValuesHasTheSameLengthAsColumns, h, Except.mapError, bind,
        Except.bind, Ne.symm h]

/-- Every update event of a pair of rows is made of two of the rows. -/
theorem mem_pairs {table : Table} {e : DMLEvent} :
    ∀ {Rows : List RowData}, e ∈ NewBinlogUpdateEvents.pairs table Rows →
      ∃ oldValues ∈ Rows, ∃ newValues ∈ Rows, e = .update table oldValues newValues
  | oldValues :: newValues :: rest, he => by
    rw [NewBinlogUpdateEvents.pairs, List.mem_cons] at he
    rcases he with rfl | he
    · exact ⟨oldValues, by simp, newValues, by simp, rfl⟩
    · obtain ⟨o, ho, n, hn, rfl⟩ := mem_pairs he
      exact ⟨o, by simp [ho], n, by simp [hn], rfl⟩
  | [], he | [_], he => by simp [NewBinlogUpdateEvents.pairs] at he

/-- Every event `NewBinlogDMLEvents` makes is an insert, a delete or an update of the table whose
images are converted rows, and every row passed the length check. -/
theorem mem_NewBinlogDMLEvents {table : Table} {eventType : EventType} {Rows : List RowData}
    {evs : List DMLEvent} (h : NewBinlogDMLEvents table eventType Rows = .ok evs) {e : DMLEvent}
    (he : e ∈ evs) :
    (∀ row ∈ Rows, row.length = table.Columns.length) ∧
      ((∃ img ∈ Rows.map (convertRow table.Columns), e = .insert table img) ∨
        (∃ img ∈ Rows.map (convertRow table.Columns), e = .delete table img) ∨
        (∃ o ∈ Rows.map (convertRow table.Columns), ∃ n ∈ Rows.map (convertRow table.Columns),
          e = .update table o n)) := by
  simp only [NewBinlogDMLEvents, bind, Except.bind] at h
  split at h
  · cases h
  · rename_i hcheck
    refine ⟨(forM_verify_eq_ok_iff table Rows).mp hcheck, ?_⟩
    have hpairs : ∀ e' ∈ NewBinlogUpdateEvents.pairs table (Rows.map (convertRow table.Columns)),
        ∃ o ∈ Rows.map (convertRow table.Columns), ∃ n ∈ Rows.map (convertRow table.Columns),
          e' = .update table o n := fun e' he' => mem_pairs he'
    cases eventType with
    | WRITE_ROWS_EVENTv1 | WRITE_ROWS_EVENTv2 =>
      -- an insert of each converted row
      cases h
      obtain ⟨img, himg, rfl⟩ := List.mem_map.mp he
      exact .inl ⟨img, himg, rfl⟩
    | DELETE_ROWS_EVENTv1 | DELETE_ROWS_EVENTv2 =>
      cases h
      obtain ⟨img, himg, rfl⟩ := List.mem_map.mp he
      exact .inr (.inl ⟨img, himg, rfl⟩)
    | UPDATE_ROWS_EVENTv1 | UPDATE_ROWS_EVENTv2 =>
      -- the pairs, when their number is even
      simp only [NewBinlogUpdateEvents] at h
      split at h
      · cases h
      · cases h
        exact .inr (.inr (hpairs e he))
    | other name => cases h

/-- Every image of an event `NewBinlogDMLEvents` makes is a converted row of the event. -/
theorem images_of_NewBinlogDMLEvents {table : Table} {eventType : EventType}
    {Rows : List RowData} {evs : List DMLEvent}
    (h : NewBinlogDMLEvents table eventType Rows = .ok evs) {e : DMLEvent} (he : e ∈ evs) :
    e.TableSchema = table ∧ ∀ img ∈ e.images, ∃ row ∈ Rows,
      row.length = table.Columns.length ∧ img = convertRow table.Columns row := by
  obtain ⟨hlen, hshape⟩ := mem_NewBinlogDMLEvents h he
  -- a converted row comes from a row that passed the length check
  have hconv : ∀ img ∈ Rows.map (convertRow table.Columns), ∃ row ∈ Rows,
      row.length = table.Columns.length ∧ img = convertRow table.Columns row := by
    intro img himg
    obtain ⟨row, hrow, rfl⟩ := List.mem_map.mp himg
    exact ⟨row, hrow, hlen row hrow, rfl⟩
  rcases hshape with ⟨img, himg, rfl⟩ | ⟨img, himg, rfl⟩ | ⟨o, ho, n, hn, rfl⟩
  · refine ⟨rfl, fun img' h' => ?_⟩
    rw [List.mem_singleton.mp h']
    exact hconv img himg
  · refine ⟨rfl, fun img' h' => ?_⟩
    rw [List.mem_singleton.mp h']
    exact hconv img himg
  · refine ⟨rfl, fun img' h' => ?_⟩
    rcases List.mem_pair.mp h' with rfl | rfl
    · exact hconv img' ho
    · exact hconv img' hn

theorem length_convertRow {columns : List TableColumn} {row : RowData}
    (h : row.length = columns.length) : (convertRow columns row).length = columns.length := by
  simp [convertRow, h]

/-- The value a converted row holds in column `i`. -/
theorem getElem?_convertRow {columns : List TableColumn} {row : RowData} {i : ℕ}
    {col : TableColumn} {v : GoValue} (hcol : columns[i]? = some col) (hv : row[i]? = some v) :
    (convertRow columns row)[i]? = some (if col.IsUnsigned then unsignedValue v else v) := by
  simp [convertRow, List.getElem?_zipWith, hcol, hv]

/-- In an image of an unsigned integer column of width other than 24, or below `2^23`, the value
is written as the digits of the stored value. -/
theorem appendEscapedValue_convertRow (AppendFloat : List Char → UInt64 → List Char)
    (buffer : List Char) {columns : List TableColumn} {row : RowData} {i : ℕ} {col : TableColumn}
    (hcol : columns[i]? = some col) (hun : col.IsUnsigned = true) {t : IntType} {u : ℕ}
    (hv : row[i]? = some (decodeValue t (columnBytes t u))) (hu : u < 2 ^ t.width)
    (h24 : t ≠ .INT24 ∨ u < 2 ^ 23) :
    ∃ v, (convertRow columns row)[i]? = some v ∧
      appendEscapedValue AppendFloat buffer v = buffer ++ Nat.toDigits 10 u := by
  refine ⟨_, getElem?_convertRow hcol hv, ?_⟩
  rw [if_pos hun]
  exact appendEscapedValue_unsigned AppendFloat buffer t hu h24

/-- A table with a signed `BIGINT` pk and an unsigned `MEDIUMINT` column. -/
def countersTable : Table :=
  { Schema := "gftest", Name := "counters",
    Columns := [⟨"id", .number, "bigint(20)", false⟩,
      ⟨"hits", .number, "mediumint(8) unsigned", true⟩],
    PKColumns := [0] }

/-- The row `(1, 8388608)` of a write rows event, as the decoder reads it. -/
def countersRow : RowData :=
  [decodeValue .LONGLONG (columnBytes .LONGLONG 1), decodeValue .INT24 (columnBytes .INT24 8388608)]

theorem mediumint_unsigned_rendered_wrong (AppendFloat : List Char → UInt64 → List Char) :
    decodeValue .INT24 (columnBytes .INT24 8388608) = .int32 (-8388608) ∧
      NewBinlogDMLEvents countersTable .WRITE_ROWS_EVENTv2 [countersRow] =
        .ok [.insert countersTable [.int64 1, .uint32 4286578688]] ∧
      DMLEvent.AsSQLString AppendFloat (.insert countersTable [.int64 1, .uint32 4286578688])
          countersTable =
        .ok "INSERT IGNORE INTO `gftest`.`counters` (`id`,`hits`) VALUES (1,4286578688)".toList := by
  refine ⟨by decide, rfl, ?_⟩
  rfl

/-! ## The pk of an event -/

/-- A value other than a byte slice goes through `reflect.Value.Int`, and must not be negative. -/
theorem GetUint64_of_not_bytes {r : RowData} {i : ℕ} {v : GoValue} (hv : r[i]? = some v)
    (hb : ∀ b, v ≠ .bytes b) (hn : v ≠ .nilBytes) :
    RowData.GetUint64 r i = (reflectInt v).bind fun signedInt =>
      if signedInt.toInt < 0 then
        .error (.error ("expected position " ++ toString i ++ " in row to contain an unsigned number"))
      else .ok signedInt.toUInt64 := by
  unfold RowData.GetUint64
  split
  · rename_i heq
    rw [hv] at heq
    cases heq
  · rename_i b heq
    rw [hv] at heq
    cases heq
    exact absurd rfl (hb b)
  · rename_i heq
    rw [hv] at heq
    cases heq
    exact absurd rfl hn
  · rename_i heq
    rw [hv] at heq
    cases heq
    cases reflectInt v <;> rfl

/-- An integer, signed or unsigned, is not a byte slice. -/
theorem not_bytes_of_isSome {v : GoValue} (h : (Int64Value v).isSome ∨ (Uint64Value v).isSome) :
    (∀ b, v ≠ .bytes b) ∧ v ≠ .nilBytes := by
  refine ⟨?_, ?_⟩
  · rintro b rfl
    simp [Int64Value, Uint64Value] at h
  · rintro rfl
    simp [Int64Value, Uint64Value] at h

/-- `GetUint64` reads a non-negative signed integer, of any width, as its value. -/
theorem GetUint64_of_Int64Value {r : RowData} {i : ℕ} {v : GoValue} {x : Int64}
    (hv : r[i]? = some v) (hx : Int64Value v = some x) (hnn : 0 ≤ x.toInt) :
    RowData.GetUint64 r i = .ok x.toUInt64 := by
  obtain ⟨hb, hn⟩ := not_bytes_of_isSome (v := v) (.inl (by simp [hx]))
  have hint : reflectInt v = .ok x := by simp [reflectInt, hx]
  rw [GetUint64_of_not_bytes hv hb hn, hint]
  simp [Except.bind, show ¬x.toInt < 0 by omega]

/-- `GetUint64` reads the decimal `[]byte` of a 64-bit number as that number. -/
theorem GetUint64_bytes {r : RowData} {i p : ℕ} (hv : r[i]? = some (.bytes (Nat.toDigits 10 p)))
    (hp : p < 2 ^ 64) : RowData.GetUint64 r i = .ok p.toUInt64 := by
  simp [RowData.GetUint64, hv, ParseUint_toDigits hp, Except.mapError]

/-- The `int64` a scan of an integer column gives, when it is not negative, is its value. -/
theorem GetUint64_int64 {r : RowData} {i : ℕ} {x : Int64} (hv : r[i]? = some (.int64 x))
    (hnn : 0 ≤ x.toInt) : RowData.GetUint64 r i = .ok x.toUInt64 :=
  GetUint64_of_Int64Value hv rfl hnn

/-- `GetUint64` panics on an unsigned integer: `reflect.Value.Int` takes only signed kinds. -/
theorem GetUint64_of_Uint64Value {r : RowData} {i : ℕ} {v : GoValue} {x : UInt64}
    (hv : r[i]? = some v) (hx : Uint64Value v = some x) :
    ∃ msg, RowData.GetUint64 r i = .error (.panic msg) := by
  obtain ⟨hb, hn⟩ := not_bytes_of_isSome (v := v) (.inr (by simp [hx]))
  have hint : Int64Value v = none := by
    cases v <;> simp_all [Uint64Value, Int64Value]
  rw [GetUint64_of_not_bytes hv hb hn]
  refine ⟨"reflect: call of reflect.Value.Int on " ++ v.kind.getD "zero" ++ " Value", ?_⟩
  simp [reflectInt, hint, Except.bind]

/-- The conversion turns every signed integer into an unsigned one. -/
theorem Uint64Value_unsignedValue_isSome {v : GoValue} (hv : (Int64Value v).isSome) :
    (Uint64Value (unsignedValue v)).isSome := by
  cases v <;> simp_all [Int64Value, unsignedValue, Uint64Value]

/-- The pk of an image of the right length is what `GetUint64` reads in the first pk column. -/
theorem pkFromEventData_eq {table : Table} {rowData : RowData} {k : ℕ}
    (hlen : rowData.length = table.Columns.length) (hpk : table.PKColumns[0]? = some k) :
    pkFromEventData table rowData = RowData.GetUint64 rowData k := by
  have hv : verifyValuesHasTheSameLengthAsColumns table rowData = .ok () := by
    simp [verifyValuesHasTheSameLengthAsColumns, hlen]
  simp [pkFromEventData, hv, hpk, Except.mapError, bind, Except.bind]

/-- The pk of every event `NewBinlogDMLEvents` makes is read from one of its images. -/
theorem PK_eq_of_mem {table : Table} {eventType : EventType} {Rows : List RowData}
    {evs : List DMLEvent} (h : NewBinlogDMLEvents table eventType Rows = .ok evs) {e : DMLEvent}
    (he : e ∈ evs) {k : ℕ} (hpk : table.PKColumns[0]? = some k) :
    ∃ row ∈ Rows, row.length = table.Columns.length ∧
      e.PK = RowData.GetUint64 (convertRow table.Columns row) k := by
  obtain ⟨htable, himages⟩ := images_of_NewBinlogDMLEvents h he
  -- the image `PK` reads is one of the event's images
  have hpkimg : ∃ img ∈ e.images, e.PK = pkFromEventData table img := by
    cases e with
    | insert t newValues => exact ⟨newValues, by simp [DMLEvent.images], by cases htable; rfl⟩
    | update t oldValues newValues =>
      exact ⟨newValues, by simp [DMLEvent.images], by cases htable; rfl⟩
    | delete t oldValues => exact ⟨oldValues, by simp [DMLEvent.images], by cases htable; rfl⟩
  obtain ⟨img, himg, hPK⟩ := hpkimg
  obtain ⟨row, hrow, hlen, rfl⟩ := himages img himg
  exact ⟨row, hrow, hlen, hPK.trans (pkFromEventData_eq (length_convertRow hlen) hpk)⟩

/-- For a table whose first pk column is an unsigned integer column, the pk of every event
`NewBinlogDMLEvents` makes from rows of decoded integers panics. -/
theorem PK_of_unsigned_pk {table : Table} {eventType : EventType} {Rows : List RowData}
    {evs : List DMLEvent} (h : NewBinlogDMLEvents table eventType Rows = .ok evs) {e : DMLEvent}
    (he : e ∈ evs) {k : ℕ} {col : TableColumn} (hpk : table.PKColumns[0]? = some k)
    (hcol : table.Columns[k]? = some col) (hun : col.IsUnsigned = true)
    (hrows : ∀ row ∈ Rows, ∃ v, row[k]? = some v ∧ (Int64Value v).isSome) :
    ∃ msg, e.PK = .error (.panic msg) := by
  obtain ⟨row, hrow, -, hPK⟩ := PK_eq_of_mem h he hpk
  obtain ⟨v, hv, hint⟩ := hrows row hrow
  obtain ⟨x, hx⟩ := Option.isSome_iff_exists.mp (Uint64Value_unsignedValue_isSome hint)
  have himg : (convertRow table.Columns row)[k]? = some (unsignedValue v) := by
    rw [getElem?_convertRow hcol hv, if_pos hun]
  rw [hPK]
  exact GetUint64_of_Uint64Value himg hx

/-- For a table whose first pk column is signed, the pk of every event `NewBinlogDMLEvents` makes
from rows holding a non-negative signed integer there is that integer. -/
theorem PK_of_signed_pk {table : Table} {eventType : EventType} {Rows : List RowData}
    {evs : List DMLEvent} (h : NewBinlogDMLEvents table eventType Rows = .ok evs) {e : DMLEvent}
    (he : e ∈ evs) {k : ℕ} {col : TableColumn} (hpk : table.PKColumns[0]? = some k)
    (hcol : table.Columns[k]? = some col) (hsigned : col.IsUnsigned = false)
    (hrows : ∀ row ∈ Rows, ∃ v x, row[k]? = some v ∧ Int64Value v = some x ∧ 0 ≤ x.toInt) :
    ∃ row ∈ Rows, ∃ v x, row[k]? = some v ∧ Int64Value v = some x ∧ e.PK = .ok x.toUInt64 := by
  obtain ⟨row, hrow, -, hPK⟩ := PK_eq_of_mem h he hpk
  obtain ⟨v, x, hv, hx, hnn⟩ := hrows row hrow
  have himg : (convertRow table.Columns row)[k]? = some v := by
    rw [getElem?_convertRow hcol hv, if_neg (by simp [hsigned])]
  exact ⟨row, hrow, v, x, hv, hx, hPK.trans (GetUint64_of_Int64Value himg hx hnn)⟩

/-- A table whose pk is an unsigned `BIGINT`, as in the unsigned-pk integration setup. -/
def unsignedPkTable : Table :=
  { Schema := "gftest", Name := "test_table_1",
    Columns := [⟨"id", .number, "bigint(20) unsigned", true⟩,
      ⟨"data", .string, "varchar(16)", false⟩],
    PKColumns := [0] }

theorem unsigned_pk_event_panics :
    NewBinlogDMLEvents unsignedPkTable .WRITE_ROWS_EVENTv2
        [[decodeValue .LONGLONG (columnBytes .LONGLONG 1), .string ['x']]] =
      .ok [.insert unsignedPkTable [.uint64 1, .string ['x']]] ∧
    (DMLEvent.insert unsignedPkTable [.uint64 1, .string ['x']]).PK =
      .error (.panic "reflect: call of reflect.Value.Int on uint64 Value") := by
  refine ⟨rfl, ?_⟩
  rfl

end Ghostferry
