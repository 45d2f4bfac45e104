import Ghostferry.Literal
import Ghostferry.Schema
import Ghostferry.Mysql.Statement

/-!
# Binlog row events as statements

Each row event of the binlog becomes one statement on the target: `BinlogInsertEvent` an
`INSERT IGNORE` of the new image, `BinlogUpdateEvent` an `UPDATE` that sets every column to the
new image where every column holds the old one, `BinlogDeleteEvent` a `DELETE` where every
column holds the old image. `AsSQLString` first checks that each image has one value per column
of the table; `writeEvents` joins the batch's statements into one `BEGIN; ...; COMMIT` and stops,
before anything is sent, at the first event whose statement cannot be built.

The statement MySQL runs is the one it reads from the text (`Mysql.parseStatement`). The builders
join `column=value` by commas and the conditions by ` AND `, the `i`-th column with the `i`-th
value (`buildStringMapForSet_eq`, `buildStringMapForWhere_eq`); a value's text reads back as what
it stands for (`ReadsAs`), and the `WHERE` builder's choice between `IS NULL` and `=` is the
condition that the column holds it (`CondText_of_ReadsAs`). `RowChange.apply` states the
conditional apply the writer relies on: an insert unless the key is taken, and an update or delete
of the old image's row if the target holds that image. `AsSQLString_conditional_apply` shows that
the statements do exactly this, for a table whose names have no backtick. An update whose new key
another row holds fails with a duplicate-key error, and a backtick in a name, which `quoteField`
does not double, ends the name early (`update_duplicate_key_and_backtick_column`).
-/

namespace Ghostferry

open Mysql

/-- A row as the binlog gives it. -/
abbrev RowData := List GoValue

/-- A row event with the schema of its source table. -/
inductive DMLEvent where
  | insert (table : Table) (newValues : RowData)
  | update (table : Table) (oldValues newValues : RowData)
  | delete (table : Table) (oldValues : RowData)

namespace DMLEvent

/-- `TableSchema()`. -/
def TableSchema : DMLEvent → Table
  | .insert table _ | .update table _ _ | .delete table _ => table

/-- The images of the event, each checked against the column count. -/
def images : DMLEvent → List RowData
  | .insert _ newValues => [newValues]
  | .update _ oldValues newValues => [oldValues, newValues]
  | .delete _ oldValues => [oldValues]

end DMLEvent

/-- `quoteField`. -/
def quoteField (field : String) : List Char := "`".toList ++ field.toList ++ "`".toList

/-- `QuotedTableNameFromString`. -/
def QuotedTableNameFromString (database table : String) : List Char :=
  quoteField database ++ ['.'] ++ quoteField table

/-- `quotedColumnNames`. -/
def quotedColumnNames (table : Table) : List (List Char) := table.Columns.map (quoteField ·.Name)

/-- `verifyValuesHasTheSameLengthAsColumns`. -/
def verifyValuesHasTheSameLengthAsColumns (table : Table) (values : RowData) : Except String Unit :=
  if table.Columns.length ≠ values.length then
    .error ("table " ++ table.Schema ++ "." ++ table.Name ++ " has " ++
      toString table.Columns.length ++ " columns but event has " ++ toString values.length ++
      " columns instead")
  else .ok ()

/-- `loadColumnsForTable`: the quoted column names, once every image has one value per column. -/
def loadColumnsForTable (table : Table) : List RowData → Except String (List (List Char))
  | [] => .ok (quotedColumnNames table)
  | values :: valuesToVerify => do
    verifyValuesHasTheSameLengthAsColumns table values
    loadColumnsForTable table valuesToVerify

section Render

variable (AppendFloat : List Char → UInt64 → List Char)

/-- `buildStringMapForWhere`: `column = value`, or `column IS NULL` for a nil value, joined by
`AND`; the `i`-th column goes with the `i`-th value. -/
def buildStringMapForWhere (columns : List (List Char)) (values : RowData) : List Char :=
  go [] 0 values
where
  /-- The loop over the values, with the buffer and the index. -/
  go (buffer : List Char) (i : ℕ) : RowData → List Char
    | [] => buffer
    | value :: values =>
      let buffer := if i > 0 then buffer ++ " AND ".toList else buffer
      -- `columns[i]`: the lengths were checked, so the index is in range
      let buffer := buffer ++ columns[i]?.getD []
      let buffer :=
        if isNilValue value then buffer ++ " IS NULL".toList
        else appendEscapedValue AppendFloat (buffer ++ ['=']) value
      go buffer (i + 1) values

/-- `buildStringMapForSet`: `column=value`, joined by commas. -/
def buildStringMapForSet (columns : List (List Char)) (values : RowData) : List Char :=
  go [] 0 values
where
  /-- The loop over the values, with the buffer and the index. -/
  go (buffer : List Char) (i : ℕ) : RowData → List Char
    | [] => buffer
    | value :: values =>
      let buffer := if i > 0 then buffer ++ [','] else buffer
      let buffer := buffer ++ columns[i]?.getD [] ++ ['=']
      go (appendEscapedValue AppendFloat buffer value) (i + 1) values

/-- `AsSQLString` on the rewritten target table. -/
def DMLEvent.AsSQLString (e : DMLEvent) (target : Table) : Except String (List Char) :=
  match e with
  | .insert table newValues => do
    let columns ← loadColumnsForTable table [newValues]
    pure ("INSERT IGNORE INTO ".toList ++ QuotedTableNameFromString target.Schema target.Name ++
      " (".toList ++ [','].intercalate columns ++ ")".toList ++
      " VALUES (".toList ++ buildStringListForValues AppendFloat newValues ++ ")".toList)
  | .update table oldValues newValues => do
    let columns ← loadColumnsForTable table [oldValues, newValues]
    pure ("UPDATE ".toList ++ QuotedTableNameFromString target.Schema target.Name ++
      " SET ".toList ++ buildStringMapForSet AppendFloat columns newValues ++
      " WHERE ".toList ++ buildStringMapForWhere AppendFloat columns oldValues)
  | .delete table oldValues => do
    let columns ← loadColumnsForTable table [oldValues]
    pure ("DELETE FROM ".toList ++ QuotedTableNameFromString target.Schema target.Name ++
      " WHERE ".toList ++ buildStringMapForWhere AppendFloat columns oldValues)

/-- The target table of an event, its database and table renamed by the rewrites. -/
def rewrittenTarget (DatabaseRewrites TableRewrites : List (String × String)) (table : Table) :
    Table :=
  { Schema := (DatabaseRewrites.lookup table.Schema).getD table.Schema,
    Name := (TableRewrites.lookup table.Name).getD table.Name, Columns := [], PKColumns := [] }

/-- One pass of the loop of `writeEvents`: the event's statement appended to the transaction. -/
def appendEventSQL (DatabaseRewrites TableRewrites : List (String × String))
    (queryBuffer : List Char) (ev : DMLEvent) : Except String (List Char) :=
  match ev.AsSQLString AppendFloat
      (rewrittenTarget DatabaseRewrites TableRewrites ev.TableSchema) with
  | .error err => .error ("generating sql query: " ++ err)
  | .ok sql => .ok (queryBuffer ++ sql ++ ";\n".toList)

/-- `writeEvents`: the text of the batch's transaction that goes to `DB.Exec`, or the error it
returns before sending anything. -/
def writeEvents (DatabaseRewrites TableRewrites : List (String × String))
    (events : List DMLEvent) : Except String (List Char) := do
  let queryBuffer ←
    events.foldlM (appendEventSQL AppendFloat DatabaseRewrites TableRewrites) "BEGIN;\n".toList
  pure (queryBuffer ++ "COMMIT".toList)

end Render

/-! ## The error path -/

/-- `loadColumnsForTable` fails exactly when an image's length is not the column count. -/
theorem loadColumnsForTable_error_iff (table : Table) (valuesToVerify : List RowData) :
    (∃ err, loadColumnsForTable table valuesToVerify = .error err) ↔
      ∃ values ∈ valuesToVerify, values.length ≠ table.Columns.length := by
  induction valuesToVerify with
  | nil => simp [loadColumnsForTable]
  | cons values rest ih =>
    by_cases h : table.Columns.length = values.length
    · -- this image passes, and the rest decide
      have hv : verifyValuesHasTheSameLengthAsColumns table values = .ok () := by
        simp [verifyValuesHasTheSameLengthAsColumns, h]
      have hn : ¬values.length ≠ table.Columns.length := by omega
      simp only [loadColumnsForTable, hv, bind, Except.bind, List.mem_cons, exists_eq_or_imp, hn,
        false_or]
      exact ih
    · simp [loadColumnsForTable, verifyValuesHasTheSameLengthAsColumns, h, bind, Except.bind,
        Ne.symm h]

/-- Once every image has one value per column, `loadColumnsForTable` returns the quoted
column names. -/
theorem loadColumnsForTable_eq_ok (table : Table) {valuesToVerify : List RowData}
    (h : ∀ values ∈ valuesToVerify, values.length = table.Columns.length) :
    loadColumnsForTable table valuesToVerify = .ok (quotedColumnNames table) := by
  induction valuesToVerify with
  | nil => rfl
  | cons values rest ih =>
    have hv : verifyValuesHasTheSameLengthAsColumns table values = .ok () := by
      simp [verifyValuesHasTheSameLengthAsColumns, h values (List.mem_cons_self ..)]
    simp only [loadColumnsForTable, hv, bind, Except.bind]
    exact ih fun values' hv' => h values' (List.mem_cons_of_mem values hv')

section ErrorPath

variable (AppendFloat : List Char → UInt64 → List Char)

/-- `AsSQLString` fails exactly when an image's length is not the column count. -/
theorem AsSQLString_error_iff (e : DMLEvent) (target : Table) :
    (∃ err, e.AsSQLString AppendFloat target = .error err) ↔
      ∃ values ∈ e.images, values.length ≠ e.TableSchema.Columns.length := by
  have hbind : ∀ (table : Table) (vs : List RowData) (k : List (List Char) → List Char),
      (∃ err, (loadColumnsForTable table vs >>= fun columns => pure (k columns)) =
        (Except.error err : Except String (List Char))) ↔
        ∃ err, loadColumnsForTable table vs = .error err := by
    intro table vs k
    cases loadColumnsForTable table vs <;> simp [bind, Except.bind, pure, Except.pure]
  cases e <;>
    simp only [DMLEvent.AsSQLString, DMLEvent.images, DMLEvent.TableSchema, hbind,
      loadColumnsForTable_error_iff]

/-- A batch with an event whose statement cannot be built sends nothing: `writeEvents` returns
an error before `DB.Exec`. -/
theorem writeEvents_error_of_mem {DatabaseRewrites TableRewrites : List (String × String)}
    {events : List DMLEvent} {e : DMLEvent} (he : e ∈ events)
    (hlen : ∃ values ∈ e.images, values.length ≠ e.TableSchema.Columns.length) :
    ∃ err, writeEvents AppendFloat DatabaseRewrites TableRewrites events = .error err := by
  -- the loop fails at the first event whose text fails, and it reaches `e` if none before does
  have hfold : ∀ (evs : List DMLEvent) (buffer : List Char), e ∈ evs →
      ∃ err, evs.foldlM (appendEventSQL AppendFloat DatabaseRewrites TableRewrites) buffer =
        .error err := by
    intro evs
    induction evs with
    | nil => simp
    | cons ev evs ih =>
      intro buffer hmem
      rw [List.foldlM_cons]
      cases hstep : appendEventSQL AppendFloat DatabaseRewrites TableRewrites buffer ev with
      | error err => exact ⟨err, rfl⟩
      | ok buffer' =>
        rcases List.mem_cons.mp hmem with rfl | hmem
        · obtain ⟨err, herr⟩ := (AsSQLString_error_iff AppendFloat e
            (rewrittenTarget DatabaseRewrites TableRewrites e.TableSchema)).mpr hlen
          simp [appendEventSQL, herr] at hstep
        · exact ih buffer' hmem
  obtain ⟨err, herr⟩ := hfold events _ he
  refine ⟨err, ?_⟩
  simp only [writeEvents, bind, Except.bind]
  rw [herr]

end ErrorPath

/-! ## The text, piece by piece -/

/-- The names of a table's columns, in its order. -/
def columnNames (table : Table) : List (List Char) := table.Columns.map (·.Name.toList)

/-- `quoteField` puts a name between backticks, doubling none. -/
theorem quoteField_eq (field : String) : quoteField field = quoted field.toList := rfl

/-- The quoted column names are the table's names, quoted. -/
theorem quotedColumnNames_eq (table : Table) :
    quotedColumnNames table = (columnNames table).map quoted := by
  simp [quotedColumnNames, columnNames, quoteField_eq]

/-- The text of a `WHERE` condition after its column: ` IS NULL` for a nil value, and `=` with the
value's text otherwise. -/
def condText (AppendFloat : List Char → UInt64 → List Char) (value : GoValue) : List Char :=
  if isNilValue value then " IS NULL".toList else '=' :: appendEscapedValue AppendFloat [] value

section Builders

variable {AppendFloat : List Char → UInt64 → List Char}
  (happ : ∀ buffer bits, AppendFloat buffer bits = buffer ++ AppendFloat [] bits)
include happ

/-- The text of a value after `=`, whatever was written before it. -/
theorem appendEscapedValue_eq_cons (buffer : List Char) (v : GoValue) :
    appendEscapedValue AppendFloat (buffer ++ ['=']) v =
      buffer ++ '=' :: appendEscapedValue AppendFloat [] v := by
  rw [appendEscapedValue_eq_append_of_appends AppendFloat happ]
  simp

/-- The `WHERE` builder appends ` IS NULL`, or `=` and the value, to what it has written. -/
theorem whereValue_eq (buffer : List Char) (v : GoValue) :
    (if isNilValue v = true then buffer ++ " IS NULL".toList
      else appendEscapedValue AppendFloat (buffer ++ ['=']) v) =
      buffer ++ condText AppendFloat v := by
  unfold condText
  split_ifs
  · rfl
  · exact appendEscapedValue_eq_cons happ buffer v

/-- The loop of `buildStringMapForSet` after the first value: each further `column=value` after a
comma, the `i`-th column with the `i`-th value. -/
theorem buildStringMapForSet_go {columns : List (List Char)} (buffer : List Char) {i : ℕ}
    (hi : 0 < i) (values : RowData) (hlen : columns.length = i + values.length) :
    buildStringMapForSet.go AppendFloat columns buffer i values =
      buffer ++ (List.zipWith (fun column value =>
        column ++ '=' :: appendEscapedValue AppendFloat [] value) (columns.drop i) values).flatMap
          ([','] ++ ·) := by
  induction values generalizing buffer i with
  | nil => simp [buildStringMapForSet.go]
  | cons v vs ih =>
    have hi' : i < columns.length := by
      simp only [List.length_cons] at hlen
      omega
    have hrest := ih (buffer ++ [','] ++ columns[i] ++ '=' :: appendEscapedValue AppendFloat [] v)
      (Nat.succ_pos i) (by simp only [List.length_cons] at hlen; omega)
    simp only [buildStringMapForSet.go, if_pos hi, List.getElem?_eq_getElem hi', Option.getD_some,
      appendEscapedValue_eq_cons happ, hrest, List.drop_eq_getElem_cons hi',
      List.zipWith_cons_cons, List.flatMap_cons]
    simp

/-- `buildStringMapForSet` joins `column=value` by commas, the `i`-th column with the `i`-th
value. -/
theorem buildStringMapForSet_eq {columns : List (List Char)} {values : RowData}
    (hlen : columns.length = values.length) :
    buildStringMapForSet AppendFloat columns values = [','].intercalate (List.zipWith
      (fun column value => column ++ '=' :: appendEscapedValue AppendFloat [] value)
        columns values) := by
  cases values with
  | nil => simp [buildStringMapForSet, buildStringMapForSet.go]
  | cons v vs =>
    obtain ⟨c, cs, rfl⟩ := List.exists_cons_of_length_eq_add_one hlen
    -- the first pair has no comma before it, and the loop goes on from the second
    have hrest := @buildStringMapForSet_go _ happ (c :: cs)
      (c ++ '=' :: appendEscapedValue AppendFloat [] v) 1 Nat.one_pos vs
      (by simp only [List.length_cons] at hlen ⊢; omega)
    simp only [buildStringMapForSet, buildStringMapForSet.go, gt_iff_lt, lt_self_iff_false,
      if_false, List.getElem?_cons_zero, Option.getD_some, List.nil_append,
      appendEscapedValue_eq_cons happ, zero_add,
      hrest, List.zipWith_cons_cons, intercalate_cons_eq_append_flatMap, List.drop_one,
      List.tail_cons]

/-- The loop of `buildStringMapForWhere` after the first value: each further condition after
` AND `, the `i`-th column with the `i`-th value. -/
theorem buildStringMapForWhere_go {columns : List (List Char)} (buffer : List Char) {i : ℕ}
    (hi : 0 < i) (values : RowData) (hlen : columns.length = i + values.length) :
    buildStringMapForWhere.go AppendFloat columns buffer i values =
      buffer ++ (List.zipWith (fun column value => column ++ condText AppendFloat value)
        (columns.drop i) values).flatMap (" AND ".toList ++ ·) := by
  induction values generalizing buffer i with
  | nil => simp [buildStringMapForWhere.go]
  | cons v vs ih =>
    have hi' : i < columns.length := by
      simp only [List.length_cons] at hlen
      omega
    have hrest := ih (buffer ++ " AND ".toList ++ columns[i] ++ condText AppendFloat v)
      (Nat.succ_pos i) (by simp only [List.length_cons] at hlen; omega)
    simp only [buildStringMapForWhere.go, if_pos hi, List.getElem?_eq_getElem hi',
      Option.getD_some, whereValue_eq happ, hrest, List.drop_eq_getElem_cons hi',
      List.zipWith_cons_cons,
      List.flatMap_cons]
    simp

/-- `buildStringMapForWhere` joins the conditions by ` AND `, the `i`-th column with the `i`-th
value. -/
theorem buildStringMapForWhere_eq {columns : List (List Char)} {values : RowData}
    (hlen : columns.length = values.length) :
    buildStringMapForWhere AppendFloat columns values = " AND ".toList.intercalate
      (List.zipWith (fun column value => column ++ condText AppendFloat value) columns values) := by
  cases values with
  | nil => simp [buildStringMapForWhere, buildStringMapForWhere.go]
  | cons v vs =>
    obtain ⟨c, cs, rfl⟩ := List.exists_cons_of_length_eq_add_one hlen
    have hrest := @buildStringMapForWhere_go _ happ (c :: cs)
      (c ++ condText AppendFloat v) 1 Nat.one_pos vs
      (by simp only [List.length_cons] at hlen ⊢; omega)
    simp only [buildStringMapForWhere, buildStringMapForWhere.go, gt_iff_lt, lt_self_iff_false,
      if_false, List.getElem?_cons_zero, Option.getD_some, List.nil_append, zero_add,
      whereValue_eq happ, hrest,
      List.zipWith_cons_cons, intercalate_cons_eq_append_flatMap, List.drop_one, List.tail_cons]

/-- `buildStringListForValues` joins the values' texts by commas. -/
theorem buildStringListForValues_eq (values : RowData) :
    buildStringListForValues AppendFloat values =
      [','].intercalate (values.map (appendEscapedValue AppendFloat [])) := by
  cases values with
  | nil => rfl
  | cons v vs =>
    rw [buildStringListForValues, foldl_appendEscapedValue AppendFloat
      (fun w _ => appendEscapedValue_eq_append_of_appends AppendFloat happ w), List.map_cons,
      intercalate_cons_eq_append_flatMap, List.flatMap_map]
    rfl

end Builders

section Texts

variable {AppendFloat : List Char → UInt64 → List Char}
  (happ : ∀ buffer bits, AppendFloat buffer bits = buffer ++ AppendFloat [] bits)
  {table target : Table}
include happ

/-- The text of an insert, piece by piece, once the image has one value per column. -/
theorem AsSQLString_insert_text {newValues : RowData}
    (hlen : newValues.length = table.Columns.length) :
    (DMLEvent.insert table newValues).AsSQLString AppendFloat target =
      .ok ("INSERT IGNORE INTO ".toList ++ (quoted target.Schema.toList ++ '.' ::
        (quoted target.Name.toList ++ (" (".toList ++ ([','].intercalate
          ((columnNames table).map quoted) ++ (")".toList ++ (" VALUES (".toList ++
        ([','].intercalate (newValues.map (appendEscapedValue AppendFloat [])) ++
          ")".toList)))))))) := by
  rw [DMLEvent.AsSQLString, loadColumnsForTable_eq_ok table (by simpa using hlen)]
  simp only [bind, Except.bind, pure, Except.pure, quotedColumnNames_eq]
  rw [buildStringListForValues_eq happ]
  simp only [QuotedTableNameFromString, quoteField_eq, List.append_assoc, List.cons_append,
    List.nil_append]

/-- The text of an update, piece by piece, once both images have one value per column. -/
theorem AsSQLString_update_text {oldValues newValues : RowData}
    (hold : oldValues.length = table.Columns.length)
    (hnew : newValues.length = table.Columns.length) :
    (DMLEvent.update table oldValues newValues).AsSQLString AppendFloat target =
      .ok ("UPDATE ".toList ++ (quoted target.Schema.toList ++ '.' ::
        (quoted target.Name.toList ++ (" SET ".toList ++ ([','].intercalate
          (List.zipWith (fun name text => quoted name ++ '=' :: text) (columnNames table)
            (newValues.map (appendEscapedValue AppendFloat []))) ++
        (" WHERE ".toList ++ " AND ".toList.intercalate
          (List.zipWith (fun name text => quoted name ++ text) (columnNames table)
            (oldValues.map (condText AppendFloat))))))))) := by
  have hcols : ((columnNames table).map quoted).length = table.Columns.length := by
    simp [columnNames]
  rw [DMLEvent.AsSQLString, loadColumnsForTable_eq_ok table (by simp [hold, hnew])]
  simp only [bind, Except.bind, pure, Except.pure, quotedColumnNames_eq]
  rw [buildStringMapForSet_eq happ (hcols.trans hnew.symm),
    buildStringMapForWhere_eq happ (hcols.trans hold.symm)]
  simp only [QuotedTableNameFromString, quoteField_eq, List.append_assoc, List.cons_append,
    List.nil_append, List.zipWith_map_left, List.zipWith_map_right]

/-- The text of a delete, piece by piece, once the image has one value per column. -/
theorem AsSQLString_delete_text {oldValues : RowData}
    (hold : oldValues.length = table.Columns.length) :
    (DMLEvent.delete table oldValues).AsSQLString AppendFloat target =
      .ok ("DELETE FROM ".toList ++ (quoted target.Schema.toList ++ '.' ::
        (quoted target.Name.toList ++ (" WHERE ".toList ++ " AND ".toList.intercalate
          (List.zipWith (fun name text => quoted name ++ text) (columnNames table)
            (oldValues.map (condText AppendFloat))))))) := by
  have hcols : ((columnNames table).map quoted).length = table.Columns.length := by
    simp [columnNames]
  rw [DMLEvent.AsSQLString, loadColumnsForTable_eq_ok table (by simp [hold])]
  simp only [bind, Except.bind, pure, Except.pure, quotedColumnNames_eq]
  rw [buildStringMapForWhere_eq happ (hcols.trans hold.symm)]
  simp only [QuotedTableNameFromString, quoteField_eq, List.append_assoc, List.cons_append,
    List.nil_append, List.zipWith_map_left, List.zipWith_map_right]

end Texts

/-! ## What the statements do -/

/-- A row change with its images read as rows. -/
inductive RowChange where
  | insert (new : List Mysql.Value)
  | update (old new : List Mysql.Value)
  | delete (old : List Mysql.Value)

/-- The conditional apply of a row change to the target's rows, keyed by primary key: an insert
unless the key is taken; an update or a delete of the old image's row if the target holds that
image, and no change otherwise. An update whose new key another row holds fails. -/
def RowChange.apply (pk : ℕ) (rows : ℕ → Option (List Mysql.Value)) :
    RowChange → Except String (ℕ → Option (List Mysql.Value))
  | .insert new =>
    match keyOf pk new with
    | some k => .ok (if (rows k).isSome then rows else Function.update rows k (some new))
    | none => .error "Incorrect primary key value"
  | .update old new =>
    match keyOf pk old with
    | some k =>
      if rows k = some old then
        match keyOf pk new with
        | some k' =>
          if k' ≠ k ∧ (rows k').isSome then .error "Duplicate entry for key PRIMARY"
          else .ok (Function.update (Function.update rows k none) k' (some new))
        | none => .error "Incorrect primary key value"
      else .ok rows
    | none => .ok rows
  | .delete old =>
    match keyOf pk old with
    | some k => .ok (if rows k = some old then Function.update rows k none else rows)
    | none => .ok rows

section Exec

variable {n pk : ℕ} (t : Mysql.Table n pk)

/-- `INSERT IGNORE` of a row of the table's width is the conditional insert. -/
theorem exec_insertIgnore_rows {row : List Mysql.Value} (hlen : row.length = n) :
    (t.exec (.insertIgnore row)).map (·.rows.rows) =
      (RowChange.insert row).apply pk t.rows.rows := by
  simp only [Mysql.Table.exec, hlen, dif_pos, RowChange.apply]
  split
  · rename_i k hk
    simp only [hk]
    split <;> rfl
  · rename_i hk
    simp only [hk]
    rfl

/-- The update of the row at `k`, which holds the old image, to the new image. -/
theorem updateAt_indexed_rows {old new : List Mysql.Value} {k : ℕ}
    (hlen : old.length = new.length) (hrow : t.rows.rows k = some old) :
    (t.updateAt (indexed new) k).map (·.rows.rows) =
      match keyOf pk new with
      | some k' =>
        if k' ≠ k ∧ (t.rows.rows k').isSome then .error "Duplicate entry for key PRIMARY"
        else .ok (Function.update (Function.update t.rows.rows k none) k' (some new))
      | none => .error "Incorrect primary key value" := by
  unfold Mysql.Table.updateAt
  split
  · rename_i hnone
    rw [hrow] at hnone
    cases hnone
  · rename_i row hsome
    rw [hrow, Option.some.injEq] at hsome
    subst hsome
    -- the `SET` values make the row the new image, so its key is the new image's
    split
    · rename_i k' hk'
      rw [assign_indexed hlen] at hk'
      simp only [hk']
      split_ifs
      · rfl
      · -- the row leaves its key, and the new image goes in at its own
        simp only [Except.map, Mysql.Table.put, Mysql.Table.erase, Keyset.KTable.rows_set,
          assign_indexed hlen]
    · rename_i hk'
      rw [assign_indexed hlen] at hk'
      simp only [hk']
      rfl

/-- `UPDATE` of every column where every column holds the old image is the conditional update. -/
theorem exec_update_rows {old new : List Mysql.Value} (hold : old.length = n)
    (hnew : new.length = n) :
    (t.exec (.update (indexed new) (indexed (old.map Cond.of)))).map (·.rows.rows) =
      (RowChange.update old new).apply pk t.rows.rows := by
  cases hk : keyOf pk old with
  | none =>
    -- no row can equal an image without a key
    simp only [Mysql.Table.exec, Mysql.Table.matching_indexed_of_none t hold hk, List.foldlM_nil,
      RowChange.apply, hk]
    rfl
  | some k =>
    rw [Mysql.Table.exec_update_indexed_of t _ hold hk]
    simp only [RowChange.apply, hk]
    split_ifs with hrow
    · exact updateAt_indexed_rows t (hold.trans hnew.symm) hrow
    · rfl

/-- `DELETE` where every column holds the old image is the conditional delete. -/
theorem exec_delete_rows {old : List Mysql.Value} (hold : old.length = n) :
    (t.exec (.delete (indexed (old.map Cond.of)))).map (·.rows.rows) =
      (RowChange.delete old).apply pk t.rows.rows := by
  cases hk : keyOf pk old with
  | none =>
    simp only [Mysql.Table.exec, Mysql.Table.matching_indexed_of_none t hold hk, List.foldl_nil,
      RowChange.apply, hk]
    rfl
  | some k =>
    rw [Mysql.Table.exec_delete_indexed_of t hold hk]
    simp only [RowChange.apply, hk]
    split_ifs <;> rfl

end Exec

section Reading

variable (AppendFloat : List Char → UInt64 → List Char) (lex : LiteralReader)

/-- The images of an event read back as the rows of a row change: the text of each value reads
back as the value in the row's column, `NULL` exactly for a nil value. -/
def DMLEvent.ImagesReadAs : DMLEvent → RowChange → Prop
  | .insert _ newValues, .insert new => List.Forall₂ (ReadsAs AppendFloat lex) newValues new
  | .update _ oldValues newValues, .update old new =>
    List.Forall₂ (ReadsAs AppendFloat lex) oldValues old ∧
      List.Forall₂ (ReadsAs AppendFloat lex) newValues new
  | .delete _ oldValues, .delete old => List.Forall₂ (ReadsAs AppendFloat lex) oldValues old
  | _, _ => False

variable {AppendFloat lex}

/-- The values' texts read back as the row. -/
theorem reads_of_ReadsAs {values : RowData} {xs : List Mysql.Value}
    (h : List.Forall₂ (ReadsAs AppendFloat lex) values xs) :
    List.Forall₂ lex.Reads (values.map (appendEscapedValue AppendFloat [])) xs :=
  List.forall₂_map_left_iff.mpr (h.imp fun _ _ hv => hv.2)

/-- The `WHERE` builder's choice between `IS NULL` and `=` is the condition that the column holds
the value the text reads back as. -/
theorem CondText_of_ReadsAs {v : GoValue} {x : Mysql.Value} (h : ReadsAs AppendFloat lex v x) :
    CondText lex (condText AppendFloat v) (Cond.of x) := by
  by_cases hnil : isNilValue v = true
  · obtain rfl : x = .null := h.1.mp hnil
    simp [condText, hnil, Cond.of, CondText]
  · have hx : x ≠ .null := fun hx => hnil (h.1.mpr hx)
    simp only [condText, hnil, Bool.false_eq_true, if_false, Cond.of, hx, CondText]
    exact ⟨_, rfl, h.2⟩

/-- The `WHERE` builder's conditions of an image are the conditions that the columns hold the
row. -/
theorem condTexts_of_ReadsAs {values : RowData} {xs : List Mysql.Value}
    (h : List.Forall₂ (ReadsAs AppendFloat lex) values xs) :
    List.Forall₂ (CondText lex) (values.map (condText AppendFloat)) (xs.map Cond.of) :=
  List.forall₂_map_left_iff.mpr
    (List.forall₂_map_right_iff.mpr (h.imp fun _ _ hv => CondText_of_ReadsAs hv))

/-- A value a MySQL column can hold: one that stands for a value, or a finite float. -/
def Storable (v : GoValue) : Prop :=
  (sqlValue v).isSome ∨ ∃ bits, IsFinite bits ∧ (v = .float64 bits ∨ v = .float32 bits)

variable (hAF : AppendFloatSpec AppendFloat)
include hAF

/-- Every value a column can hold, a finite float included, reads back as some value in a session
that reads backslashes as ordinary characters. -/
theorem exists_ReadsAs {v : GoValue} (hv : Storable v) :
    ∃ x, ReadsAs AppendFloat (lexLiteralReader false) v x := by
  rcases hv with hv | ⟨bits, hfin, hv⟩
  · obtain ⟨x, hx⟩ := Option.isSome_iff_exists.mp hv
    exact ⟨x, ReadsAs_of_sqlValue AppendFloat hx (.inl rfl)⟩
  · exact exists_ReadsAs_float AppendFloat hAF false hfin hv

/-- An image of storable values reads back as some row. -/
theorem exists_forall₂_ReadsAs {values : RowData} (hv : ∀ v ∈ values, Storable v) :
    ∃ xs, List.Forall₂ (ReadsAs AppendFloat (lexLiteralReader false)) values xs := by
  induction values with
  | nil => exact ⟨[], .nil⟩
  | cons v vs ih =>
    obtain ⟨x, hx⟩ := exists_ReadsAs hAF (hv v List.mem_cons_self)
    obtain ⟨xs, hxs⟩ := ih fun w hw => hv w (List.mem_cons_of_mem v hw)
    exact ⟨x :: xs, .cons hx hxs⟩

/-- The images of every event of storable values read back as the rows of a row change, so the
conditional apply of `AsSQLString_conditional_apply` covers every such event. -/
theorem exists_ImagesReadAs (e : DMLEvent)
    (he : ∀ values ∈ e.images, ∀ v ∈ values, Storable v) :
    ∃ c, e.ImagesReadAs AppendFloat (lexLiteralReader false) c := by
  cases e with
  | insert table newValues =>
    obtain ⟨new, hnew⟩ :=
      exists_forall₂_ReadsAs hAF (he newValues (List.mem_singleton_self _))
    exact ⟨.insert new, hnew⟩
  | update table oldValues newValues =>
    obtain ⟨old, hold⟩ := exists_forall₂_ReadsAs hAF (he oldValues List.mem_cons_self)
    obtain ⟨new, hnew⟩ := exists_forall₂_ReadsAs hAF
      (he newValues (List.mem_cons_of_mem _ (List.mem_singleton_self _)))
    exact ⟨.update old new, hold, hnew⟩
  | delete table oldValues =>
    obtain ⟨old, hold⟩ :=
      exists_forall₂_ReadsAs hAF (he oldValues (List.mem_singleton_self _))
    exact ⟨.delete old, hold⟩

end Reading

/-! ## Each kind of event -/

section Apply

variable {AppendFloat : List Char → UInt64 → List Char} (hAF : AppendFloatSpec AppendFloat)
  {lex : LiteralReader} {n pk : ℕ} (t : Mysql.Table n pk) {table target : Table}
  (hcols : table.Columns.length = n) (hn : n ≠ 0) (hnames : (columnNames table).Nodup)
  (hquote : ∀ name ∈ target.Schema.toList :: target.Name.toList :: columnNames table,
    '\x60' ∉ name)

include hcols hn hquote in
/-- The hypotheses on names that reading a statement back needs. -/
theorem names_of_quote :
    (∀ name ∈ columnNames table, '\x60' ∉ name) ∧ '\x60' ∉ target.Schema.toList ∧
      '\x60' ∉ target.Name.toList ∧ columnNames table ≠ [] ∧
      (columnNames table).length = n := by
  have hlen : (columnNames table).length = n := by simp [columnNames, hcols]
  refine ⟨fun name h => hquote name (by simp [h]), hquote _ (by simp), hquote _ (by simp), ?_,
    hlen⟩
  rintro h
  rw [h] at hlen
  exact hn hlen.symm

include hAF hcols hn hnames hquote

/-- An insert's text reads as the statement whose effect is the conditional insert. -/
theorem AsSQLString_insert_apply {newValues : RowData} {new : List Mysql.Value}
    (hnew : List.Forall₂ (ReadsAs AppendFloat lex) newValues new) (hlen : newValues.length = n) :
    ∃ text s, (DMLEvent.insert table newValues).AsSQLString AppendFloat target = .ok text ∧
      parseStatement lex (columnNames table) text =
        some ((target.Schema.toList, target.Name.toList), s) ∧
      (t.exec s).map (·.rows.rows) = (RowChange.insert new).apply pk t.rows.rows := by
  obtain ⟨hcolnames, hd, ht, hne, hnlen⟩ := names_of_quote hcols hn hquote
  refine ⟨_, _, AsSQLString_insert_text hAF.appends (hlen.trans hcols.symm),
    parseStatement_insertIgnore hnames hcolnames hd ht hne (reads_of_ReadsAs hnew)
      (by rw [List.length_map, hlen, hnlen]), exec_insertIgnore_rows t ?_⟩
  rw [← hnew.length_eq, hlen]

/-- An update's text reads as the statement whose effect is the conditional update. -/
theorem AsSQLString_update_apply {oldValues newValues : RowData} {old new : List Mysql.Value}
    (hold : List.Forall₂ (ReadsAs AppendFloat lex) oldValues old)
    (hnew : List.Forall₂ (ReadsAs AppendFloat lex) newValues new)
    (hlen₁ : oldValues.length = n) (hlen₂ : newValues.length = n) :
    ∃ text s, (DMLEvent.update table oldValues newValues).AsSQLString AppendFloat target =
        .ok text ∧
      parseStatement lex (columnNames table) text =
        some ((target.Schema.toList, target.Name.toList), s) ∧
      (t.exec s).map (·.rows.rows) = (RowChange.update old new).apply pk t.rows.rows := by
  obtain ⟨hcolnames, hd, ht, hne, hnlen⟩ := names_of_quote hcols hn hquote
  refine ⟨_, _, AsSQLString_update_text hAF.appends (hlen₁.trans hcols.symm)
      (hlen₂.trans hcols.symm),
    parseStatement_update hnames hcolnames hd ht hne (reads_of_ReadsAs hnew)
      (by rw [List.length_map, hlen₂, hnlen]) (condTexts_of_ReadsAs hold)
      (by rw [List.length_map, hlen₁, hnlen]),
    exec_update_rows t ?_ ?_⟩
  · rw [← hold.length_eq, hlen₁]
  · rw [← hnew.length_eq, hlen₂]

/-- A delete's text reads as the statement whose effect is the conditional delete. -/
theorem AsSQLString_delete_apply {oldValues : RowData} {old : List Mysql.Value}
    (hold : List.Forall₂ (ReadsAs AppendFloat lex) oldValues old) (hlen : oldValues.length = n) :
    ∃ text s, (DMLEvent.delete table oldValues).AsSQLString AppendFloat target = .ok text ∧
      parseStatement lex (columnNames table) text =
        some ((target.Schema.toList, target.Name.toList), s) ∧
      (t.exec s).map (·.rows.rows) = (RowChange.delete old).apply pk t.rows.rows := by
  obtain ⟨hcolnames, hd, ht, hne, hnlen⟩ := names_of_quote hcols hn hquote
  refine ⟨_, _, AsSQLString_delete_text hAF.appends (hlen.trans hcols.symm),
    parseStatement_delete hnames hcolnames hd ht hne (condTexts_of_ReadsAs hold)
      (by rw [List.length_map, hlen, hnlen]), exec_delete_rows t ?_⟩
  rw [← hold.length_eq, hlen]

end Apply

/-- What a row event does on the target: `AsSQLString` fails exactly when an image's length is not
the column count, and then `writeEvents` sends nothing for the batch. Otherwise, for a table whose
primary key is one of its distinct columns and whose names have no backtick, MySQL reads the text
as the statement whose effect on any target table is the conditional apply of the event, each value
standing for what its text reads back as; an update fails when another row holds its new key. -/
theorem AsSQLString_conditional_apply (AppendFloat : List Char → UInt64 → List Char)
    (hAF : AppendFloatSpec AppendFloat) (lex : LiteralReader) {n pk : ℕ} (e : DMLEvent)
    (target : Table) (hcols : e.TableSchema.Columns.length = n) (hpk : pk < n)
    (hnames : (columnNames e.TableSchema).Nodup)
    (hquote : ∀ name ∈ target.Schema.toList :: target.Name.toList :: columnNames e.TableSchema,
      '\x60' ∉ name)
    (t : Mysql.Table n pk) :
    ((∃ err, e.AsSQLString AppendFloat target = .error err) ↔
        ∃ values ∈ e.images, values.length ≠ n) ∧
      (∀ (DatabaseRewrites TableRewrites : List (String × String)) (events : List DMLEvent),
        e ∈ events → (∃ values ∈ e.images, values.length ≠ n) →
          ∃ err, writeEvents AppendFloat DatabaseRewrites TableRewrites events = .error err) ∧
      (∀ c, e.ImagesReadAs AppendFloat lex c → (∀ values ∈ e.images, values.length = n) →
        ∃ text s, e.AsSQLString AppendFloat target = .ok text ∧
          parseStatement lex (columnNames e.TableSchema) text =
            some ((target.Schema.toList, target.Name.toList), s) ∧
          (t.exec s).map (·.rows.rows) = c.apply pk t.rows.rows) := by
  refine ⟨?_, ?_, ?_⟩
  · rw [AsSQLString_error_iff, hcols]
  · intro DatabaseRewrites TableRewrites events he hlen
    exact writeEvents_error_of_mem AppendFloat he (hcols ▸ hlen)
  · intro c hc hlen
    have hn : n ≠ 0 := Nat.ne_zero_of_lt hpk
    -- one case for each kind of event; the images read back as a change of the same kind
    cases e with
    | insert table newValues =>
      cases c with
      | insert new =>
        exact AsSQLString_insert_apply hAF t hcols hn hnames hquote hc
          (hlen newValues (by simp [DMLEvent.images]))
      | update | delete => exact hc.elim
    | update table oldValues newValues =>
      cases c with
      | update old new =>
        exact AsSQLString_update_apply hAF t hcols hn hnames hquote hc.1 hc.2
          (hlen oldValues (by simp [DMLEvent.images])) (hlen newValues (by simp [DMLEvent.images]))
      | insert | delete => exact hc.elim
    | delete table oldValues =>
      cases c with
      | delete old =>
        exact AsSQLString_delete_apply hAF t hcols hn hnames hquote hc
          (hlen oldValues (by simp [DMLEvent.images]))
      | insert | update => exact hc.elim

/-- A table of two columns, `id` and `data`, keyed by `id`. -/
def pairSchema : Table :=
  { Schema := "gftest", Name := "pairs",
    Columns := [⟨"id", .number, "bigint(20)", false⟩, ⟨"data", .string, "varchar(16)", false⟩],
    PKColumns := [0] }

/-- A target holding the rows `(1, 'a')` and `(2, 'b')`. -/
def pairTarget : Mysql.Table 2 0 :=
  (Mysql.Table.empty.put [.int 1, .string ['a']] (keyCode 1) (by decide)).put
    [.int 2, .string ['b']] (keyCode 2) (by decide)

/-- The update of the row `(1, 'a')` to `(2, 'a')`. -/
def movePkEvent : DMLEvent := .update pairSchema [.int 1, .string ['a']] [.int 2, .string ['a']]

/-- The images of `movePkEvent` read back, in a session that reads backslashes as escapes, as the
rows `(1, 'a')` and `(2, 'a')`. -/
theorem movePkEvent_ImagesReadAs :
    movePkEvent.ImagesReadAs exactFloatText (lexLiteralReader true)
      (.update [.int 1, .string ['a']] [.int 2, .string ['a']]) :=
  ⟨.cons (ReadsAs_of_sqlValue _ rfl (.inr rfl))
      (.cons (ReadsAs_of_sqlValue _ rfl (.inr rfl)) .nil),
    .cons (ReadsAs_of_sqlValue _ rfl (.inr rfl))
      (.cons (ReadsAs_of_sqlValue _ rfl (.inr rfl)) .nil)⟩

theorem movePk_conditional_apply :
    movePkEvent.TableSchema.Columns.length = 2 ∧
      ∃ text s, movePkEvent.AsSQLString exactFloatText pairSchema = .ok text ∧
        parseStatement (lexLiteralReader true) (columnNames pairSchema) text =
          some (("gftest".toList, "pairs".toList), s) ∧
        (pairTarget.exec s).map (·.rows.rows) =
          (RowChange.update [.int 1, .string ['a']] [.int 2, .string ['a']]).apply 0
            pairTarget.rows.rows := by
  have hcols : movePkEvent.TableSchema.Columns.length = 2 := rfl
  exact ⟨hcols, (AsSQLString_conditional_apply exactFloatText exactFloatText_spec
    (lexLiteralReader true) movePkEvent pairSchema hcols (by decide) (by decide) (by decide)
    pairTarget).2.2 _ movePkEvent_ImagesReadAs (by decide)⟩

/-- A table whose one column has a backtick in its name, which MySQL allows. -/
def backtickSchema : Table :=
  { Schema := "gftest", Name := "ticks", Columns := [⟨"a`b", .number, "bigint(20)", false⟩],
    PKColumns := [0] }

/-- The insert of the row `(1)` into `backtickSchema`. -/
def backtickInsertEvent : DMLEvent := .insert backtickSchema [.int 1]

/-- Two events whose statements are not the conditional apply of the event. The update of
`(1, 'a')` to `(2, 'a')`, on a target that holds both rows: its statement selects the row
`(1, 'a')`, but fails with a duplicate-key error, and the row keeps its old image. The insert into a
table with a backtick in a column's name: `quoteField` does not double the backtick, so the name
ends early and MySQL does not read the text as a statement. -/
theorem update_duplicate_key_and_backtick_column :
    (∃ text, movePkEvent.AsSQLString exactFloatText pairSchema = .ok text ∧
      parseStatement (lexLiteralReader true) (columnNames pairSchema) text =
        some (("gftest".toList, "pairs".toList), .update (indexed [.int 2, .string ['a']])
          (indexed ([.int 1, .string ['a']].map Cond.of))) ∧
      pairTarget.matching (indexed ([.int 1, .string ['a']].map Cond.of)) = [keyCode 1] ∧
      pairTarget.exec (.update (indexed [.int 2, .string ['a']])
          (indexed ([.int 1, .string ['a']].map Cond.of))) =
        .error "Duplicate entry for key PRIMARY" ∧
      pairTarget.rows.rows (keyCode 1) = some [.int 1, .string ['a']]) ∧
    ∃ text, backtickInsertEvent.AsSQLString exactFloatText backtickSchema = .ok text ∧
      parseStatement (lexLiteralReader true) (columnNames backtickSchema) text = none := by
  have hrow : pairTarget.rows.rows (keyCode 1) = some [.int 1, .string ['a']] := rfl
  obtain ⟨hold, hnew⟩ := movePkEvent_ImagesReadAs
  refine ⟨⟨_, AsSQLString_update_text exactFloatText_spec.appends rfl rfl, ?_, ?_, ?_, hrow⟩,
    _, AsSQLString_insert_text exactFloatText_spec.appends rfl, ?_⟩
  · exact parseStatement_update (by decide) (by decide) (by decide) (by decide) (by decide)
      (reads_of_ReadsAs hnew) rfl (condTexts_of_ReadsAs hold) rfl
  · rw [Mysql.Table.matching_indexed_of pairTarget rfl rfl, if_pos hrow]
  · rw [Mysql.Table.exec_update_indexed_of pairTarget _ rfl rfl, if_pos hrow]
    rfl
  · -- the column's name ends at its first backtick, and no comma or parenthesis follows
    simp only [parseStatement, expect_append, parseInsert]
    rw [lexTableName_quoted (by decide) (by decide)]
    · simp only [Option.bind_eq_bind, Option.bind_some, expect_append]
      rw [lexIdents]
      rfl
    · simp

end Ghostferry
