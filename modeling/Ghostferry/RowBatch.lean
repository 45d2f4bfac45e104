import Ghostferry.DmlEvents
import Ghostferry.Mysql.Query

/-!
# The copy's batches

`Cursor.Fetch` runs the active `BuildSelect`'s query and puts the rows it returns into a
`RowBatch`: value `i` of a row is the `i`-th column of the result (`ScanGenericRow`). It finds the
primary key among the result's columns by name, and the cursor's next position is the last row's
key, read by `RowData.GetUint64`. `BatchWriter.WriteRowBatch` then sends the batch as
`RowBatch.AsSQLQuery`'s prepared `INSERT IGNORE`, whose column list is the table's columns in the
order of the cached schema and whose arguments are the rows' values one after the other
(`flattenRowData`).

So the value that the copy writes to the `j`-th column of the table is the one it read from the
`j`-th column of the query's result (`Fetch_WriteRowBatch`). Every value goes back to the column
it was read from exactly when the result has the table's columns in the table's order
(`Fetch_WriteRowBatch_of_resultColumns`).
-/

namespace Ghostferry

/-! ## Reading a primary key -/

/-- `RowData.GetUint64`: the value at `colIdx` as an unsigned number. A `[]byte` is parsed as a
decimal number; any other value goes through `reflect.Value.Int`, which panics on a value that is
not a signed integer, and must not be negative. -/
def RowData.GetUint64 (r : RowData) (colIdx : ℕ) : Except GoFailure UInt64 :=
  match r[colIdx]? with
  | none =>
    .error (.panic ("runtime error: index out of range [" ++ toString colIdx ++ "] with length " ++
      toString r.length))
  | some (.bytes b) => (ParseUint b).mapError .error
  -- a nil `[]byte` passes the type assertion too, and is the empty string
  | some .nilBytes => (ParseUint []).mapError .error
  | some v => do
    let signedInt ← reflectInt v
    if signedInt.toInt < 0 then
      throw (.error ("expected position " ++ toString colIdx ++
        " in row to contain an unsigned number"))
    pure signedInt.toUInt64

/-! ## Fetching a batch -/

/-- A batch of rows of one table, with the position of the primary key among a row's values. -/
structure RowBatch where
  values : List RowData
  pkIndex : ℕ
  table : Table

/-- `NewRowBatch`. -/
def NewRowBatch (table : Table) (values : List RowData) (pkIndex : ℕ) : RowBatch :=
  { values, pkIndex, table }

/-- The columns of the result of the cursor's query, in order, as `rows.Columns()` returns them:
what the select list names over the query's `FROM` clause. `Each` sets an empty
`ColumnsToSelect` to `*` before its first fetch. -/
def resultColumns (table : Table) (ColumnsToSelect : List String) (fromClause : Mysql.FromClause) :
    List String :=
  Mysql.selectColumns (table.Columns.map (·.Name)) fromClause
    (if ColumnsToSelect = [] then ["*"] else ColumnsToSelect)

/-- `Cursor.Fetch`, from the rows the query returns, each given by its value in every column: the
batch and the new cursor position, or the error or panic that ends it. -/
def Cursor.Fetch (table : Table) (pkColumn : TableColumn) (ColumnsToSelect : List String)
    (fromClause : Mysql.FromClause) (rows : List (String → GoValue)) :
    Except GoFailure (RowBatch × UInt64) := do
  let columns := resultColumns table ColumnsToSelect fromClause
  match columns.findIdx? (· = pkColumn.Name) with
  | none =>
    throw (.error ("pk is not found during iteration with columns: [" ++ " ".intercalate columns ++
      "]"))
  | some pkIndex =>
    -- `ScanGenericRow`: a row's values in the order of the result's columns
    let batchData := rows.map fun row => columns.map row
    let pkpos ← match batchData.getLast? with
      | some lastRow => RowData.GetUint64 lastRow pkIndex
      | none => pure 0
    pure (NewRowBatch table batchData pkIndex, pkpos)

/-- A fetched batch is the table's, and its rows are the rows of the result, each in the order of
the result's columns. -/
theorem Fetch_eq_ok {table : Table} {pkColumn : TableColumn} {ColumnsToSelect : List String}
    {fromClause : Mysql.FromClause} {rows : List (String → GoValue)} {batch : RowBatch}
    {pkpos : UInt64}
    (h : Cursor.Fetch table pkColumn ColumnsToSelect fromClause rows = .ok (batch, pkpos)) :
    batch.table = table ∧
      batch.values = rows.map fun row => (resultColumns table ColumnsToSelect fromClause).map row := by
  simp only [Cursor.Fetch] at h
  split at h
  · cases h
  · rename_i pkIndex _
    -- the read of the position either fails, which `h` excludes, or leaves the batch as built
    split at h <;> simp only [bind, Except.bind] at h <;> split at h <;> cases h <;>
      exact ⟨rfl, rfl⟩

/-- A fetch that succeeds found the pk among the result's columns. -/
theorem pk_mem_resultColumns_of_Fetch {table : Table} {pkColumn : TableColumn}
    {ColumnsToSelect : List String} {fromClause : Mysql.FromClause} {rows : List (String → GoValue)}
    {batch : RowBatch} {pkpos : UInt64}
    (h : Cursor.Fetch table pkColumn ColumnsToSelect fromClause rows = .ok (batch, pkpos)) :
    pkColumn.Name ∈ resultColumns table ColumnsToSelect fromClause := by
  simp only [Cursor.Fetch] at h
  split at h
  · cases h
  · rename_i pkIndex hpk
    have hsome := congrArg Option.isSome hpk
    rw [Option.isSome_some, List.findIdx?_isSome, List.any_eq_true] at hsome
    obtain ⟨name, hname, heq⟩ := hsome
    rw [← of_decide_eq_true heq]
    exact hname

/-! ## Writing a batch -/

/-- `flattenRowData`: a slice of `rowSize * len(values)` nils, `rowSize` the length of the first
row, with value `colIdx` of row `rowIdx` written at index `rowIdx * rowSize + colIdx`. Go panics
on a write out of range, which rows of one length never make; here such a write changes
nothing. -/
def RowBatch.flattenRowData (e : RowBatch) : List GoValue :=
  let rowSize := (e.values.head?.map List.length).getD 0
  setRows rowSize (List.replicate (rowSize * e.values.length) .nil) 0 e.values
where
  /-- The inner loop: the values of one row from column `colIdx` on. -/
  setRow (base : ℕ) (flattened : List GoValue) (colIdx : ℕ) : RowData → List GoValue
    | [] => flattened
    | col :: row => setRow base (flattened.set (base + colIdx) col) (colIdx + 1) row
  /-- The outer loop: the rows from row `rowIdx` on. -/
  setRows (rowSize : ℕ) (flattened : List GoValue) (rowIdx : ℕ) : List RowData → List GoValue
    | [] => flattened
    | row :: rows => setRows rowSize (setRow (rowIdx * rowSize) flattened 0 row) (rowIdx + 1) rows

/-- The inner loop writes a row over the slots after the ones already written. -/
theorem flattenRowData.setRow_append {base : ℕ} {pre : List GoValue} (hpre : pre.length = base) :
    ∀ (done : List GoValue) (row rest : RowData), row.length ≤ rest.length →
      RowBatch.flattenRowData.setRow base (pre ++ done ++ rest) done.length row =
        pre ++ done ++ row ++ rest.drop row.length
  | done, [], rest, _ => by simp [RowBatch.flattenRowData.setRow]
  | done, col :: row, rest, hlen => by
    obtain ⟨r0, rest, rfl⟩ : ∃ r0 rest', rest = r0 :: rest' := by
      cases rest with
      | nil => simp at hlen
      | cons r0 rest' => exact ⟨r0, rest', rfl⟩
    -- the write at `base + done.length` replaces the first slot after `done`
    have hset : (pre ++ done ++ r0 :: rest).set (base + done.length) col =
        pre ++ (done ++ [col]) ++ rest := by
      simp [hpre]
    have ih := setRow_append hpre (done ++ [col]) row rest (by simpa using hlen)
    rw [List.length_append, List.length_singleton] at ih
    simp only [RowBatch.flattenRowData.setRow, hset, ih]
    simp

/-- The outer loop lays rows of `rowSize` values one after the other. -/
theorem flattenRowData.setRows_append {rowSize : ℕ} :
    ∀ (rows : List RowData), (∀ row ∈ rows, row.length = rowSize) →
      ∀ (done : List GoValue) (rowIdx : ℕ), done.length = rowIdx * rowSize →
        RowBatch.flattenRowData.setRows rowSize
            (done ++ List.replicate (rowSize * rows.length) .nil) rowIdx rows =
          done ++ rows.flatten
  | [], _, done, _, _ => by simp [RowBatch.flattenRowData.setRows]
  | row :: rows, hrows, done, rowIdx, hdone => by
    have hrow : row.length = rowSize := hrows row (List.mem_cons_self ..)
    -- the row goes into the first `rowSize` nils
    have hsplit : done ++ List.replicate (rowSize * (rows.length + 1)) GoValue.nil =
        done ++ [] ++ List.replicate (rowSize + rowSize * rows.length) .nil := by
      rw [List.append_nil, Nat.mul_succ, Nat.add_comm]
    have hset := setRow_append hdone [] row (List.replicate (rowSize + rowSize * rows.length) .nil)
      (by simp [hrow])
    rw [List.length_nil] at hset
    have hdrop : (List.replicate (rowSize + rowSize * rows.length) GoValue.nil).drop row.length =
        List.replicate (rowSize * rows.length) .nil := by
      simp [hrow]
    have ih := setRows_append rows (fun row' h => hrows row' (List.mem_cons_of_mem row h))
      (done ++ row) (rowIdx + 1) (by simp [hdone, hrow, Nat.succ_mul])
    simp only [RowBatch.flattenRowData.setRows, List.length_cons]
    rw [hsplit, hset, hdrop, List.append_nil, ih, List.flatten_cons, List.append_assoc]

/-- Rows of one length are flattened one after the other. -/
theorem flattenRowData_eq_flatten (e : RowBatch) {k : ℕ} (hk : ∀ row ∈ e.values, row.length = k) :
    e.flattenRowData = e.values.flatten := by
  unfold RowBatch.flattenRowData
  cases hv : e.values with
  | nil => simp [RowBatch.flattenRowData.setRows]
  | cons row rows =>
    rw [hv] at hk
    have hrows : ∀ row' ∈ row :: rows, row'.length = row.length := fun row' h =>
      (hk row' h).trans (hk row (List.mem_cons_self ..)).symm
    simpa using flattenRowData.setRows_append (row :: rows) hrows [] 0 (by simp)

/-- `RowBatch.AsSQLQuery`: the prepared `INSERT IGNORE` of the batch into `target`, and its
arguments. -/
def RowBatch.AsSQLQuery (e : RowBatch) (target : Table) :
    Except GoFailure (List Char × List GoValue) := do
  let columns ← (loadColumnsForTable e.table e.values).mapError .error
  -- `strings.Repeat` panics on the count `-1` of a table without columns or of an empty batch
  if columns.length = 0 ∨ e.values.length = 0 then throw (.panic "strings: negative Repeat count")
  let valuesStr := "(".toList ++ Repeat "?,".toList (columns.length - 1) ++ "?)".toList
  let valuesStr := Repeat (valuesStr ++ [',']) (e.values.length - 1) ++ valuesStr
  let query := "INSERT IGNORE INTO ".toList ++ QuotedTableNameFromString target.Schema target.Name ++
    " (".toList ++ [','].intercalate columns ++ ") VALUES ".toList ++ valuesStr
  pure (query, e.flattenRowData)

/-- `AsSQLQuery`'s placeholders are one group of one placeholder per column for each row. -/
theorem AsSQLQuery_valuesStr {k n : ℕ} (hk : 0 < k) (hn : 0 < n) :
    Repeat ("(".toList ++ Repeat "?,".toList (k - 1) ++ "?)".toList ++ [',']) (n - 1) ++
        ("(".toList ++ Repeat "?,".toList (k - 1) ++ "?)".toList) =
      [','].intercalate (List.replicate n (Mysql.placeholderGroup k)) := by
  have hgroup : "(".toList ++ Repeat "?,".toList (k - 1) ++ "?)".toList = Mysql.placeholderGroup k := by
    have h := Repeat_append_intercalate ['?'] [','] (k - 1)
    rw [Nat.sub_add_cancel hk] at h
    simp only [Mysql.placeholderGroup, ← h]
    simp
  have h := Repeat_append_intercalate (Mysql.placeholderGroup k) [','] (n - 1)
  rw [Nat.sub_add_cancel hn] at h
  rw [hgroup, h]

/-- A batch whose rows each have one value per column of its table is written by an
`INSERT IGNORE` of the table's columns, one group of placeholders per row, with the rows' values
one after the other as arguments. -/
theorem AsSQLQuery_eq (e : RowBatch) (target : Table) (hcols : e.table.Columns ≠ [])
    (hne : e.values ≠ []) (hlen : ∀ row ∈ e.values, row.length = e.table.Columns.length) :
    e.AsSQLQuery target =
      .ok (Mysql.insertText (QuotedTableNameFromString target.Schema target.Name)
        (quotedColumnNames e.table) e.values.length, e.values.flatten) := by
  have hk : 0 < (quotedColumnNames e.table).length := by
    simpa [quotedColumnNames, List.length_pos_iff] using hcols
  have hn : 0 < e.values.length := List.length_pos_iff.mpr hne
  have hif : ¬((quotedColumnNames e.table).length = 0 ∨ e.values.length = 0) := by omega
  unfold RowBatch.AsSQLQuery
  rw [loadColumnsForTable_eq_ok e.table hlen]
  simp only [Except.mapError, bind, Except.bind, hif, if_false, pure, Except.pure]
  rw [AsSQLQuery_valuesStr hk hn, flattenRowData_eq_flatten e hlen]
  rfl

/-- One attempt of `BatchWriter.WriteRowBatch`: nothing to send for an empty batch, and otherwise
the query it prepares on the target and the arguments it executes it with, or its error. -/
def WriteRowBatch (DatabaseRewrites TableRewrites : List (String × String)) (batch : RowBatch) :
    Except GoFailure (Option (List Char × List GoValue)) :=
  if batch.values.length = 0 then .ok none
  else
    match batch.AsSQLQuery (rewrittenTarget DatabaseRewrites TableRewrites batch.table) with
    | .ok queryArgs => .ok (some queryArgs)
    | .error (.error err) => .error (.error ("during generating sql query: " ++ err))
    | .error (.panic msg) => .error (.panic msg)

/-! ## From the read to the write -/

section Copy

variable {table : Table} {pkColumn : TableColumn} {ColumnsToSelect : List String}
  {fromClause : Mysql.FromClause} {rows : List (String → GoValue)} {batch : RowBatch}
  {pkpos : UInt64} (DatabaseRewrites TableRewrites : List (String × String))

/-- What the copy writes for the rows a query returns: when the result has as many columns as
the table, `WriteRowBatch` prepares an `INSERT IGNORE` of the table's columns with one group of
placeholders per row, and row `r` writes the value of the result's `j`-th column to the table's
`j`-th column. -/
theorem Fetch_WriteRowBatch (hne : rows ≠ [])
    (hfetch : Cursor.Fetch table pkColumn ColumnsToSelect fromClause rows = .ok (batch, pkpos))
    (hlen : (resultColumns table ColumnsToSelect fromClause).length = table.Columns.length) :
    ∃ args, WriteRowBatch DatabaseRewrites TableRewrites batch =
        .ok (some (Mysql.insertText
          (QuotedTableNameFromString ((DatabaseRewrites.lookup table.Schema).getD table.Schema)
            ((TableRewrites.lookup table.Name).getD table.Name))
          (quotedColumnNames table) rows.length, args)) ∧
      Mysql.bindInsert (quotedColumnNames table) rows.length args =
        rows.map fun row => (quotedColumnNames table).zip
          ((resultColumns table ColumnsToSelect fromClause).map (some ∘ row)) := by
  obtain ⟨htable, hvalues⟩ := Fetch_eq_ok hfetch
  -- a fetch that succeeds found the pk among the result's columns, so the table has a column
  have hcols : table.Columns ≠ [] := by
    intro hnil
    have hres : resultColumns table ColumnsToSelect fromClause = [] := by
      simpa [hnil] using hlen
    simpa [hres] using pk_mem_resultColumns_of_Fetch hfetch
  have hrows : ∀ row ∈ batch.values, row.length = batch.table.Columns.length := by
    intro row hrow
    rw [hvalues, List.mem_map] at hrow
    obtain ⟨r, -, rfl⟩ := hrow
    rw [List.length_map, hlen, htable]
  have hbne : batch.values ≠ [] := by simpa [hvalues] using hne
  have hq := AsSQLQuery_eq batch (rewrittenTarget DatabaseRewrites TableRewrites batch.table)
    (htable ▸ hcols) hbne hrows
  refine ⟨batch.values.flatten, ?_, ?_⟩
  · have hn : batch.values.length ≠ 0 := by simpa [List.length_eq_zero_iff] using hbne
    simp only [WriteRowBatch, hn, if_false]
    rw [hq]
    simp [hvalues, htable, rewrittenTarget]
  · have hk : ∀ row ∈ batch.values, row.length = (quotedColumnNames table).length := by
      intro row hrow
      rw [hrows row hrow, htable, quotedColumnNames, List.length_map]
    have hb := Mysql.bindInsert_flatten (quotedColumnNames table) batch.values hk
    rw [hvalues, List.length_map] at hb
    rw [hvalues, hb, List.map_map]
    simp [Function.comp_def, List.map_map]

/-- When the query's result has the table's columns in the table's order, the copy writes every
value it read to the column it was read from. -/
theorem Fetch_WriteRowBatch_of_resultColumns (hne : rows ≠ [])
    (hfetch : Cursor.Fetch table pkColumn ColumnsToSelect fromClause rows = .ok (batch, pkpos))
    (hcols : resultColumns table ColumnsToSelect fromClause = table.Columns.map (·.Name)) :
    ∃ args, WriteRowBatch DatabaseRewrites TableRewrites batch =
        .ok (some (Mysql.insertText
          (QuotedTableNameFromString ((DatabaseRewrites.lookup table.Schema).getD table.Schema)
            ((TableRewrites.lookup table.Name).getD table.Name))
          (quotedColumnNames table) rows.length, args)) ∧
      Mysql.bindInsert (quotedColumnNames table) rows.length args =
        rows.map fun row => table.Columns.map fun col => (quoteField col.Name, some (row col.Name)) := by
  obtain ⟨args, hwrite, hbind⟩ :=
    Fetch_WriteRowBatch DatabaseRewrites TableRewrites hne hfetch (by simp [hcols])
  refine ⟨args, hwrite, ?_⟩
  rw [hbind, hcols]
  -- each quoted name is paired with the value read under the same name
  apply List.map_congr_left
  intro row _
  rw [quotedColumnNames, List.map_map, List.zip_map']
  rfl

end Copy

end Ghostferry
