import Ghostferry.Cursor
import Ghostferry.RowBatch

/-!
# The sharded copy filter's queries

`ShardedCopyFilter.BuildSelect` of `sharding/filter.go` replaces the cursor's default query, in the
data copy and in the verifier's scan alike, with one of three shapes:

* a table of `PrimaryKeyTables` holds one row per sharding value, keyed by it:
  `WHERE pk = ShardingValue AND pk > lastPk`, with no `LIMIT`;
* a table of `JoinedTables` has no sharding key: the rows it selects are those whose pk some row
  of a join table names in its join column next to the sharding value. The query takes one page of
  the `UNION DISTINCT` of those join values above the cursor (`ORDER BY ... LIMIT batchSize`), and
  the rows of the table whose pk is in it;
* any other table is paged over its sharding key: a page of the pks whose `ShardingKey` column is
  the sharding value, joined back to the table for the other columns.

`BuildSelect` here is what MySQL returns for the query: the selected pks in the order of the result.
`Selected` is what the filter is meant to select from each table. For the first and third shape the
query is one keyset page of `Selected` (`BuildSelect_eq_page`). The paging theorem of
`Cursor.lean` then says that `Cursor.Each` delivers every selected row with a pk between `0` and
`MaxPrimaryKey`, and no other row (`mem_each_shardedFetch`, `mem_Selected_of_mem_each`).

A joined table's page is a page of join values, not of rows. A join value that names no row of the
table leaves a hole in the batch, and a page made only of such values is an empty batch. The
cursor reads an empty batch as the end of the table and stops, with rows still ahead of it
(`each_joined_stops_early`). The copy is complete when every join value names a row
(`mem_each_joined_of_subset`).

The last section is about the columns of the rows read. Every query selects `*`, and the shape
of its `FROM` clause decides the order of the result's columns (`BuildSelectFrom`). The batch
writer lists the table's columns in the order of the schema, so a value lands in the column it
was read from exactly when the result keeps that order. It does for the default query and for
the first two shapes. The third joins back `USING (pk)`, which puts the pk column first, so
there the order is kept only for a table whose pk is its first column (`resultColumns_cursorFrom`,
`copy_writes_read_columns`). For any other table the copy writes values into the wrong columns
(`sharded_copy_swaps_columns`).
-/

namespace Ghostferry

namespace Sharding

open Keyset

/-- A join table of a joined table: its name and the column that holds the joined table's pks. -/
structure JoinTable where
  TableName : String
  JoinColumn : String
  deriving DecidableEq, Repr

/-- The settings of the copy filter that its queries read. -/
structure ShardedCopyFilter where
  ShardingKey : String
  /-- The `int64` sharding value. -/
  ShardingValue : ℤ
  JoinedTables : List (String × List JoinTable)
  PrimaryKeyTables : List String
  deriving DecidableEq, Repr

/-- The source schema as the queries read it: each table's rows by pk, and the integer value of a
named column of a row, `none` for `NULL`. -/
structure Schema (R : Type) where
  tables : String → KTable R
  column : R → String → Option ℤ

variable {R : Type} (f : ShardedCopyFilter) (db : Schema R)

/-- The pks of the rows of a table whose `ShardingKey` column holds the sharding value. -/
def shardedKeys (table : String) : Finset ℕ :=
  (db.tables table).keys.filter fun k =>
    ((db.tables table).rows k).bind (db.column · f.ShardingKey) = some f.ShardingValue

/-- The values `SELECT JoinColumn FROM JoinTable WHERE ShardingKey = ShardingValue` reads from one
join table, as pks; a negative value is above no cursor and names no row. -/
def joinValues (jt : JoinTable) : Finset ℕ :=
  let t := db.tables jt.TableName
  t.keys.biUnion fun k =>
    match t.rows k with
    | some r =>
      if db.column r f.ShardingKey = some f.ShardingValue then
        match db.column r jt.JoinColumn with
        | some v => if 0 ≤ v then {v.toNat} else ∅
        | none => ∅
      else ∅
    | none => ∅

/-- The `UNION DISTINCT` of the join values of every join table. -/
def joinedKeys (joinTables : List JoinTable) : Finset ℕ :=
  joinTables.foldr (fun jt acc => joinValues f db jt ∪ acc) ∅

/-- `BuildSelect`: the pks of the rows the query returns at cursor `lastPk`, in the result's
order. -/
def ShardedCopyFilter.BuildSelect (table : String) (lastPk batchSize : ℕ) : List ℕ :=
  let t := db.tables table
  if table ∈ f.PrimaryKeyTables then
    -- `pk = ShardingValue AND pk > lastPk`: every such key, as there is no `LIMIT`
    above (t.keys.filter fun k : ℕ => (k : ℤ) = f.ShardingValue) lastPk
  else
    match f.JoinedTables.lookup table with
    | none =>
      -- the pk subquery's page; the join back to the table keeps the subquery's order
      page (shardedKeys f db table) lastPk batchSize
    | some joinTables =>
      -- one page of join values, and the rows of the table they name, `ORDER BY pk`
      (page (joinedKeys f db joinTables) lastPk batchSize).filter (· ∈ t.keys)

/-- The rows the filter is meant to select from a table. -/
def ShardedCopyFilter.Selected (table : String) : Finset ℕ :=
  let t := db.tables table
  if table ∈ f.PrimaryKeyTables then t.keys.filter fun k : ℕ => (k : ℤ) = f.ShardingValue
  else
    match f.JoinedTables.lookup table with
    | none => shardedKeys f db table
    | some joinTables => t.keys.filter (· ∈ joinedKeys f db joinTables)

/-- The batch `Fetch` reads with the filter's query: the pks with their rows. -/
def shardedFetch (table : String) (batchSize lastPk : ℕ) :
    Except String (List (ℕ × Option R)) :=
  .ok ((f.BuildSelect db table lastPk batchSize).map fun k => (k, (db.tables table).rows k))

variable {f db}

/-- For a table that is not joined, the query reads one keyset page of what the filter selects. -/
theorem BuildSelect_eq_page {table : String} {lastPk batchSize : ℕ} (hbs : 0 < batchSize)
    (hj : table ∈ f.PrimaryKeyTables ∨ f.JoinedTables.lookup table = none) :
    f.BuildSelect db table lastPk batchSize = page (f.Selected db table) lastPk batchSize := by
  unfold ShardedCopyFilter.BuildSelect ShardedCopyFilter.Selected
  by_cases hp : table ∈ f.PrimaryKeyTables
  · -- one row per sharding value: the page of `batchSize ≥ 1` keys holds it
    simp only [hp, if_true]
    have hcard : ((db.tables table).keys.filter fun k : ℕ => (k : ℤ) = f.ShardingValue).card ≤
        batchSize := by
      have hle : ((db.tables table).keys.filter fun k : ℕ => (k : ℤ) = f.ShardingValue).card ≤ 1 :=
        Finset.card_le_one.mpr fun a ha b hb => by
          have := (Finset.mem_filter.mp ha).2
          have := (Finset.mem_filter.mp hb).2
          omega
      omega
    exact (page_eq_above hcard).symm
  · have hl : f.JoinedTables.lookup table = none := hj.resolve_left hp
    simp [hp, hl]

/-- The filter's fetch of a table that is not joined is the fetch of a keyset page of what it
selects. -/
theorem shardedFetch_eq_pageFetch {table : String} {batchSize : ℕ} (hbs : 0 < batchSize)
    (hj : table ∈ f.PrimaryKeyTables ∨ f.JoinedTables.lookup table = none) :
    shardedFetch f db table batchSize =
      pageFetch (f.Selected db table) (db.tables table).rows batchSize := by
  funext lastPk
  simp only [shardedFetch, pageFetch, BuildSelect_eq_page hbs hj]

/-- `Cursor.Each` over a table that is not joined delivers every row the filter selects with a pk
between `0` and `MaxPrimaryKey`, when the callback succeeds. -/
theorem mem_each_shardedFetch {table : String} {batchSize : ℕ} (hbs : 0 < batchSize)
    (hj : table ∈ f.PrimaryKeyTables ∨ f.JoinedTables.lookup table = none)
    {cb : List (ℕ × Option R) → Except String Unit} (hcb : ∀ batch, cb batch = .ok ())
    (MaxPrimaryKey : ℕ) {k : ℕ} (hk : k ∈ f.Selected db table) (hpos : 0 < k)
    (hle : k ≤ MaxPrimaryKey) :
    ∃ batch ∈ (each (shardedFetch f db table batchSize) cb MaxPrimaryKey 0).1,
      k ∈ batch.map Prod.fst := by
  rw [shardedFetch_eq_pageFetch hbs hj]
  exact mem_each_pageFetch hbs hcb MaxPrimaryKey hk hpos hle

/-- `Cursor.Each` over a table that is not joined delivers no row the filter does not select. -/
theorem mem_Selected_of_mem_each {table : String} {batchSize : ℕ} (hbs : 0 < batchSize)
    (hj : table ∈ f.PrimaryKeyTables ∨ f.JoinedTables.lookup table = none)
    {cb : List (ℕ × Option R) → Except String Unit} (MaxPrimaryKey : ℕ)
    {batch : List (ℕ × Option R)}
    (hb : batch ∈ (each (shardedFetch f db table batchSize) cb MaxPrimaryKey 0).1) :
    ∀ k ∈ batch.map Prod.fst, k ∈ f.Selected db table := by
  rw [shardedFetch_eq_pageFetch hbs hj] at hb
  exact mem_of_mem_each_pageFetch MaxPrimaryKey hb

/-! ## Joined tables -/

/-- When every join value names a row of the joined table, its query is a keyset page of what
the filter selects too, and `Cursor.Each` delivers every selected row. -/
theorem mem_each_joined_of_subset {table : String} {joinTables : List JoinTable}
    {batchSize : ℕ} (hbs : 0 < batchSize) (hp : table ∉ f.PrimaryKeyTables)
    (hl : f.JoinedTables.lookup table = some joinTables)
    (hsub : joinedKeys f db joinTables ⊆ (db.tables table).keys)
    {cb : List (ℕ × Option R) → Except String Unit} (hcb : ∀ batch, cb batch = .ok ())
    (MaxPrimaryKey : ℕ) {k : ℕ} (hk : k ∈ f.Selected db table) (hpos : 0 < k)
    (hle : k ≤ MaxPrimaryKey) :
    ∃ batch ∈ (each (shardedFetch f db table batchSize) cb MaxPrimaryKey 0).1,
      k ∈ batch.map Prod.fst := by
  -- no join value is dropped by the outer query, so the joined keys are the selected ones
  have hsel : f.Selected db table = joinedKeys f db joinTables := by
    simp only [ShardedCopyFilter.Selected, hp, if_false, hl]
    ext j
    simp only [Finset.mem_filter, and_iff_right_iff_imp]
    exact fun hj => hsub hj
  have hfetch : shardedFetch f db table batchSize =
      pageFetch (f.Selected db table) (db.tables table).rows batchSize := by
    funext lastPk
    have hfilter : (page (joinedKeys f db joinTables) lastPk batchSize).filter
        (· ∈ (db.tables table).keys) = page (joinedKeys f db joinTables) lastPk batchSize :=
      List.filter_eq_self.mpr fun j hj => by simpa using hsub (mem_page hj).1
    simp only [shardedFetch, pageFetch, ShardedCopyFilter.BuildSelect, hp, if_false, hl,
      hfilter, hsel]
  rw [hfetch]
  exact mem_each_pageFetch hbs hcb MaxPrimaryKey hk hpos hle

/-- A row, by its integer columns. -/
abbrev Row := List (String × ℤ)

/-- The filter of the copy filter tests, with one join table for `joinedtable`. -/
def joinedFilter : ShardedCopyFilter :=
  { ShardingKey := "tenant_id", ShardingValue := 1,
    JoinedTables := [("joinedtable", [⟨"join1", "joined_pk1"⟩])], PrimaryKeyTables := [] }

/-- `join1` names pks `1` and `2` for tenant `1`; `joinedtable` holds only the row at pk `2`. -/
def danglingSchema : Schema Row where
  tables := fun name =>
    if name = "join1" then
      (KTable.empty.set 1 (some [("tenant_id", 1), ("joined_pk1", 1)])).set 2
        (some [("tenant_id", 1), ("joined_pk1", 2)])
    else if name = "joinedtable" then KTable.empty.set 2 (some [("joined_pk", 2)])
    else KTable.empty
  column := fun r name => r.lookup name

theorem each_joined_stops_early (cb : List (ℕ × Option Row) → Except String Unit) :
    (danglingSchema.tables "joinedtable").maxKey? = some 2 ∧
      2 ∈ joinedFilter.Selected danglingSchema "joinedtable" ∧
      each (shardedFetch joinedFilter danglingSchema "joinedtable" 1) cb 2 0 = ([], .ok ()) := by
  -- the first page of join values is `[1]`, which names no row: the batch is empty
  have hfetch : shardedFetch joinedFilter danglingSchema "joinedtable" 1 0 = .ok [] := by decide
  refine ⟨by decide, by decide, ?_⟩
  rw [each, dif_pos (by decide), hfetch]
  rfl

/-! ## The order of the columns read -/

/-- The `FROM` clause of `BuildSelect`'s query on `table`, whose first pk column (`GetPKColumn(0)`)
is `pkColumn`: the table itself for a table of `PrimaryKeyTables` and for a joined table, and the
join `USING (pk)` with the page of pks for any other table. -/
def ShardedCopyFilter.BuildSelectFrom (filter : ShardedCopyFilter) (table : Table)
    (pkColumn : TableColumn) : Mysql.FromClause :=
  if table.Name ∈ filter.PrimaryKeyTables then .table
  else
    match filter.JoinedTables.lookup table.Name with
    | none => .joinUsing pkColumn.Name
    | some _ => .table

/-- The `FROM` clause of the cursor's query: `DefaultBuildSelect`'s `FROM table` when the cursor
has no `BuildSelect`, and the sharded filter's otherwise. -/
def cursorFrom (filter : Option ShardedCopyFilter) (table : Table) (pkColumn : TableColumn) :
    Mysql.FromClause :=
  match filter with
  | none => .table
  | some filter => filter.BuildSelectFrom table pkColumn

/-- The cursor's query reads either the table itself or the join `USING` its pk column. -/
theorem cursorFrom_eq (filter : Option ShardedCopyFilter) (table : Table)
    (pkColumn : TableColumn) :
    cursorFrom filter table pkColumn = .table ∨
      cursorFrom filter table pkColumn = .joinUsing pkColumn.Name := by
  unfold cursorFrom
  split
  · exact .inl rfl
  · unfold ShardedCopyFilter.BuildSelectFrom
    split
    · exact .inl rfl
    · split
      · exact .inr rfl
      · exact .inl rfl

section ColumnOrder

variable {filter : Option ShardedCopyFilter} {table : Table} {pkColumn : TableColumn}

/-- With the default `ColumnsToSelect`, the cursor's result has the table's columns in the
table's order exactly when the query reads the table itself or the pk is the first column. -/
theorem resultColumns_cursorFrom (hnd : (table.Columns.map (·.Name)).Nodup)
    (hpk : pkColumn.Name ∈ table.Columns.map (·.Name)) :
    resultColumns table [] (cursorFrom filter table pkColumn) = table.Columns.map (·.Name) ↔
      cursorFrom filter table pkColumn = .table ∨
        (table.Columns.map (·.Name)).head? = some pkColumn.Name := by
  have hstar : ∀ fromClause, resultColumns table [] fromClause =
      Mysql.starColumns (table.Columns.map (·.Name)) fromClause := by
    intro fromClause
    simp [resultColumns, Mysql.selectColumns]
  rw [hstar]
  rcases cursorFrom_eq filter table pkColumn with h | h
  · simp [h, Mysql.starColumns]
  · -- the join moves the pk column to the front
    rw [h, Mysql.starColumns_joinUsing_eq_iff hnd hpk]
    simp

/-- The copy writes every value to the column it was read from when the query reads the table
itself or the pk is the first column: `Fetch` with the default `ColumnsToSelect` and then
`WriteRowBatch` write, in row `r` of the `INSERT`, each column's value read from row `r`. -/
theorem copy_writes_read_columns (DatabaseRewrites TableRewrites : List (String × String))
    (hnd : (table.Columns.map (·.Name)).Nodup) (hpk : pkColumn.Name ∈ table.Columns.map (·.Name))
    (horder : cursorFrom filter table pkColumn = .table ∨
      (table.Columns.map (·.Name)).head? = some pkColumn.Name)
    {rows : List (String → GoValue)} (hne : rows ≠ []) {batch : RowBatch} {pkpos : UInt64}
    (hfetch : Cursor.Fetch table pkColumn [] (cursorFrom filter table pkColumn) rows =
      .ok (batch, pkpos)) :
    ∃ args, WriteRowBatch DatabaseRewrites TableRewrites batch =
        .ok (some (Mysql.insertText
          (QuotedTableNameFromString ((DatabaseRewrites.lookup table.Schema).getD table.Schema)
            ((TableRewrites.lookup table.Name).getD table.Name))
          (quotedColumnNames table) rows.length, args)) ∧
      Mysql.bindInsert (quotedColumnNames table) rows.length args =
        rows.map fun row => table.Columns.map fun col => (quoteField col.Name, some (row col.Name)) :=
  Fetch_WriteRowBatch_of_resultColumns DatabaseRewrites TableRewrites hne hfetch
    ((resultColumns_cursorFrom hnd hpk).mpr horder)

end ColumnOrder

/-- A sharded table whose pk `id` is its second column. -/
def notesTable : Table :=
  { Schema := "shard_1", Name := "notes",
    Columns := [⟨"tenant_id", .number, "bigint(20)", false⟩, ⟨"id", .number, "bigint(20)", false⟩,
      ⟨"data", .string, "varchar(16)", false⟩],
    PKColumns := [1] }

/-- The pk column of `notesTable`. -/
def notesPk : TableColumn := ⟨"id", .number, "bigint(20)", false⟩

/-- The filter of tenant `1`, with no joined table and no table of `PrimaryKeyTables`. -/
def tenantFilter : ShardedCopyFilter :=
  { ShardingKey := "tenant_id", ShardingValue := 1, JoinedTables := [], PrimaryKeyTables := [] }

/-- The row `(tenant_id, id, data) = (1, 7, 'x')` of `notesTable`, as the driver scans it. -/
def noteRow (column : String) : GoValue :=
  if column = "tenant_id" then .int64 1 else if column = "id" then .int64 7 else .bytes ['x']

theorem sharded_copy_swaps_columns :
    cursorFrom (some tenantFilter) notesTable notesPk = .joinUsing "id" ∧
      ∃ batch pkpos, Cursor.Fetch notesTable notesPk [] (.joinUsing "id") [noteRow] =
          .ok (batch, pkpos) ∧
        batch.values = [[.int64 7, .int64 1, .bytes ['x']]] ∧
        ∃ args, WriteRowBatch [] [] batch =
            .ok (some (Mysql.insertText (QuotedTableNameFromString "shard_1" "notes")
              (quotedColumnNames notesTable) 1, args)) ∧
          Mysql.bindInsert (quotedColumnNames notesTable) 1 args =
            [[(quoteField "tenant_id", some (.int64 7)), (quoteField "id", some (.int64 1)),
              (quoteField "data", some (.bytes ['x']))]] := by
  -- the join puts `id` first: the result's columns are `id, tenant_id, data`
  have hcols : resultColumns notesTable [] (.joinUsing "id") = ["id", "tenant_id", "data"] := by
    decide
  have hfetch : Cursor.Fetch notesTable notesPk [] (.joinUsing "id") [noteRow] =
      .ok (NewRowBatch notesTable [[.int64 7, .int64 1, .bytes ['x']]] 0, 7) :=
    rfl
  obtain ⟨args, hwrite, hbind⟩ := Fetch_WriteRowBatch [] [] (List.cons_ne_nil noteRow [])
    hfetch (by rw [hcols]; rfl)
  rw [List.length_singleton] at hwrite hbind
  refine ⟨by decide, _, _, hfetch, rfl, args, hwrite, ?_⟩
  rw [hbind, hcols]
  decide

end Sharding

end Ghostferry
