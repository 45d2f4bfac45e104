import Ghostferry.Schema
import Ghostferry.Lib.Assoc

/-!
# Loading the table schemas

`LoadTables` of `table_schema_cache.go` reads the source's databases, keeps those the table
filter's `ApplicableDatabases` returns, reads each one's tables, keeps those its
`ApplicableTables` returns, and caches every kept table after checking that its primary key is a
single numeric column. Every step can fail. Each failure but one is returned to the caller,
`Ferry.Start`, which stops with it. A failing `ApplicableTables` is not: `LoadTables` returns the
cache built so far and no error, so the run goes on with the tables of the databases before it
(`LoadTables_of_ApplicableTables_error`).

What the source server answers is a parameter, `SourceCatalog`, and so is the table filter. The
cache is a list of entries keyed by `database.table`, the last write of a key first.

Every property of caches that caching one table keeps holds of the cache `LoadTables` returns
(`LoadTables_induction`). Each entry is keyed by its table's `Table.String()`, each key once
(`keyed_LoadTables`). `Get` builds the same `database.table` text, so it finds the cached table of
exactly the pair asked for when database names hold no dot (`Get_of_LoadTables`). MySQL allows a
dot in a quoted name, and then two pairs share a key: the database `a` with the table `b.c` and
the database `a.b` with the table `c` are both `a.b.c`. The table cached last takes the key, and
`Get` returns it for the other pair (`dotted_names_share_key`).
-/

namespace Ghostferry

/-- `TableSchemaCache`: the schemas of the tables to copy, by `Table.String()`. -/
abbrev TableSchemaCache := List (String × Table)

/-- `TableSchemaCache.Get`: the schema cached for `database.table`. -/
def TableSchemaCache.Get (c : TableSchemaCache) (database table : String) : Option Table :=
  c.lookup (database ++ "." ++ table)

/-- The databases `showDatabases` leaves out. -/
def ignoredDatabases : List String := ["mysql", "information_schema", "performance_schema", "sys"]

/-- What the source server answers to `show databases`, to `show tables from` and to the queries
of `schema.NewTableFromSqlDB`, or the error of the query. -/
structure SourceCatalog where
  databases : Except String (List String)
  tablesFrom : String → Except String (List String)
  NewTableFromSqlDB : String → String → Except String Table

/-- The `TableFilter` interface. -/
structure TableFilter where
  ApplicableTables : List Table → Except String (List Table)
  ApplicableDatabases : List String → Except String (List String)

/-- `showDatabases`: the server's databases but the ignored ones. -/
def showDatabases (db : SourceCatalog) : Except String (List String) :=
  db.databases.map fun dbs => dbs.filter (· ∉ ignoredDatabases)

/-- The sanity check of a kept table and its entry in the cache. -/
def cacheTable (cache : TableSchemaCache) (tableSchema : Table) : Except String TableSchemaCache :=
  if tableSchema.PKColumns.length ≠ 1 then
    .error ("table " ++ tableSchema.Name ++ " has " ++ toString tableSchema.PKColumns.length ++
      " primary key columns and this is not supported")
  else if (tableSchema.GetPKColumn 0).map (·.type) ≠ some .number then
    .error ("table " ++ tableSchema.Name ++
      " is using a non-numeric primary key column and this is not supported")
  else .ok ((tableSchema.string, tableSchema) :: cache.filter (·.1 != tableSchema.string))

/-- `LoadTables`: the cache, or the error `Ferry.Start` returns. -/
def LoadTables (db : SourceCatalog) (tableFilter : TableFilter) : Except String TableSchemaCache := do
  let dbnames ← showDatabases db
  let dbnames ← tableFilter.ApplicableDatabases dbnames
  loadDatabases dbnames []
where
  /-- The loop over the databases, from the cache built so far. -/
  loadDatabases : List String → TableSchemaCache → Except String TableSchemaCache
    | [], cache => .ok cache
    | dbname :: dbnames, cache => do
      let tableNames ← db.tablesFrom dbname
      let tableSchemas ← tableNames.mapM (db.NewTableFromSqlDB dbname)
      match tableFilter.ApplicableTables tableSchemas with
      -- `return tableSchemaCache, nil`: the filter's error is dropped
      | .error _ => .ok cache
      | .ok tableSchemas =>
        let cache ← tableSchemas.foldlM cacheTable cache
        loadDatabases dbnames cache

/-- A table's schema passes the sanity check of `LoadTables`: one primary key column, numeric. -/
def Table.Cacheable (t : Table) : Prop :=
  t.PKColumns.length = 1 ∧ (t.GetPKColumn 0).map (·.type) = some .number

section Cache

variable {cache cache' : TableSchemaCache}

theorem cacheable_of_cacheTable {t : Table} (h : cacheTable cache t = .ok cache') :
    t.Cacheable ∧ cache' = (t.string, t) :: cache.filter (·.1 != t.string) := by
  unfold cacheTable at h
  split_ifs at h with h₁ h₂
  obtain rfl := Except.ok.inj h
  exact ⟨⟨not_not.mp h₁, not_not.mp h₂⟩, rfl⟩

/-- The invariant rule of the loop that caches a database's tables. -/
theorem foldlM_cacheTable_induction (P : TableSchemaCache → Prop)
    (hstep : ∀ c c' t, P c → cacheTable c t = .ok c' → P c') {ts : List Table}
    {cache cache' : TableSchemaCache} (hc : P cache) (h : ts.foldlM cacheTable cache = .ok cache') :
    P cache' := by
  induction ts generalizing cache with
  | nil =>
    obtain rfl := Except.ok.inj h
    exact hc
  | cons t ts ih =>
    rw [List.foldlM_cons] at h
    cases hct : cacheTable cache t with
    | error err => simp [hct, bind, Except.bind] at h
    | ok c =>
      rw [hct] at h
      exact ih (hstep _ _ _ hc hct) h

/-- Caching a table succeeds exactly when the table passes its sanity check, whatever the cache. -/
theorem cacheTable_eq_ok_iff {t : Table} : (∃ c', cacheTable cache t = .ok c') ↔ t.Cacheable := by
  constructor
  · rintro ⟨c', h⟩
    exact (cacheable_of_cacheTable h).1
  · rintro ⟨h₁, h₂⟩
    refine ⟨(t.string, t) :: cache.filter (·.1 != t.string), ?_⟩
    simp [cacheTable, h₁, h₂]

/-- The error of a failed check names the table alone: it is the same whatever the cache. -/
theorem cacheTable_eq_error_iff {t : Table} {err : String} :
    cacheTable cache t = .error err ↔ cacheTable [] t = .error err := by
  unfold cacheTable
  split_ifs <;> simp

/-- Caching a table adds its key and keeps the others. -/
theorem mem_keys_cacheTable {t : Table} (h : cacheTable cache t = .ok cache') (key : String) :
    key ∈ cache'.map Prod.fst ↔ key = t.string ∨ key ∈ cache.map Prod.fst := by
  obtain ⟨-, rfl⟩ := cacheable_of_cacheTable h
  by_cases hk : key = t.string
  · simp [hk]
  · simp [hk]

/-- The loop that caches a database's tables succeeds exactly when each table passes its check. -/
theorem foldlM_cacheTable_eq_ok_iff {ts : List Table} :
    (∃ c', ts.foldlM cacheTable cache = .ok c') ↔ ∀ t ∈ ts, t.Cacheable := by
  induction ts generalizing cache with
  | nil => simp [pure, Except.pure]
  | cons t ts ih =>
    rw [List.foldlM_cons, List.forall_mem_cons]
    cases hct : cacheTable cache t with
    | error err =>
      -- the loop stops at the table that fails its check
      have ht : ¬ t.Cacheable := fun ht => by
        obtain ⟨c', hc'⟩ := cacheTable_eq_ok_iff.mpr ht
        rw [hct] at hc'
        cases hc'
      simp [bind, Except.bind, ht]
    | ok c =>
      simp only [bind, Except.bind]
      rw [ih]
      exact (and_iff_right (cacheable_of_cacheTable hct).1).symm

/-- A failed loop fails with the check's error of one of its tables. -/
theorem exists_of_foldlM_cacheTable_eq_error {ts : List Table} {err : String}
    (h : ts.foldlM cacheTable cache = .error err) :
    ∃ t ∈ ts, ¬ t.Cacheable ∧ cacheTable [] t = .error err := by
  induction ts generalizing cache with
  | nil => cases h
  | cons t ts ih =>
    rw [List.foldlM_cons] at h
    cases hct : cacheTable cache t with
    | error e =>
      rw [hct] at h
      obtain rfl : e = err := Except.error.inj h
      have ht : ¬ t.Cacheable := fun ht => by
        obtain ⟨c', hc'⟩ := cacheTable_eq_ok_iff.mpr ht
        rw [hct] at hc'
        cases hc'
      exact ⟨t, List.mem_cons_self, ht, cacheTable_eq_error_iff.mp hct⟩
    | ok c =>
      rw [hct] at h
      obtain ⟨u, hu, hbad, herr⟩ := ih h
      exact ⟨u, List.mem_cons_of_mem t hu, hbad, herr⟩

/-- After the loop every entry was cached before or is one of its tables, and the keys are those
before and those of its tables. -/
theorem foldlM_cacheTable_entries {ts : List Table} (h : ts.foldlM cacheTable cache = .ok cache') :
    (∀ e ∈ cache', e ∈ cache ∨ e.2 ∈ ts) ∧
      ∀ key, key ∈ cache'.map Prod.fst ↔ key ∈ cache.map Prod.fst ∨ ∃ t ∈ ts, t.string = key := by
  induction ts generalizing cache with
  | nil =>
    obtain rfl := Except.ok.inj h
    simp
  | cons t ts ih =>
    rw [List.foldlM_cons] at h
    cases hct : cacheTable cache t with
    | error e =>
      rw [hct] at h
      cases h
    | ok c =>
      rw [hct] at h
      obtain ⟨hent, hkeys⟩ := ih h
      obtain ⟨-, rfl⟩ := cacheable_of_cacheTable hct
      refine ⟨fun e he => ?_, fun key => ?_⟩
      · -- an entry of the middle cache is the new one or was cached before
        rcases hent e he with he | he
        · rcases List.mem_cons.mp he with rfl | he
          · exact .inr List.mem_cons_self
          · exact .inl (List.mem_of_mem_filter he)
        · exact .inr (List.mem_cons_of_mem t he)
      · rw [hkeys, mem_keys_cacheTable hct]
        constructor
        · rintro ((rfl | hk) | ⟨u, hu, rfl⟩)
          · exact .inr ⟨t, List.mem_cons_self, rfl⟩
          · exact .inl hk
          · exact .inr ⟨u, List.mem_cons_of_mem t hu, rfl⟩
        · rintro (hk | ⟨u, hu, rfl⟩)
          · exact .inl (.inr hk)
          · rcases List.mem_cons.mp hu with rfl | hu
            · exact .inl (.inl rfl)
            · exact .inr ⟨u, hu, rfl⟩

/-- An entry whose key no later table has stays through the loop. -/
theorem mem_foldlM_cacheTable_of_mem {ts : List Table} {e : String × Table} (he : e ∈ cache)
    (hkey : ∀ t ∈ ts, t.string ≠ e.1) (h : ts.foldlM cacheTable cache = .ok cache') :
    e ∈ cache' := by
  induction ts generalizing cache with
  | nil =>
    obtain rfl := Except.ok.inj h
    exact he
  | cons t ts ih =>
    rw [List.foldlM_cons] at h
    cases hct : cacheTable cache t with
    | error err =>
      rw [hct] at h
      cases h
    | ok c =>
      rw [hct] at h
      obtain ⟨-, rfl⟩ := cacheable_of_cacheTable hct
      -- caching `t` drops only the entries under `t`'s key
      have hkeep : e ∈ cache.filter (·.1 != t.string) :=
        List.mem_filter.mpr ⟨he, bne_iff_ne.mpr (hkey t List.mem_cons_self).symm⟩
      exact ih (List.mem_cons_of_mem _ hkeep) (fun u hu => hkey u (List.mem_cons_of_mem t hu)) h

/-- When the tables of the loop have distinct keys, each of them is an entry of the cache it
returns, under its own key. -/
theorem mem_foldlM_cacheTable {ts : List Table} (hnd : (ts.map Table.string).Nodup)
    (h : ts.foldlM cacheTable cache = .ok cache') : ∀ t ∈ ts, (t.string, t) ∈ cache' := by
  induction ts generalizing cache with
  | nil => simp
  | cons t ts ih =>
    rw [List.map_cons, List.nodup_cons] at hnd
    rw [List.foldlM_cons] at h
    cases hct : cacheTable cache t with
    | error err =>
      rw [hct] at h
      cases h
    | ok c =>
      rw [hct] at h
      obtain ⟨-, rfl⟩ := cacheable_of_cacheTable hct
      intro u hu
      rcases List.mem_cons.mp hu with rfl | hu
      · -- no later table has `u`'s key, so its entry stays
        refine mem_foldlM_cacheTable_of_mem List.mem_cons_self (fun w hw hkey => ?_) h
        have hw' : w.string = u.string := hkey
        exact hnd.1 (hw' ▸ List.mem_map_of_mem hw)
      · exact ih hnd.2 h u hu

end Cache

variable {db : SourceCatalog} {tableFilter : TableFilter}

/-- The invariant rule of `LoadTables`: a property of caches that caching a table keeps, and that
the empty cache has, holds of the cache `LoadTables` returns. -/
theorem LoadTables_induction (P : TableSchemaCache → Prop) (h₀ : P [])
    (hstep : ∀ c c' t, P c → cacheTable c t = .ok c' → P c') {cache : TableSchemaCache}
    (h : LoadTables db tableFilter = .ok cache) : P cache := by
  -- the loop over the databases keeps it, a dropped filter error included
  have hloop : ∀ (dbnames : List String) (c c' : TableSchemaCache), P c →
      LoadTables.loadDatabases db tableFilter dbnames c = .ok c' → P c' := by
    intro dbnames
    induction dbnames with
    | nil =>
      intro c c' hc h
      obtain rfl := Except.ok.inj h
      exact hc
    | cons dbname dbnames ih =>
      intro c c' hc h
      simp only [LoadTables.loadDatabases, bind, Except.bind] at h
      split at h
      · cases h
      split at h
      · cases h
      split at h
      · obtain rfl := Except.ok.inj h
        exact hc
      split at h
      · cases h
      rename_i c₁ hfold
      exact ih c₁ c' (foldlM_cacheTable_induction P hstep hc hfold) h
  simp only [LoadTables, bind, Except.bind] at h
  split at h
  · cases h
  split at h
  · cases h
  exact hloop _ [] cache h₀ h

/-- A failing `ApplicableTables` is dropped: when the first database's tables load and the filter
fails on them, `LoadTables` succeeds with an empty cache. -/
theorem LoadTables_of_ApplicableTables_error {dbnames tableNames : List String} {dbname : String}
    {dbnames' : List String} {tableSchemas : List Table} {err : String}
    (hdbs : showDatabases db = .ok dbnames)
    (happ : tableFilter.ApplicableDatabases dbnames = .ok (dbname :: dbnames'))
    (htables : db.tablesFrom dbname = .ok tableNames)
    (hschemas : tableNames.mapM (db.NewTableFromSqlDB dbname) = .ok tableSchemas)
    (herr : tableFilter.ApplicableTables tableSchemas = .error err) :
    LoadTables db tableFilter = .ok [] := by
  simp only [LoadTables, hdbs, happ, bind, Except.bind, LoadTables.loadDatabases, htables,
    hschemas, herr]

/-! ## What `Get` returns -/

/-- The cache keys each table by its `Table.String()`, and each key once. -/
def TableSchemaCache.Keyed (c : TableSchemaCache) : Prop :=
  (∀ e ∈ c, e.1 = e.2.string) ∧ (c.map Prod.fst).Nodup

theorem keyed_cacheTable {c c' : TableSchemaCache} {t : Table} (hc : c.Keyed)
    (h : cacheTable c t = .ok c') : c'.Keyed := by
  obtain ⟨-, rfl⟩ := cacheable_of_cacheTable h
  obtain ⟨hkey, hnd⟩ := hc
  refine ⟨fun e he => ?_, ?_⟩
  · rcases List.mem_cons.mp he with rfl | he
    · rfl
    · exact hkey e (List.mem_of_mem_filter he)
  · -- the new key is dropped from the entries kept, which keep distinct keys
    rw [List.map_cons, List.nodup_cons]
    refine ⟨fun hmem => ?_, hnd.sublist (List.filter_sublist.map Prod.fst)⟩
    obtain ⟨e, he, heq⟩ := List.mem_map.mp hmem
    have := (List.mem_filter.mp he).2
    simp [heq] at this

theorem keyed_LoadTables {cache : TableSchemaCache} (h : LoadTables db tableFilter = .ok cache) :
    cache.Keyed :=
  LoadTables_induction _ (show TableSchemaCache.Keyed [] from
      ⟨fun _ he => (List.not_mem_nil he).elim, List.nodup_nil⟩)
    (fun _ _ _ hc ht => keyed_cacheTable hc ht) h

/-- A `database.table` key splits at the first dot: when neither database name has a dot, equal
keys have equal databases and equal tables. -/
theorem append_dot_inj {d₁ d₂ t₁ t₂ : List Char} (h₁ : '.' ∉ d₁) (h₂ : '.' ∉ d₂)
    (h : d₁ ++ '.' :: t₁ = d₂ ++ '.' :: t₂) : d₁ = d₂ ∧ t₁ = t₂ := by
  induction d₁ generalizing d₂ with
  | nil =>
    cases d₂ with
    | nil => simpa using h
    | cons c d₂ =>
      obtain ⟨rfl, -⟩ := List.cons.inj h
      exact absurd List.mem_cons_self h₂
  | cons c d₁ ih =>
    cases d₂ with
    | nil =>
      obtain ⟨rfl, -⟩ := List.cons.inj h
      exact absurd List.mem_cons_self h₁
    | cons c' d₂ =>
      obtain ⟨rfl, h'⟩ := List.cons.inj h
      obtain ⟨rfl, rfl⟩ := ih (List.not_mem_of_not_mem_cons h₁) (List.not_mem_of_not_mem_cons h₂) h'
      exact ⟨rfl, rfl⟩

/-- A table's key is `database.table` exactly for its own pair, when no database name has a dot. -/
theorem string_eq_iff {tab : Table} {d t : String} (htab : '.' ∉ tab.Schema.toList)
    (hd : '.' ∉ d.toList) : tab.string = d ++ "." ++ t ↔ tab.Schema = d ∧ tab.Name = t := by
  constructor
  · intro h
    have hl := congrArg String.toList h
    simp only [Table.string, String.toList_append] at hl
    obtain ⟨hs, hn⟩ := append_dot_inj htab hd (by simpa using hl)
    exact ⟨String.toList_inj.mp hs, String.toList_inj.mp hn⟩
  · rintro ⟨rfl, rfl⟩
    rfl

/-- For databases whose names hold no dot, `Get` returns the cached table of exactly the pair
asked for, and nothing for a pair that is not cached. -/
theorem Get_of_LoadTables {cache : TableSchemaCache} (h : LoadTables db tableFilter = .ok cache)
    (hdots : ∀ e ∈ cache, '.' ∉ e.2.Schema.toList) {d t : String} (hd : '.' ∉ d.toList)
    (tab : Table) :
    cache.Get d t = some tab ↔ (tab.string, tab) ∈ cache ∧ tab.Schema = d ∧ tab.Name = t := by
  obtain ⟨hkey, hnd⟩ := keyed_LoadTables h
  rw [TableSchemaCache.Get, Assoc.lookup_eq_some_iff_mem hnd]
  constructor
  · intro hmem
    -- the entry's key is its table's own `database.table`
    have hk : d ++ "." ++ t = tab.string := hkey _ hmem
    refine ⟨hk ▸ hmem, (string_eq_iff (hdots _ hmem) hd).mp hk.symm⟩
  · rintro ⟨hmem, hs, hn⟩
    have hk : tab.string = d ++ "." ++ t := (string_eq_iff (hdots _ hmem) hd).mpr ⟨hs, hn⟩
    rwa [← hk]

/-- The table `b.c` of the database `a`: three columns. -/
def innerDotTable : Table :=
  { Schema := "a", Name := "b.c",
    Columns := [⟨"id", .number, "bigint(20)", false⟩, ⟨"x", .number, "int(11)", false⟩,
      ⟨"y", .string, "varchar(16)", false⟩],
    PKColumns := [0] }

/-- The table `c` of the database `a.b`: two columns. -/
def outerDotTable : Table :=
  { Schema := "a.b", Name := "c",
    Columns := [⟨"id", .number, "bigint(20)", false⟩, ⟨"z", .string, "varchar(16)", false⟩],
    PKColumns := [0] }

/-- A source with the databases `a` and `a.b`, in the order `show databases` lists them. -/
def dottedCatalog : SourceCatalog where
  databases := .ok ["a", "a.b"]
  tablesFrom := fun dbname =>
    if dbname = "a" then .ok ["b.c"] else if dbname = "a.b" then .ok ["c"] else .ok []
  NewTableFromSqlDB := fun dbname _ => .ok (if dbname = "a" then innerDotTable else outerDotTable)

/-- A filter that keeps every database and every table. -/
def allTablesFilter : TableFilter := ⟨.ok, .ok⟩

theorem dotted_names_share_key :
    innerDotTable.string = outerDotTable.string ∧
      LoadTables dottedCatalog allTablesFilter = .ok [("a.b.c", outerDotTable)] ∧
      TableSchemaCache.Get [("a.b.c", outerDotTable)] "a" "b.c" = some outerDotTable ∧
      outerDotTable.Schema ≠ innerDotTable.Schema ∧
      outerDotTable.Columns.length ≠ innerDotTable.Columns.length := by
  refine ⟨by decide, rfl, rfl, by decide, by decide⟩

end Ghostferry
