import Ghostferry.TableSchemaCache

/-!
# The table filter of copydb

`copydb` reads its `Databases` and `Tables` settings, each a whitelist and a blacklist, into a
`StaticTableFilter` (`NewStaticTableFilter`). A non-empty whitelist selects the names on it, and
otherwise the blacklist rejects the names on it (`FilterAndRewriteConfigs.Selected`); the config's
`Validate` rejects settings with both lists, and given both the whitelist wins. The filter's
`ApplicableDatabases` and `ApplicableTables` keep the selected names and never fail.

With this filter the nested loops of `LoadTables` are one loop: when the source answers the
queries of each selected database, `LoadTables` runs the sanity check over the selected tables of
the selected databases, in order (`LoadTables_staticTableFilter_eq`). So it succeeds exactly when
every selected table has one numeric primary key column, fails otherwise with the check's error of
such a table, and caches only selected tables, by `database.table`; when those keys are distinct
it caches every selected table (`LoadTables_staticTableFilter`). Of two tables with one key, such
as `a`.`b.c` and `a.b`.`c`, only the later stays in the cache.
-/

namespace Ghostferry

namespace Copydb

/-- `FilterAndRewriteConfigs`: the names to keep or to drop. -/
structure FilterAndRewriteConfigs where
  Whitelist : List String
  Blacklist : List String

/-- `StaticTableFilter`: one list of databases and one of tables, each a whitelist or a
blacklist. -/
structure StaticTableFilter where
  Dbs : List String
  DbsIsBlacklist : Bool
  Tables : List String
  TablesIsBlacklist : Bool

/-- `contains`: the loop that looks for `item` in `s`. -/
def contains (s : List String) (item : String) : Bool := s.any (item == ·)

/-- `NewStaticTableFilter`: a blacklist unless a whitelist is given, so that empty settings keep
everything. -/
def NewStaticTableFilter (dbs tables : FilterAndRewriteConfigs) : StaticTableFilter :=
  let DbsIsBlacklist := dbs.Whitelist.length == 0
  let TablesIsBlacklist := tables.Whitelist.length == 0
  { Dbs := if DbsIsBlacklist then dbs.Blacklist else dbs.Whitelist
    DbsIsBlacklist
    Tables := if TablesIsBlacklist then tables.Blacklist else tables.Whitelist
    TablesIsBlacklist }

/-- The test of one name shared by `ApplicableDatabases` and `ApplicableTables`. -/
def applicable (names : List String) (isBlacklist : Bool) (name : String) : Bool :=
  let b := contains names name
  if isBlacklist then !b else b

namespace StaticTableFilter

variable (s : StaticTableFilter)

/-- `ApplicableDatabases`. -/
def ApplicableDatabases (dbs : List String) : Except String (List String) :=
  .ok (dbs.filter (applicable s.Dbs s.DbsIsBlacklist))

/-- `ApplicableTables`: by each table's name. -/
def ApplicableTables (tables : List Table) : Except String (List Table) :=
  .ok (tables.filter fun tableSchema => applicable s.Tables s.TablesIsBlacklist tableSchema.Name)

/-- The filter as a `TableFilter`. -/
def toTableFilter : TableFilter := ⟨s.ApplicableTables, s.ApplicableDatabases⟩

end StaticTableFilter

/-! ## What the settings select -/

/-- The names a setting selects: those of a non-empty whitelist, or else those not on the
blacklist. -/
def FilterAndRewriteConfigs.Selected (f : FilterAndRewriteConfigs) (name : String) : Prop :=
  if f.Whitelist = [] then name ∉ f.Blacklist else name ∈ f.Whitelist

instance (f : FilterAndRewriteConfigs) : DecidablePred f.Selected := fun name => by
  unfold FilterAndRewriteConfigs.Selected
  infer_instance

/-- The tables that the settings select among the server's databases and their tables: the
selected tables of the selected databases that are not the server's own, in order. -/
def selectedTables (dbs tables : FilterAndRewriteConfigs) (dbnames : List String)
    (tableSchemas : String → List Table) : List Table :=
  (dbnames.filter fun d => d ∉ ignoredDatabases ∧ dbs.Selected d).flatMap fun d =>
    (tableSchemas d).filter fun t => tables.Selected t.Name

@[simp]
theorem contains_eq_true {s : List String} {item : String} : contains s item = true ↔ item ∈ s := by
  simp [contains]

/-- The filter built from a setting keeps exactly the names the setting selects. -/
theorem applicable_eq_selected (f : FilterAndRewriteConfigs) :
    applicable (if f.Whitelist.length == 0 then f.Blacklist else f.Whitelist)
      (f.Whitelist.length == 0) = fun name => decide (f.Selected name) := by
  funext name
  rw [Bool.eq_iff_iff, decide_eq_true_iff]
  unfold applicable FilterAndRewriteConfigs.Selected
  -- a blacklist exactly when no whitelist is given
  by_cases hw : f.Whitelist = []
  · simp [hw, Bool.eq_false_iff]
  · have hlen : (f.Whitelist.length == 0) = false := by simp [hw]
    simp [hlen, hw]

variable {dbs tables : FilterAndRewriteConfigs}

theorem ApplicableDatabases_NewStaticTableFilter (dbnames : List String) :
    (NewStaticTableFilter dbs tables).ApplicableDatabases dbnames =
      .ok (dbnames.filter fun d => dbs.Selected d) := by
  simp only [StaticTableFilter.ApplicableDatabases, NewStaticTableFilter, applicable_eq_selected]

theorem ApplicableTables_NewStaticTableFilter (ts : List Table) :
    (NewStaticTableFilter dbs tables).ApplicableTables ts =
      .ok (ts.filter fun t => tables.Selected t.Name) := by
  simp only [StaticTableFilter.ApplicableTables, NewStaticTableFilter, applicable_eq_selected]

/-! ## `LoadTables` with the static filter -/

variable {db : SourceCatalog} {tableSchemas : String → List Table}

/-- With a table filter that keeps the tables `p` selects, and a source that answers the queries
of each database, the loop over the databases is one loop of the sanity check over the kept
tables of each database in turn. -/
theorem loadDatabases_eq_foldlM {tableFilter : TableFilter} {p : Table → Bool}
    (happ : ∀ ts, tableFilter.ApplicableTables ts = .ok (ts.filter p)) {dbnames : List String}
    (hschemas : ∀ d ∈ dbnames, ∃ names, db.tablesFrom d = .ok names ∧
      names.mapM (db.NewTableFromSqlDB d) = .ok (tableSchemas d))
    (cache : TableSchemaCache) :
    LoadTables.loadDatabases db tableFilter dbnames cache =
      (dbnames.flatMap fun d => (tableSchemas d).filter p).foldlM cacheTable cache := by
  induction dbnames generalizing cache with
  | nil => rfl
  | cons d dbnames ih =>
    obtain ⟨names, hnames, hmapM⟩ := hschemas d List.mem_cons_self
    have hrest := ih fun d' hd' => hschemas d' (List.mem_cons_of_mem d hd')
    rw [List.flatMap_cons, List.foldlM_append]
    simp only [LoadTables.loadDatabases, hnames, hmapM, happ, bind, Except.bind]
    -- the first database's tables are cached, then the loop goes on from that cache
    cases hfold : ((tableSchemas d).filter p).foldlM cacheTable cache with
    | error err => rfl
    | ok c => exact hrest c

/-- With the static filter, and a source that answers the queries of each selected database,
`LoadTables` is the sanity check run over the selected tables, in order, from an empty cache. -/
theorem LoadTables_staticTableFilter_eq {dbnames : List String}
    (hdbs : db.databases = .ok dbnames)
    (hschemas : ∀ d ∈ dbnames, d ∉ ignoredDatabases → dbs.Selected d → ∃ names,
      db.tablesFrom d = .ok names ∧ names.mapM (db.NewTableFromSqlDB d) = .ok (tableSchemas d)) :
    LoadTables db (NewStaticTableFilter dbs tables).toTableFilter =
      (selectedTables dbs tables dbnames tableSchemas).foldlM cacheTable [] := by
  have hshow : showDatabases db = .ok (dbnames.filter (· ∉ ignoredDatabases)) := by
    simp [showDatabases, hdbs, Except.map]
  -- the databases `LoadTables` visits: not the server's own, and selected
  have hvisited : (dbnames.filter (· ∉ ignoredDatabases)).filter (fun d => dbs.Selected d) =
      dbnames.filter fun d => d ∉ ignoredDatabases ∧ dbs.Selected d := by
    rw [List.filter_filter]
    refine List.filter_congr fun d _ => ?_
    simp [Bool.and_comm]
  simp only [LoadTables, hshow, bind, Except.bind, StaticTableFilter.toTableFilter,
    ApplicableDatabases_NewStaticTableFilter, hvisited]
  refine loadDatabases_eq_foldlM ApplicableTables_NewStaticTableFilter (fun d hd => ?_) []
  obtain ⟨hd, hsys, hsel⟩ : d ∈ dbnames ∧ d ∉ ignoredDatabases ∧ dbs.Selected d := by
    simpa using List.mem_filter.mp hd
  exact hschemas d hd hsys hsel

/-- With the static filter, and a source that answers the queries of each selected database,
`LoadTables` succeeds exactly when every selected table has one numeric primary key column; it
fails with the check's error of a selected table that has not; and the cache it returns holds
only selected tables, each under its own `database.table`, a key for every selected table, and,
when the selected tables' keys are distinct, every selected table itself. -/
theorem LoadTables_staticTableFilter {dbnames : List String}
    (hdbs : db.databases = .ok dbnames)
    (hschemas : ∀ d ∈ dbnames, d ∉ ignoredDatabases → dbs.Selected d → ∃ names,
      db.tablesFrom d = .ok names ∧ names.mapM (db.NewTableFromSqlDB d) = .ok (tableSchemas d)) :
    ((∃ cache, LoadTables db (NewStaticTableFilter dbs tables).toTableFilter = .ok cache) ↔
      ∀ t ∈ selectedTables dbs tables dbnames tableSchemas, t.Cacheable) ∧
    (∀ err, LoadTables db (NewStaticTableFilter dbs tables).toTableFilter = .error err →
      ∃ t ∈ selectedTables dbs tables dbnames tableSchemas, ¬ t.Cacheable ∧
        cacheTable [] t = .error err) ∧
    ∀ cache, LoadTables db (NewStaticTableFilter dbs tables).toTableFilter = .ok cache →
      (∀ e ∈ cache, e.1 = e.2.string ∧ e.2 ∈ selectedTables dbs tables dbnames tableSchemas) ∧
      (∀ t ∈ selectedTables dbs tables dbnames tableSchemas, t.string ∈ cache.map Prod.fst) ∧
      (((selectedTables dbs tables dbnames tableSchemas).map Table.string).Nodup →
        ∀ t ∈ selectedTables dbs tables dbnames tableSchemas, (t.string, t) ∈ cache) := by
  rw [LoadTables_staticTableFilter_eq hdbs hschemas]
  refine ⟨foldlM_cacheTable_eq_ok_iff, fun err h => exists_of_foldlM_cacheTable_eq_error h,
    fun cache h => ?_⟩
  obtain ⟨hent, hkeys⟩ := foldlM_cacheTable_entries h
  -- each entry is keyed by its table, as caching keeps
  have hkeyed : cache.Keyed := foldlM_cacheTable_induction _
    (fun _ _ _ hc ht => keyed_cacheTable hc ht)
    (show TableSchemaCache.Keyed [] from ⟨fun _ he => (List.not_mem_nil he).elim, List.nodup_nil⟩)
    h
  refine ⟨fun e he => ⟨hkeyed.1 e he, ?_⟩, fun t ht => (hkeys t.string).mpr (.inr ⟨t, ht, rfl⟩),
    fun hnd => mem_foldlM_cacheTable hnd h⟩
  exact (hent e he).resolve_left List.not_mem_nil

/-- A table of `database` with one numeric primary key column, `id`. -/
def idTable (database name : String) : Table :=
  ⟨database, name, [⟨"id", .number, "bigint(20)", false⟩], [0]⟩

/-- The tables of each database of the source below. -/
def shopTableNames (dbname : String) : List String :=
  if dbname = "shop" then ["orders", "sessions"] else if dbname = "logs" then ["events"]
  else ["user"]

/-- A source with its `mysql` database, a `shop` with the tables `orders` and `sessions`, and
`logs` with `events`. -/
def shopCatalog : SourceCatalog where
  databases := .ok ["mysql", "shop", "logs"]
  tablesFrom := fun dbname => .ok (shopTableNames dbname)
  NewTableFromSqlDB := fun dbname name => .ok (idTable dbname name)

/-- The schemas of the tables of each database of `shopCatalog`. -/
def shopTables (dbname : String) : List Table := (shopTableNames dbname).map (idTable dbname)

/-- With `logs` and `sessions` blacklisted, copydb loads `shop.orders` alone. -/
theorem shopCatalog_loads_orders :
    (∃ cache, LoadTables shopCatalog
      (NewStaticTableFilter ⟨[], ["logs"]⟩ ⟨[], ["sessions"]⟩).toTableFilter = .ok cache) ∧
    selectedTables ⟨[], ["logs"]⟩ ⟨[], ["sessions"]⟩ ["mysql", "shop", "logs"] shopTables =
      [idTable "shop" "orders"] := by
  have hschemas : ∀ d ∈ ["mysql", "shop", "logs"], d ∉ ignoredDatabases →
      FilterAndRewriteConfigs.Selected ⟨[], ["logs"]⟩ d → ∃ names,
        shopCatalog.tablesFrom d = .ok names ∧
          names.mapM (shopCatalog.NewTableFromSqlDB d) = .ok (shopTables d) :=
    fun d _ _ _ => ⟨shopTableNames d, rfl, List.mapM_pure⟩
  have hselected : selectedTables ⟨[], ["logs"]⟩ ⟨[], ["sessions"]⟩ ["mysql", "shop", "logs"]
      shopTables = [idTable "shop" "orders"] := by decide
  refine ⟨(LoadTables_staticTableFilter rfl hschemas).1.mpr ?_, hselected⟩
  rw [hselected]
  simp [Table.Cacheable, idTable, Table.GetPKColumn]

end Copydb

end Ghostferry
