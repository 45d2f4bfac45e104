import Ghostferry.TableSchemaCache
import Ghostferry.Sharding.CopyFilter

/-!
# The sharded table filter

`ShardedTableFilter` chooses what a sharded copy reads: the one source shard, and of its tables
those that carry the sharding key column, the joined tables and the tables of
`PrimaryKeyTables`. A table of `PrimaryKeyTables` must have a one-column primary key: for one
with more, `ApplicableTables` returns an error, which `LoadTables` drops
(`LoadTables_of_ApplicableTables_error`). `NewFerry` builds the ferry's filter without
`PrimaryKeyTables`; only `copyPrimaryKeyTables` sets them, and it fails when the tables it loads
hold none of them.
-/

namespace Ghostferry

namespace Sharding

/-- The settings of the table filter; an ignored-table pattern is its match predicate. -/
structure ShardedTableFilter where
  SourceShard : String
  ShardingKey : String
  JoinedTables : List (String × List JoinTable)
  IgnoredTables : List (String → Bool)
  PrimaryKeyTables : List String

namespace ShardedTableFilter

/-- `ApplicableDatabases`: the source shard, whatever the server has. -/
def ApplicableDatabases (s : ShardedTableFilter) (_dbs : List String) :
    Except String (List String) :=
  .ok [s.SourceShard]

/-- `isIgnored`: an ignored-table pattern matches the table's name. -/
def isIgnored (s : ShardedTableFilter) (table : Table) : Bool := s.IgnoredTables.any (· table.Name)

/-- One table of the loop of `ApplicableTables`, appended once for each reason to keep it. -/
def applicableTable (s : ShardedTableFilter) (applicable : List Table) (table : Table) :
    Except String (List Table) :=
  if s.isIgnored table then .ok applicable
  else
    let applicable :=
      if table.Columns.any (·.Name = s.ShardingKey) then applicable ++ [table] else applicable
    let applicable :=
      if (s.JoinedTables.lookup table.Name).isSome then applicable ++ [table] else applicable
    if table.Name ∈ s.PrimaryKeyTables then
      if table.PKColumns.length ≠ 1 then
        .error "Multiple PK columns are not supported with the PrimaryKeyTables option"
      else .ok (applicable ++ [table])
    else .ok applicable

/-- `ApplicableTables`. -/
def ApplicableTables (s : ShardedTableFilter) (tables : List Table) : Except String (List Table) :=
  tables.foldlM s.applicableTable []

/-- The filter as a `TableFilter`. -/
def toTableFilter (s : ShardedTableFilter) : TableFilter :=
  ⟨s.ApplicableTables, s.ApplicableDatabases⟩

/-- Without `PrimaryKeyTables`, as `NewFerry` builds the ferry's filter, a table is kept or not
but never fails the filter. -/
theorem applicableTable_of_PrimaryKeyTables_nil {s : ShardedTableFilter}
    (hs : s.PrimaryKeyTables = []) (applicable : List Table) (table : Table) :
    ∃ applicable', s.applicableTable applicable table = .ok applicable' := by
  -- no table is one of `PrimaryKeyTables`, so the check that fails is never reached
  have hpk : table.Name ∉ s.PrimaryKeyTables := by
    rw [hs]
    exact List.not_mem_nil
  unfold applicableTable
  rw [if_neg hpk]
  by_cases hign : s.isIgnored table
  · exact ⟨_, if_pos hign⟩
  · exact ⟨_, if_neg hign⟩

/-- Without `PrimaryKeyTables`, `ApplicableTables` never fails, so `LoadTables` has no error of
the filter to drop. -/
theorem ApplicableTables_of_PrimaryKeyTables_nil {s : ShardedTableFilter}
    (hs : s.PrimaryKeyTables = []) (tables : List Table) :
    ∃ applicable, s.ApplicableTables tables = .ok applicable := by
  unfold ApplicableTables
  -- the loop goes on from every list the filter has kept so far
  suffices h : ∀ acc : List Table, ∃ applicable, tables.foldlM s.applicableTable acc = .ok applicable
    from h []
  induction tables with
  | nil => exact fun acc => ⟨acc, rfl⟩
  | cons table tables ih =>
    intro acc
    obtain ⟨acc', hacc'⟩ := applicableTable_of_PrimaryKeyTables_nil hs acc table
    rw [List.foldlM_cons, hacc']
    exact ih acc'

end ShardedTableFilter

end Sharding

end Ghostferry
