import Ghostferry.Schema
import Ghostferry.Value
import Ghostferry.Lib.Assoc
import Ghostferry.Lib.Batching
import Ghostferry.Lib.Machine

/-!
# The reverify store

The iterative verifier collects the pks it has to compare again in a `ReverifyStore`
(`iterative_verifier.go`). `Add` puts a pk in the set of its table and counts the pairs it adds in
`RowCount`. `FlushAndBatchByTable` cuts the sets into batches for the reverify workers and empties
the store. `mapStoreMutex` makes each call atomic, so a sequence of calls is a run of `storeStep`.

A table is named by its `TableIdentifier`, its database and its name, so entries that name it
through different `*schema.Table` values share a set. `MapStore` is the list of the map's entries.
Go's `range` visits a map in an order of its own choosing. The model visits the list in its order,
and the results hold for every list with the same tables and pairs (`Assoc.RangeOrder`), so for
every order Go may pick.

Every store a run reaches keeps `ReverifyStore.Inv`: each table once, each pair once, and
`RowCount` the number of pairs as a `uint64` (`ReverifyStore.Inv.of_reachable`). A flush is the
batching loop of `Batching` run table by table (`FlushAndBatchByTable_eq`). Its batches hold every
stored pair once (`batchPairs_batchesOf`), none is empty or holds more than `max b 1` pks
(`mem_batchesOf`), and at most one per table is short (`countP_short_batchesOf`); together, for a
store a run reaches, `FlushAndBatchByTable_partitions`. `make([]uint64, 0, batchsize)` panics when
the batch size is below zero or its slice is larger than the runtime allocates, and then the flush
panics as soon as the store holds a table (`FlushAndBatchByTable_panics`).
-/

namespace Ghostferry

open Assoc

/-- A comparable and lightweight type that stores the schema and table name. -/
structure TableIdentifier where
  SchemaName : String
  TableName : String
  deriving DecidableEq, Repr

def NewTableIdentifierFromSchemaTable (table : Table) : TableIdentifier :=
  { SchemaName := table.Schema, TableName := table.Name }

structure ReverifyBatch where
  Pks : List UInt64
  Table : TableIdentifier
  deriving DecidableEq, Repr

structure ReverifyEntry where
  Pk : UInt64
  Table : Table

/-- The store. `EmitLogPerRowCount` only paces a debug log line and a metric, and is left out. -/
structure ReverifyStore where
  /-- The map from each table to its set of pks, as its entries; a set is the list of its pks. -/
  MapStore : List (TableIdentifier × List UInt64)
  BatchStore : List ReverifyBatch
  RowCount : UInt64
  deriving Repr

/-- A new empty map, and no rows. -/
def ReverifyStore.flushStore (r : ReverifyStore) : ReverifyStore :=
  { r with MapStore := [], RowCount := 0 }

def NewReverifyStore : ReverifyStore :=
  ReverifyStore.flushStore { MapStore := [], BatchStore := [], RowCount := 0 }

def ReverifyStore.Add (r : ReverifyStore) (entry : ReverifyEntry) : ReverifyStore :=
  let tableId := NewTableIdentifierFromSchemaTable entry.Table
  match r.MapStore.lookup tableId with
  | none =>
    -- the table's set is made here, so the pk is not in it yet and is added
    { r with MapStore := r.MapStore ++ [(tableId, [entry.Pk])], RowCount := r.RowCount + 1 }
  | some pkSet =>
    if entry.Pk ∈ pkSet then r
    else
      { r with MapStore := modify r.MapStore tableId (· ++ [entry.Pk]),
               RowCount := r.RowCount + 1 }

/-- One pk of a table's loop in `FlushAndBatchByTable`: it joins `pkBatch`, which goes to
`BatchStore` once it holds `batchsize` pks. -/
def batchPk (batchsize : ℤ) (tableId : TableIdentifier) (acc : List ReverifyBatch × List UInt64)
    (pk : UInt64) : List ReverifyBatch × List UInt64 :=
  let pkBatch := acc.2 ++ [pk]
  if batchsize ≤ (pkBatch.length : ℤ) then (acc.1 ++ [{ Pks := pkBatch, Table := tableId }], [])
  else (acc.1, pkBatch)

/-- The largest allocation of the Go runtime, `maxAlloc`, on a 64-bit platform: `2^48` bytes. -/
def maxAlloc : ℤ := 2 ^ 48

/-- `make([]uint64, 0, cap)`: `makeslice` panics when the capacity is below zero or its eight-byte
elements would take more than `maxAlloc`. -/
def makeslice (cap : ℤ) : Except GoFailure Unit :=
  if cap < 0 ∨ maxAlloc < 8 * cap then .error (.panic "runtime error: makeslice: cap out of range")
  else pure ()

/-- One table of `FlushAndBatchByTable`'s loop: its pks cut into batches, after the batches of the
tables before it. The `make` that opens each later batch repeats the capacity of the first. The
loop deletes each pk and each table it has visited from the map, which `flushStore` then replaces,
so the deletes are left out. -/
def batchTable (batchsize : ℤ) (BatchStore : List ReverifyBatch)
    (entry : TableIdentifier × List UInt64) : Except GoFailure (List ReverifyBatch) := do
  makeslice batchsize
  let loop := entry.2.foldl (batchPk batchsize entry.1) (BatchStore, [])
  -- the pks after the last full batch
  if 0 < loop.2.length then pure (loop.1 ++ [{ Pks := loop.2, Table := entry.1 }])
  else pure loop.1

def ReverifyStore.FlushAndBatchByTable (r : ReverifyStore) (batchsize : ℤ) :
    Except GoFailure (List ReverifyBatch × ReverifyStore) := do
  let BatchStore ← r.MapStore.foldlM (batchTable batchsize) []
  let r := ReverifyStore.flushStore { r with BatchStore }
  pure (r.BatchStore, r)

/-- A call on the store. -/
inductive StoreCall where
  | Add (entry : ReverifyEntry)
  | FlushAndBatchByTable (batchsize : ℤ)

/-- One call; `none` when it panics, which ends the program. -/
def storeStep (r : ReverifyStore) : StoreCall → Option ReverifyStore
  | .Add entry => some (r.Add entry)
  | .FlushAndBatchByTable batchsize => (r.FlushAndBatchByTable batchsize).toOption.map Prod.snd

/-! ## The batches of a flush -/

/-- The batches a flush cuts the entries `m` into: each table's pks in batches of `b`. -/
def batchesOf (b : ℕ) (m : List (TableIdentifier × List UInt64)) : List ReverifyBatch :=
  m.flatMap fun e => (Batching.batches b e.2).map ({ Pks := ·, Table := e.1 })

/-- The pairs batches hold: each batch's table with each of its pks. -/
def batchPairs (batches : List ReverifyBatch) : List (TableIdentifier × UInt64) :=
  batches.flatMap fun bt => bt.Pks.map (bt.Table, ·)

theorem batchesOf_cons (b : ℕ) (e : TableIdentifier × List UInt64)
    (m : List (TableIdentifier × List UInt64)) :
    batchesOf b (e :: m) =
      (Batching.batches b e.2).map ({ Pks := ·, Table := e.1 }) ++ batchesOf b m :=
  List.flatMap_cons ..

/-- Go compares a batch's length with an `int`; a batch size below zero acts as zero. -/
theorem batchPk_eq_push (batchsize : ℤ) (tableId : TableIdentifier) :
    batchPk batchsize tableId =
      Batching.push batchsize.toNat ({ Pks := ·, Table := tableId }) := by
  funext acc pk
  simp only [batchPk, Batching.push, Int.toNat_le]

theorem makeslice_eq_ok_iff {cap : ℤ} : makeslice cap = .ok () ↔ 0 ≤ cap ∧ 8 * cap ≤ maxAlloc := by
  unfold makeslice
  split_ifs with h
  · exact iff_of_false (by simp) (by omega)
  · exact iff_of_true rfl (by omega)

theorem batchTable_eq {b : ℤ} (hb : makeslice b = .ok ()) (out : List ReverifyBatch)
    (e : TableIdentifier × List UInt64) :
    batchTable b out e =
      .ok (out ++ (Batching.batches b.toNat e.2).map ({ Pks := ·, Table := e.1 })) := by
  -- after `make`, the pk loop is `Batching`'s loop and the last `if` is its `close`
  have h := Batching.close_foldl_push b.toNat ({ Pks := ·, Table := e.1 }) out e.2
  rw [← batchPk_eq_push] at h
  rw [← h]
  unfold batchTable Batching.close
  rw [hb]
  dsimp only [bind, Except.bind]
  split_ifs <;> rfl

theorem foldlM_batchTable {b : ℤ} (hb : makeslice b = .ok ())
    (m : List (TableIdentifier × List UInt64)) (out : List ReverifyBatch) :
    m.foldlM (batchTable b) out = .ok (out ++ batchesOf b.toNat m) := by
  induction m generalizing out with
  | nil =>
    rw [List.foldlM_nil, batchesOf, List.flatMap_nil, List.append_nil]
    rfl
  | cons e m ih =>
    rw [List.foldlM_cons, batchTable_eq hb]
    change m.foldlM (batchTable b) _ = _
    rw [ih, batchesOf_cons, List.append_assoc]

/-- A flush with a batch size `make` accepts returns the batches of its entries, and leaves the
store empty. -/
theorem FlushAndBatchByTable_eq {b : ℤ} (hb : makeslice b = .ok ()) (r : ReverifyStore) :
    r.FlushAndBatchByTable b = .ok (batchesOf b.toNat r.MapStore,
      { MapStore := [], BatchStore := batchesOf b.toNat r.MapStore, RowCount := 0 }) := by
  unfold ReverifyStore.FlushAndBatchByTable
  rw [foldlM_batchTable hb, List.nil_append]
  rfl

/-- A flush with a batch size `make` refuses panics at the store's first table. -/
theorem FlushAndBatchByTable_panics {b : ℤ} {err : GoFailure} (hb : makeslice b = .error err)
    {r : ReverifyStore} (hne : r.MapStore ≠ []) : r.FlushAndBatchByTable b = .error err := by
  obtain ⟨e, m, hm⟩ := List.exists_cons_of_ne_nil hne
  unfold ReverifyStore.FlushAndBatchByTable
  rw [hm, List.foldlM_cons]
  unfold batchTable
  rw [hb]
  rfl

/-- The store after a flush that returns. -/
theorem FlushAndBatchByTable_store {b : ℤ} {r r' : ReverifyStore} {batches : List ReverifyBatch}
    (h : r.FlushAndBatchByTable b = .ok (batches, r')) :
    r' = { MapStore := [], BatchStore := batches, RowCount := 0 } := by
  by_cases hb : makeslice b = .ok ()
  · rw [FlushAndBatchByTable_eq hb] at h
    cases h
    rfl
  · -- `make` refused the batch size, so the flush did not return
    obtain ⟨err, herr⟩ : ∃ err, makeslice b = .error err := by
      cases hm : makeslice b with
      | error err => exact ⟨err, rfl⟩
      | ok u => exact absurd hm hb
    by_cases hne : r.MapStore = []
    · unfold ReverifyStore.FlushAndBatchByTable at h
      rw [hne] at h
      cases h
      rfl
    · rw [FlushAndBatchByTable_panics herr hne] at h
      cases h

theorem batchPairs_cons (bt : ReverifyBatch) (batches : List ReverifyBatch) :
    batchPairs (bt :: batches) = bt.Pks.map (bt.Table, ·) ++ batchPairs batches :=
  List.flatMap_cons ..

theorem batchPairs_append (batches batches' : List ReverifyBatch) :
    batchPairs (batches ++ batches') = batchPairs batches ++ batchPairs batches' :=
  List.flatMap_append

/-- Batches of one table hold that table with their pks, in order. -/
theorem batchPairs_map (t : TableIdentifier) (cs : List (List UInt64)) :
    batchPairs (cs.map ({ Pks := ·, Table := t })) = cs.flatten.map (t, ·) := by
  induction cs with
  | nil => rfl
  | cons c cs ih => rw [List.map_cons, batchPairs_cons, ih, List.flatten_cons, List.map_append]

theorem batchPairs_batchesOf (b : ℕ) (m : List (TableIdentifier × List UInt64)) :
    batchPairs (batchesOf b m) = pairs m := by
  induction m with
  | nil => rfl
  | cons e m ih =>
    rw [batchesOf_cons, batchPairs_append, ih, batchPairs_map, Batching.flatten_batches,
      pairs_cons]

theorem mem_batchesOf {b : ℕ} {m : List (TableIdentifier × List UInt64)} {bt : ReverifyBatch}
    (h : bt ∈ batchesOf b m) :
    bt.Pks ≠ [] ∧ bt.Pks.length ≤ max b 1 ∧ bt.Table ∈ m.map Prod.fst := by
  obtain ⟨e, he, hbt⟩ := List.mem_flatMap.mp h
  obtain ⟨c, hc, rfl⟩ := List.mem_map.mp hbt
  obtain ⟨hne, hlen⟩ := Batching.mem_batches hc
  exact ⟨hne, hlen, List.mem_map_of_mem he⟩

/-- At most one batch of a table is short, when each table is one entry. -/
theorem countP_short_batchesOf {b : ℕ} {m : List (TableIdentifier × List UInt64)}
    (hnd : (m.map Prod.fst).Nodup) (t : TableIdentifier) :
    (batchesOf b m).countP (fun bt => bt.Table = t ∧ bt.Pks.length < b) ≤ 1 := by
  induction m with
  | nil => simp [batchesOf]
  | cons e m ih =>
    rw [List.map_cons, List.nodup_cons] at hnd
    rw [batchesOf_cons, List.countP_append, List.countP_map]
    by_cases he : e.1 = t
    · -- the short batch of `t` is among `e`'s; the later entries are other tables
      subst he
      have hrest : (batchesOf b m).countP (fun bt => bt.Table = e.1 ∧ bt.Pks.length < b) = 0 := by
        rw [List.countP_eq_zero]
        intro bt hbt
        have hin := (mem_batchesOf hbt).2.2
        simp only [decide_eq_true_eq, not_and]
        intro heq
        rw [heq] at hin
        exact absurd hin hnd.1
      rw [hrest, Nat.add_zero]
      calc _ = (Batching.batches b e.2).countP (fun c => c.length < b) :=
            List.countP_congr fun c _ => by simp
        _ ≤ 1 := Batching.countP_short_le_one b e.2
    · have hnone : (Batching.batches b e.2).countP
          ((fun bt : ReverifyBatch => decide (bt.Table = t ∧ bt.Pks.length < b)) ∘
            ({ Pks := ·, Table := e.1 })) = 0 := by
        rw [List.countP_eq_zero]
        intro c _
        simp [he]
      rw [hnone, Nat.zero_add]
      exact ih hnd.2

/-! ## The invariant of the store -/

/-- What every store a run reaches keeps: each table once, each pair once, and `RowCount` the
number of pairs, as a `uint64`. -/
structure ReverifyStore.Inv (r : ReverifyStore) : Prop where
  tables_nodup : (r.MapStore.map Prod.fst).Nodup
  pairs_nodup : (pairs r.MapStore).Nodup
  rowCount : r.RowCount = UInt64.ofNat (pairs r.MapStore).length

theorem inv_NewReverifyStore : NewReverifyStore.Inv :=
  ⟨List.nodup_nil, List.nodup_nil, rfl⟩

/-- A map with one pair more than the store's, counted once more, keeps the invariant. -/
theorem ReverifyStore.Inv.add_pair {r : ReverifyStore} (h : r.Inv)
    {m : List (TableIdentifier × List UInt64)} {p : TableIdentifier × UInt64}
    (hkeys : (m.map Prod.fst).Nodup) (hperm : (pairs m).Perm (pairs r.MapStore ++ [p]))
    (hp : p ∉ pairs r.MapStore) : ({ r with MapStore := m, RowCount := r.RowCount + 1 }).Inv where
  tables_nodup := hkeys
  pairs_nodup := by
    rw [hperm.nodup_iff, ← List.concat_eq_append]
    exact List.Nodup.concat hp h.pairs_nodup
  rowCount := by
    rw [hperm.length_eq, List.length_append, UInt64.ofNat_add, ← h.rowCount]
    rfl

theorem ReverifyStore.Inv.add {r : ReverifyStore} (h : r.Inv) (entry : ReverifyEntry) :
    (r.Add entry).Inv := by
  unfold ReverifyStore.Add
  dsimp only
  split
  · -- a new table: its entry goes at the end with the pk
    rename_i hnone
    have hk := lookup_eq_none_iff.mp hnone
    exact h.add_pair (nodup_keys_append h.tables_nodup hk _) (by rw [pairs_append]; rfl)
      fun hp => hk (fst_mem_of_mem_pairs hp)
  · rename_i pkSet hsome
    split_ifs with hmem
    · exact h
    · -- a new pk of a table the store holds: it joins the table's set
      have hk : NewTableIdentifierFromSchemaTable entry.Table ∈ r.MapStore.map Prod.fst :=
        List.mem_map_of_mem ((lookup_eq_some_iff_mem h.tables_nodup).mp hsome)
      refine h.add_pair (by rw [map_fst_modify]; exact h.tables_nodup)
        (pairs_modify_perm h.tables_nodup hk entry.Pk) ?_
      rw [mem_pairs_iff h.tables_nodup]
      rintro ⟨s, hs, hx⟩
      rw [hsome] at hs
      cases hs
      exact hmem hx

theorem ReverifyStore.Inv.step {r r' : ReverifyStore} {call : StoreCall} (h : r.Inv)
    (hstep : storeStep r call = some r') : r'.Inv := by
  cases call with
  | Add entry =>
    cases hstep
    exact h.add entry
  | FlushAndBatchByTable batchsize =>
    -- a flush that returns leaves the empty store
    simp only [storeStep, Option.map_eq_some_iff] at hstep
    obtain ⟨⟨batches, r''⟩, hok, rfl⟩ := hstep
    have hflush : r.FlushAndBatchByTable batchsize = .ok (batches, r'') := by
      cases hf : r.FlushAndBatchByTable batchsize with
      | error err => simp [hf, Except.toOption] at hok
      | ok res => simpa [hf, Except.toOption] using hok
    rw [FlushAndBatchByTable_store hflush]
    exact ⟨List.nodup_nil, List.nodup_nil, rfl⟩

theorem ReverifyStore.Inv.of_reachable {r : ReverifyStore}
    (h : Machine.Reachable storeStep NewReverifyStore r) : r.Inv :=
  Machine.Reachable.invariant ReverifyStore.Inv inv_NewReverifyStore
    (fun _ _ _ hs hstep => hs.step hstep) h

/-! ## A flush of a store a run reaches -/

theorem FlushAndBatchByTable_partitions {r : ReverifyStore}
    (hr : Machine.Reachable storeStep NewReverifyStore r)
    {order : List (TableIdentifier × List UInt64)} (horder : RangeOrder r.MapStore order)
    {b : ℤ} (hb : 0 ≤ b) (hcap : 8 * b ≤ maxAlloc) :
    r.RowCount = UInt64.ofNat (pairs r.MapStore).toFinset.card ∧
      ∃ batches, { r with MapStore := order }.FlushAndBatchByTable b =
          .ok (batches, { MapStore := [], BatchStore := batches, RowCount := 0 }) ∧
        (batchPairs batches).Perm (pairs r.MapStore) ∧ (batchPairs batches).Nodup ∧
        (∀ bt ∈ batches, bt.Pks ≠ [] ∧ (bt.Pks.length : ℤ) ≤ max b 1) ∧
        ∀ t, (batches.countP fun bt => bt.Table = t ∧ (bt.Pks.length : ℤ) < b) ≤ 1 := by
  have hinv := ReverifyStore.Inv.of_reachable hr
  have hmake : makeslice b = .ok () := makeslice_eq_ok_iff.mpr ⟨hb, hcap⟩
  -- the order Go visits the map in holds each table once, and the same pairs
  have hkeys : (order.map Prod.fst).Nodup := horder.1.nodup_iff.mpr hinv.tables_nodup
  have hpairs : (batchPairs (batchesOf b.toNat order)).Perm (pairs r.MapStore) := by
    rw [batchPairs_batchesOf]
    exact horder.2
  refine ⟨?_, batchesOf b.toNat order, FlushAndBatchByTable_eq hmake _, hpairs,
    hpairs.nodup_iff.mpr hinv.pairs_nodup, fun bt hbt => ?_, fun t => ?_⟩
  · rw [hinv.rowCount, List.toFinset_card_of_nodup hinv.pairs_nodup]
  · obtain ⟨hne, hlen, -⟩ := mem_batchesOf hbt
    exact ⟨hne, by omega⟩
  · calc _ = (batchesOf b.toNat order).countP
          (fun bt => bt.Table = t ∧ bt.Pks.length < b.toNat) :=
          List.countP_congr fun bt _ => by
            simp only [decide_eq_true_eq]
            exact and_congr_right fun _ => by omega
      _ ≤ 1 := countP_short_batchesOf hkeys t

/-- `gftest.table1` of the store's tests, without columns. -/
def gftestTable1 : Table := { Schema := "gftest", Name := "table1", Columns := [], PKColumns := [] }

/-- Another `*schema.Table` value for `gftest.table1`, with its key column. -/
def gftestTable1Columns : Table :=
  { Schema := "gftest", Name := "table1", Columns := [⟨"id", .number, "bigint(20)", false⟩],
    PKColumns := [0] }

def gftestTable2 : Table := { Schema := "gftest", Name := "table2", Columns := [], PKColumns := [] }

/-- Adds to two tables, a flush, then adds again, one of them a pk already stored through the
other `*schema.Table` value. -/
def reverifyCalls : List StoreCall :=
  [.Add ⟨100, gftestTable1⟩, .Add ⟨200, gftestTable2⟩, .FlushAndBatchByTable 10,
    .Add ⟨100, gftestTable1⟩, .Add ⟨101, gftestTable1⟩, .Add ⟨100, gftestTable1Columns⟩,
    .Add ⟨102, gftestTable1⟩, .Add ⟨200, gftestTable2⟩]

def reverifyRunStore : ReverifyStore := Machine.runD storeStep NewReverifyStore reverifyCalls

/-- An order Go may visit the run's map in. -/
def reverifyOrder : List (TableIdentifier × List UInt64) :=
  [(⟨"gftest", "table2"⟩, [200]), (⟨"gftest", "table1"⟩, [102, 100, 101])]

theorem reverifyRun_partitions :
    Machine.Reachable storeStep NewReverifyStore reverifyRunStore ∧
      RangeOrder reverifyRunStore.MapStore reverifyOrder ∧ (0 : ℤ) ≤ 2 ∧ 8 * 2 ≤ maxAlloc ∧
      (reverifyRunStore.RowCount = UInt64.ofNat (pairs reverifyRunStore.MapStore).toFinset.card ∧
        ∃ batches, { reverifyRunStore with MapStore := reverifyOrder }.FlushAndBatchByTable 2 =
            .ok (batches, { MapStore := [], BatchStore := batches, RowCount := 0 }) ∧
          (batchPairs batches).Perm (pairs reverifyRunStore.MapStore) ∧
          (batchPairs batches).Nodup ∧
          (∀ bt ∈ batches, bt.Pks ≠ [] ∧ (bt.Pks.length : ℤ) ≤ max 2 1) ∧
          ∀ t, (batches.countP fun bt => bt.Table = t ∧ (bt.Pks.length : ℤ) < 2) ≤ 1) := by
  have hr : Machine.Reachable storeStep NewReverifyStore reverifyRunStore :=
    Machine.Reachable.runD rfl
  have ho : RangeOrder reverifyRunStore.MapStore reverifyOrder := by decide
  exact ⟨hr, ho, by decide, by decide,
    FlushAndBatchByTable_partitions hr ho (by decide) (by decide)⟩

/-- A batch size below zero: `make` panics at the first table. -/
theorem negative_batchsize_panics :
    (NewReverifyStore.Add { Pk := 100, Table := gftestTable1 }).FlushAndBatchByTable (-1) =
      .error (.panic "runtime error: makeslice: cap out of range") :=
  rfl

end Ghostferry
