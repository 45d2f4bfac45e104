import Ghostferry.Cursor
import Ghostferry.Verifier.Fingerprint
import Ghostferry.Verifier.VerifyStore
import Ghostferry.Lib.Except

/-!
# One pass of the iterative verifier over every table

`IterativeVerifier.VerifyOnce` of `iterative_verifier.go` runs `iterateAllTables`: a `WorkerPool`
over the indexes of `Tables` whose `Process` skips an ignored table (`tableIsIgnored`) and runs
`iterateTableFingerprints` on any other. That pages through the source table's primary keys with
a cursor from pk `0` to `MaxUint64` (`Cursor.Each`, whose query is the one
`CursorConfig.BuildSelect` builds, or `DefaultBuildSelect` without one), and for each batch
compares the fingerprints of those pks on the source and on the target (`compareFingerprints`,
the target table named through `DatabaseRewrites` and `TableRewrites`), calling
`mismatchedPkFunc` on each pk that differs. `VerifyOnce`'s `mismatchedPkFunc` returns a failed
`VerificationResult` naming the table and the pk, which ends the cursor, the table's `Process`
and the pool.

The pool's error is then that `VerificationResult`, which `VerifyOnce` returns as its result, or
the error of a read that failed: the cursor's (its `BuildSelect`'s, or the source's after the
retries), or `GetHashes`' on either side. `VerifyOnce`'s type switch sends such an error to its
`default:` branch, which returns `VerificationResult{true, ""}` with it (`VerifyError`). What the
servers hold and which of their reads fail are fields of the model; Go's `error` is its message.

`VerifyOnce_spec`: once the pool has returned, `VerifyOnce` returns `{true, ""}` and no error
exactly when, for every table it does not ignore, the cursor reads to the end, both servers
answer `GetHashes` for each batch, and every pk read matches (`TableVerified`). A failure names
such a table and a pk read whose fingerprints differ; an error comes with `{true, ""}` and is the
error of a failed read of such a table (`ReadFails`). With `DefaultBuildSelect` and reads that do
not fail, a table is verified exactly when every row of the source with a pk above `0` has the
same fingerprint on the target: the pks come from the source alone, so a row that only the
target holds is never looked at.
-/

namespace Ghostferry

open Machine Keyset

/-- The rows of each table of a server, by database and table name. -/
abbrev Database := String → String → KTable (List Cell)

/-- An error of `iterateAllTables`: a `VerificationResult` that `mismatchedPkFunc` returned, or
the error of a read. -/
inductive VerifyError where
  | result (r : VerificationResult)
  | other (err : String)
  deriving DecidableEq, Repr

/-- The cursor's own error, for a batch that does not move it up, is not a
`VerificationResult`. -/
instance : Errorf VerifyError := ⟨.other⟩

/-- The fields of an `IterativeVerifier` that `VerifyOnce` reads, with what `SourceDB` and
`TargetDB` hold and which of their reads fail; `BatchSize` and `BuildSelect` are its
`CursorConfig`'s. -/
structure IterativeVerifier where
  BatchSize : ℕ
  /-- `BuildSelect`, `none` when nil: the pks its query selects for a table at a cursor, with a
  batch size, in the result's order; or its error. -/
  BuildSelect : Option (Table → ℕ → ℕ → Except String (List ℕ))
  /-- The error of the source on the cursor's query of a table at a cursor, after the
  cursor's `ReadRetries` tries. -/
  FetchError : Table → ℕ → Option String
  SourceDB : Database
  TargetDB : Database
  /-- The error of `GetHashes` on the source for a table's pks, after its five tries. -/
  SourceHashesError : Table → List UInt64 → Option String
  /-- The error of `GetHashes` on the target for a table's pks, after its five tries. -/
  TargetHashesError : Table → List UInt64 → Option String
  Tables : List Table
  IgnoredTables : List String
  DatabaseRewrites : List (String × String)
  TableRewrites : List (String × String)
  Concurrency : ℕ

/-- `math.MaxUint64`, the cursor's `MaxPrimaryKey` in `iterateTableFingerprints`. -/
def MaxUint64 : ℕ := 2 ^ 64 - 1

namespace IterativeVerifier

variable (v : IterativeVerifier) (md5 : List Char → List Char)

/-- `tableIsIgnored`: the table's name is one of `IgnoredTables`. -/
def tableIsIgnored (table : Table) : Bool :=
  v.IgnoredTables.any fun ignored => table.Name = ignored

/-- The target's table for a source table, named through the rewrites. -/
def targetTable (table : Table) : KTable (List Cell) :=
  let target := rewrittenTarget v.DatabaseRewrites v.TableRewrites table
  v.TargetDB target.Schema target.Name

/-- `compareFingerprints`: the pks whose fingerprints differ between the source table and its
target, once `GetHashes` has read both sides; the source's error comes first. -/
def compareFingerprints (pks : List UInt64) (table : Table) : Except String (List UInt64) :=
  match v.SourceHashesError table pks, v.TargetHashesError table pks with
  | some sourceErr, _ => .error sourceErr
  | none, some targetErr => .error targetErr
  | none, none =>
    .ok (Ghostferry.compareFingerprints md5 table.Columns (v.SourceDB table.Schema table.Name)
      (v.targetTable table) pks)

/-- The `selectBuilder` of `Cursor.Fetch` at `lastPk`, as the pks its query selects: from
`BuildSelect` when there is one, else from `DefaultBuildSelect`. -/
def selectBuilder (table : Table) (lastPk : ℕ) : Except String (List ℕ) :=
  match v.BuildSelect with
  | some BuildSelect => BuildSelect table lastPk v.BatchSize
  | none => .ok (DefaultBuildSelect (v.SourceDB table.Schema table.Name) lastPk v.BatchSize)

/-- `Cursor.Fetch` of the cursor of `iterateTableFingerprints` at `lastPk`, after its retries:
the pks its query selects, each with the pk `GetUint64` reads from its row. -/
def fetch (table : Table) (lastPk : ℕ) : Except VerifyError (List (ℕ × UInt64)) :=
  match v.selectBuilder table lastPk, v.FetchError table lastPk with
  | .error err, _ => .error (.other err)
  | .ok _, some err => .error (.other err)
  | .ok pks, none => .ok (pks.map fun pk => (pk, pk.toUInt64))

/-- The callback of the cursor of `iterateTableFingerprints`: the batch's pks are compared, and
`mismatchedPkFunc` runs on each that differs. -/
def verifyBatch (table : Table) (mismatchedPkFunc : UInt64 → Table → Except VerifyError Unit)
    (batch : List (ℕ × UInt64)) : Except VerifyError Unit :=
  match v.compareFingerprints md5 (batch.map Prod.snd) table with
  | .error err => .error (.other err)
  | .ok mismatchedPks => mismatchedPks.forM fun pk => mismatchedPkFunc pk table

/-- `iterateTableFingerprints`: `Cursor.Each` over the source table from pk `0`. -/
def iterateTableFingerprints (table : Table)
    (mismatchedPkFunc : UInt64 → Table → Except VerifyError Unit) : Except VerifyError Unit :=
  (each (v.fetch table) (v.verifyBatch md5 table mismatchedPkFunc) MaxUint64 0).2

/-- The `WorkerPool` of `iterateAllTables`: `Process` of a table index. -/
def iterateAllTablesPool (mismatchedPkFunc : UInt64 → Table → Except VerifyError Unit) :
    WorkerPool Unit VerifyError :=
  ⟨v.Concurrency, fun tableIndex =>
    match v.Tables[tableIndex]? with
    | none => (none, none)
    | some table =>
      if v.tableIsIgnored table then (none, none)
      else
        match v.iterateTableFingerprints md5 table mismatchedPkFunc with
        | .error err => (none, some err)
        | .ok () => (none, none)⟩

/-- `VerifyOnce`'s `mismatchedPkFunc`: a failed verification at the first mismatched pk. -/
def verifyOnceMismatch (pk : UInt64) (tableSchema : Table) : Except VerifyError Unit :=
  .error (.result ⟨false,
    "verification failed on table: " ++ tableSchema.string ++ " for pk: " ++ toString pk⟩)

/-- What the cursor of `iterateTableFingerprints` reads of a table when its callback takes every
batch: the batches, and how the loop ends. -/
def scan (table : Table) : List (List (ℕ × UInt64)) × Except VerifyError Unit :=
  each (v.fetch table) (fun _ => .ok ()) MaxUint64 0

/-- The row at pk `k` of a source table has the fingerprint of the target's row at `k`, or neither
table holds a row at `k`. -/
def RowMatches (table : Table) (k : ℕ) : Prop :=
  ((v.SourceDB table.Schema table.Name).rows k).map (rowFingerprint md5 table.Columns) =
    ((v.targetTable table).rows k).map (rowFingerprint md5 table.Columns)

instance (table : Table) (k : ℕ) : Decidable (v.RowMatches md5 table k) :=
  inferInstanceAs (Decidable (_ = _))

/-- A table passes its verification: the cursor reads it to the end, and for each batch both
servers answer `GetHashes` and every pk of the batch matches. -/
def TableVerified (table : Table) : Prop :=
  (v.scan table).2 = .ok () ∧
    ∀ b ∈ (v.scan table).1, v.SourceHashesError table (b.map Prod.snd) = none ∧
      v.TargetHashesError table (b.map Prod.snd) = none ∧
      ∀ p ∈ b, v.RowMatches md5 table p.2.toNat

/-- A read of a table's verification fails with `err`: the cursor's, or `GetHashes` for one of the
batches it read. -/
def ReadFails (table : Table) (err : String) : Prop :=
  (v.scan table).2 = .error (.other err) ∨
    ∃ b ∈ (v.scan table).1, v.compareFingerprints md5 (b.map Prod.snd) table = .error err

/-- The cursor's query is `DefaultBuildSelect`'s, and no read of either server fails. -/
def DefaultReads : Prop :=
  v.BuildSelect = none ∧ (∀ table lastPk, v.FetchError table lastPk = none) ∧
    ∀ table pks, v.SourceHashesError table pks = none ∧ v.TargetHashesError table pks = none

variable {v md5} {table : Table} {mismatchedPkFunc : UInt64 → Table → Except VerifyError Unit}

/-! ## A batch -/

/-- `compareFingerprints` succeeds exactly when neither `GetHashes` fails, with the pks whose
fingerprints differ. -/
theorem compareFingerprints_eq_ok_iff {pks mismatchedPks : List UInt64} :
    v.compareFingerprints md5 pks table = .ok mismatchedPks ↔
      v.SourceHashesError table pks = none ∧ v.TargetHashesError table pks = none ∧
        mismatchedPks = Ghostferry.compareFingerprints md5 table.Columns
          (v.SourceDB table.Schema table.Name) (v.targetTable table) pks := by
  unfold compareFingerprints
  cases v.SourceHashesError table pks <;> cases v.TargetHashesError table pks <;> simp [eq_comm]

/-- No pk of a batch is reported exactly when both servers answer and every row of the batch
matches. -/
theorem compareFingerprints_eq_ok_nil_iff {pks : List UInt64} :
    v.compareFingerprints md5 pks table = .ok [] ↔
      v.SourceHashesError table pks = none ∧ v.TargetHashesError table pks = none ∧
        ∀ pk ∈ pks, v.RowMatches md5 table pk.toNat := by
  rw [compareFingerprints_eq_ok_iff, @eq_comm _ [], List.eq_nil_iff_forall_not_mem]
  refine and_congr_right fun _ => and_congr_right fun _ => forall_congr' fun pk => ?_
  rw [mem_compareFingerprints, not_and_not_right]
  rfl

/-- A batch passes `VerifyOnce`'s callback exactly when both servers answer `GetHashes` for its
pks and every one of them matches. -/
theorem verifyBatch_eq_ok_iff {b : List (ℕ × UInt64)} :
    v.verifyBatch md5 table verifyOnceMismatch b = .ok () ↔
      v.SourceHashesError table (b.map Prod.snd) = none ∧
        v.TargetHashesError table (b.map Prod.snd) = none ∧
        ∀ p ∈ b, v.RowMatches md5 table p.2.toNat := by
  have hcmp := @compareFingerprints_eq_ok_nil_iff v md5 table (b.map Prod.snd)
  rw [List.forall_mem_map] at hcmp
  rw [← hcmp, verifyBatch]
  cases v.compareFingerprints md5 (b.map Prod.snd) table with
  | error err => simp
  | ok mismatchedPks =>
    have hmismatch : ∀ pk, verifyOnceMismatch pk table ≠ .ok () := fun _ h => by cases h
    rw [Loop.forM_eq_ok_iff_nil hmismatch]
    exact ⟨fun h => h ▸ rfl, Except.ok.inj⟩

/-- `VerifyOnce`'s callback fails with the error of `GetHashes`, or with a failed
`VerificationResult` naming a pk of the batch whose fingerprints differ. -/
theorem verifyBatch_eq_error {b : List (ℕ × UInt64)} {e : VerifyError}
    (h : v.verifyBatch md5 table verifyOnceMismatch b = .error e) :
    (∃ err, e = .other err ∧ v.compareFingerprints md5 (b.map Prod.snd) table = .error err) ∨
      ∃ p ∈ b, ¬ v.RowMatches md5 table p.2.toNat ∧
        e = .result ⟨false,
          "verification failed on table: " ++ table.string ++ " for pk: " ++ toString p.2⟩ := by
  unfold verifyBatch at h
  cases hc : v.compareFingerprints md5 (b.map Prod.snd) table with
  | error err =>
    rw [hc] at h
    exact .inl ⟨err, (Except.error.inj h).symm, rfl⟩
  | ok mismatchedPks =>
    rw [hc] at h
    -- the error is the report of the first mismatched pk
    obtain ⟨pk, hpk, hf⟩ := Loop.exists_of_forM_eq_error h
    obtain ⟨-, -, rfl⟩ := compareFingerprints_eq_ok_iff.mp hc
    obtain ⟨hpkb, hne⟩ := mem_compareFingerprints.mp hpk
    obtain ⟨p, hp, rfl⟩ := List.mem_map.mp hpkb
    exact .inr ⟨p, hp, hne, (Except.error.inj hf).symm⟩

/-! ## A table -/

/-- A failed fetch fails with the error of the query or of the source. -/
theorem fetch_eq_error {lastPk : ℕ} {e : VerifyError} (h : v.fetch table lastPk = .error e) :
    ∃ err, e = .other err := by
  unfold fetch at h
  split at h
  · exact ⟨_, (Except.error.inj h).symm⟩
  · exact ⟨_, (Except.error.inj h).symm⟩
  · cases h

/-- The cursor's own errors are never a `VerificationResult`: a scan fails with the error of a
read. -/
theorem scan_eq_error {e : VerifyError} (h : (v.scan table).2 = .error e) :
    ∃ err, e = .other err := by
  rcases each_error_of_accept h with ⟨l, hl⟩ | ⟨msg, rfl⟩
  · exact fetch_eq_error hl
  · exact ⟨msg, rfl⟩

/-- `iterateTableFingerprints` reads what the scan reads: either its callback takes every batch
of the scan and it ends as the scan does, or it stops at a batch of the scan that the callback
rejects, with the callback's error. -/
theorem iterateTableFingerprints_cases :
    ((∀ b ∈ (v.scan table).1, v.verifyBatch md5 table mismatchedPkFunc b = .ok ()) ∧
        v.iterateTableFingerprints md5 table mismatchedPkFunc = (v.scan table).2) ∨
      ∃ b ∈ (v.scan table).1, ∃ e, v.verifyBatch md5 table mismatchedPkFunc b = .error e ∧
        v.iterateTableFingerprints md5 table mismatchedPkFunc = .error e := by
  rcases each_cases (v.fetch table) (v.verifyBatch md5 table mismatchedPkFunc) MaxUint64 0 with
    ⟨hall, heq⟩ | ⟨pre, b, post, e, hbatches, -, hb, heq⟩
  · exact .inl ⟨hall, by rw [iterateTableFingerprints, heq]; rfl⟩
  · refine .inr ⟨b, ?_, e, hb, by rw [iterateTableFingerprints, heq]⟩
    rw [scan, hbatches]
    exact List.mem_append_right pre List.mem_cons_self

/-- A table passes `VerifyOnce`'s `iterateTableFingerprints` exactly when it is verified. -/
theorem iterateTableFingerprints_eq_ok_iff :
    v.iterateTableFingerprints md5 table verifyOnceMismatch = .ok () ↔
      v.TableVerified md5 table := by
  rcases @iterateTableFingerprints_cases v md5 table verifyOnceMismatch with
    ⟨hall, heq⟩ | ⟨b, hb, e, hbe, heq⟩
  · rw [heq, TableVerified]
    exact (and_iff_left fun b hb => verifyBatch_eq_ok_iff.mp (hall b hb)).symm
  · -- a batch of the scan is rejected, so not all of them pass
    rw [heq]
    refine iff_of_false (by simp) fun hv => ?_
    rw [verifyBatch_eq_ok_iff.mpr (hv.2 b hb)] at hbe
    cases hbe

/-- A table fails `VerifyOnce`'s `iterateTableFingerprints` with the error of one of its reads,
or with a failed `VerificationResult` naming a pk read whose fingerprints differ. -/
theorem iterateTableFingerprints_eq_error {e : VerifyError}
    (h : v.iterateTableFingerprints md5 table verifyOnceMismatch = .error e) :
    (∃ err, e = .other err ∧ v.ReadFails md5 table err) ∨
      ∃ b ∈ (v.scan table).1, ∃ p ∈ b, ¬ v.RowMatches md5 table p.2.toNat ∧
        e = .result ⟨false,
          "verification failed on table: " ++ table.string ++ " for pk: " ++ toString p.2⟩ := by
  rcases @iterateTableFingerprints_cases v md5 table verifyOnceMismatch with
    ⟨-, heq⟩ | ⟨b, hb, e', hbe, heq⟩
  · -- the scan itself failed
    rw [heq] at h
    obtain ⟨err, rfl⟩ := scan_eq_error h
    exact .inl ⟨err, rfl, .inl h⟩
  · rw [heq] at h
    obtain rfl := Except.error.inj h
    rcases verifyBatch_eq_error hbe with ⟨err, rfl, hc⟩ | ⟨p, hp, hne, rfl⟩
    · exact .inl ⟨err, rfl, .inr ⟨b, hb, hc⟩⟩
    · exact .inr ⟨b, hb, p, hp, hne, rfl⟩

/-! ## The default query -/

/-- Every key of a table the cursor can read, up to `MaxUint64`, is its own pk. -/
theorem toNat_toUInt64_of_lt {k : ℕ} (hk : k < 2 ^ 64) : k.toUInt64.toNat = k :=
  UInt64.toNat_ofNat_of_lt' hk

/-- With the default query and no failed read, the cursor reads keyset pages of the source. -/
theorem fetch_of_defaultReads (hd : v.DefaultReads) :
    v.fetch table =
      pageFetch (v.SourceDB table.Schema table.Name).keys Nat.toUInt64 v.BatchSize := by
  obtain ⟨hb, hf, -⟩ := hd
  funext lastPk
  simp only [fetch, selectBuilder, hb, hf, pageFetch, DefaultBuildSelect, KTable.page]

/-- With the default query and no failed read, a table is verified exactly when every row of
the source with a pk above `0` matches. -/
theorem TableVerified_iff_of_defaultReads (hd : v.DefaultReads) (hbs : 0 < v.BatchSize)
    (hkeys : ∀ k ∈ (v.SourceDB table.Schema table.Name).keys, k < 2 ^ 64) :
    v.TableVerified md5 table ↔
      ∀ k ∈ (v.SourceDB table.Schema table.Name).keys, 0 < k → v.RowMatches md5 table k := by
  set S := (v.SourceDB table.Schema table.Name).keys
  have hM : ∀ k ∈ S, k ≤ MaxUint64 := fun k hk => by
    have := hkeys k hk
    unfold MaxUint64
    omega
  -- the scan reads the keyset pages to the end, and both servers answer every batch
  have hscan : v.scan table = (pageBatches S Nat.toUInt64 v.BatchSize MaxUint64 0, .ok ()) := by
    rw [scan, fetch_of_defaultReads hd, each_pageFetch_eq]
  have hhashes := hd.2.2 table
  calc v.TableVerified md5 table
      ↔ ∀ b ∈ pageBatches S Nat.toUInt64 v.BatchSize MaxUint64 0, ∀ p ∈ b,
          v.RowMatches md5 table p.2.toNat := by
        simp only [TableVerified, hscan, hhashes, true_and]
    _ ↔ ∀ k ∈ Keyset.above S 0, v.RowMatches md5 table k.toUInt64.toNat :=
        forall_mem_pageBatches_iff hbs hM 0 fun p : ℕ × UInt64 => v.RowMatches md5 table p.2.toNat
    _ ↔ ∀ k ∈ S, 0 < k → v.RowMatches md5 table k := by
        refine forall_congr' fun k => ?_
        rw [Keyset.mem_above, and_imp]
        refine imp_congr_right fun hk => imp_congr_right fun _ => ?_
        rw [toNat_toUInt64_of_lt (hkeys k hk)]

/-! ## The pool -/

/-- The `Process` of a table index fails exactly when the index names a table that is not ignored
and whose pass fails, with that pass's error. -/
theorem iterateAllTablesPool_process_eq_some {j : ℕ} {e : VerifyError} :
    ((v.iterateAllTablesPool md5 mismatchedPkFunc).Process j).2 = some e ↔
      ∃ t, v.Tables[j]? = some t ∧ v.tableIsIgnored t = false ∧
        v.iterateTableFingerprints md5 t mismatchedPkFunc = .error e := by
  simp only [iterateAllTablesPool]
  cases ht : v.Tables[j]? with
  | none => simp
  | some t =>
    cases hi : v.tableIsIgnored t <;>
      cases hit : v.iterateTableFingerprints md5 t mismatchedPkFunc <;> simp [hi, hit]

section Pool

variable {s : PoolState Unit VerifyError}
  (hr : Reachable (poolStep (v.iterateAllTablesPool md5 mismatchedPkFunc) v.Tables.length)
    (PoolState.init v.Concurrency) s)
include hr

/-- The pool's error is the error of the pass over a table it does not ignore. -/
theorem exists_of_err_eq_some {e : VerifyError} (he : s.err = some e) :
    ∃ t ∈ v.Tables, v.tableIsIgnored t = false ∧
      v.iterateTableFingerprints md5 t mismatchedPkFunc = .error e := by
  obtain ⟨c, -, hc⟩ := (PoolInv.of_reachable hr).reported e (.inl he)
  obtain ⟨t, ht, hi, hit⟩ := iterateAllTablesPool_process_eq_some.mp hc
  exact ⟨t, List.mem_of_getElem? ht, hi, hit⟩

/-- Once the pool has returned, it returns no error exactly when the pass over every table it
does not ignore succeeds. -/
theorem err_eq_none_iff (hp : s.phase = .returned) :
    s.err = none ↔ ∀ t ∈ v.Tables, v.tableIsIgnored t = false →
      v.iterateTableFingerprints md5 t mismatchedPkFunc = .ok () := by
  constructor
  · -- every table index was handed out and every `Process` succeeded
    intro herr t ht hi
    obtain ⟨hcalled, hok⟩ := ((PoolInv.of_reachable hr).err_eq_none_iff hp).mp herr
    obtain ⟨j, hj, rfl⟩ := List.getElem_of_mem ht
    obtain ⟨c, hc, rfl⟩ := List.mem_map.mp (hcalled j hj)
    cases hit : v.iterateTableFingerprints md5 v.Tables[c.2] mismatchedPkFunc with
    | ok u => rfl
    | error e =>
      have hfail := iterateAllTablesPool_process_eq_some.mpr
        ⟨_, List.getElem?_eq_getElem hj, hi, hit⟩
      rw [hok c hc] at hfail
      cases hfail
  · intro hall
    cases he : s.err with
    | none => rfl
    | some e =>
      obtain ⟨t, ht, hi, hit⟩ := exists_of_err_eq_some hr he
      rw [hall t ht hi] at hit
      cases hit

end Pool

end IterativeVerifier

/-- `VerifyOnce` once `iterateAllTables` returned `err`: a `VerificationResult` is returned as the
result, and any other error with `VerificationResult{true, ""}` (the `default:` branch). -/
def VerifyOnce (err : Option VerifyError) : VerificationResult × Option String :=
  match err with
  | some (.result e) => (e, none)
  | some (.other e) => (⟨true, ""⟩, some e)
  | none => (⟨true, ""⟩, none)

open IterativeVerifier in
/-- Once the pool of `VerifyOnce` has returned, `VerifyOnce` returns `{true, ""}` and no error
exactly when every table it does not ignore is verified; a failure names such a table and a pk
its cursor read whose fingerprints differ; an error comes with `{true, ""}` and is that of a
failed read of such a table. With the default query and no failed read, the data passes exactly
when every row of every table it does not ignore, with a pk above `0` on the source, has the
same fingerprint on the target. -/
theorem VerifyOnce_spec {v : IterativeVerifier} {md5 : List Char → List Char}
    {s : PoolState Unit VerifyError}
    (hr : Reachable (poolStep (v.iterateAllTablesPool md5 verifyOnceMismatch) v.Tables.length)
      (PoolState.init v.Concurrency) s)
    (hp : s.phase = .returned) :
    (VerifyOnce s.err = (⟨true, ""⟩, none) ↔
      ∀ t ∈ v.Tables, v.tableIsIgnored t = false → v.TableVerified md5 t) ∧
    ((VerifyOnce s.err).1.DataCorrect = false →
      (VerifyOnce s.err).2 = none ∧
        ∃ t ∈ v.Tables, v.tableIsIgnored t = false ∧ ∃ b ∈ (v.scan t).1, ∃ p ∈ b,
          ¬ v.RowMatches md5 t p.2.toNat ∧
          (VerifyOnce s.err).1.Message =
            "verification failed on table: " ++ t.string ++ " for pk: " ++ toString p.2) ∧
    (∀ e, (VerifyOnce s.err).2 = some e →
      (VerifyOnce s.err).1 = ⟨true, ""⟩ ∧
        ∃ t ∈ v.Tables, v.tableIsIgnored t = false ∧ v.ReadFails md5 t e) ∧
    (v.DefaultReads → 0 < v.BatchSize →
      (∀ t ∈ v.Tables, ∀ k ∈ (v.SourceDB t.Schema t.Name).keys, k < 2 ^ 64) →
      (VerifyOnce s.err = (⟨true, ""⟩, none) ↔
        ∀ t ∈ v.Tables, v.tableIsIgnored t = false →
          ∀ k ∈ (v.SourceDB t.Schema t.Name).keys, 0 < k → v.RowMatches md5 t k)) := by
  have hpass : VerifyOnce s.err = (⟨true, ""⟩, none) ↔
      ∀ t ∈ v.Tables, v.tableIsIgnored t = false → v.TableVerified md5 t := by
    cases herr : s.err with
    | none =>
      have hall := (err_eq_none_iff hr hp).mp herr
      exact iff_of_true rfl fun t ht hi => iterateTableFingerprints_eq_ok_iff.mp (hall t ht hi)
    | some e =>
      -- a table's pass failed, so it is not verified, and the error is no success
      obtain ⟨t, ht, hi, hit⟩ := exists_of_err_eq_some hr herr
      refine iff_of_false ?_ fun hall => ?_
      · rcases iterateTableFingerprints_eq_error hit with ⟨err, rfl, -⟩ | ⟨-, -, -, -, -, rfl⟩
        <;> simp [VerifyOnce]
      · rw [iterateTableFingerprints_eq_ok_iff.mpr (hall t ht hi)] at hit
        cases hit
  refine ⟨hpass, fun hfalse => ?_, fun e he => ?_, fun hd hbs hkeys => ?_⟩
  · -- only a failed `VerificationResult` from a mismatch makes `DataCorrect` false
    cases herr : s.err with
    | none => rw [herr] at hfalse; cases hfalse
    | some e =>
      obtain ⟨t, ht, hi, hit⟩ := exists_of_err_eq_some hr herr
      rcases iterateTableFingerprints_eq_error hit with ⟨err, rfl, -⟩ | ⟨b, hb, p, hp, hne, rfl⟩
      · rw [herr] at hfalse
        cases hfalse
      · exact ⟨rfl, t, ht, hi, b, hb, p, hp, hne, rfl⟩
  · -- only the error of a read reaches the `default:` branch
    cases herr : s.err with
    | none => rw [herr] at he; cases he
    | some e' =>
      obtain ⟨t, ht, hi, hit⟩ := exists_of_err_eq_some hr herr
      rcases iterateTableFingerprints_eq_error hit with
        ⟨err, rfl, hread⟩ | ⟨b, hb, p, hp, hne, rfl⟩
      · rw [herr] at he
        obtain rfl := Option.some.inj he
        exact ⟨rfl, t, ht, hi, hread⟩
      · rw [herr] at he
        cases he
  · -- with the default query, a table is verified exactly when its source rows match
    rw [hpass]
    exact forall₂_congr fun t ht => imp_congr_right fun _ =>
      TableVerified_iff_of_defaultReads hd hbs (hkeys t ht)

/-- A table with rows at pks `1` and `2`. -/
def onceSource : KTable (List Cell) :=
  (KTable.empty.set 1 (some [.value ['1'], .value ['a']])).set 2 (some [.value ['2'], .value ['b']])

/-- The target's copy of `onceSource`, with one more row, at pk `3`. -/
def onceTarget : KTable (List Cell) := onceSource.set 3 (some [.value ['3'], .value ['c']])

/-- The table `gftest.t`, its pk first. -/
def onceTable : Table := ⟨"gftest", "t", notesColumns, [0]⟩

/-- A verifier of that one table with the default query, one worker and batches of two rows,
whose reads do not fail. -/
def onceVerifier : IterativeVerifier :=
  ⟨2, none, fun _ _ => none, fun _ _ => onceSource, fun _ _ => onceTarget, fun _ _ => none,
    fun _ _ => none, [onceTable], [], [], [], 1⟩

/-- The worker passes the table, and `Run` drains `errCh` and returns. -/
def onceRun : PoolState Unit VerifyError :=
  runD (poolStep (onceVerifier.iterateAllTablesPool id IterativeVerifier.verifyOnceMismatch) 1)
    (PoolState.init 1) [.dispatch 0, .process 0, .close, .finish 0, .send 0, .wait, .drain, .drain]

/-- `VerifyOnce` finds the data correct, every source row matching, although the target holds a
row at pk `3` that the source does not. -/
theorem onceRun_passes_with_target_only_row :
    VerifyOnce onceRun.err = (⟨true, ""⟩, none) ∧
      (∀ k ∈ onceSource.keys, 0 < k → onceVerifier.RowMatches id onceTable k) ∧
      onceSource.rows 3 = none ∧ onceTarget.rows 3 ≠ none := by
  have hr : Reachable
      (poolStep (onceVerifier.iterateAllTablesPool id IterativeVerifier.verifyOnceMismatch) 1)
      (PoolState.init 1) onceRun := Reachable.runD (by decide +kernel)
  have hp : onceRun.phase = .returned := by decide +kernel
  have hd : onceVerifier.DefaultReads := ⟨rfl, fun _ _ => rfl, fun _ _ => ⟨rfl, rfl⟩⟩
  have hkeys : ∀ t ∈ onceVerifier.Tables, ∀ k ∈ (onceVerifier.SourceDB t.Schema t.Name).keys,
      k < 2 ^ 64 := by decide +kernel
  have hpass : VerifyOnce onceRun.err = (⟨true, ""⟩, none) := by decide +kernel
  exact ⟨hpass, ((VerifyOnce_spec hr hp).2.2.2 hd (by decide) hkeys).mp hpass onceTable
    (List.mem_singleton_self _) rfl, rfl, by decide +kernel⟩

end Ghostferry
