import Ghostferry.DmlEvents
import Ghostferry.Verifier.VerifyStore
import Ghostferry.Lib.Except

/-!
# The checksum verifier

`ChecksumTableVerifier.Verify` of `verifier.go` checks the tables one by one. For each it runs
`CHECKSUM TABLE ... EXTENDED` on the source table and on its target table, named through
`DatabaseRewrites` and `TableRewrites`, in two goroutines that it waits for. It returns the
source's error if that query failed, else the target's, else a failed result naming both tables
if the checksums differ, and goes on to the next table if they agree. `fetchChecksumValueFromRow`
turns a `NULL` checksum, MySQL's answer for a table that does not exist, into an error. After the
last table it returns success.

A server is what it answers to a query: the row it scans, a table name and a nullable integer, or
the error of the query or the scan. The loop is `List.forM` in `Except`, its error the result and
error that `Verify` returns (`Lib/Except.lean`).

`Verify_spec`: `Verify` succeeds exactly when, for every table, both checksums are read and
agree; when a table does not pass, it reports a failure, and what it returns is what the first
table for which they do not returns.
-/

namespace Ghostferry

/-- A server, by the row it returns for a query or the error of the query or of its scan. -/
abbrev ChecksumServer := List Char → Except String (String × Option Int64)

/-- The fields of a `ChecksumTableVerifier` that `Verify` reads. -/
structure ChecksumTableVerifier where
  Tables : List Table
  DatabaseRewrites : List (String × String)
  TableRewrites : List (String × String)
  SourceDB : ChecksumServer
  TargetDB : ChecksumServer

/-- `fetchChecksumValueFromRow`: the scanned checksum, an error for a `NULL` one. -/
def fetchChecksumValueFromRow (row : Except String (String × Option Int64)) :
    Except String Int64 :=
  match row with
  | .error err => .error err
  | .ok (tablename, checksum) =>
    match checksum with
    | none => .error ("cannot find table " ++ tablename ++ " during verification")
    | some value => .ok value

/-- The query of a table's checksum. -/
def checksumQuery (table : List Char) : List Char :=
  "CHECKSUM TABLE ".toList ++ table ++ " EXTENDED".toList

namespace ChecksumTableVerifier

variable (v : ChecksumTableVerifier)

/-- The target table of a source table, named through the rewrites. -/
def targetTable (table : Table) : List Char :=
  let target := rewrittenTarget v.DatabaseRewrites v.TableRewrites table
  QuotedTableNameFromString target.Schema target.Name

/-- The goroutine that reads the source's checksum of a table. -/
def sourceChecksum (table : Table) : Except String Int64 :=
  fetchChecksumValueFromRow (v.SourceDB (checksumQuery (QuotedTableNameFromString table.Schema
    table.Name)))

/-- The goroutine that reads the target's checksum of a table. -/
def targetChecksum (table : Table) : Except String Int64 :=
  fetchChecksumValueFromRow (v.TargetDB (checksumQuery (v.targetTable table)))

/-- One pass of the loop of `Verify`: it goes on, or returns a result and an error. -/
def verifyTable (table : Table) : Except (VerificationResult × Option String) Unit :=
  let sourceTable := QuotedTableNameFromString table.Schema table.Name
  match v.sourceChecksum table, v.targetChecksum table with
  | .error sourceErr, _ => .error (⟨false, ""⟩, some sourceErr)
  | _, .error targetErr => .error (⟨false, ""⟩, some targetErr)
  | .ok sourceChecksum, .ok targetChecksum =>
    if sourceChecksum = targetChecksum then .ok ()
    else .error (⟨false, "data on table " ++ String.ofList sourceTable ++ " (" ++
      String.ofList (v.targetTable table) ++ ") mismatched"⟩, none)

/-- `Verify`. -/
def Verify : VerificationResult × Option String :=
  match v.Tables.forM v.verifyTable with
  | .ok () => (⟨true, ""⟩, none)
  | .error result => result

/-- Both checksums of a table are read, and they agree. -/
def TablePasses (table : Table) : Prop :=
  ∃ checksum, v.sourceChecksum table = .ok checksum ∧ v.targetChecksum table = .ok checksum

variable {v}

/-- A pass of the loop goes on exactly when the table passes. -/
theorem verifyTable_eq_ok_iff {table : Table} :
    v.verifyTable table = .ok () ↔ v.TablePasses table := by
  unfold verifyTable TablePasses
  cases hs : v.sourceChecksum table with
  | error sourceErr => simp
  | ok sourceChecksum =>
    cases ht : v.targetChecksum table with
    | error targetErr => simp
    | ok targetChecksum =>
      by_cases heq : sourceChecksum = targetChecksum
      · simp [heq]
      · simp [heq, Ne.symm heq]

/-- A pass of the loop that returns does not return success. -/
theorem verifyTable_error_ne {table : Table} {result : VerificationResult × Option String}
    (h : v.verifyTable table = .error result) : result.1.DataCorrect = false := by
  unfold verifyTable at h
  split at h
  · obtain rfl := Except.error.inj h
    rfl
  · obtain rfl := Except.error.inj h
    rfl
  · split_ifs at h
    obtain rfl := Except.error.inj h
    rfl

/-- `Verify` succeeds exactly when every table passes; otherwise it reports a failure, and what it
returns is what the first table that does not pass returns, after tables that all passed. -/
theorem Verify_spec :
    (v.Verify = (⟨true, ""⟩, none) ↔ ∀ table ∈ v.Tables, v.TablePasses table) ∧
      (¬ (∀ table ∈ v.Tables, v.TablePasses table) →
        v.Verify.1.DataCorrect = false ∧
          ∃ pre table post, v.Tables = pre ++ table :: post ∧ (∀ t ∈ pre, v.TablePasses t) ∧
            ¬ v.TablePasses table ∧ v.verifyTable table = .error v.Verify) := by
  have hloop :
      v.Tables.forM v.verifyTable = .ok () ↔ ∀ table ∈ v.Tables, v.TablePasses table := by
    rw [Loop.forM_eq_ok_iff]
    exact forall₂_congr fun _ _ => verifyTable_eq_ok_iff
  unfold Verify
  cases hv : v.Tables.forM v.verifyTable with
  | ok u =>
    -- every pass went on
    exact ⟨iff_of_true rfl (hloop.mp hv), fun hnot => absurd (hloop.mp hv) hnot⟩
  | error result =>
    -- the loop returned at the first table that does not pass
    obtain ⟨pre, table, post, hsplit, hpre, htable⟩ := Loop.forM_eq_error_iff.mp hv
    have hfalse := verifyTable_error_ne htable
    have hnot : ¬ ∀ table ∈ v.Tables, v.TablePasses table := fun hall => by
      have hok := hloop.mpr hall
      rw [hv] at hok
      cases hok
    refine ⟨iff_of_false (fun h => ?_) hnot, fun _ => ⟨hfalse, ?_⟩⟩
    · have hresult : result = (⟨true, ""⟩, none) := h
      rw [hresult] at hfalse
      cases hfalse
    · refine ⟨pre, table, post, hsplit, fun t ht => verifyTable_eq_ok_iff.mp (hpre t ht),
        fun hpass => ?_, htable⟩
      rw [verifyTable_eq_ok_iff.mpr hpass] at htable
      cases htable

end ChecksumTableVerifier

end Ghostferry
