import Ghostferry.DataIterator.Copy

/-!
# The copy's progress in `FetchStatus`

`FetchStatus` of `status.go` estimates the time the copy has left from snapshots of the iterator's
maps: it sums the tables' targets into `totalPKsToCopy` and their last successful keys into
`completedPKs`, both in `uint64`, and divides `totalPKsToCopy - completedPKs` by the speed it reads
from `copySpeedLog`. The newest entry of `copySpeedLog` is the running total of the deltas that
`UpdateLastSuccessfulPK` adds, and in every state a run reaches, with the application's writes or
without, it is `completedPKs` itself (`copySpeedLog_eq_completedPKs`).

Nothing bounds a table's last successful key by its target. The last batch of a cursor is bounded
by `LIMIT`, not by `MaxPrimaryKey`, so a row the application inserts above the target during the
copy can end in it; then `completedPKs` exceeds `totalPKsToCopy`, and the difference wraps. Keys
near `2^64`, which a `BIGINT UNSIGNED` key may hold, make the sums themselves wrap
(`status_sums_wrap`).
-/

namespace Ghostferry

open Machine Assoc

/-- The loops of `FetchStatus` that sum a map's values, in `uint64`. -/
def sumPKs (pks : List (String × UInt64)) : UInt64 :=
  pks.foldl (fun acc e => acc + e.2) 0

/-- `totalPKsToCopy` of `FetchStatus`: the targets summed. -/
def totalPKsToCopy (st : DataIteratorState) : UInt64 := sumPKs st.targetPrimaryKeys

/-- `completedPKs` of `FetchStatus`: the last successful keys summed. -/
def completedPKs (st : DataIteratorState) : UInt64 := sumPKs st.lastSuccessfulPrimaryKeys

theorem sumPKs_eq_sum (pks : List (String × UInt64)) : sumPKs pks = (pks.map Prod.snd).sum := by
  -- the loop adds the values to whatever it starts from
  have h : ∀ a : UInt64, pks.foldl (fun acc e => acc + e.2) a = a + (pks.map Prod.snd).sum := by
    induction pks with
    | nil => simp
    | cons e pks ih =>
      intro a
      rw [List.foldl_cons, ih, List.map_cons, List.sum_cons, add_assoc]
  rw [sumPKs, h, zero_add]

/-- `UpdateLastSuccessfulPK` adds to `completedPKs` the delta it adds to `copySpeedLog`. -/
theorem completedPKs_UpdateLastSuccessfulPK {st : DataIteratorState}
    (hnd : (st.lastSuccessfulPrimaryKeys.map Prod.fst).Nodup) (table : String) (pk : UInt64) :
    completedPKs (st.UpdateLastSuccessfulPK table pk) =
      completedPKs st + (pk - (st.lastSuccessfulPrimaryKeys.lookup table).getD 0) := by
  rw [completedPKs, completedPKs, sumPKs_eq_sum, sumPKs_eq_sum,
    UpdateLastSuccessfulPK_lastSuccessfulPrimaryKeys, sum_set hnd]

/-! ## The running total of `copySpeedLog` -/

section SpeedLog

variable {R : Type*} {c bs : ℕ} {s s' : IteratorState R} {a : IteratorAction R}

/-- A step leaves the last successful keys and `copySpeedLog` alone, or is a pass that records a
key with `UpdateLastSuccessfulPK`. -/
theorem iteratorStep_lastSuccessful (h : iteratorStep c bs s a = some s') :
    (s'.CurrentState.lastSuccessfulPrimaryKeys = s.CurrentState.lastSuccessfulPrimaryKeys ∧
        s'.CurrentState.copySpeedLog = s.CurrentState.copySpeedLog) ∨
      ∃ table pk, s'.CurrentState = s.CurrentState.UpdateLastSuccessfulPK table pk := by
  cases a with
  | start order =>
    obtain ⟨-, -, rfl⟩ := iteratorStep_start h
    rw [foldl_MarkTableAsCompleted, foldl_UpdateTargetPK]
    exact .inl ⟨rfl, rfl⟩
  | send i w =>
    obtain ⟨-, -, -, rfl⟩ := iteratorStep_send h
    exact .inl ⟨rfl, rfl⟩
  | close =>
    obtain ⟨-, -, rfl⟩ := iteratorStep_close h
    exact .inl ⟨rfl, rfl⟩
  | pass w =>
    obtain ⟨i, M, last, t, -, -, ⟨-, rfl⟩ | ⟨pkpos, -, rfl⟩⟩ := iteratorStep_pass h
    · exact .inl ⟨rfl, rfl⟩
    · exact .inr ⟨t.name, UInt64.ofNat pkpos, rfl⟩
  | exit w =>
    obtain ⟨-, -, rfl⟩ := iteratorStep_exit h
    exact .inl ⟨rfl, rfl⟩
  | wait =>
    obtain ⟨-, -, rfl⟩ := iteratorStep_wait h
    exact .inl ⟨rfl, rfl⟩
  | write i pk row =>
    obtain ⟨t, -, rfl⟩ := iteratorStep_write h
    exact .inl ⟨rfl, rfl⟩

/-- What every state a run reaches keeps of the running total: the last successful keys form a
map, and `copySpeedLog` is their sum. -/
structure SpeedInv (s : IteratorState R) : Prop where
  nodup : (s.CurrentState.lastSuccessfulPrimaryKeys.map Prod.fst).Nodup
  copySpeedLog : s.CurrentState.copySpeedLog = completedPKs s.CurrentState

theorem SpeedInv.step (hs : SpeedInv s) (h : iteratorStep c bs s a = some s') : SpeedInv s' := by
  rcases iteratorStep_lastSuccessful h with ⟨hl, hc⟩ | ⟨table, pk, hst⟩
  · refine ⟨hl ▸ hs.nodup, ?_⟩
    rw [hc, hs.copySpeedLog, completedPKs, completedPKs, hl]
  · -- the delta added to the running total is the one the sum changes by
    refine ⟨?_, ?_⟩
    · rw [hst]
      exact nodup_keys_set hs.nodup _ _
    · rw [hst, completedPKs_UpdateLastSuccessfulPK hs.nodup, ← hs.copySpeedLog]
      rfl

/-- In every state a run reaches, with the application's writes or without, `copySpeedLog` is
`completedPKs`: the two wrap together. -/
theorem copySpeedLog_eq_completedPKs {src : List (SourceTable R)}
    (hr : Reachable (iteratorStep c bs) (IteratorState.init src) s) :
    s.CurrentState.copySpeedLog = completedPKs s.CurrentState := by
  have hinit : SpeedInv (IteratorState.init src) := ⟨List.nodup_nil, rfl⟩
  exact (Reachable.invariant SpeedInv hinit (fun _ _ _ hs h => hs.step h) hr).copySpeedLog

end SpeedLog

/-! ## A run whose sums wrap -/

/-- The table `db.a` with a row at key `1`, and the tables `db.b` and `db.c` with a row at key
`2^63` each. -/
def statusSource : List (SourceTable Unit) :=
  [sourceTableOf "db.a" [1], sourceTableOf "db.b" [9223372036854775808],
    sourceTableOf "db.c" [9223372036854775808]]

/-- One goroutine with batches of two rows: after the start the application inserts a row at key
`2` into `db.a`, and the first batch of `db.a`'s cursor holds both of its rows. -/
def statusRun : IteratorState Unit :=
  runD (iteratorStep 1 2) (IteratorState.init statusSource)
    [.start [0, 1, 2], .write 0 2 (some ()), .send 0 0, .pass 0]

/-- In `statusRun`, `db.a`'s last successful key is above its target, the targets' sum wraps past
`2^64`, and `totalPKsToCopy - completedPKs` wraps below zero; `copySpeedLog` is `completedPKs`. -/
theorem status_sums_wrap :
    Reachable (iteratorStep 1 2) (IteratorState.init statusSource) statusRun ∧
      statusRun.CurrentState.targetPrimaryKeys.lookup "db.a" = some 1 ∧
      statusRun.CurrentState.lastSuccessfulPrimaryKeys.lookup "db.a" = some 2 ∧
      (statusRun.CurrentState.targetPrimaryKeys.map fun e => e.2.toNat).sum = 2 ^ 64 + 1 ∧
      totalPKsToCopy statusRun.CurrentState = 1 ∧
      completedPKs statusRun.CurrentState = 2 ∧
      totalPKsToCopy statusRun.CurrentState - completedPKs statusRun.CurrentState =
        18446744073709551615 ∧
      statusRun.CurrentState.copySpeedLog = completedPKs statusRun.CurrentState :=
  ⟨Reachable.runD (by decide), by decide, by decide, by decide, by decide, by decide, by decide,
    by decide⟩

end Ghostferry
