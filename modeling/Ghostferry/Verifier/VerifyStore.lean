import Ghostferry.WorkerPool

/-!
# The verdict of `verifyStore`

`IterativeVerifier.verifyStore` flushes the `ReverifyStore` into batches and, if there are any,
hands them to a `WorkerPool`. Its `Process` compares a batch's pks with `reverifyPks`: before
cutover verification is done a batch whose comparison succeeds passes whatever it found, since
writes still going on may explain a mismatch (its pks go back to the store); afterwards a
mismatch fails it. A batch that errors or fails makes `Process` return the error
`erroredOrFailed`. `verifyStore` ignores the pool's error and reads the slot of `results` of
each worker in turn: it skips the slots still `nil`, and returns the result and error of the
first slot that errored or failed, or else of the last slot it read.

A slot holds the result of its worker's last call, and a worker stops at the call that fails, so
a failed batch stays in a slot (`WorkerPool.lean`). With that, `verifyStore_passes_iff`: once the
pool has returned, `verifyStore` returns `DataCorrect = true` and no error exactly when every
batch was compared and none errored or, once cutover verification has begun, mismatched.
`Run_and_verifyStore` states it together with what the pool guarantees of every run.
-/

universe u v

namespace Ghostferry

open Machine

variable {ε : Type*}

/-- `VerificationResult` of `verifier.go`. -/
structure VerificationResult where
  DataCorrect : Bool
  Message : String
  deriving DecidableEq, Repr

/-- `verificationResultAndError` of `iterative_verifier.go`. -/
structure verificationResultAndError (ε : Type*) where
  Result : VerificationResult
  Error : Option ε

def verificationResultAndError.ErroredOrFailed (r : verificationResultAndError ε) : Bool :=
  r.Error.isSome || !r.Result.DataCorrect

/-- `resultAndErr` of the `Process` of `verifyStore`, from what `reverifyPks` returned on the
batch. -/
def reverifyResultAndErr (beforeCutoverVerifyDone : Bool)
    (reverified : VerificationResult × Option ε) : verificationResultAndError ε :=
  -- before cutover a mismatch may come from writes still going on: its pks go back to the store
  if reverified.2.isNone && !beforeCutoverVerifyDone then ⟨⟨true, ""⟩, reverified.2⟩
  else ⟨reverified.1, reverified.2⟩

/-- The `Process` of the pool in `verifyStore`, with `reverifyPks` the outcome of the comparison of
each batch. -/
def verifyStoreProcess (beforeCutoverVerifyDone : Bool)
    (reverifyPks : ℕ → VerificationResult × Option ε) (reverifyBatchIndex : ℕ) :
    Option (verificationResultAndError ε) × Option String :=
  let resultAndErr := reverifyResultAndErr beforeCutoverVerifyDone (reverifyPks reverifyBatchIndex)
  if resultAndErr.ErroredOrFailed then
    (some resultAndErr, some "verification of store errored or failed")
  else (some resultAndErr, none)

/-- The pool of `verifyStore`. -/
def verifyStorePool (Concurrency : ℕ) (beforeCutoverVerifyDone : Bool)
    (reverifyPks : ℕ → VerificationResult × Option ε) :
    WorkerPool (verificationResultAndError ε) String :=
  ⟨Concurrency, verifyStoreProcess beforeCutoverVerifyDone reverifyPks⟩

/-- The loop of `verifyStore` over the slots of `results`, with the result and error so far. -/
def collectResults : List (Option (verificationResultAndError ε)) → VerificationResult →
    Option ε → VerificationResult × Option ε
  | [], result, err => (result, err)
  -- the worker pool exited early and another goroutine must have returned an error
  | none :: rest, result, err => collectResults rest result err
  | some resultAndErr :: rest, _, _ =>
    if resultAndErr.ErroredOrFailed then (resultAndErr.Result, resultAndErr.Error)
    else collectResults rest resultAndErr.Result resultAndErr.Error

/-- What `verifyStore` returns for `numBatches` batches, from the `results` of its pool. -/
def verifyStore (numBatches : ℕ) (results : List (Option (verificationResultAndError ε))) :
    VerificationResult × Option ε :=
  if numBatches = 0 then (⟨true, ""⟩, none)
  else collectResults results ⟨false, ""⟩ none

theorem ErroredOrFailed_eq_false_iff {r : verificationResultAndError ε} :
    r.ErroredOrFailed = false ↔ r.Error = none ∧ r.Result.DataCorrect = true := by
  unfold verificationResultAndError.ErroredOrFailed
  simp

/-- A batch passes exactly when its comparison did not error and, once cutover verification has
begun, found no mismatch. -/
theorem reverifyResultAndErr_ok_iff (beforeCutoverVerifyDone : Bool)
    (reverified : VerificationResult × Option ε) :
    (reverifyResultAndErr beforeCutoverVerifyDone reverified).ErroredOrFailed = false ↔
      reverified.2 = none ∧ (beforeCutoverVerifyDone = true → reverified.1.DataCorrect = true) := by
  rw [ErroredOrFailed_eq_false_iff]
  unfold reverifyResultAndErr
  split
  · rename_i h
    simp only [Bool.and_eq_true, Option.isNone_iff_eq_none, Bool.not_eq_true'] at h
    simp [h.1, h.2]
  · rename_i h
    simp only [Bool.and_eq_true, Option.isNone_iff_eq_none, Bool.not_eq_true', not_and,
      Bool.not_eq_false] at h
    constructor
    · rintro ⟨herr, hcorrect⟩
      exact ⟨herr, fun _ => hcorrect⟩
    · rintro ⟨herr, hcorrect⟩
      exact ⟨herr, hcorrect (h herr)⟩

theorem verifyStoreProcess_fst (beforeCutoverVerifyDone : Bool)
    (reverifyPks : ℕ → VerificationResult × Option ε) (k : ℕ) :
    (verifyStoreProcess beforeCutoverVerifyDone reverifyPks k).1 =
      some (reverifyResultAndErr beforeCutoverVerifyDone (reverifyPks k)) := by
  dsimp only [verifyStoreProcess]
  split <;> rfl

theorem verifyStoreProcess_snd_eq_none_iff (beforeCutoverVerifyDone : Bool)
    (reverifyPks : ℕ → VerificationResult × Option ε) (k : ℕ) :
    (verifyStoreProcess beforeCutoverVerifyDone reverifyPks k).2 = none ↔
      (reverifyResultAndErr beforeCutoverVerifyDone (reverifyPks k)).ErroredOrFailed = false := by
  dsimp only [verifyStoreProcess]
  split <;> simp_all

/-- The loop returns `DataCorrect = true` and no error exactly when no slot it reads errored or
failed, and it read one or started from such a result. -/
theorem collectResults_passes (rs : List (Option (verificationResultAndError ε)))
    (result : VerificationResult) (err : Option ε) :
    ((collectResults rs result err).1.DataCorrect = true ∧
        (collectResults rs result err).2 = none) ↔
      (∀ r, some r ∈ rs → r.ErroredOrFailed = false) ∧
        ((∃ r, some r ∈ rs) ∨ (result.DataCorrect = true ∧ err = none)) := by
  induction rs generalizing result err with
  | nil => simp [collectResults]
  | cons x rest ih =>
    cases x with
    | none => simp only [collectResults, ih, List.mem_cons, reduceCtorEq, false_or]
    | some r =>
      simp only [collectResults]
      split_ifs with hf
      · -- the first slot that errored or failed ends the loop with its result
        refine iff_of_false (fun hpass => ?_) (fun hall => ?_)
        · rw [ErroredOrFailed_eq_false_iff.mpr ⟨hpass.2, hpass.1⟩] at hf
          cases hf
        · rw [hall.1 r List.mem_cons_self] at hf
          cases hf
      · have hok : r.ErroredOrFailed = false := by simpa using hf
        have hr := ErroredOrFailed_eq_false_iff.mp hok
        rw [ih]
        constructor
        · rintro ⟨hall, -⟩
          refine ⟨fun r' hr' => ?_, .inl ⟨r, List.mem_cons_self⟩⟩
          rcases List.mem_cons.mp hr' with h | h
          · rw [Option.some.inj h]
            exact hok
          · exact hall r' h
        · rintro ⟨hall, -⟩
          exact ⟨fun r' hr' => hall r' (List.mem_cons_of_mem _ hr'), .inr ⟨hr.2, hr.1⟩⟩

/-! ## The verdict once the pool has returned -/

section Verdict

variable {Concurrency numBatches : ℕ} {beforeCutoverVerifyDone : Bool}
  {reverifyPks : ℕ → VerificationResult × Option ε}
  {s : PoolState (verificationResultAndError ε) String}

/-- A slot of `results` that is not `nil` holds the result of a batch that was compared. -/
theorem mem_results
    (hinv : PoolInv (verifyStorePool Concurrency beforeCutoverVerifyDone reverifyPks) numBatches s)
    {r : verificationResultAndError ε} (hr : some r ∈ s.results) :
    ∃ c ∈ s.calls, r = reverifyResultAndErr beforeCutoverVerifyDone (reverifyPks c.2) := by
  obtain ⟨j, hj⟩ := List.mem_iff_getElem?.mp hr
  have hlt : j < Concurrency := by
    have hlen := (List.getElem?_eq_some_iff.mp hj).1
    rwa [hinv.results_length] at hlen
  rw [hinv.results j hlt] at hj
  cases hc : lastCall s.calls j with
  | none =>
    rw [hc] at hj
    cases hj
  | some c =>
    rw [hc] at hj
    simp only [Option.bind_some, verifyStorePool, verifyStoreProcess_fst,
      Option.some.injEq] at hj
    exact ⟨c, (mem_of_lastCall hc).1, hj.symm⟩

/-- The slot of a worker holds the result of its last call. -/
theorem slot_of_lastCall
    (hinv : PoolInv (verifyStorePool Concurrency beforeCutoverVerifyDone reverifyPks) numBatches s)
    {j : ℕ} {c : ℕ × ℕ} (hc : lastCall s.calls j = some c) :
    some (reverifyResultAndErr beforeCutoverVerifyDone (reverifyPks c.2)) ∈ s.results := by
  obtain ⟨hcall, rfl⟩ := mem_of_lastCall hc
  have hslot := hinv.results c.1 (hinv.calls_worker c hcall)
  rw [hc] at hslot
  simp only [Option.bind_some, verifyStorePool, verifyStoreProcess_fst] at hslot
  exact List.mem_of_getElem? hslot

/-- Once the pool has returned, `verifyStore` returns `DataCorrect = true` and no error exactly
when every batch was compared and none errored or, once cutover verification has begun,
mismatched. -/
theorem verifyStore_passes_iff
    (hr : Reachable (poolStep (verifyStorePool Concurrency beforeCutoverVerifyDone reverifyPks)
      numBatches) (PoolState.init Concurrency) s)
    (hp : s.phase = .returned) :
    ((verifyStore numBatches s.results).1.DataCorrect = true ∧
        (verifyStore numBatches s.results).2 = none) ↔
      (∀ b < numBatches, b ∈ s.calls.map Prod.snd) ∧
        ∀ b < numBatches, (reverifyPks b).2 = none ∧
          (beforeCutoverVerifyDone = true → (reverifyPks b).1.DataCorrect = true) := by
  have hinv := PoolInv.of_reachable hr
  have hprocess := verifyStoreProcess_snd_eq_none_iff beforeCutoverVerifyDone reverifyPks
  unfold verifyStore
  split_ifs with hn
  · -- no batches: `verifyStore` returns before it starts the pool
    subst hn
    simp
  · rw [collectResults_passes]
    constructor
    · rintro ⟨hall, -⟩
      -- no call failed: the slot of its worker would still hold its result
      have hok (c : ℕ × ℕ) (hcall : c ∈ s.calls) :
          (verifyStoreProcess beforeCutoverVerifyDone reverifyPks c.2).2 = none := by
        by_contra hf
        have hlast := (hinv.stops c hcall (Option.isSome_iff_ne_none.mpr hf)).1
        exact hf ((hprocess c.2).mpr (hall _ (slot_of_lastCall hinv hlast)))
      -- so `Run` returned no error, and every batch was compared
      have herr : s.err = none := by
        cases he : s.err with
        | none => rfl
        | some e =>
          obtain ⟨c, hcall, hce⟩ := hinv.reported e (.inl he)
          change (verifyStoreProcess beforeCutoverVerifyDone reverifyPks c.2).2 = some e at hce
          rw [hok c hcall] at hce
          cases hce
      have hcalled := ((hinv.err_eq_none_iff hp).mp herr).1
      refine ⟨hcalled, fun b hb => ?_⟩
      obtain ⟨c, hcall, rfl⟩ := List.mem_map.mp (hcalled b hb)
      exact (reverifyResultAndErr_ok_iff _ _).mp ((hprocess c.2).mp (hok c hcall))
    · rintro ⟨hcalled, hok⟩
      refine ⟨fun r hr => ?_, .inl ?_⟩
      · obtain ⟨c, hcall, rfl⟩ := mem_results hinv hr
        exact (reverifyResultAndErr_ok_iff _ _).mpr (hok c.2 (hinv.index_lt hcall))
      · -- batch `0` was compared, so its worker's slot holds a result
        obtain ⟨c, hcall, -⟩ := List.mem_map.mp (hcalled 0 (Nat.pos_of_ne_zero hn))
        obtain ⟨c', hc'⟩ := Option.isSome_iff_exists.mp (lastCall_isSome hcall)
        exact ⟨_, slot_of_lastCall hinv hc'⟩

end Verdict

/-- For every `n`, every `Concurrency ≥ 1`, every outcome of `Process` and every schedule of
`WorkerPool.Run(n)`, what `Run_spec` guarantees; and once the pool of `verifyStore` has returned,
`verifyStore` returns `DataCorrect = true` and no error exactly when every batch was compared and
none errored or, once cutover verification has begun, mismatched. -/
theorem Run_and_verifyStore :
    (∀ {β : Type u} {ε : Type v} (p : WorkerPool β ε) (n : ℕ) (s : PoolState β ε),
      1 ≤ p.Concurrency → Reachable (poolStep p n) (PoolState.init p.Concurrency) s →
      (∀ as s', run (poolStep p n) s as = some s' → as.length ≤ s.cost n) ∧
        (s.phase = .returned ↔ ∀ a, poolStep p n s a = none) ∧
        (∀ c ∈ s.calls, c.2 < n) ∧ (s.calls.map Prod.snd).Nodup ∧
        (∀ j < p.Concurrency,
          s.results[j]? = some ((lastCall s.calls j).bind fun c => (p.Process c.2).1)) ∧
        (∀ e, s.err = some e → ∃ c ∈ s.calls, (p.Process c.2).2 = some e) ∧
        (s.phase = .returned → (s.err = none ↔
          (∀ k < n, k ∈ s.calls.map Prod.snd) ∧ ∀ c ∈ s.calls, (p.Process c.2).2 = none))) ∧
    (∀ {ε : Type v} (Concurrency numBatches : ℕ) (beforeCutoverVerifyDone : Bool)
      (reverifyPks : ℕ → VerificationResult × Option ε)
      (s : PoolState (verificationResultAndError ε) String), 1 ≤ Concurrency →
      Reachable (poolStep (verifyStorePool Concurrency beforeCutoverVerifyDone reverifyPks)
        numBatches) (PoolState.init Concurrency) s →
      s.phase = .returned →
      ((verifyStore numBatches s.results).1.DataCorrect = true ∧
          (verifyStore numBatches s.results).2 = none ↔
        (∀ b < numBatches, b ∈ s.calls.map Prod.snd) ∧
          ∀ b < numBatches, (reverifyPks b).2 = none ∧
            (beforeCutoverVerifyDone = true → (reverifyPks b).1.DataCorrect = true))) :=
  ⟨fun _ _ _ hc hr => Run_spec hc hr, fun _ _ _ _ _ _ hr hp => verifyStore_passes_iff hr hp⟩

/-- During cutover verification, batch `1` of three mismatches. -/
def cutoverReverifyPks (b : ℕ) : VerificationResult × Option String :=
  if b = 1 then (⟨false, "verification failed on table: gftest.table1 for pks: 7"⟩, none)
  else (⟨true, ""⟩, none)

/-- Two workers compare batches `0` and `1`; the error of batch `1` ends the loop before batch `2`
is handed out. -/
def verifyRun : PoolState (verificationResultAndError String) String :=
  runD (poolStep (verifyStorePool 2 true cutoverReverifyPks) 3) (PoolState.init 2)
    [.dispatch 0, .dispatch 1, .process 0, .process 1, .send 1, .receive, .finish 0, .send 0,
      .wait]

theorem verifyRun_rejected :
    verifyRun.phase = .returned ∧ verifyRun.err.isSome ∧
      ¬((verifyStore 3 verifyRun.results).1.DataCorrect = true ∧
        (verifyStore 3 verifyRun.results).2 = none) := by
  have hr : Reachable (poolStep (verifyStorePool 2 true cutoverReverifyPks) 3)
      (PoolState.init 2) verifyRun := Reachable.runD (by decide)
  have hp : verifyRun.phase = .returned := by decide
  -- batch `2` was never compared
  have hmissed : 2 ∉ verifyRun.calls.map Prod.snd := by decide
  obtain ⟨hpool, hstore⟩ := Run_and_verifyStore.{0, 0}
  obtain ⟨-, -, -, -, -, -, hret⟩ :=
    hpool (verifyStorePool 2 true cutoverReverifyPks) 3 verifyRun (by decide) hr
  refine ⟨hp, ?_, fun hpass => ?_⟩
  · cases herr : verifyRun.err with
    | none => exact absurd (((hret hp).mp herr).1 2 (by decide)) hmissed
    | some e => rfl
  · exact hmissed (((hstore 2 3 true cutoverReverifyPks verifyRun (by decide) hr hp).mp
      hpass).1 2 (by decide))

end Ghostferry
