import Ghostferry.Verifier.Background

/-!
# The end of copydb's row copy

`DataIterator.Run` ends, once every goroutine has returned, by calling its done listeners in the
order they were added, each as `listener()`: `Run` returns nothing, and the error a listener
returns goes nowhere (`RunDoneListeners`). `copydb` with the iterative verifier adds
`runIterativeVerifierAfterRowCopy` in `CopydbFerry.Start`, before `Ferry.Start` adds
`onFinishedIterations`. The first runs `IterativeVerifier.VerifyBeforeCutover`, which attaches the
verifier's binlog listener, scans every table into the reverify store and reverifies it, sets
`beforeCutoverVerifyDone` whatever happened, and returns the scan's or the reverification's error.
The second moves the ferry to the cutover and sends on `rowCopyCompleteCh`, which lets
`CopydbFerry.Run` go on from `WaitUntilRowCopyIsComplete` to the cutover.

So a failed pre-cutover verification is dropped (`VerifyBeforeCutover_error_dropped`): it is
neither returned nor passed to `ErrorHandler.Fatal`, the run goes on to the cutover, and the
verifier takes a later `StartInBackground`, such as the control server's verify action makes, as
if the scan had been done. What the scan and the reverification return is fixed for a run
(`BeforeCutoverOutcomes`); the model of the scan itself is `VerifyOnce.lean`.
-/

namespace Ghostferry

namespace Copydb

/-- `OverallState` of `ferry.go`. -/
inductive OverallState where
  | starting
  | copying
  | waitForCutover
  | cutover
  | done
  deriving DecidableEq, Repr

/-- A done listener, a `func() error`: what it does to the process, and the error it returns. -/
abbrev DoneListener (σ : Type*) := σ → σ × Option String

/-- The end of `DataIterator.Run`: `listener()` for each done listener in turn, its error
dropped. -/
def RunDoneListeners {σ : Type*} (doneListeners : List (DoneListener σ)) (s : σ) : σ :=
  doneListeners.foldl (fun s listener => (listener s).1) s

/-- The listeners run in order: the last one runs on what the others left. -/
@[simp]
theorem RunDoneListeners_append_singleton {σ : Type*} (doneListeners : List (DoneListener σ))
    (listener : DoneListener σ) (s : σ) :
    RunDoneListeners (doneListeners ++ [listener]) s =
      (listener (RunDoneListeners doneListeners s)).1 := by
  simp [RunDoneListeners, List.foldl_append]

/-- The parts of a copydb process that the end of the row copy reads and writes. -/
structure CopydbState where
  /-- `IterativeVerifier.binlogEventListener` is among the streamer's event listeners. -/
  verifierListening : Bool
  /-- The verifier's `beforeCutoverVerifyDone`. -/
  beforeCutoverVerifyDone : Bool
  OverallState : OverallState
  /-- A value was sent on `rowCopyCompleteCh`, so `WaitUntilRowCopyIsComplete` returns. -/
  rowCopyCompleteSent : Bool
  deriving DecidableEq, Repr

/-- The process while the rows are copied: `Ferry.Run` has set `StateCopying`. -/
def CopydbState.copying : CopydbState := ⟨false, false, .copying, false⟩

/-- What the fallible calls of `VerifyBeforeCutover` return in a run: the error of
`iterateAllTables`, and the error of `reverifyUntilStoreIsSmallEnough`, which runs only after the
scan succeeded. -/
structure BeforeCutoverOutcomes where
  iterateAllTables : Option String
  reverifyUntilStoreIsSmallEnough : Option String

/-- `IterativeVerifier.VerifyBeforeCutover`: the listener is attached, the scan and then the
reverification run, `beforeCutoverVerifyDone` is set, and the first error is returned. -/
def VerifyBeforeCutover (o : BeforeCutoverOutcomes) (s : CopydbState) :
    CopydbState × Option String :=
  let s := { s with verifierListening := true }
  let err :=
    match o.iterateAllTables with
    | some err => some err
    | none => o.reverifyUntilStoreIsSmallEnough
  ({ s with beforeCutoverVerifyDone := true }, err)

/-- `CopydbFerry.runIterativeVerifierAfterRowCopy`: `VerifyBeforeCutover`, its error returned. -/
def runIterativeVerifierAfterRowCopy (o : BeforeCutoverOutcomes) : DoneListener CopydbState :=
  VerifyBeforeCutover o

/-- `Ferry.onFinishedIterations`, once it returns: the ferry waits for the cutover
(`StateWaitingForCutover`) until `AutomaticCutover` is set, enters it, and sends on
`rowCopyCompleteCh`. -/
def onFinishedIterations : DoneListener CopydbState := fun s =>
  let s := { s with OverallState := .waitForCutover }
  ({ s with OverallState := .cutover, rowCopyCompleteSent := true }, none)

/-- The verifier a copydb run is configured with. -/
inductive VerifierType where
  | ChecksumTable
  | Iterative
  | NoVerification
  deriving DecidableEq, Repr

/-- The done listeners of a copydb run, in the order they were added: `CopydbFerry.Start` adds
`runIterativeVerifierAfterRowCopy` for the iterative verifier, then `Ferry.Start` adds
`onFinishedIterations`. -/
def doneListeners (verifierType : VerifierType) (o : BeforeCutoverOutcomes) :
    List (DoneListener CopydbState) :=
  (if verifierType = .Iterative then [runIterativeVerifierAfterRowCopy o] else []) ++
    [onFinishedIterations]

/-- `VerifyBeforeCutover` marks the pre-cutover verification done, whatever it returns. -/
@[simp]
theorem VerifyBeforeCutover_beforeCutoverVerifyDone (o : BeforeCutoverOutcomes)
    (s : CopydbState) : (VerifyBeforeCutover o s).1.beforeCutoverVerifyDone = true := rfl

/-- The end of a copydb run with the iterative verifier: the verification before cutover, then
the move to the cutover, whatever the verification returned. -/
theorem RunDoneListeners_Iterative (o : BeforeCutoverOutcomes) (s : CopydbState) :
    RunDoneListeners (doneListeners .Iterative o) s =
      { (VerifyBeforeCutover o s).1 with
        OverallState := .cutover, rowCopyCompleteSent := true } := by
  rw [doneListeners, if_pos rfl, RunDoneListeners_append_singleton]
  rfl

/-- A failed verification before cutover is dropped: once the data iterator's done listeners have
run, the copy goes on to the cutover (`WaitUntilRowCopyIsComplete` returns), and the verifier,
marked as verified before cutover, accepts a background verification. -/
theorem VerifyBeforeCutover_error_dropped (o : BeforeCutoverOutcomes) {err : String}
    (herr : (VerifyBeforeCutover o CopydbState.copying).2 = some err) (now : ℤ) :
    (runIterativeVerifierAfterRowCopy o CopydbState.copying).2 = some err ∧
      (RunDoneListeners (doneListeners .Iterative o) CopydbState.copying).rowCopyCompleteSent ∧
      (RunDoneListeners (doneListeners .Iterative o) CopydbState.copying).OverallState =
        .cutover ∧
      ∃ v, (IterativeBackground.init true
        (RunDoneListeners (doneListeners .Iterative o)
          CopydbState.copying).beforeCutoverVerifyDone).StartInBackground now = .ok v := by
  have hend := RunDoneListeners_Iterative o CopydbState.copying
  refine ⟨herr, by rw [hend], by rw [hend], ?_⟩
  -- the verifier was initialized, is marked as verified, and has not begun a cutover verification
  rw [hend]
  exact ⟨_, rfl⟩

/-- A source read that fails during the scan of the pre-cutover verification. -/
def scanFails : BeforeCutoverOutcomes := ⟨some "driver: bad connection", none⟩

theorem scanFails_dropped :
    (VerifyBeforeCutover scanFails CopydbState.copying).2 = some "driver: bad connection" ∧
      (runIterativeVerifierAfterRowCopy scanFails CopydbState.copying).2 =
          some "driver: bad connection" ∧
        (RunDoneListeners (doneListeners .Iterative scanFails)
          CopydbState.copying).rowCopyCompleteSent ∧
        (RunDoneListeners (doneListeners .Iterative scanFails) CopydbState.copying).OverallState =
          .cutover ∧
        ∃ v, (IterativeBackground.init true
          (RunDoneListeners (doneListeners .Iterative scanFails)
            CopydbState.copying).beforeCutoverVerifyDone).StartInBackground 0 = .ok v :=
  ⟨rfl, VerifyBeforeCutover_error_dropped scanFails rfl 0⟩

end Copydb

end Ghostferry
