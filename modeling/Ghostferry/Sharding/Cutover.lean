import Ghostferry.Lib.Machine
import Ghostferry.Verifier.VerifyStore

/-!
# The cutover of a sharded copy

`ShardingFerry.Run` of `sharding/sharding.go` waits for the row copy, verifies before cutover,
waits for the throttler and the binlog streamer, takes the application's cutover lock (an HTTP
callback), flushes the binlog and stops streaming, delta-copies the joined tables, verifies
during cutover, copies the primary key tables and releases the lock. A step that fails calls
`ErrorHandler.Fatal`. `ShardingErrorHandler` posts the error callback and hands over to
`PanicErrorHandler`, which counts the call with an atomic add on an `int32`: a call whose sum is
at most `1` dumps the state and panics, which ends the process, and any other returns, so that its
caller goes on. The first call dumps; the counter wraps after `2^31` calls, and a call then dumps
again.

The other goroutines of the ferry (the binlog streamer and writer, the data iterator) call
`Fatal` too, at any time. The state is the line of `Run` the main goroutine is at, its `Fatal`
call if it is in one, the `Fatal` calls of the other goroutines, the counter and the callbacks
posted so far. An action is one goroutine's next atomic step, in any interleaving, until a panic
ends the process. What the fallible calls of `Run` return is fixed for a run (`Outcomes`).

Once the counter is not zero, some `Fatal` call is dumping the state (`CutoverInv.dumping_pos`),
so a call that returns finds another one dumping. A `Fatal` call that returns, though, lets `Run`
go on past the step that failed. The unlock callback is posted only when every step succeeded, the cutover
verification finding the data correct, or while another goroutine's `Fatal` call dumps the state
before its panic (`CutoverUnlock_posted`). In that window the run does release the lock after a
failed verification (`unlockRun_posts_unlock`).
-/

namespace Ghostferry

namespace Sharding

open Machine

/-- What the fallible calls of one run of `Run` return: their errors, and the result of the
cutover verification. -/
structure Outcomes where
  VerifyBeforeCutover : Option String
  initializeWaitUntilReplicaIsCaughtUpToMasterConnection : Option String
  CutoverLock : Option String
  /-- The error of `WaitUntilReplicaIsCaughtUpToMaster.Wait` in `FlushBinlogAndStopStreaming`. -/
  WaitUntilReplicaIsCaughtUpToMaster : Option String
  deltaCopyJoinedTables : Option String
  VerifyDuringCutover : VerificationResult × Option String
  copyPrimaryKeyTables : Option String
  CutoverUnlock : Option String

/-- The lines of `Run`, in order, and its return. -/
inductive RunPc where
  | WaitUntilRowCopyIsComplete
  | VerifyBeforeCutover
  | WaitForThrottle
  | WaitUntilBinlogStreamerCatchesUp
  | initializeWaitUntilReplicaIsCaughtUpToMasterConnection
  | CutoverLock
  | disableThrottler
  | FlushBinlogAndStopStreaming
  | copyWGWait
  | deltaCopyJoinedTables
  | VerifyDuringCutover
  | copyPrimaryKeyTables
  | enableThrottler
  | CutoverUnlock
  | returned
  deriving DecidableEq, Repr

/-- The position of a line in `Run`. -/
def RunPc.index : RunPc → ℕ
  | .WaitUntilRowCopyIsComplete => 0
  | .VerifyBeforeCutover => 1
  | .WaitForThrottle => 2
  | .WaitUntilBinlogStreamerCatchesUp => 3
  | .initializeWaitUntilReplicaIsCaughtUpToMasterConnection => 4
  | .CutoverLock => 5
  | .disableThrottler => 6
  | .FlushBinlogAndStopStreaming => 7
  | .copyWGWait => 8
  | .deltaCopyJoinedTables => 9
  | .VerifyDuringCutover => 10
  | .copyPrimaryKeyTables => 11
  | .enableThrottler => 12
  | .CutoverUnlock => 13
  | .returned => 14

/-- The line after a line; the replica's connection is opened only with `RunFerryFromReplica`. -/
def RunPc.next (RunFerryFromReplica : Bool) : RunPc → RunPc
  | .WaitUntilRowCopyIsComplete => .VerifyBeforeCutover
  | .VerifyBeforeCutover => .WaitForThrottle
  | .WaitForThrottle => .WaitUntilBinlogStreamerCatchesUp
  | .WaitUntilBinlogStreamerCatchesUp =>
    if RunFerryFromReplica then .initializeWaitUntilReplicaIsCaughtUpToMasterConnection
    else .CutoverLock
  | .initializeWaitUntilReplicaIsCaughtUpToMasterConnection => .CutoverLock
  | .CutoverLock => .disableThrottler
  | .disableThrottler => .FlushBinlogAndStopStreaming
  | .FlushBinlogAndStopStreaming => .copyWGWait
  | .copyWGWait => .deltaCopyJoinedTables
  | .deltaCopyJoinedTables => .VerifyDuringCutover
  | .VerifyDuringCutover => .copyPrimaryKeyTables
  | .copyPrimaryKeyTables => .enableThrottler
  | .enableThrottler => .CutoverUnlock
  | .CutoverUnlock => .returned
  | .returned => .returned

/-- The HTTP callbacks a run posts. -/
inductive Callback where
  | CutoverLock
  | CutoverUnlock
  /-- `ErrorCallback`, its payload the JSON of `ErrFrom` and `ErrMessage`. -/
  | ErrorCallback (ErrFrom ErrMessage : String)
  deriving DecidableEq, Repr

/-- Where a `Fatal` call is: posting the error callback, counting itself, or, as the first call,
dumping the state before its panic. -/
inductive FatalStage where
  | posting
  | counting
  | dumping
  deriving DecidableEq, Repr

/-- A call of `ErrorHandler.Fatal(from, err)` in progress. -/
structure FatalCall where
  stage : FatalStage
  ErrFrom : String
  ErrMessage : String
  deriving DecidableEq, Repr

/-- The process of a sharded copy during `Run`. -/
structure CutoverState where
  pc : RunPc
  /-- The main goroutine's `Fatal` call, while it is in one. -/
  fatal : Option FatalCall
  /-- The `Fatal` calls of the other goroutines. -/
  others : List FatalCall
  /-- `PanicErrorHandler.errorCount`, an `int32` that `atomic.AddInt32` wraps. -/
  errorCount : Int32
  panicked : Bool
  posted : List Callback
  throttlerDisabled : Bool
  /-- `Ferry.WaitUntilReplicaIsCaughtUpToMaster` is set. -/
  waitReplicaSet : Bool
  streamerStopped : Bool
  deriving DecidableEq, Repr

/-- The process when `Run` starts. -/
def CutoverState.init : CutoverState :=
  ⟨.WaitUntilRowCopyIsComplete, none, [], 0, false, [], false, false, false⟩

/-- Where a `Fatal` call is after its step: at its next stage, returned, or panicked. -/
inductive FatalNext where
  | stage (c : FatalCall)
  | returned
  | panicked

/-- One step of a `Fatal` call. `ShardingErrorHandler.Fatal` posts the error callback; then
`PanicErrorHandler.Fatal` adds one to `errorCount` and returns when the sum, a signed `int32`, is
above `1`; otherwise it dumps the state and panics. -/
def CutoverState.fatalStep (s : CutoverState) (c : FatalCall) : CutoverState × FatalNext :=
  match c.stage with
  | .posting => ({ s with posted := s.posted ++ [.ErrorCallback c.ErrFrom c.ErrMessage] },
      .stage { c with stage := .counting })
  | .counting =>
    -- `atomic.AddInt32(&this.errorCount, 1) > 1`
    if s.errorCount + 1 > 1 then ({ s with errorCount := s.errorCount + 1 }, .returned)
    else ({ s with errorCount := s.errorCount + 1 }, .stage { c with stage := .dumping })
  | .dumping => ({ s with panicked := true }, .panicked)

/-- `if err != nil { r.Ferry.ErrorHandler.Fatal(from, err) }`: the main goroutine enters
`Fatal`, or goes on to `next`. -/
def CutoverState.fatalIf (s : CutoverState) (next : RunPc) (ErrFrom : String) :
    Option String → CutoverState
  | some err => { s with fatal := some ⟨.posting, ErrFrom, err⟩ }
  | none => { s with pc := next }

/-- The error of the cutover verification, as `Run` reads its result. -/
def verifyDuringCutoverError : VerificationResult × Option String → Option String
  | (_, some err) => some err
  | (verificationResult, none) =>
    if verificationResult.DataCorrect then none
    else some ("verifier detected data discrepancy: " ++ verificationResult.Message)

/-- The main goroutine runs the line it is at, outside `Fatal`. -/
def CutoverState.runLine (RunFerryFromReplica : Bool) (o : Outcomes) (s : CutoverState) :
    Option CutoverState :=
  let next := s.pc.next RunFerryFromReplica
  match s.pc with
  | .WaitUntilRowCopyIsComplete | .WaitForThrottle | .WaitUntilBinlogStreamerCatchesUp =>
    some { s with pc := next }
  | .VerifyBeforeCutover => some (s.fatalIf next "sharding" o.VerifyBeforeCutover)
  | .initializeWaitUntilReplicaIsCaughtUpToMasterConnection =>
    match o.initializeWaitUntilReplicaIsCaughtUpToMasterConnection with
    | some err => some (s.fatalIf next "sharding" (some err))
    | none => some { s with waitReplicaSet := true, pc := next }
  | .CutoverLock =>
    some ({ s with posted := s.posted ++ [Callback.CutoverLock] }.fatalIf next "sharding" o.CutoverLock)
  | .disableThrottler => some { s with throttlerDisabled := true, pc := next }
  | .FlushBinlogAndStopStreaming =>
    -- a failed wait returns before `BinlogStreamer.FlushAndStop`
    match s.waitReplicaSet, o.WaitUntilReplicaIsCaughtUpToMaster with
    | true, some err => some (s.fatalIf next "wait_replica" (some err))
    | _, _ => some { s with streamerStopped := true, pc := next }
  | .copyWGWait =>
    -- `Ferry.Run` returns once the streamer has stopped
    if s.streamerStopped then some { s with pc := next } else none
  | .deltaCopyJoinedTables => some (s.fatalIf next "sharding" o.deltaCopyJoinedTables)
  | .VerifyDuringCutover =>
    some (s.fatalIf next "iterative_verifier" (verifyDuringCutoverError o.VerifyDuringCutover))
  | .copyPrimaryKeyTables => some (s.fatalIf next "sharding" o.copyPrimaryKeyTables)
  | .enableThrottler => some { s with throttlerDisabled := false, pc := next }
  | .CutoverUnlock =>
    some ({ s with posted := s.posted ++ [Callback.CutoverUnlock] }.fatalIf next "sharding"
      o.CutoverUnlock)
  | .returned => none

/-- The main goroutine's next step: a step of its `Fatal` call, after which it goes on to the
next line if the call returns, or the line it is at. -/
def CutoverState.mainStep (RunFerryFromReplica : Bool) (o : Outcomes) (s : CutoverState) :
    Option CutoverState :=
  match s.fatal with
  | some c =>
    match s.fatalStep c with
    | (s', .stage c') => some { s' with fatal := some c' }
    | (s', .returned) => some { s' with fatal := none, pc := s.pc.next RunFerryFromReplica }
    | (s', .panicked) => some s'
  | none => s.runLine RunFerryFromReplica o

/-- The steps of the process: one of the main goroutine, another goroutine calling `Fatal`, or
the next step of another goroutine's `Fatal` call. -/
inductive CutoverAction where
  | main
  | fatal (ErrFrom ErrMessage : String)
  | other (i : ℕ)
  deriving DecidableEq, Repr

/-- Another goroutine's `Fatal` call takes its step. -/
def CutoverState.otherStep (s : CutoverState) (i : ℕ) : Option CutoverState :=
  match s.others[i]? with
  | none => none
  | some c =>
    match s.fatalStep c with
    | (s', .stage c') => some { s' with others := s.others.set i c' }
    | (s', .returned) => some { s' with others := s.others.eraseIdx i }
    | (s', .panicked) => some s'

/-- A step of the process; nothing runs once it has panicked. -/
def cutoverStep (RunFerryFromReplica : Bool) (o : Outcomes) (s : CutoverState)
    (a : CutoverAction) : Option CutoverState :=
  if s.panicked then none
  else
    match a with
    | .main => s.mainStep RunFerryFromReplica o
    | .fatal ErrFrom ErrMessage =>
      some { s with others := s.others ++ [⟨.posting, ErrFrom, ErrMessage⟩] }
    | .other i => s.otherStep i

/-! ## What a run keeps -/

/-- The error a line of `Run` fails with, in a run with outcomes `o`. The replica's connection is
opened only with `RunFerryFromReplica`, and the wait for the replica runs only once it is
open. -/
def RunPc.failure (RunFerryFromReplica : Bool) (o : Outcomes) : RunPc → Option String
  | .VerifyBeforeCutover => o.VerifyBeforeCutover
  | .initializeWaitUntilReplicaIsCaughtUpToMasterConnection =>
    if RunFerryFromReplica then o.initializeWaitUntilReplicaIsCaughtUpToMasterConnection else none
  | .CutoverLock => o.CutoverLock
  | .FlushBinlogAndStopStreaming =>
    if RunFerryFromReplica ∧ o.initializeWaitUntilReplicaIsCaughtUpToMasterConnection = none then
      o.WaitUntilReplicaIsCaughtUpToMaster
    else none
  | .deltaCopyJoinedTables => o.deltaCopyJoinedTables
  | .VerifyDuringCutover => verifyDuringCutoverError o.VerifyDuringCutover
  | .copyPrimaryKeyTables => o.copyPrimaryKeyTables
  | .CutoverUnlock => o.CutoverUnlock
  | _ => none

/-- Every fallible call of `Run` before the unlock succeeds, and the cutover verification finds
the data correct. -/
def Outcomes.Passed (o : Outcomes) (RunFerryFromReplica : Bool) : Prop :=
  o.VerifyBeforeCutover = none ∧
    (RunFerryFromReplica = true →
      o.initializeWaitUntilReplicaIsCaughtUpToMasterConnection = none ∧
        o.WaitUntilReplicaIsCaughtUpToMaster = none) ∧
    o.CutoverLock = none ∧ o.deltaCopyJoinedTables = none ∧ o.VerifyDuringCutover.2 = none ∧
    o.VerifyDuringCutover.1.DataCorrect = true ∧ o.copyPrimaryKeyTables = none

/-- The `Fatal` calls dumping the state, the main goroutine's and the others'. -/
def CutoverState.dumping (s : CutoverState) : ℕ :=
  (s.fatal.toList ++ s.others).countP (·.stage = .dumping)

section Lines

variable {R : Bool} {pc p : RunPc}

theorem RunPc.index_injective : Function.Injective RunPc.index := by
  intro p q h
  cases p <;> cases q <;> first | rfl | cases h

/-- A line moves on by one, or by two past the replica's connection. -/
theorem RunPc.index_next (hpc : pc ≠ .returned) :
    (pc.next R).index =
      if pc = .WaitUntilBinlogStreamerCatchesUp ∧ R = false then pc.index + 2
      else pc.index + 1 := by
  cases pc <;> cases R <;> first | rfl | exact absurd rfl hpc

/-- The lines before the next line are those before the line, the line, and the replica's
connection when it is skipped. -/
theorem RunPc.lt_index_next (hpc : pc ≠ .returned) (hp : p.index < (pc.next R).index) :
    p.index < pc.index ∨ p = pc ∨
      (p = .initializeWaitUntilReplicaIsCaughtUpToMasterConnection ∧ R = false) := by
  rw [RunPc.index_next hpc] at hp
  split_ifs at hp with hskip
  · obtain ⟨rfl, rfl⟩ := hskip
    -- the line after `WaitUntilBinlogStreamerCatchesUp` skips index `4`
    rcases Nat.lt_succ_iff_lt_or_eq.mp hp with hp | hp
    · rcases Nat.lt_succ_iff_lt_or_eq.mp hp with hp | hp
      · exact .inl hp
      · exact .inr (.inl (RunPc.index_injective hp))
    · exact .inr (.inr ⟨RunPc.index_injective hp, rfl⟩)
  · rcases Nat.lt_succ_iff_lt_or_eq.mp hp with hp | hp
    · exact .inl hp
    · exact .inr (.inl (RunPc.index_injective hp))

theorem RunPc.index_lt_index_next (hpc : pc ≠ .returned) : pc.index < (pc.next R).index := by
  rw [RunPc.index_next hpc]
  split_ifs <;> omega

/-- Moving on from a line other than the replica's connection passes the connection only by
skipping it. -/
theorem RunPc.four_lt_index_next
    (hinit : pc ≠ .initializeWaitUntilReplicaIsCaughtUpToMasterConnection) :
    4 < (pc.next R).index ↔ 4 < pc.index ∨ (pc = .WaitUntilBinlogStreamerCatchesUp ∧ R = false) := by
  cases pc <;> cases R <;> simp_all [RunPc.next, RunPc.index]

theorem RunPc.next_ne_init (hR : R = false) :
    pc.next R ≠ .initializeWaitUntilReplicaIsCaughtUpToMasterConnection := by
  subst hR
  cases pc <;> simp [RunPc.next]

end Lines

/-- The cutover verification passes exactly when it returns no error and finds the data
correct. -/
theorem verifyDuringCutoverError_eq_none_iff {r : VerificationResult × Option String} :
    verifyDuringCutoverError r = none ↔ r.2 = none ∧ r.1.DataCorrect = true := by
  obtain ⟨result, err⟩ := r
  cases err <;> simp [verifyDuringCutoverError]

/-- The steps of a passing run: no line before the unlock fails. -/
theorem Outcomes.passed_of_failure {o : Outcomes}
    (h : ∀ pc : RunPc, pc.index < RunPc.CutoverUnlock.index → pc.failure R o = none) :
    o.Passed R := by
  have hverify := verifyDuringCutoverError_eq_none_iff.mp (h .VerifyDuringCutover (by decide))
  refine ⟨h .VerifyBeforeCutover (by decide), fun hR => ?_, h .CutoverLock (by decide),
    h .deltaCopyJoinedTables (by decide), hverify.1, hverify.2, h .copyPrimaryKeyTables (by decide)⟩
  -- the replica's connection and then its wait
  have hinit := h .initializeWaitUntilReplicaIsCaughtUpToMasterConnection (by decide)
  have hwait := h .FlushBinlogAndStopStreaming (by decide)
  simp only [RunPc.failure, hR, if_true] at hinit
  simp only [RunPc.failure, hR, hinit, and_self, if_true] at hwait
  exact ⟨hinit, hwait⟩

/-! ## The steps of the main goroutine -/

section Steps

variable {R : Bool} {o : Outcomes} {s s' : CutoverState}

/-- A step of a `Fatal` call posts the error callback; counts the call, which goes on to dump the
state when the sum is at most `1`; counts a call, which returns, when the sum is above `1`; or
panics. -/
theorem fatalStep_cases (s : CutoverState) (c : FatalCall) :
    (c.stage = .posting ∧ s.fatalStep c =
        ({ s with posted := s.posted ++ [.ErrorCallback c.ErrFrom c.ErrMessage] },
          .stage { c with stage := .counting })) ∨
      (c.stage = .counting ∧ ¬ s.errorCount + 1 > 1 ∧
        s.fatalStep c =
          ({ s with errorCount := s.errorCount + 1 }, .stage { c with stage := .dumping })) ∨
      (c.stage = .counting ∧ s.errorCount + 1 > 1 ∧
        s.fatalStep c = ({ s with errorCount := s.errorCount + 1 }, .returned)) ∨
      (c.stage = .dumping ∧ s.fatalStep c = ({ s with panicked := true }, .panicked)) := by
  unfold CutoverState.fatalStep
  cases hc : c.stage with
  | posting => exact .inl ⟨rfl, rfl⟩
  | counting =>
    by_cases hgt : s.errorCount + 1 > 1
    · exact .inr (.inr (.inl ⟨rfl, hgt, by rw [if_pos hgt]⟩))
    · exact .inr (.inl ⟨rfl, hgt, by rw [if_neg hgt]⟩)
  | dumping => exact .inr (.inr (.inr ⟨rfl, rfl⟩))

/-- A call returns only after an earlier call was counted: from `0` the sum is `1`. -/
theorem errorCount_ne_zero {x : Int32} (h : x + 1 > 1) : x ≠ 0 := by
  rintro rfl
  exact absurd h (by decide)

section FatalIf

variable (s : CutoverState) (next : RunPc) (ErrFrom : String) (err : Option String)

@[simp]
theorem fatalIf_errorCount : (s.fatalIf next ErrFrom err).errorCount = s.errorCount := by
  cases err <;> rfl

@[simp]
theorem fatalIf_others : (s.fatalIf next ErrFrom err).others = s.others := by
  cases err <;> rfl

@[simp]
theorem fatalIf_panicked : (s.fatalIf next ErrFrom err).panicked = s.panicked := by
  cases err <;> rfl

@[simp]
theorem fatalIf_posted : (s.fatalIf next ErrFrom err).posted = s.posted := by
  cases err <;> rfl

@[simp]
theorem fatalIf_waitReplicaSet :
    (s.fatalIf next ErrFrom err).waitReplicaSet = s.waitReplicaSet := by
  cases err <;> rfl

end FatalIf

/-- A line leaves the counter, the other goroutines and the panic alone, and posts the unlock
callback only at the unlock line. -/
theorem runLine_frame (h : s.runLine R o = some s') :
    s'.errorCount = s.errorCount ∧ s'.others = s.others ∧ s'.panicked = s.panicked ∧
      (Callback.CutoverUnlock ∈ s'.posted →
        Callback.CutoverUnlock ∈ s.posted ∨ s.pc = .CutoverUnlock) := by
  unfold CutoverState.runLine at h
  cases hpc : s.pc <;> simp only [hpc] at h
  all_goals (try split at h)
  all_goals cases h
  all_goals simp

/-- A line succeeds, and the main goroutine goes on to the next line, or fails as
`RunPc.failure` says, and the main goroutine enters `Fatal` at it. -/
theorem runLine_cases (h : s.runLine R o = some s') (hfatal : s.fatal = none)
    (hw : s.waitReplicaSet = true ↔ R = true ∧
      o.initializeWaitUntilReplicaIsCaughtUpToMasterConnection = none ∧ 4 < s.pc.index)
    (hinit : R = false → s.pc ≠ .initializeWaitUntilReplicaIsCaughtUpToMasterConnection) :
    (s'.fatal = none ∧ s'.pc = s.pc.next R ∧ s.pc.failure R o = none) ∨
      (s'.pc = s.pc ∧ (s.pc.failure R o).isSome ∧
        s'.fatal.map FatalCall.stage = some .posting) := by
  unfold CutoverState.runLine at h
  -- one case per line of `Run`, and for a fallible line one per outcome
  cases hpc : s.pc <;> simp only [hpc] at h hw hinit
  all_goals (try split at h)
  all_goals cases h
  all_goals (try unfold CutoverState.fatalIf)
  all_goals (try split)
  all_goals cases R
  all_goals simp_all [RunPc.failure, RunPc.index, RunPc.next, Option.eq_none_iff_forall_ne_some]

/-- A line sets the wait for the replica once its connection has been opened. -/
theorem runLine_waitReplicaSet (h : s.runLine R o = some s')
    (hw : s.waitReplicaSet = true ↔ R = true ∧
      o.initializeWaitUntilReplicaIsCaughtUpToMasterConnection = none ∧ 4 < s.pc.index)
    (hinit : R = false → s.pc ≠ .initializeWaitUntilReplicaIsCaughtUpToMasterConnection) :
    s'.waitReplicaSet = true ↔ R = true ∧
      o.initializeWaitUntilReplicaIsCaughtUpToMasterConnection = none ∧ 4 < s'.pc.index := by
  unfold CutoverState.runLine at h
  cases hpc : s.pc <;> simp only [hpc] at h hw hinit
  all_goals (try split at h)
  all_goals cases h
  all_goals (try unfold CutoverState.fatalIf)
  all_goals (try split)
  all_goals cases R
  all_goals simp_all [RunPc.index, RunPc.next]

/-! ## The `Fatal` calls dumping the state -/

/-- A call of another goroutine at index `i`, before and after its step. -/
theorem countP_set_add {l : List FatalCall} {i : ℕ} {c : FatalCall} (hi : l[i]? = some c)
    (c' : FatalCall) (p : FatalCall → Bool) :
    (l.set i c').countP p + (if p c then 1 else 0) = l.countP p + (if p c' then 1 else 0) := by
  obtain ⟨hlt, rfl⟩ := List.getElem?_eq_some_iff.mp hi
  rw [(List.set_perm_cons_eraseIdx hlt c').countP_eq, ← (List.getElem_cons_eraseIdx_perm hlt).countP_eq,
    List.countP_cons, List.countP_cons]
  omega

theorem countP_eraseIdx_add {l : List FatalCall} {i : ℕ} {c : FatalCall} (hi : l[i]? = some c)
    (p : FatalCall → Bool) : (l.eraseIdx i).countP p + (if p c then 1 else 0) = l.countP p := by
  obtain ⟨hlt, rfl⟩ := List.getElem?_eq_some_iff.mp hi
  rw [← (List.getElem_cons_eraseIdx_perm hlt).countP_eq, List.countP_cons]

/-- The other calls but the one at `i` are still there after its step. -/
theorem mem_others_of_ne {l : List FatalCall} {i : ℕ} {c d : FatalCall} (hi : l[i]? = some c)
    (hd : d ∈ l) (hne : d ≠ c) : d ∈ l.eraseIdx i := by
  obtain ⟨hlt, rfl⟩ := List.getElem?_eq_some_iff.mp hi
  rcases List.mem_cons.mp ((List.getElem_cons_eraseIdx_perm hlt).mem_iff.mpr hd) with h | h
  · exact absurd h hne
  · exact h

theorem mem_set_of_mem_eraseIdx {l : List FatalCall} {i : ℕ} {c d : FatalCall}
    (hi : l[i]? = some c) (c' : FatalCall) (hd : d ∈ l.eraseIdx i) : d ∈ l.set i c' := by
  obtain ⟨hlt, -⟩ := List.getElem?_eq_some_iff.mp hi
  exact (List.set_perm_cons_eraseIdx hlt c').mem_iff.mpr (List.mem_cons_of_mem c' hd)

theorem dumping_eq_add (s : CutoverState) :
    s.dumping = s.fatal.toList.countP (·.stage = .dumping) +
      s.others.countP (·.stage = .dumping) := by
  rw [CutoverState.dumping, List.countP_append]

end Steps

/-! ## What every run keeps -/

/-- What every state of a run keeps. -/
structure CutoverInv (R : Bool) (o : Outcomes) (s : CutoverState) : Prop where
  /-- Some `Fatal` call is dumping the state once the counter is not zero: the first call counted
  dumps, and a dumping call only ends in the panic. -/
  dumping_pos : s.errorCount ≠ 0 → 0 < s.dumping
  pc_ne_init : R = false → s.pc ≠ .initializeWaitUntilReplicaIsCaughtUpToMasterConnection
  /-- The wait for the replica is set once its connection has been opened. -/
  waitReplicaSet : s.waitReplicaSet = true ↔ R = true ∧
    o.initializeWaitUntilReplicaIsCaughtUpToMasterConnection = none ∧ 4 < s.pc.index
  /-- The main goroutine is in `Fatal` only at a line that failed. -/
  fatal_failure : s.fatal.isSome → (s.pc.failure R o).isSome
  /-- Past a line that failed, another goroutine's `Fatal` call is dumping the state. -/
  passed : ∀ pc : RunPc, pc.index < s.pc.index → (pc.failure R o).isSome →
    ∃ c ∈ s.others, c.stage = .dumping
  /-- The unlock callback is posted at the unlock line. -/
  unlock : Callback.CutoverUnlock ∈ s.posted → RunPc.CutoverUnlock.index ≤ s.pc.index

namespace CutoverInv

variable {R : Bool} {o : Outcomes} {s s' : CutoverState}

theorem init : CutoverInv R o CutoverState.init where
  dumping_pos h := absurd rfl h
  pc_ne_init _ := by decide
  waitReplicaSet := by simp [CutoverState.init, RunPc.index]
  fatal_failure h := by cases h
  passed pc h := by simp [CutoverState.init, RunPc.index] at h
  unlock h := by cases h

/-- A dumping call, when a call has been counted and the main goroutine is not the one
dumping. -/
theorem exists_other_dumping (hinv : CutoverInv R o s) {c : FatalCall} (hc : s.fatal = some c)
    (hst : c.stage ≠ .dumping) (hne : s.errorCount ≠ 0) :
    ∃ d ∈ s.others, d.stage = .dumping := by
  have hd := hinv.dumping_pos hne
  rw [dumping_eq_add, hc] at hd
  have hcount : 0 < s.others.countP (·.stage = .dumping) := by
    simpa [hst] using hd
  obtain ⟨d, hd, hdump⟩ := List.countP_pos_iff.mp hcount
  exact ⟨d, hd, by simpa using hdump⟩

/-- A step of the main goroutine's `Fatal` call keeps the invariant. -/
theorem mainFatal (hinv : CutoverInv R o s) {c : FatalCall} (hc : s.fatal = some c)
    (h : s.mainStep R o = some s') : CutoverInv R o s' := by
  simp only [CutoverState.mainStep, hc] at h
  rcases fatalStep_cases s c with ⟨hst, heq⟩ | ⟨hst, -, heq⟩ | ⟨hst, hgt, heq⟩ | ⟨hst, heq⟩
  · -- the error callback is posted
    rw [heq] at h
    obtain rfl := Option.some.inj h
    refine ⟨fun hne => ?_, hinv.pc_ne_init, hinv.waitReplicaSet,
      fun _ => hinv.fatal_failure (by simp [hc]), hinv.passed,
      fun hu => hinv.unlock (by simpa using hu)⟩
    have hd := hinv.dumping_pos hne
    rw [dumping_eq_add, hc] at hd
    rw [dumping_eq_add]
    simpa [hst] using hd
  · -- the sum is at most `1`: the main goroutine goes on to dump the state
    rw [heq] at h
    obtain rfl := Option.some.inj h
    refine ⟨fun _ => ?_, hinv.pc_ne_init, hinv.waitReplicaSet,
      fun _ => hinv.fatal_failure (by simp [hc]), hinv.passed, hinv.unlock⟩
    rw [dumping_eq_add]
    simp
  · -- the call returns, and the main goroutine goes on past the line that failed
    rw [heq] at h
    obtain rfl := Option.some.inj h
    have hne := errorCount_ne_zero hgt
    have hother := hinv.exists_other_dumping hc (by simp [hst]) hne
    have hfail := hinv.fatal_failure (by simp [hc])
    have hpc : s.pc ≠ .returned := by
      rintro hret
      simp [hret, RunPc.failure] at hfail
    refine ⟨fun _ => ?_, fun hR => RunPc.next_ne_init hR, ?_, fun h => (by cases h), ?_, ?_⟩
    · obtain ⟨d, hd, hdump⟩ := hother
      rw [dumping_eq_add]
      exact Nat.lt_add_left _ (List.countP_pos_iff.mpr ⟨d, hd, by simpa using hdump⟩)
    · -- the replica's connection, when it failed, leaves the wait unset
      rw [hinv.waitReplicaSet]
      by_cases hinit : s.pc = .initializeWaitUntilReplicaIsCaughtUpToMasterConnection
      · rw [hinit] at hfail
        simp only [RunPc.failure] at hfail
        cases R <;> simp_all [Option.isSome_iff_ne_none]
      · simp only [RunPc.four_lt_index_next hinit]
        constructor
        · rintro ⟨hR, hi, h4⟩
          exact ⟨hR, hi, .inl h4⟩
        · rintro ⟨hR, hi, h4 | ⟨-, hR'⟩⟩
          · exact ⟨hR, hi, h4⟩
          · simp [hR] at hR'
    · intro p hp hf
      rcases RunPc.lt_index_next hpc hp with hlt | rfl | ⟨rfl, hR⟩
      · exact hinv.passed p hlt hf
      · exact hother
      · simp [RunPc.failure, hR] at hf
    · exact fun hu => le_trans (hinv.unlock hu) (RunPc.index_lt_index_next hpc).le
  · -- the panic
    rw [heq] at h
    obtain rfl := Option.some.inj h
    exact ⟨hinv.dumping_pos, hinv.pc_ne_init, hinv.waitReplicaSet,
      fun _ => hinv.fatal_failure (by simp [hc]), hinv.passed, hinv.unlock⟩

/-- A line of the main goroutine keeps the invariant. -/
theorem mainLine (hinv : CutoverInv R o s) (hc : s.fatal = none) (h : s.mainStep R o = some s') :
    CutoverInv R o s' := by
  simp only [CutoverState.mainStep, hc] at h
  obtain ⟨hcount, hothers, -, hposted⟩ := runLine_frame h
  have hpc : s.pc ≠ .returned := by
    rintro hret
    simp [CutoverState.runLine, hret] at h
  -- the line leaves the counter and the other calls, and the main goroutine is not dumping
  have hd : s.errorCount ≠ 0 → 0 < s.others.countP (·.stage = .dumping) := fun hne => by
    simpa [dumping_eq_add, hc] using hinv.dumping_pos hne
  have hw' := runLine_waitReplicaSet h hinv.waitReplicaSet hinv.pc_ne_init
  rcases runLine_cases h hc hinv.waitReplicaSet hinv.pc_ne_init with
    ⟨hf', hpc', hfail⟩ | ⟨hpc', hfail, hf'⟩
  · -- the line succeeded: the main goroutine is at the next line
    refine ⟨fun hne => ?_, fun hR => hpc' ▸ RunPc.next_ne_init hR, hw', fun h => (by simp [hf'] at h),
      ?_, ?_⟩
    · rw [dumping_eq_add, hf', hothers]
      simpa using hd (hcount ▸ hne)
    · intro p hp hf
      rw [hpc'] at hp
      rw [hothers]
      rcases RunPc.lt_index_next hpc hp with hlt | rfl | ⟨rfl, hR⟩
      · exact hinv.passed p hlt hf
      · simp [hfail] at hf
      · simp [RunPc.failure, hR] at hf
    · intro hu
      rw [hpc']
      rcases hposted hu with hu | hu
      · exact le_trans (hinv.unlock hu) (RunPc.index_lt_index_next hpc).le
      · rw [hu]
        cases R <;> decide
  · -- the line failed: the main goroutine enters `Fatal` at it
    refine ⟨fun hne => ?_, fun hR => hpc' ▸ hinv.pc_ne_init hR, hw', fun _ => hpc' ▸ hfail, ?_, ?_⟩
    · obtain ⟨c', hc', hst⟩ := Option.map_eq_some_iff.mp hf'
      rw [dumping_eq_add, hc', hothers]
      simpa [hst] using hd (hcount ▸ hne)
    · rw [hpc', hothers]
      exact hinv.passed
    · intro hu
      rw [hpc']
      rcases hposted hu with hu | hu
      · exact hinv.unlock hu
      · rw [hu]

/-- Another goroutine entering `Fatal` keeps the invariant. -/
theorem fatal (hinv : CutoverInv R o s) (ErrFrom ErrMessage : String) :
    CutoverInv R o { s with others := s.others ++ [⟨.posting, ErrFrom, ErrMessage⟩] } := by
  refine ⟨fun hne => ?_, hinv.pc_ne_init, hinv.waitReplicaSet, hinv.fatal_failure,
    fun p hp hf => ?_, hinv.unlock⟩
  · have hd := hinv.dumping_pos hne
    rw [dumping_eq_add] at hd ⊢
    simpa using hd
  · obtain ⟨d, hd, hdump⟩ := hinv.passed p hp hf
    exact ⟨d, List.mem_append_left _ hd, hdump⟩

/-- A step of another goroutine's `Fatal` call keeps the invariant. -/
theorem other (hinv : CutoverInv R o s) {i : ℕ} (h : s.otherStep i = some s') :
    CutoverInv R o s' := by
  unfold CutoverState.otherStep at h
  cases hi : s.others[i]? with
  | none => simp [hi] at h
  | some c =>
    simp only [hi] at h
    -- a dumping call of another goroutine, when one is dumping, is not the one that steps
    have hkeep : ∀ c' : FatalCall, c.stage ≠ .dumping → (∃ d ∈ s.others, d.stage = .dumping) →
        ∃ d ∈ s.others.eraseIdx i, d.stage = .dumping := by
      rintro c' hst ⟨d, hd, hdump⟩
      refine ⟨d, mem_others_of_ne hi hd ?_, hdump⟩
      rintro rfl
      exact hst hdump
    rcases fatalStep_cases s c with ⟨hst, heq⟩ | ⟨hst, -, heq⟩ | ⟨hst, hgt, heq⟩ | ⟨hst, heq⟩
    · -- the error callback is posted
      rw [heq] at h
      obtain rfl := Option.some.inj h
      have hset := countP_set_add hi { c with stage := .counting } (·.stage = .dumping)
      refine ⟨fun hne => ?_, hinv.pc_ne_init, hinv.waitReplicaSet, hinv.fatal_failure,
        fun p hp hf => ?_, fun hu => hinv.unlock (by simpa using hu)⟩
      · have hd := hinv.dumping_pos hne
        rw [dumping_eq_add] at hd ⊢
        simp only [hst, reduceCtorEq, decide_false, Bool.false_eq_true, if_false,
          add_zero] at hset
        show 0 < s.fatal.toList.countP _ + (s.others.set i _).countP _
        rw [hset]
        exact hd
      · obtain ⟨d, hd, hdump⟩ := hkeep c (by simp [hst]) (hinv.passed p hp hf)
        exact ⟨d, mem_set_of_mem_eraseIdx hi _ hd, hdump⟩
    · -- the sum is at most `1`: the call goes on to dump the state
      rw [heq] at h
      obtain rfl := Option.some.inj h
      have hset := countP_set_add hi { c with stage := .dumping } (·.stage = .dumping)
      simp only [hst, reduceCtorEq, decide_false, decide_true, Bool.false_eq_true, if_false,
        if_true, add_zero] at hset
      obtain ⟨hlt, -⟩ := List.getElem?_eq_some_iff.mp hi
      refine ⟨fun _ => ?_, hinv.pc_ne_init, hinv.waitReplicaSet, hinv.fatal_failure,
        fun _ _ _ => ?_, hinv.unlock⟩
      · rw [dumping_eq_add]
        show 0 < s.fatal.toList.countP _ + (s.others.set i _).countP _
        rw [hset]
        omega
      · exact ⟨_, (List.set_perm_cons_eraseIdx hlt _).mem_iff.mpr List.mem_cons_self, rfl⟩
    · -- the call returns, and the call dumping before is still there
      rw [heq] at h
      obtain rfl := Option.some.inj h
      have herase := countP_eraseIdx_add hi (·.stage = .dumping)
      simp only [hst, reduceCtorEq, decide_false, Bool.false_eq_true, if_false, add_zero] at herase
      have hd := hinv.dumping_pos (errorCount_ne_zero hgt)
      rw [dumping_eq_add] at hd
      refine ⟨fun _ => ?_, hinv.pc_ne_init, hinv.waitReplicaSet, hinv.fatal_failure,
        fun p hp hf => hkeep c (by simp [hst]) (hinv.passed p hp hf), hinv.unlock⟩
      rw [dumping_eq_add]
      show 0 < s.fatal.toList.countP _ + (s.others.eraseIdx i).countP _
      rw [herase]
      exact hd
    · -- the panic
      rw [heq] at h
      obtain rfl := Option.some.inj h
      exact ⟨hinv.dumping_pos, hinv.pc_ne_init, hinv.waitReplicaSet, hinv.fatal_failure,
        hinv.passed, hinv.unlock⟩

theorem step (hinv : CutoverInv R o s) {a : CutoverAction} (h : cutoverStep R o s a = some s') :
    CutoverInv R o s' := by
  unfold cutoverStep at h
  split_ifs at h
  cases a with
  | main =>
    cases hc : s.fatal with
    | none => exact hinv.mainLine hc h
    | some c => exact hinv.mainFatal hc h
  | fatal ErrFrom ErrMessage =>
    obtain rfl := Option.some.inj h
    exact hinv.fatal ErrFrom ErrMessage
  | other i => exact hinv.other h

theorem of_reachable (hr : Reachable (cutoverStep R o) CutoverState.init s) : CutoverInv R o s :=
  Reachable.invariant (CutoverInv R o) init (fun _ _ _ hs h => hs.step h) hr

end CutoverInv

/-! ## The unlock callback -/

section Unlock

variable {R : Bool} {o : Outcomes} {s : CutoverState}

/-- The unlock callback is posted only when every fallible step of `Run` before it succeeded, the
cutover verification finding the data correct, or while another goroutine's first `Fatal` call is
dumping the state before its panic. -/
theorem CutoverUnlock_posted (hr : Reachable (cutoverStep R o) CutoverState.init s)
    (hu : Callback.CutoverUnlock ∈ s.posted) :
    o.Passed R ∨ ∃ c ∈ s.others, c.stage = .dumping := by
  have hinv := CutoverInv.of_reachable hr
  by_cases hfail : ∀ pc : RunPc, pc.index < RunPc.CutoverUnlock.index → pc.failure R o = none
  · exact .inl (Outcomes.passed_of_failure hfail)
  · -- a line before the unlock failed, and the main goroutine got past it
    simp only [not_forall] at hfail
    obtain ⟨pc, hlt, hsome⟩ := hfail
    exact .inr (hinv.passed pc (lt_of_lt_of_le hlt (hinv.unlock hu))
      (Option.isSome_iff_ne_none.mpr hsome))

end Unlock

/-- A run whose cutover verification finds a mismatch. -/
def failedVerification : Outcomes :=
  { VerifyBeforeCutover := none
    initializeWaitUntilReplicaIsCaughtUpToMasterConnection := none
    CutoverLock := none
    WaitUntilReplicaIsCaughtUpToMaster := none
    deltaCopyJoinedTables := none
    VerifyDuringCutover := (⟨false, "verification failed on table: gftest.t for pks: 7"⟩, none)
    copyPrimaryKeyTables := none
    CutoverUnlock := none }

/-- The binlog streamer calls `Fatal` and is counted first; `Run` then goes through the cutover,
fails the verification, calls `Fatal`, which returns, and goes on to the unlock. -/
def unlockRun : CutoverState :=
  runD (cutoverStep false failedVerification) CutoverState.init
    ([.fatal "binlog_streamer" "connection reset", .other 0, .other 0] ++ List.replicate 15 .main)

theorem unlockRun_reachable :
    Reachable (cutoverStep false failedVerification) CutoverState.init unlockRun :=
  Reachable.runD (by decide)

/-- The cutover verification failed, and the unlock callback is posted while the streamer's
`Fatal` dumps the state. -/
theorem unlockRun_posts_unlock :
    Callback.CutoverUnlock ∈ unlockRun.posted ∧ ¬ failedVerification.Passed false ∧
      ∃ c ∈ unlockRun.others, c.stage = .dumping := by
  have hu : Callback.CutoverUnlock ∈ unlockRun.posted := by decide
  have hnp : ¬ failedVerification.Passed false := by
    simp [Outcomes.Passed, failedVerification]
  exact ⟨hu, hnp, (CutoverUnlock_posted unlockRun_reachable hu).resolve_left hnp⟩

end Sharding

end Ghostferry
