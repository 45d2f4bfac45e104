import Ghostferry.DataIterator
import Ghostferry.Lib.RingBuffer

/-!
# The speed log of the data iterator

`copySpeedLog` of `DataIteratorState` in `data_iterator.go` is a `container/ring` of
`tableIteratorCount * 5` elements, `n` here. `newDataIteratorState` sets the value of the element
it points at to position `0` at the time it runs, and leaves the others `nil`.
`UpdateLastSuccessfulPK` reads the position there, moves the pointer on, and sets the value it
reaches to that position plus the table's delta, at the time of the call.
`EstimatedPKProcessedPerSecond` returns `0` when the position at the pointer is `0`. Otherwise it
walks back from the pointer while the element behind is not the pointer's own and holds a nonzero
position, and divides the difference of the positions by that of the times between the pointer
and where the walk stopped.

`DataIteratorRingState` keeps the ring whole, its values read by type assertions that panic on
`nil`. The abstract model is `DataIteratorState` of `DataIterator.lean`, which keeps only the
position at the pointer; `history` runs it and adds the entries an unbounded log would hold, and
`windowEstimate` says what the estimate is over such a log.

`runCalls_refines`: whatever the calls, in whatever order the goroutines make them, none panics;
the ring state abstracts to the abstract run, and its ring is the log of the entries
(`Lib/RingBuffer.lean`). `EstimatedPKProcessedPerSecond_window`: on every state a run reaches,
the estimate reads no `nil` value and is `windowEstimate` of the log, taken over the longest run of
nonzero positions that ends at the newest entry, cut to its newest `n` entries.

Times are nanoseconds. The estimate is the two differences that the code divides: the division
of `float64`s and the conversion to seconds are left out.
-/

namespace Ghostferry

open Assoc Fin.NatCast

/-- `PKPositionLog`: the running total of the keys copied, and the time it was reached. -/
structure PKPositionLog where
  Position : UInt64
  At : ℤ
  deriving DecidableEq, Repr

/-- `DataIteratorState` with its ring `copySpeedLog` of `n` elements whole: the values by position,
and the element it points at. -/
structure DataIteratorRingState (n : ℕ) where
  targetPrimaryKeys : List (String × UInt64)
  lastSuccessfulPrimaryKeys : List (String × UInt64)
  completedTables : List (String × Bool)
  speedLog : RingBuffer.Values PKPositionLog n
  copySpeedLog : Fin n

/-- The panic of the type assertion `Value.(PKPositionLog)` on a `nil` value. -/
def nilValuePanic : String :=
  "interface conversion: interface \x7b\x7d is nil, not ghostferry.PKPositionLog"

/-- The value of `EstimatedPKProcessedPerSecond`: `0.0`, or the keys copied and the time they took,
which it divides. -/
inductive SpeedEstimate where
  | zero
  | rate (deltaPK : UInt64) (deltaT : ℤ)
  deriving DecidableEq, Repr

/-! ## The ring -/

namespace DataIteratorRingState

variable {n : ℕ} [NeZero n]

/-- `newDataIteratorState` at the time `now`. -/
def newDataIteratorState (now : ℤ) : DataIteratorRingState n where
  targetPrimaryKeys := []
  lastSuccessfulPrimaryKeys := []
  completedTables := []
  speedLog := RingBuffer.set RingBuffer.New 0 ⟨0, now⟩
  copySpeedLog := 0

/-- `Value.(PKPositionLog)` of the element at `p`. -/
def value (this : DataIteratorRingState n) (p : Fin n) : Except String PKPositionLog :=
  match this.speedLog p with
  | none => .error nilValuePanic
  | some v => .ok v

def UpdateTargetPK (this : DataIteratorRingState n) (table : String) (pk : UInt64) :
    DataIteratorRingState n :=
  { this with targetPrimaryKeys := set this.targetPrimaryKeys table pk }

/-- `UpdateLastSuccessfulPK` at the time `now`. -/
def UpdateLastSuccessfulPK (this : DataIteratorRingState n) (table : String) (pk : UInt64)
    (now : ℤ) : Except String (DataIteratorRingState n) := do
  let deltaPK := pk - (this.lastSuccessfulPrimaryKeys.lookup table).getD 0
  let currentTotalPK := (← this.value this.copySpeedLog).Position
  -- `copySpeedLog = copySpeedLog.Next()`, then its value set
  let next := RingBuffer.push (this.speedLog, this.copySpeedLog) ⟨currentTotalPK + deltaPK, now⟩
  pure { this with
    lastSuccessfulPrimaryKeys := set this.lastSuccessfulPrimaryKeys table pk
    speedLog := next.1
    copySpeedLog := next.2 }

def MarkTableAsCompleted (this : DataIteratorRingState n) (table : String) :
    DataIteratorRingState n :=
  { this with completedTables := set this.completedTables table true }

/-- `EstimatedPKProcessedPerSecond`. The loop reads the value of each element behind with a type
assertion; a `nil` value panics. -/
def EstimatedPKProcessedPerSecond (this : DataIteratorRingState n) :
    Except String SpeedEstimate := do
  if (← this.value this.copySpeedLog).Position = 0 then
    return .zero
  match RingBuffer.walkBack this.speedLog this.copySpeedLog (fun v => v.Position != 0)
      this.copySpeedLog with
  | none => throw nilValuePanic
  | some earliest =>
    let currentValue ← this.value this.copySpeedLog
    let earliestValue ← this.value earliest
    return .rate (currentValue.Position - earliestValue.Position)
      (currentValue.At - earliestValue.At)

section Spec

variable {this : DataIteratorRingState n} {current earliest : PKPositionLog}

omit [NeZero n] in
theorem value_eq_pure {p : Fin n} {v : PKPositionLog} (h : this.speedLog p = some v) :
    this.value p = pure v := by
  simp [value, h, pure, Except.pure]

/-- With `current` at the pointer, `UpdateLastSuccessfulPK` logs `current`'s position plus the
delta. -/
theorem UpdateLastSuccessfulPK_eq (hget : this.speedLog this.copySpeedLog = some current)
    (table : String) (pk : UInt64) (now : ℤ) :
    this.UpdateLastSuccessfulPK table pk now = .ok
      (let next := RingBuffer.push (this.speedLog, this.copySpeedLog)
        ⟨current.Position + (pk - (this.lastSuccessfulPrimaryKeys.lookup table).getD 0), now⟩
      { this with
        lastSuccessfulPrimaryKeys := set this.lastSuccessfulPrimaryKeys table pk
        speedLog := next.1
        copySpeedLog := next.2 }) := by
  simp only [UpdateLastSuccessfulPK, value_eq_pure hget, pure_bind]
  rfl

/-- The estimate is `0` while the position at the pointer is. -/
theorem EstimatedPKProcessedPerSecond_of_zero
    (hget : this.speedLog this.copySpeedLog = some current) (hc : current.Position = 0) :
    this.EstimatedPKProcessedPerSecond = .ok .zero := by
  simp only [EstimatedPKProcessedPerSecond, value_eq_pure hget, pure_bind, hc, if_true]
  rfl

/-- Otherwise it is taken between the pointer and where the walk stops. -/
theorem EstimatedPKProcessedPerSecond_of_walkBack
    (hget : this.speedLog this.copySpeedLog = some current) (hc : current.Position ≠ 0)
    {e : Fin n} (hwalk : RingBuffer.walkBack this.speedLog this.copySpeedLog
      (fun v => v.Position != 0) this.copySpeedLog = some e)
    (he : this.speedLog e = some earliest) :
    this.EstimatedPKProcessedPerSecond =
      .ok (.rate (current.Position - earliest.Position) (current.At - earliest.At)) := by
  simp only [EstimatedPKProcessedPerSecond, value_eq_pure hget, pure_bind, hc, if_false, hwalk,
    value_eq_pure he]
  rfl

end Spec

/-- The abstract state: the maps, and the position at the pointer. -/
def toState (this : DataIteratorRingState n) : DataIteratorState where
  targetPrimaryKeys := this.targetPrimaryKeys
  lastSuccessfulPrimaryKeys := this.lastSuccessfulPrimaryKeys
  completedTables := this.completedTables
  copySpeedLog := ((this.speedLog this.copySpeedLog).map PKPositionLog.Position).getD 0

end DataIteratorRingState

/-! ## Runs of calls -/

/-- A call that writes a `DataIteratorState`, with the time of each `UpdateLastSuccessfulPK`. -/
inductive StateCall where
  | UpdateTargetPK (table : String) (pk : UInt64)
  | UpdateLastSuccessfulPK (table : String) (pk : UInt64) (now : ℤ)
  | MarkTableAsCompleted (table : String)
  deriving DecidableEq, Repr

/-- A call on the ring state. -/
def DataIteratorRingState.call {n : ℕ} [NeZero n] (this : DataIteratorRingState n) :
    StateCall → Except String (DataIteratorRingState n)
  | .UpdateTargetPK table pk => .ok (this.UpdateTargetPK table pk)
  | .UpdateLastSuccessfulPK table pk now => this.UpdateLastSuccessfulPK table pk now
  | .MarkTableAsCompleted table => .ok (this.MarkTableAsCompleted table)

/-- The calls made one after another; the first panic ends the run. -/
def runCalls {n : ℕ} [NeZero n] (this : DataIteratorRingState n) (calls : List StateCall) :
    Except String (DataIteratorRingState n) :=
  calls.foldlM DataIteratorRingState.call this

/-- A call on the abstract state, with the entries logged so far: `UpdateLastSuccessfulPK` logs
the running total it reaches, at its time. -/
def StateCall.record (h : DataIteratorState × List PKPositionLog) :
    StateCall → DataIteratorState × List PKPositionLog
  | .UpdateTargetPK table pk => (h.1.UpdateTargetPK table pk, h.2)
  | .UpdateLastSuccessfulPK table pk now =>
    let st := h.1.UpdateLastSuccessfulPK table pk
    (st, h.2 ++ [⟨st.copySpeedLog, now⟩])
  | .MarkTableAsCompleted table => (h.1.MarkTableAsCompleted table, h.2)

/-- The abstract run of the calls from `newDataIteratorState`, with the entries logged after the
first, oldest first. -/
def history (calls : List StateCall) : DataIteratorState × List PKPositionLog :=
  calls.foldl StateCall.record (newDataIteratorState, [])

/-- What the estimate is over an unbounded log, oldest entry first: `zero` while the newest
position is `0`; otherwise the differences to the oldest of the entries with nonzero positions
just before the newest, up to the first zero and at most `n - 1` of them. -/
def windowEstimate (n : ℕ) (log : List PKPositionLog) : SpeedEstimate :=
  match log.reverse with
  | [] => .zero
  | current :: older =>
    if current.Position = 0 then .zero
    else
      let earliest := (current :: (older.takeWhile fun v => v.Position != 0).take (n - 1)).getLast
        (List.cons_ne_nil _ _)
      .rate (current.Position - earliest.Position) (current.At - earliest.At)

/-! ## The refinement -/

namespace DataIteratorRingState

variable {n : ℕ} [NeZero n] {now₀ : ℤ} {h : DataIteratorState × List PKPositionLog}
  {this : DataIteratorRingState n}

/-- The ring state `this` is the abstract state `h.1`, and its ring the log of the entries `h.2`
after the first, at `now₀`. -/
structure Refines (now₀ : ℤ) (h : DataIteratorState × List PKPositionLog)
    (this : DataIteratorRingState n) : Prop where
  state_eq : this.toState = h.1
  ring_eq : (this.speedLog, this.copySpeedLog) = RingBuffer.log ⟨0, now₀⟩ h.2

theorem refines_init (now₀ : ℤ) :
    Refines now₀ (Ghostferry.newDataIteratorState, []) (newDataIteratorState now₀ : DataIteratorRingState n) where
  state_eq := rfl
  ring_eq := rfl

/-- The pointer of a refining state holds the newest entry. -/
theorem Refines.get_copySpeedLog (hr : Refines now₀ h this) :
    this.speedLog this.copySpeedLog =
      some ((⟨0, now₀⟩ :: h.2 : List PKPositionLog).getLast (List.cons_ne_nil _ _)) := by
  obtain ⟨hspeed, hptr⟩ := Prod.mk.inj hr.ring_eq
  rw [hspeed, hptr]
  exact RingBuffer.get_pointer_log _ _

/-- The newest entry's position is the abstract running total. -/
theorem Refines.getLast_position (hr : Refines now₀ h this) :
    ((⟨0, now₀⟩ :: h.2 : List PKPositionLog).getLast (List.cons_ne_nil _ _)).Position =
      h.1.copySpeedLog := by
  rw [← hr.state_eq]
  simp [DataIteratorRingState.toState, hr.get_copySpeedLog]

/-- Each call keeps the refinement: the ring state's call does not panic, and its result refines
the abstract call's. -/
theorem Refines.call (hr : Refines now₀ h this) (c : StateCall) :
    ∃ this', this.call c = .ok this' ∧ Refines now₀ (StateCall.record h c) this' := by
  obtain ⟨st, entries⟩ := h
  obtain ⟨hstate, hlog⟩ := hr
  subst hstate
  cases c with
  | UpdateTargetPK table pk => exact ⟨this.UpdateTargetPK table pk, rfl, rfl, hlog⟩
  | MarkTableAsCompleted table => exact ⟨this.MarkTableAsCompleted table, rfl, rfl, hlog⟩
  | UpdateLastSuccessfulPK table pk now =>
    have hr : Refines now₀ (this.toState, entries) this := ⟨rfl, hlog⟩
    have hpos := hr.getLast_position
    refine ⟨_, UpdateLastSuccessfulPK_eq hr.get_copySpeedLog table pk now, ?_, ?_⟩
    · -- the new pointer holds the new running total
      simp only [StateCall.record, RingBuffer.push]
      rw [hpos]
      simp only [DataIteratorRingState.toState, RingBuffer.set_self, Option.map_some,
        Option.getD_some]
      rfl
    · -- the push is the log with the new entry
      simp only [StateCall.record]
      rw [RingBuffer.log_append_singleton, ← hlog, hpos]
      rfl

/-- A run of calls keeps the refinement: it does not panic, and ends in a state that refines the
abstract run's. -/
theorem Refines.run (hr : Refines now₀ h this) (calls : List StateCall) :
    ∃ this', runCalls this calls = .ok this' ∧
      Refines now₀ (calls.foldl StateCall.record h) this' := by
  -- induction on the calls, from any refining state
  induction calls generalizing h this with
  | nil => exact ⟨this, rfl, hr⟩
  | cons c calls ih =>
    obtain ⟨this₁, hcall, hr₁⟩ := hr.call c
    obtain ⟨this', hrun, hr'⟩ := ih hr₁
    refine ⟨this', ?_, hr'⟩
    rw [runCalls, List.foldlM_cons, hcall]
    exact hrun

/-- A run of the state's methods from `newDataIteratorState`, in any order, never panics; the ring
state abstracts to the abstract run, and its ring is the log of the entries. -/
theorem runCalls_refines (now₀ : ℤ) (calls : List StateCall) :
    ∃ this, runCalls (newDataIteratorState now₀ : DataIteratorRingState n) calls = .ok this ∧
      this.toState = (history calls).1 ∧
      (this.speedLog, this.copySpeedLog) = RingBuffer.log ⟨0, now₀⟩ (history calls).2 := by
  obtain ⟨this, hrun, hr⟩ := (@refines_init n _ now₀).run calls
  exact ⟨this, hrun, hr.state_eq, hr.ring_eq⟩

/-- Four batches of ten keys of one table, a second apart, on a ring of three elements. -/
def speedCalls : List StateCall :=
  [.UpdateLastSuccessfulPK "t" 10 1000000000, .UpdateLastSuccessfulPK "t" 20 2000000000,
    .UpdateLastSuccessfulPK "t" 30 3000000000, .UpdateLastSuccessfulPK "t" 40 4000000000]

theorem speedCalls_refines :
    ∃ this, runCalls (newDataIteratorState 0 : DataIteratorRingState 3) speedCalls = .ok this ∧
      this.toState = (history speedCalls).1 ∧
      (this.speedLog, this.copySpeedLog) = RingBuffer.log ⟨0, 0⟩ (history speedCalls).2 :=
  runCalls_refines 0 speedCalls

/-- On a refining state, the estimate is the window's. -/
theorem Refines.estimate (hr : Refines now₀ h this) :
    this.EstimatedPKProcessedPerSecond = .ok (windowEstimate n (⟨0, now₀⟩ :: h.2)) := by
  have hget := hr.get_copySpeedLog
  rcases List.eq_nil_or_concat h.2 with hnil | ⟨bs, c, hbs⟩
  · -- nothing logged since the first entry, whose position is `0`
    rw [hnil] at hget ⊢
    rw [EstimatedPKProcessedPerSecond_of_zero hget rfl]
    rfl
  · rw [List.concat_eq_append] at hbs
    rw [hbs] at hget ⊢
    have hlast : (⟨0, now₀⟩ :: (bs ++ [c]) : List PKPositionLog).getLast (List.cons_ne_nil _ _) =
        c := by
      simp
    have hrev : (⟨0, now₀⟩ :: (bs ++ [c]) : List PKPositionLog).reverse =
        c :: (⟨0, now₀⟩ :: bs : List PKPositionLog).reverse := by
      rw [← List.cons_append, List.reverse_append, List.reverse_singleton, List.singleton_append]
    rw [hlast] at hget
    unfold windowEstimate
    rw [hrev]
    dsimp only
    by_cases hc : c.Position = 0
    · rw [if_pos hc, EstimatedPKProcessedPerSecond_of_zero hget hc]
    · rw [if_neg hc]
      -- the walk on the log stops at the window's oldest entry
      obtain ⟨e, hwalk, he⟩ := @RingBuffer.walkBack_log PKPositionLog n _ ⟨0, now₀⟩ c bs
        (fun v => v.Position != 0) rfl
      have hspeed : this.speedLog = (RingBuffer.log ⟨0, now₀⟩ (bs ++ [c])).1 := by
        rw [← hbs]
        exact congrArg Prod.fst hr.ring_eq
      have hptr : this.copySpeedLog = (RingBuffer.log ⟨0, now₀⟩ (bs ++ [c])).2 := by
        rw [← hbs]
        exact congrArg Prod.snd hr.ring_eq
      rw [← hspeed, ← hptr] at hwalk
      rw [← hspeed] at he
      rw [EstimatedPKProcessedPerSecond_of_walkBack hget hc hwalk he]

/-- On every state a run of the methods reaches, the estimate reads no `nil` value, and is
`windowEstimate` of the whole log. -/
theorem EstimatedPKProcessedPerSecond_window {calls : List StateCall}
    (hrun : runCalls (newDataIteratorState now₀ : DataIteratorRingState n) calls = .ok this) :
    this.EstimatedPKProcessedPerSecond =
      .ok (windowEstimate n (⟨0, now₀⟩ :: (history calls).2)) := by
  obtain ⟨this', hrun', hr⟩ := (@refines_init n _ now₀).run calls
  rw [hrun] at hrun'
  cases hrun'
  exact hr.estimate

def speedRun : DataIteratorRingState 3 :=
  match runCalls (newDataIteratorState 0) speedCalls with
  | .ok this => this
  | .error _ => newDataIteratorState 0

theorem speedRun_window :
    runCalls (newDataIteratorState 0 : DataIteratorRingState 3) speedCalls = .ok speedRun ∧
      speedRun.EstimatedPKProcessedPerSecond =
        .ok (windowEstimate 3 (⟨0, 0⟩ :: (history speedCalls).2)) :=
  have hrun : runCalls (newDataIteratorState 0 : DataIteratorRingState 3) speedCalls =
      .ok speedRun := rfl
  ⟨hrun, EstimatedPKProcessedPerSecond_window hrun⟩

/-- The ring keeps the last three totals; the estimate is over the last two seconds. -/
example : windowEstimate 3 (⟨0, 0⟩ :: (history speedCalls).2) = .rate 20 2000000000 := by
  rfl

end DataIteratorRingState

end Ghostferry
