import Ghostferry.Lib.Chan
import Ghostferry.Lib.Machine

/-!
# The binlog writer's batching loop

`BinlogWriter.Run` of `binlog_writer.go` reads DML events from the channel `binlogEventBuffer`,
made with a buffer of `BatchSize`. It waits for a first event, then takes more while the batch is
shorter than `BatchSize` and an event is buffered, without waiting (the `default` branch of its
`select`), and hands the batch to `writeEvents`. Both receives read a closed channel as the end: the
first returns from `Run`, the second ends the batch. One producer pushes its events with
`BufferBinlogEvents` and then calls `Stop`, which closes the channel. `writerStep` is a step of the
producer or of `Run` in any interleaving; `writeEvents` succeeds.

Every event is in exactly one place: written, in the open batch, in the channel, or still to be
pushed, and in that order they are the events pushed (`WriterInv`). Every batch holds one to
`BatchSize` events. Every step lowers `WriterState.cost`, so every schedule ends; with
`BatchSize ≥ 1` a schedule is stuck only once `Run` has returned, and then the batches written are
the events, in order (`Run_writes_pushed_events`).
-/

namespace Ghostferry

open Machine

variable {α : Type*}

/-- Where the goroutine that runs `BinlogWriter.Run` is. -/
inductive WriterPhase (α : Type*) where
  /-- At `firstEvent := <-b.binlogEventBuffer`. -/
  | receiving
  /-- In the inner loop, `wantMoreEvents` still true, with the batch so far. -/
  | filling (batch : List α)
  /-- At `writeEvents(batch)`. -/
  | writing (batch : List α)
  /-- `Run` has returned. -/
  | returned
  deriving DecidableEq, Repr

/-- The batch a phase holds, empty outside the inner loop and the write. -/
def WriterPhase.batch : WriterPhase α → List α
  | .filling batch => batch
  | .writing batch => batch
  | _ => []

structure WriterState (α : Type*) where
  /-- The events the producer has still to push with `BufferBinlogEvents`, in order. -/
  pending : List α
  binlogEventBuffer : Chan α
  phase : WriterPhase α
  /-- Every batch handed to `writeEvents`, in order. -/
  written : List (List α)

/-- `Initialize` and the start of `Run`, with the producer's events to push. -/
def WriterState.init (events : List α) : WriterState α := ⟨events, Chan.empty, .receiving, []⟩

/-- The steps of the producer and of `Run`. -/
inductive WriterAction where
  /-- `b.binlogEventBuffer <- event` in `BufferBinlogEvents`, for the producer's next event. -/
  | push
  /-- `Stop`: `close(b.binlogEventBuffer)`, once every event is pushed. -/
  | stop
  /-- The next step of `Run`. -/
  | run
  deriving DecidableEq, Repr

/-- The next step of `Run`, whose channel has a buffer of `BatchSize`; `none` while it blocks. -/
def runStep (BatchSize : ℕ) (s : WriterState α) : Option (WriterState α) :=
  match s.phase with
  | .receiving =>
    (s.binlogEventBuffer.recv).map fun r =>
      match r.1 with
      -- the channel is closed: no more events to write
      | none => { s with binlogEventBuffer := r.2, phase := .returned }
      | some firstEvent => { s with binlogEventBuffer := r.2, phase := .filling [firstEvent] }
  | .filling batch =>
    if batch.length < BatchSize then
      match s.binlogEventBuffer.recv with
      | some (some event, ch) =>
        some { s with binlogEventBuffer := ch, phase := .filling (batch ++ [event]) }
      -- the channel is closed, or nothing is buffered (`default`): the batch is complete
      | _ => some { s with phase := .writing batch }
    else some { s with phase := .writing batch }
  | .writing batch => some { s with phase := .receiving, written := s.written ++ [batch] }
  | .returned => none

/-- One step of the producer or of `Run`. -/
def writerStep (BatchSize : ℕ) (s : WriterState α) : WriterAction → Option (WriterState α)
  | .push =>
    match s.pending with
    | event :: rest =>
      (s.binlogEventBuffer.send BatchSize event).map fun ch =>
        { s with pending := rest, binlogEventBuffer := ch }
    | [] => none
  | .stop =>
    if s.pending = [] ∧ s.binlogEventBuffer.closed = false then
      some { s with binlogEventBuffer := s.binlogEventBuffer.close }
    else none
  | .run => runStep BatchSize s

/-! ## What each step does -/

section Steps

variable {bs : ℕ} {s s' : WriterState α}

theorem writerStep_push (h : writerStep bs s .push = some s') :
    ∃ event rest, s.pending = event :: rest ∧ s.binlogEventBuffer.buffer.length < bs ∧
      s.binlogEventBuffer.closed = false ∧
      s' = { s with
        pending := rest
        binlogEventBuffer := { s.binlogEventBuffer with
          buffer := s.binlogEventBuffer.buffer ++ [event] } } := by
  simp only [writerStep] at h
  split at h
  · rename_i event rest hp
    obtain ⟨ch, hch, rfl⟩ := Option.map_eq_some_iff.mp h
    obtain ⟨hlen, hclosed, rfl⟩ := Chan.send_eq_some.mp hch
    exact ⟨event, rest, hp, hlen, hclosed, rfl⟩
  · cases h

theorem writerStep_stop (h : writerStep bs s .stop = some s') :
    s.pending = [] ∧ s.binlogEventBuffer.closed = false ∧
      s' = { s with binlogEventBuffer := s.binlogEventBuffer.close } := by
  simp only [writerStep] at h
  split_ifs at h with hc
  cases h
  exact ⟨hc.1, hc.2, rfl⟩

/-- At the first receive, `Run` takes the oldest event, or returns on a closed, drained channel. -/
theorem runStep_receiving (hp : s.phase = .receiving) (h : runStep bs s = some s') :
    (∃ event rest, s.binlogEventBuffer.buffer = event :: rest ∧
      s' = { s with
        binlogEventBuffer := { s.binlogEventBuffer with buffer := rest }
        phase := .filling [event] }) ∨
    (s.binlogEventBuffer.buffer = [] ∧ s.binlogEventBuffer.closed = true ∧
      s' = { s with phase := .returned }) := by
  simp only [runStep, hp] at h
  obtain ⟨⟨v, ch⟩, hrecv, rfl⟩ := Option.map_eq_some_iff.mp h
  rcases Chan.recv_eq_some.mp hrecv with ⟨event, rest, hbuf, rfl, rfl⟩ | ⟨hbuf, hc, rfl, rfl⟩
  · exact .inl ⟨event, rest, hbuf, rfl⟩
  · exact .inr ⟨hbuf, hc, rfl⟩

/-- In the inner loop, `Run` takes one more buffered event while the batch is short, and
otherwise ends the batch. -/
theorem runStep_filling {batch : List α} (hp : s.phase = .filling batch)
    (h : runStep bs s = some s') :
    (batch.length < bs ∧ ∃ event rest, s.binlogEventBuffer.buffer = event :: rest ∧
      s' = { s with
        binlogEventBuffer := { s.binlogEventBuffer with buffer := rest }
        phase := .filling (batch ++ [event]) }) ∨
    ((bs ≤ batch.length ∨ s.binlogEventBuffer.buffer = []) ∧
      s' = { s with phase := .writing batch }) := by
  simp only [runStep, hp] at h
  split_ifs at h with hlt
  · split at h
    · rename_i event ch hrecv
      cases h
      obtain ⟨event', rest, hbuf, hv, rfl⟩ | ⟨-, -, hv, -⟩ := Chan.recv_eq_some.mp hrecv
      · cases hv
        exact .inl ⟨hlt, _, rest, hbuf, rfl⟩
      · cases hv
    · rename_i hnot
      cases h
      -- no value was received: the buffer is empty
      refine .inr ⟨.inr ?_, rfl⟩
      cases hbuf : s.binlogEventBuffer.buffer with
      | nil => rfl
      | cons event rest =>
        have hrecv : s.binlogEventBuffer.recv = some (some event, { s.binlogEventBuffer with
            buffer := rest }) := Chan.recv_eq_some.mpr (.inl ⟨event, rest, hbuf, rfl, rfl⟩)
        exact absurd hrecv (hnot event _)
  · cases h
    exact .inr ⟨.inl (Nat.le_of_not_lt hlt), rfl⟩

theorem runStep_writing {batch : List α} (hp : s.phase = .writing batch) :
    runStep bs s = some { s with phase := .receiving, written := s.written ++ [batch] } := by
  simp only [runStep, hp]

theorem runStep_returned (hp : s.phase = .returned) : runStep bs s = none := by
  simp only [runStep, hp]

end Steps

/-! ## The invariant -/

/-- What every state of a run that pushes `events` keeps. -/
structure WriterInv (bs : ℕ) (events : List α) (s : WriterState α) : Prop where
  /-- Each event is written, in the open batch, buffered, or still to push, in that order. -/
  content : s.written.flatten ++ s.phase.batch ++ s.binlogEventBuffer.buffer ++ s.pending = events
  /-- `Stop` comes after the last push. -/
  closed_pending : s.binlogEventBuffer.closed = true → s.pending = []
  /-- Every batch written holds one to `BatchSize` events. -/
  written_size : ∀ b ∈ s.written, 1 ≤ b.length ∧ b.length ≤ bs
  /-- So does the open batch. -/
  batch_size : s.phase ≠ .receiving → s.phase ≠ .returned →
    1 ≤ s.phase.batch.length ∧ s.phase.batch.length ≤ bs
  /-- `Run` returns on a closed, drained channel. -/
  returned : s.phase = .returned → s.binlogEventBuffer.buffer = [] ∧ s.binlogEventBuffer.closed

namespace WriterInv

variable {bs : ℕ} {events : List α} {s s' : WriterState α}

theorem init (events : List α) : WriterInv bs events (WriterState.init events) where
  content := by simp [WriterState.init, WriterPhase.batch, Chan.empty]
  closed_pending h := by cases h
  written_size _ h := by cases h
  batch_size h _ := absurd rfl h
  returned h := by cases h

theorem push (hinv : WriterInv bs events s) (h : writerStep bs s .push = some s') :
    WriterInv bs events s' := by
  obtain ⟨event, rest, hp, -, hclosed, rfl⟩ := writerStep_push h
  refine ⟨?_, fun hc => absurd hc (by simp [hclosed]), hinv.written_size, hinv.batch_size,
    fun hr => absurd (hinv.returned hr).2 (by simp [hclosed])⟩
  -- the event moves from the producer to the back of the buffer
  have hcontent := hinv.content
  rw [hp] at hcontent
  simpa using hcontent

theorem stop (hinv : WriterInv bs events s) (h : writerStep bs s .stop = some s') :
    WriterInv bs events s' := by
  obtain ⟨hp, -, rfl⟩ := writerStep_stop h
  exact ⟨hinv.content, fun _ => hp, hinv.written_size, hinv.batch_size,
    fun hr => ⟨(hinv.returned hr).1, rfl⟩⟩

theorem receiving (hbs : 1 ≤ bs) (hinv : WriterInv bs events s) (hp : s.phase = .receiving)
    (h : runStep bs s = some s') : WriterInv bs events s' := by
  rcases runStep_receiving hp h with ⟨event, rest, hbuf, rfl⟩ | ⟨hbuf, hc, rfl⟩
  · -- the first event leaves the buffer and opens the batch
    have hcontent := hinv.content
    rw [hp, hbuf] at hcontent
    refine ⟨by simpa [WriterPhase.batch] using hcontent, hinv.closed_pending, hinv.written_size,
      fun _ _ => ⟨Nat.le_refl 1, hbs⟩, fun hr => by cases hr⟩
  · exact ⟨by simpa [hp, WriterPhase.batch] using hinv.content, hinv.closed_pending,
      hinv.written_size, fun _ h => absurd rfl h, fun _ => ⟨hbuf, hc⟩⟩

theorem filling {batch : List α} (hinv : WriterInv bs events s) (hp : s.phase = .filling batch)
    (h : runStep bs s = some s') : WriterInv bs events s' := by
  have hsize := hinv.batch_size (by simp [hp]) (by simp [hp])
  rw [hp] at hsize
  rcases runStep_filling hp h with ⟨hlt, event, rest, hbuf, rfl⟩ | ⟨-, rfl⟩
  · -- one more event leaves the buffer for the batch, which stays within `BatchSize`
    have hcontent := hinv.content
    rw [hp, hbuf] at hcontent
    refine ⟨by simpa [WriterPhase.batch] using hcontent, hinv.closed_pending, hinv.written_size,
      fun _ _ => ?_, fun hr => by cases hr⟩
    simp only [WriterPhase.batch, List.length_append, List.length_singleton] at hsize ⊢
    omega
  · refine ⟨by simpa [hp, WriterPhase.batch] using hinv.content, hinv.closed_pending,
      hinv.written_size, fun _ _ => hsize, fun hr => by cases hr⟩

theorem writing {batch : List α} (hinv : WriterInv bs events s) (hp : s.phase = .writing batch) :
    WriterInv bs events { s with phase := .receiving, written := s.written ++ [batch] } := by
  have hsize := hinv.batch_size (by simp [hp]) (by simp [hp])
  rw [hp] at hsize
  refine ⟨by simpa [hp, WriterPhase.batch] using hinv.content, hinv.closed_pending,
    fun b hb => ?_, fun h _ => absurd rfl h, fun hr => by cases hr⟩
  -- the written batch is the batch of the write
  rcases List.mem_append.mp hb with hb | hb
  · exact hinv.written_size b hb
  · rw [List.mem_singleton.mp hb]
    exact hsize

theorem step (hbs : 1 ≤ bs) (hinv : WriterInv bs events s) {a : WriterAction}
    (h : writerStep bs s a = some s') : WriterInv bs events s' := by
  cases a with
  | push => exact hinv.push h
  | stop => exact hinv.stop h
  | run =>
    change runStep bs s = some s' at h
    cases hp : s.phase with
    | receiving => exact hinv.receiving hbs hp h
    | filling batch => exact hinv.filling hp h
    | writing batch =>
      rw [runStep_writing hp] at h
      cases h
      exact hinv.writing hp
    | returned =>
      rw [runStep_returned hp] at h
      cases h

theorem of_reachable (hbs : 1 ≤ bs)
    (hr : Reachable (writerStep bs) (WriterState.init events) s) : WriterInv bs events s :=
  Reachable.invariant (WriterInv bs events) (init events) (fun _ _ _ hs h => hs.step hbs h) hr

end WriterInv

/-! ## Every schedule ends -/

/-- What `Run` has left in each phase: the inner loop's last step and the write cost less than
the receive that starts the next batch, whose event pays for it. -/
def WriterPhase.cost : WriterPhase α → ℕ
  | .receiving => 1
  | .filling _ => 3
  | .writing _ => 2
  | .returned => 0

/-- A bound on what is left of the run: each event to push passes through the buffer, each
buffered event is received once, and the producer has still to close the channel. -/
def WriterState.cost (s : WriterState α) : ℕ :=
  4 * s.pending.length + 3 * s.binlogEventBuffer.buffer.length + s.phase.cost +
    if s.binlogEventBuffer.closed then 0 else 1

section Progress

variable {bs : ℕ} {s s' : WriterState α}

theorem cost_lt_of_writerStep {a : WriterAction} (h : writerStep bs s a = some s') :
    s'.cost < s.cost := by
  cases a with
  | push =>
    obtain ⟨event, rest, hp, -, hclosed, rfl⟩ := writerStep_push h
    simp only [WriterState.cost, hp, hclosed, List.length_cons, List.length_append,
      List.length_nil]
    omega
  | stop =>
    obtain ⟨-, hclosed, rfl⟩ := writerStep_stop h
    simp only [WriterState.cost, hclosed, Chan.close_buffer, Chan.close_closed, if_true,
      Bool.false_eq_true, if_false]
    omega
  | run =>
    change runStep bs s = some s' at h
    cases hp : s.phase with
    | receiving =>
      rcases runStep_receiving hp h with ⟨event, rest, hbuf, rfl⟩ | ⟨-, -, rfl⟩
      · simp only [WriterState.cost, hp, hbuf, WriterPhase.cost, List.length_cons]
        omega
      · simp only [WriterState.cost, hp, WriterPhase.cost]
        omega
    | filling batch =>
      rcases runStep_filling hp h with ⟨-, event, rest, hbuf, rfl⟩ | ⟨-, rfl⟩
      · simp only [WriterState.cost, hp, hbuf, WriterPhase.cost, List.length_cons]
        omega
      · simp only [WriterState.cost, hp, WriterPhase.cost]
        omega
    | writing batch =>
      rw [runStep_writing hp] at h
      cases h
      simp only [WriterState.cost, hp, WriterPhase.cost]
      omega
    | returned =>
      rw [runStep_returned hp] at h
      cases h

/-- `Run` is never blocked in the inner loop or at the write. -/
theorem runStep_isSome_of_batch {batch : List α}
    (hp : s.phase = .filling batch ∨ s.phase = .writing batch) : (runStep bs s).isSome := by
  rcases hp with hp | hp
  · simp only [runStep, hp]
    split_ifs
    · split <;> rfl
    · rfl
  · simp [runStep_writing hp]

/-- With `BatchSize ≥ 1` every state has an enabled step until `Run` returns: at the first
receive, either the channel has an event or is closed, or the producer can push or stop. -/
theorem writerStep_progress (hbs : 1 ≤ bs) (hp : s.phase ≠ .returned) :
    ∃ a s', writerStep bs s a = some s' := by
  have hrun (hsome : (runStep bs s).isSome) : ∃ a s', writerStep bs s a = some s' := by
    obtain ⟨s', h⟩ := Option.isSome_iff_exists.mp hsome
    exact ⟨.run, s', h⟩
  cases hph : s.phase with
  | filling batch => exact hrun (runStep_isSome_of_batch (.inl hph))
  | writing batch => exact hrun (runStep_isSome_of_batch (.inr hph))
  | returned => exact absurd hph hp
  | receiving =>
    cases hrecv : s.binlogEventBuffer.recv with
    | some r => exact hrun (by simp [runStep, hph, hrecv])
    | none =>
      -- the channel is open and empty: the producer pushes its next event, or stops
      obtain ⟨hbuf, hclosed⟩ := Chan.recv_eq_none.mp hrecv
      cases hpend : s.pending with
      | nil =>
        exact ⟨.stop, { s with binlogEventBuffer := s.binlogEventBuffer.close },
          by simp [writerStep, hpend, hclosed]⟩
      | cons event rest =>
        have hpos : 0 < bs := hbs
        have hsome : (writerStep bs s .push).isSome := by
          simp [writerStep, hpend, Chan.send, hbuf, hclosed, hpos]
        obtain ⟨s', h⟩ := Option.isSome_iff_exists.mp hsome
        exact ⟨.push, s', h⟩

/-- Once `Run` has returned nothing is enabled: the producer has pushed everything and stopped. -/
theorem writerStep_returned {events : List α} (hinv : WriterInv bs events s)
    (hp : s.phase = .returned) (a : WriterAction) : writerStep bs s a = none := by
  obtain ⟨-, hclosed⟩ := hinv.returned hp
  have hpend := hinv.closed_pending hclosed
  cases a with
  | push => simp [writerStep, hpend]
  | stop => simp [writerStep, hclosed]
  | run => exact runStep_returned hp

end Progress

/-- For every sequence of events pushed by one producer that then calls `Stop`, with
`BatchSize ≥ 1`, every schedule of the producer and `Run` ends, and ends with `Run` returned: from
a state a run reaches, no run is longer than the state's cost, and the state is stuck exactly when
`Run` has returned. At every point the batches written are the first events, each batch holds one
to `BatchSize` of them, and once `Run` has returned they are all the events, in order. -/
theorem Run_writes_pushed_events {BatchSize : ℕ} (hbs : 1 ≤ BatchSize) (events : List α)
    {s : WriterState α} (hr : Reachable (writerStep BatchSize) (WriterState.init events) s) :
    (∀ as s', run (writerStep BatchSize) s as = some s' → as.length ≤ s.cost) ∧
      (s.phase = .returned ↔ ∀ a, writerStep BatchSize s a = none) ∧
      s.written.flatten <+: events ∧
      (∀ b ∈ s.written, 1 ≤ b.length ∧ b.length ≤ BatchSize) ∧
      (s.phase = .returned → s.written.flatten = events) := by
  have hinv := WriterInv.of_reachable hbs hr
  refine ⟨fun as s' h => ?_, ⟨writerStep_returned hinv, fun hnone => ?_⟩, ?_,
    hinv.written_size, fun hp => ?_⟩
  · have hle := run_length_add_le WriterState.cost (fun _ _ _ => cost_lt_of_writerStep) h
    omega
  · by_contra hp
    obtain ⟨a, s', h⟩ := writerStep_progress hbs hp
    rw [hnone a] at h
    cases h
  · rw [← hinv.content, List.append_assoc, List.append_assoc]
    exact List.prefix_append _ _
  · -- the channel is drained and closed, so nothing is left to push or in a batch
    obtain ⟨hbuf, hclosed⟩ := hinv.returned hp
    have hcontent := hinv.content
    rw [hp, hbuf, hinv.closed_pending hclosed] at hcontent
    simpa [WriterPhase.batch] using hcontent

/-- Three events pushed while `Run` writes batches of at most two: the first batch ends at the
`default` branch with one event, the second is full. -/
def writerRun : WriterState ℕ :=
  runD (writerStep 2) (WriterState.init [1, 2, 3])
    [.push, .run, .run, .push, .push, .run, .run, .run, .run, .stop, .run, .run]

theorem writerRun_written :
    writerRun.written = [[1], [2, 3]] ∧ writerRun.phase = .returned ∧
      writerRun.written.flatten = [1, 2, 3] :=
  ⟨by decide, by decide, (Run_writes_pushed_events (by decide) [1, 2, 3]
    (Reachable.runD (by decide))).2.2.2.2 (by decide)⟩

end Ghostferry
