import Ghostferry.Lib.Chan
import Ghostferry.Lib.Machine

/-!
# The worker pool

`WorkerPool.Run(n)` of `utils.go` hands the indexes `0, …, n - 1` in order, over the unbuffered
channel `workQueue`, to `Concurrency` goroutines that call `Process` on each. A worker whose call
returns an error sends it on `errCh`, made with a buffer of `Concurrency`, and quits; the others
send `nil` on it once `workQueue` is closed. The loop of `Run` hands the next index to a waiting
worker or receives from `errCh`, and stops at the first error it receives. `Run` then closes
`workQueue`, waits for every worker, closes `errCh`, and returns the error it stopped at or, if
none, the last error left in `errCh`. `poolStep` is one step of `Run` or of a worker in any
interleaving; the sleep of the `default` branch changes nothing and is no step. `Process` is a
function of the index, which is no restriction: a run calls it at most once per index.

`PoolInv` holds in every state a run reaches: the indexes handed out are those called or being
processed, a worker that fails stops at that call, and every error on its way to `Run`'s result
came from a call. Every step from such a state lowers `PoolState.cost`, and with
`Concurrency ≥ 1` a state is stuck exactly when `Run` has returned (`poolStep_progress`,
`poolStep_returned`). `Run_spec` collects what every run guarantees.
-/

namespace Ghostferry

open Machine

variable {β ε : Type*}

/-- `WorkerPool` of `utils.go`: a call of `Process` returns a result, `none` for `nil`, and an
error. -/
structure WorkerPool (β ε : Type*) where
  Concurrency : ℕ
  Process : ℕ → Option β × Option ε

/-- Where a worker goroutine of `Run` is. -/
inductive PoolWorker (ε : Type*) where
  /-- At `for workIndex := range workQueue`. -/
  | waiting
  /-- In `p.Process(workIndex)`. -/
  | processing (workIndex : ℕ)
  /-- At `errCh <- err` after a failed call, or at `errCh <- nil` once `workQueue` is closed. -/
  | sending (err : Option ε)
  /-- `wg.Done()` has run. -/
  | exited
  deriving DecidableEq, Repr

/-- The index a worker is calling `Process` on. -/
def PoolWorker.workIndex? : PoolWorker ε → Option ℕ
  | .processing workIndex => some workIndex
  | _ => none

/-- The value a worker is sending on `errCh`. -/
def PoolWorker.sending? : PoolWorker ε → Option (Option ε)
  | .sending err => some err
  | _ => none

/-- Whether the worker's `wg.Done()` has run. -/
def PoolWorker.done : PoolWorker ε → Bool
  | .exited => true
  | _ => false

/-- Where the goroutine that runs `Run` is. -/
inductive PoolPhase where
  /-- In the loop labelled `loop`, with `workQueue` open. -/
  | dispatching
  /-- `workQueue` is closed: at `wg.Wait()`. -/
  | waitGroup
  /-- `errCh` is closed and `err` is `nil`: in `for e := range errCh`. -/
  | draining
  /-- `Run` has returned `results, err`. -/
  | returned
  deriving DecidableEq, Repr

structure PoolState (β ε : Type*) where
  /-- The next index to hand out. -/
  i : ℕ
  err : Option ε
  phase : PoolPhase
  workers : List (PoolWorker ε)
  results : List (Option β)
  errCh : Chan (Option ε)
  /-- Every call of `Process` that has returned, with the worker that made it, in order. -/
  calls : List (ℕ × ℕ)

/-- The start of `Run`: every worker waits on `workQueue`. -/
def PoolState.init (Concurrency : ℕ) : PoolState β ε :=
  ⟨0, none, .dispatching, List.replicate Concurrency .waiting, List.replicate Concurrency none,
    Chan.empty, []⟩

/-- The last of `calls` that worker `j` made. -/
def lastCall (calls : List (ℕ × ℕ)) (j : ℕ) : Option (ℕ × ℕ) :=
  (calls.filter fun c => c.1 = j).getLast?

/-- `e` is on its way to the error `Run` returns: received, in `errCh`, or being sent on it. -/
def PoolState.Reported (s : PoolState β ε) (e : ε) : Prop :=
  s.err = some e ∨ some e ∈ s.errCh.buffer ∨ some e ∈ s.workers.filterMap PoolWorker.sending?

/-- The steps of `Run` and of its workers. -/
inductive PoolAction where
  /-- `case workQueue <- i`, received by worker `j`. -/
  | dispatch (j : ℕ)
  /-- `case err = <-errCh`. -/
  | receive
  /-- The loop's condition fails: `close(workQueue)`. -/
  | close
  /-- `p.Process(workIndex)` returns in worker `j`. -/
  | process (j : ℕ)
  /-- Worker `j`'s `range` ends on the closed `workQueue`. -/
  | finish (j : ℕ)
  /-- Worker `j` sends on `errCh` and runs `wg.Done()`. -/
  | send (j : ℕ)
  /-- `wg.Wait()` returns: `close(errCh)`. -/
  | wait
  /-- One iteration of `for e := range errCh`, or its end. -/
  | drain
  deriving DecidableEq, Repr

/-- One step of `Run(n)` or of one of its workers; `none` where it blocks. -/
def poolStep (p : WorkerPool β ε) (n : ℕ) (s : PoolState β ε) : PoolAction → Option (PoolState β ε)
  | .dispatch j =>
    if s.phase = .dispatching ∧ s.i < n then
      match s.workers[j]? with
      | some .waiting => some { s with i := s.i + 1, workers := s.workers.set j (.processing s.i) }
      | _ => none
    else none
  | .receive =>
    if s.phase = .dispatching ∧ s.i < n then
      s.errCh.recv.map fun r =>
        -- abort the pool if an error was discovered: `break loop` closes `workQueue`
        { s with
          err := r.1.join
          errCh := r.2
          phase := if r.1.join.isSome then .waitGroup else .dispatching }
    else none
  | .close => if s.phase = .dispatching ∧ n ≤ s.i then some { s with phase := .waitGroup } else none
  | .process j =>
    match s.workers[j]? with
    | some (.processing workIndex) =>
      some { s with
        results := s.results.set j (p.Process workIndex).1
        workers := s.workers.set j
          (if (p.Process workIndex).2.isSome then .sending (p.Process workIndex).2 else .waiting)
        calls := s.calls ++ [(j, workIndex)] }
    | _ => none
  | .finish j =>
    match s.workers[j]? with
    | some .waiting =>
      if s.phase = .dispatching then none
      else some { s with workers := s.workers.set j (.sending none) }
    | _ => none
  | .send j =>
    match s.workers[j]? with
    | some (.sending err) =>
      (s.errCh.send p.Concurrency err).map fun ch =>
        { s with errCh := ch, workers := s.workers.set j .exited }
    | _ => none
  | .wait =>
    if s.phase = .waitGroup ∧ s.workers.all PoolWorker.done then
      some { s with
        errCh := s.errCh.close
        phase := if s.err.isSome then .returned else .draining }
    else none
  | .drain =>
    if s.phase = .draining then
      s.errCh.recv.map fun r =>
        match r.1 with
        | some e => { s with errCh := r.2, err := e.or s.err }
        -- `errCh` is closed and drained: `Run` returns
        | none => { s with phase := .returned }
    else none

theorem lastCall_append_singleton (calls : List (ℕ × ℕ)) (j workIndex k : ℕ) :
    lastCall (calls ++ [(j, workIndex)]) k =
      if j = k then some (j, workIndex) else lastCall calls k := by
  unfold lastCall
  rw [List.filter_append, List.getLast?_append]
  by_cases h : j = k
  · simp [h]
  · simp [h]

theorem mem_of_lastCall {calls : List (ℕ × ℕ)} {j : ℕ} {c : ℕ × ℕ}
    (h : lastCall calls j = some c) : c ∈ calls ∧ c.1 = j := by
  have hmem := List.mem_of_getLast? h
  simpa using hmem

theorem lastCall_isSome {calls : List (ℕ × ℕ)} {c : ℕ × ℕ} (hc : c ∈ calls) :
    (lastCall calls c.1).isSome := by
  unfold lastCall
  rw [Option.isSome_iff_ne_none, Ne, List.getLast?_eq_none_iff, ← Ne, ← List.length_pos_iff]
  exact List.length_pos_of_mem (List.mem_filter.mpr ⟨hc, by simp⟩)

/-! ## What each step does -/

section Steps

variable {p : WorkerPool β ε} {n j : ℕ} {s s' : PoolState β ε}

theorem poolStep_dispatch (h : poolStep p n s (.dispatch j) = some s') :
    s.phase = .dispatching ∧ s.i < n ∧ s.workers[j]? = some .waiting ∧
      s' = { s with i := s.i + 1, workers := s.workers.set j (.processing s.i) } := by
  simp only [poolStep] at h
  split_ifs at h with hg
  split at h
  · rename_i hw
    exact ⟨hg.1, hg.2, hw, (Option.some.inj h).symm⟩
  · contradiction

/-- The loop receives the oldest value of `errCh`, and ends if it is an error; the channel is
never closed while the loop runs (`PoolInv`), so the second case does not occur. -/
theorem poolStep_receive (h : poolStep p n s .receive = some s') :
    s.phase = .dispatching ∧ s.i < n ∧
      ((∃ v rest, s.errCh.buffer = v :: rest ∧
        s' = { s with
          err := v
          errCh := { s.errCh with buffer := rest }
          phase := if v.isSome then .waitGroup else .dispatching }) ∨
      (s.errCh.buffer = [] ∧ s.errCh.closed = true ∧
        s' = { s with err := none, phase := .dispatching })) := by
  simp only [poolStep] at h
  split_ifs at h with hg
  obtain ⟨⟨v, ch⟩, hrecv, rfl⟩ := Option.map_eq_some_iff.mp h
  refine ⟨hg.1, hg.2, ?_⟩
  rcases Chan.recv_eq_some.mp hrecv with ⟨b, rest, hbuf, rfl, rfl⟩ | ⟨hbuf, hc, rfl, rfl⟩
  · exact .inl ⟨b, rest, hbuf, rfl⟩
  · exact .inr ⟨hbuf, hc, rfl⟩

theorem poolStep_close (h : poolStep p n s .close = some s') :
    s.phase = .dispatching ∧ n ≤ s.i ∧ s' = { s with phase := .waitGroup } := by
  simp only [poolStep] at h
  split_ifs at h with hg
  exact ⟨hg.1, hg.2, (Option.some.inj h).symm⟩

theorem poolStep_process (h : poolStep p n s (.process j) = some s') :
    ∃ workIndex, s.workers[j]? = some (.processing workIndex) ∧
      s' = { s with
        results := s.results.set j (p.Process workIndex).1
        workers := s.workers.set j
          (if (p.Process workIndex).2.isSome then .sending (p.Process workIndex).2 else .waiting)
        calls := s.calls ++ [(j, workIndex)] } := by
  simp only [poolStep] at h
  split at h
  · rename_i workIndex hw
    exact ⟨workIndex, hw, (Option.some.inj h).symm⟩
  · contradiction

theorem poolStep_finish (h : poolStep p n s (.finish j) = some s') :
    s.workers[j]? = some .waiting ∧ s.phase ≠ .dispatching ∧
      s' = { s with workers := s.workers.set j (.sending none) } := by
  simp only [poolStep] at h
  split at h
  · rename_i hw
    split_ifs at h with hp
    exact ⟨hw, hp, (Option.some.inj h).symm⟩
  · contradiction

theorem poolStep_send (h : poolStep p n s (.send j) = some s') :
    ∃ err, s.workers[j]? = some (.sending err) ∧ s.errCh.buffer.length < p.Concurrency ∧
      s.errCh.closed = false ∧
      s' = { s with
        errCh := { s.errCh with buffer := s.errCh.buffer ++ [err] }
        workers := s.workers.set j .exited } := by
  simp only [poolStep] at h
  split at h
  · rename_i err hw
    obtain ⟨ch, hch, rfl⟩ := Option.map_eq_some_iff.mp h
    obtain ⟨hlen, hclosed, rfl⟩ := Chan.send_eq_some.mp hch
    exact ⟨err, hw, hlen, hclosed, rfl⟩
  · contradiction

theorem poolStep_wait (h : poolStep p n s .wait = some s') :
    s.phase = .waitGroup ∧ (∀ w ∈ s.workers, w.done = true) ∧
      s' = { s with
        errCh := s.errCh.close
        phase := if s.err.isSome then .returned else .draining } := by
  simp only [poolStep] at h
  split at h
  · rename_i hg
    exact ⟨hg.1, List.all_eq_true.mp hg.2, (Option.some.inj h).symm⟩
  · contradiction

/-- The range over the closed `errCh` keeps the last error it reads, and ends once the channel is
drained. -/
theorem poolStep_drain (h : poolStep p n s .drain = some s') :
    s.phase = .draining ∧
      ((∃ e rest, s.errCh.buffer = e :: rest ∧
        s' = { s with errCh := { s.errCh with buffer := rest }, err := e.or s.err }) ∨
      (s.errCh.buffer = [] ∧ s.errCh.closed = true ∧ s' = { s with phase := .returned })) := by
  simp only [poolStep] at h
  split_ifs at h with hp
  obtain ⟨⟨v, ch⟩, hrecv, rfl⟩ := Option.map_eq_some_iff.mp h
  refine ⟨hp, ?_⟩
  rcases Chan.recv_eq_some.mp hrecv with ⟨e, rest, hbuf, rfl, rfl⟩ | ⟨hbuf, hc, rfl, rfl⟩
  · exact .inl ⟨e, rest, hbuf, rfl⟩
  · exact .inr ⟨hbuf, hc, rfl⟩

end Steps

/-! ## The workers as a whole

What the workers hold together, the values they are sending, and how many have quit, after one of
them moves from `x` to `y`. -/

section Views

variable {l : List (PoolWorker ε)} {j : ℕ} {x : PoolWorker ε}

theorem countP_done_set (hj : l[j]? = some x) (hx : x.done = false) (y : PoolWorker ε) :
    (l.set j y).countP PoolWorker.done = l.countP PoolWorker.done + if y.done then 1 else 0 := by
  obtain ⟨hlt, hget⟩ := List.getElem?_eq_some_iff.mp hj
  rw [List.countP_set hlt, hget, hx]
  simp

theorem mem_sending_set (hj : l[j]? = some x) (y : PoolWorker ε) (v : Option ε) :
    v ∈ (l.set j y).filterMap PoolWorker.sending? ∨ v ∈ x.sending?.toList ↔
      v ∈ l.filterMap PoolWorker.sending? ∨ v ∈ y.sending?.toList := by
  rw [← List.mem_append, ← List.mem_append]
  exact (perm_filterMap_set PoolWorker.sending? hj y).mem_iff

/-- Between two states that send nothing, the values being sent stay the same. -/
theorem mem_sending_set_of_none (hj : l[j]? = some x) (hx : x.sending? = none) {y : PoolWorker ε}
    (hy : y.sending? = none) (v : Option ε) :
    v ∈ (l.set j y).filterMap PoolWorker.sending? ↔ v ∈ l.filterMap PoolWorker.sending? := by
  simpa [hx, hy] using mem_sending_set hj y v

end Views

/-! ## The invariant -/

/-- What every state of a run of `Run(n)` keeps. -/
structure PoolInv (p : WorkerPool β ε) (n : ℕ) (s : PoolState β ε) : Prop where
  workers_length : s.workers.length = p.Concurrency
  results_length : s.results.length = p.Concurrency
  /-- Each worker's slot of `results` holds the result of its last call. -/
  results : ∀ j < p.Concurrency,
    s.results[j]? = some ((lastCall s.calls j).bind fun c => (p.Process c.2).1)
  calls_worker : ∀ c ∈ s.calls, c.1 < p.Concurrency
  i_le : s.i ≤ n
  /-- The indexes handed out are those called and those being processed, each once. -/
  handed : List.Perm (s.calls.map Prod.snd ++ s.workers.filterMap PoolWorker.workIndex?)
    (List.range s.i)
  /-- A worker whose call fails makes no call after it, and sends its error or has sent it. -/
  stops : ∀ c ∈ s.calls, (p.Process c.2).2.isSome → lastCall s.calls c.1 = some c ∧
    (s.workers[c.1]? = some (.sending (p.Process c.2).2) ∨ s.workers[c.1]? = some .exited)
  /-- Every error on its way to the result came from a call. -/
  reported : ∀ e, s.Reported e → ∃ c ∈ s.calls, (p.Process c.2).2 = some e
  /-- A failed call leaves an error on its way to the result. -/
  failed : ∀ c ∈ s.calls, (p.Process c.2).2.isSome → ∃ e, s.Reported e
  /-- Each worker sends one value on `errCh`, as it quits. -/
  buffer_le : s.errCh.buffer.length ≤ s.workers.countP PoolWorker.done
  /-- While the loop runs it has received nothing, since the first error it receives ends it,
  and `nil` is sent only once `workQueue` is closed. -/
  dispatching : s.phase = .dispatching → s.err = none ∧
    s.errCh.buffer.length = s.workers.countP PoolWorker.done ∧
    none ∉ s.errCh.buffer ∧ none ∉ s.workers.filterMap PoolWorker.sending?
  closed : s.errCh.closed = true ↔ s.phase = .draining ∨ s.phase = .returned
  exited : s.phase = .draining ∨ s.phase = .returned → ∀ w ∈ s.workers, w.done = true
  /-- The loop ends once every index is handed out, or on an error. -/
  loop_ended : s.phase ≠ .dispatching → n ≤ s.i ∨ s.err.isSome
  /-- `Run` returns its error, or drains `errCh`. -/
  returned : s.phase = .returned → s.err.isSome ∨ s.errCh.buffer = []

namespace PoolInv

variable {p : WorkerPool β ε} {n j : ℕ} {s s' : PoolState β ε}

theorem init (p : WorkerPool β ε) (n : ℕ) : PoolInv p n (PoolState.init p.Concurrency) where
  workers_length := List.length_replicate
  results_length := List.length_replicate
  results j hj := by simp [PoolState.init, lastCall, hj]
  calls_worker _ h := by cases h
  i_le := Nat.zero_le n
  handed := by simp [PoolState.init, PoolWorker.workIndex?]
  stops _ h := by cases h
  reported e h := by
    simp [PoolState.Reported, PoolState.init, PoolWorker.sending?, Chan.empty] at h
  failed _ h := by cases h
  buffer_le := by simp [PoolState.init, Chan.empty]
  dispatching _ := by
    simp [PoolState.init, Chan.empty, List.countP_replicate, PoolWorker.done, PoolWorker.sending?]
  closed := by simp [PoolState.init, Chan.empty]
  exited h := by simp [PoolState.init] at h
  loop_ended h := absurd rfl h
  returned h := by simp [PoolState.init] at h

/-- A worker that is neither sending nor done has made no failed call. -/
theorem ne_of_failed (hinv : PoolInv p n s) {x : PoolWorker ε} (hj : s.workers[j]? = some x)
    (hx : x.sending? = none) (hxd : x.done = false) {c : ℕ × ℕ} (hc : c ∈ s.calls)
    (hf : (p.Process c.2).2.isSome) : c.1 ≠ j := by
  rintro rfl
  rcases (hinv.stops c hc hf).2 with h | h
  · obtain rfl := Option.some.inj (hj.symm.trans h)
    simp [PoolWorker.sending?] at hx
  · obtain rfl := Option.some.inj (hj.symm.trans h)
    simp [PoolWorker.done] at hxd

/-- `errCh` is open until `wg.Wait()` returns. -/
theorem errCh_open (hinv : PoolInv p n s) (hp : s.phase = .dispatching ∨ s.phase = .waitGroup) :
    s.errCh.closed = false := by
  rw [Bool.eq_false_iff]
  intro hc
  have hphase := hinv.closed.mp hc
  rcases hp with hp | hp <;> simp [hp] at hphase

/-- A worker that has not quit is no state of a returned `Run`. -/
theorem not_done_of_returned (hinv : PoolInv p n s) {x : PoolWorker ε}
    (hj : s.workers[j]? = some x) (hxd : x.done = false)
    (hp : s.phase = .draining ∨ s.phase = .returned) : False := by
  have hx := hinv.exited hp x (List.mem_of_getElem? hj)
  rw [hxd] at hx
  cases hx

/-- The steps of `Run` and the workers that leave `err`, `errCh` and the values being sent as
they are leave `Reported` as it is. -/
theorem reported_iff (herr : s'.err = s.err)
    (hbuf : s'.errCh.buffer = s.errCh.buffer)
    (hsend : ∀ e : ε, some e ∈ s'.workers.filterMap PoolWorker.sending? ↔
      some e ∈ s.workers.filterMap PoolWorker.sending?) (e : ε) :
    s'.Reported e ↔ s.Reported e := by
  unfold PoolState.Reported
  rw [herr, hbuf, hsend]

theorem dispatch (hinv : PoolInv p n s) (h : poolStep p n s (.dispatch j) = some s') :
    PoolInv p n s' := by
  obtain ⟨hp, hi, hw, rfl⟩ := poolStep_dispatch h
  -- the waiting worker `j` takes index `i`: it held no index, sent nothing and made no failed call
  have hsend := mem_sending_set_of_none hw rfl (y := .processing s.i) rfl
  have hdone := countP_done_set hw rfl (.processing s.i)
  have hheld := perm_filterMap_set PoolWorker.workIndex? hw (.processing s.i)
  simp only [PoolWorker.done, PoolWorker.workIndex?, Option.toList, List.append_nil,
    Bool.false_eq_true, if_false, Nat.add_zero] at hdone hheld
  have hrep : ∀ e : ε,
      PoolState.Reported { s with i := s.i + 1, workers := s.workers.set j (.processing s.i) } e ↔
        s.Reported e :=
    reported_iff rfl rfl fun e => hsend (some e)
  exact { hinv with
    workers_length := (List.length_set ..).trans hinv.workers_length
    i_le := hi
    handed := by
      dsimp only
      rw [List.range_succ]
      calc List.Perm (s.calls.map Prod.snd ++ (s.workers.set j (.processing s.i)).filterMap
              PoolWorker.workIndex?)
            (s.calls.map Prod.snd ++ (s.workers.filterMap PoolWorker.workIndex? ++ [s.i])) :=
            hheld.append_left _
        List.Perm _ (List.range s.i ++ [s.i]) := by
            rw [← List.append_assoc]
            exact hinv.handed.append_right _
    stops c hc hf := by
      refine ⟨(hinv.stops c hc hf).1, ?_⟩
      dsimp only
      rw [List.getElem?_set_ne (hinv.ne_of_failed hw rfl rfl hc hf).symm]
      exact (hinv.stops c hc hf).2
    reported e he := hinv.reported e ((hrep e).mp he)
    failed c hc hf := (hinv.failed c hc hf).imp fun e he => (hrep e).mpr he
    buffer_le := by
      dsimp only
      rw [hdone]
      exact hinv.buffer_le
    dispatching _ := by
      obtain ⟨herr, hlen, hnil, hnil'⟩ := hinv.dispatching hp
      exact ⟨herr, hdone ▸ hlen, hnil, fun hn => hnil' ((hsend none).mp hn)⟩
    exited h' := by simp [hp] at h'
    loop_ended h' := absurd hp h'
    returned h' := by simp [hp] at h'
  }

theorem receive (hinv : PoolInv p n s) (h : poolStep p n s .receive = some s') :
    PoolInv p n s' := by
  obtain ⟨hp, -, ⟨v, rest, hbuf, rfl⟩ | ⟨-, hc, -⟩⟩ := poolStep_receive h
  · -- the loop receives an error, never `nil`, and ends
    obtain ⟨-, -, hnil, -⟩ := hinv.dispatching hp
    have hv : v ≠ none := fun hv => hnil (by rw [hbuf, hv]; exact List.mem_cons_self ..)
    obtain ⟨e, rfl⟩ := Option.ne_none_iff_exists'.mp hv
    have hopen := hinv.errCh_open (.inl hp)
    have hmem : some e ∈ s.errCh.buffer := by
      rw [hbuf]
      exact List.mem_cons_self ..
    exact { hinv with
      reported e' he := by
        rcases he with he | he | he
        · obtain rfl : e = e' := Option.some.inj he
          exact hinv.reported e (.inr (.inl hmem))
        · exact hinv.reported e' (.inr (.inl (by rw [hbuf]; exact List.mem_cons_of_mem _ he)))
        · exact hinv.reported e' (.inr (.inr he))
      failed _ _ _ := ⟨e, .inl rfl⟩
      buffer_le := by
        have hle := hinv.buffer_le
        rw [hbuf, List.length_cons] at hle
        dsimp only
        omega
      dispatching h' := by simp at h'
      closed := by simp [hopen]
      exited h' := by simp at h'
      loop_ended _ := .inr rfl
      returned h' := by simp at h'
    }
  · have hopen := hinv.errCh_open (.inl hp)
    rw [hc] at hopen
    cases hopen

theorem close (hinv : PoolInv p n s) (h : poolStep p n s .close = some s') : PoolInv p n s' := by
  obtain ⟨hp, hle, rfl⟩ := poolStep_close h
  have hopen := hinv.errCh_open (.inl hp)
  exact { hinv with
    dispatching h' := by simp at h'
    closed := by simp [hopen]
    exited h' := by simp at h'
    loop_ended _ := .inl hle
    returned h' := by simp at h'
  }

theorem process (hinv : PoolInv p n s) (h : poolStep p n s (.process j) = some s') :
    PoolInv p n s' := by
  obtain ⟨k, hw, rfl⟩ := poolStep_process h
  -- worker `j` records its result and goes back to `workQueue`, or sends its error
  set y : PoolWorker ε :=
    if (p.Process k).2.isSome then .sending (p.Process k).2 else .waiting with hy
  have hyk : y.workIndex? = none := by
    rw [hy]
    split <;> rfl
  have hyd : y.done = false := by
    rw [hy]
    split <;> rfl
  have hys (v : Option ε) (hv : v ∈ y.sending?.toList) :
      v = (p.Process k).2 ∧ (p.Process k).2.isSome := by
    rw [hy] at hv
    split at hv
    · simp only [PoolWorker.sending?, Option.toList_some, List.mem_singleton] at hv
      exact ⟨hv, ‹_›⟩
    · simp [PoolWorker.sending?] at hv
  have hfy (hf : (p.Process k).2.isSome) : y = .sending (p.Process k).2 := by rw [hy, if_pos hf]
  have hj : j < p.Concurrency := hinv.workers_length ▸ (List.getElem?_eq_some_iff.mp hw).1
  have hdone := countP_done_set hw rfl y
  have hheld := perm_filterMap_set PoolWorker.workIndex? hw y
  have hsend := mem_sending_set hw y
  have hxs : (PoolWorker.processing k : PoolWorker ε).sending? = none := rfl
  rw [hyd, if_neg Bool.false_ne_true, Nat.add_zero] at hdone
  rw [hyk] at hheld
  simp only [PoolWorker.workIndex?, Option.toList, List.append_nil] at hheld
  simp only [hxs, Option.toList, List.not_mem_nil, or_false] at hsend
  have hold (c : ℕ × ℕ) (hc : c ∈ s.calls) (hf : (p.Process c.2).2.isSome) : c.1 ≠ j :=
    hinv.ne_of_failed hw rfl rfl hc hf
  exact { hinv with
    workers_length := (List.length_set ..).trans hinv.workers_length
    results_length := (List.length_set ..).trans hinv.results_length
    results k' hk' := by
      dsimp only
      rw [lastCall_append_singleton]
      by_cases hjk : j = k'
      · subst hjk
        have hlt := (List.getElem?_eq_some_iff.mp (hinv.results j hk')).1
        rw [List.getElem?_set_self hlt, if_pos rfl]
        rfl
      · rw [List.getElem?_set_ne hjk, if_neg hjk]
        exact hinv.results k' hk'
    calls_worker c hc := by
      rcases List.mem_append.mp hc with hc | hc
      · exact hinv.calls_worker c hc
      · rw [List.mem_singleton.mp hc]
        exact hj
    handed := by
      dsimp only
      rw [List.map_append, List.map_singleton, List.append_assoc]
      calc List.Perm (s.calls.map Prod.snd ++ ([k] ++ (s.workers.set j y).filterMap
              PoolWorker.workIndex?))
            (s.calls.map Prod.snd ++
              ((s.workers.set j y).filterMap PoolWorker.workIndex? ++ [k])) :=
            List.perm_append_comm.append_left _
        List.Perm _ (s.calls.map Prod.snd ++ s.workers.filterMap PoolWorker.workIndex?) :=
            hheld.append_left _
        List.Perm _ (List.range s.i) := hinv.handed
    stops c hc hf := by
      dsimp only
      rcases List.mem_append.mp hc with hc | hc
      · -- an earlier failed call was made by another worker
        have hne := hold c hc hf
        rw [lastCall_append_singleton, if_neg hne.symm, List.getElem?_set_ne hne.symm]
        exact hinv.stops c hc hf
      · obtain rfl := List.mem_singleton.mp hc
        have hlt := (List.getElem?_eq_some_iff.mp hw).1
        rw [lastCall_append_singleton, if_pos rfl, List.getElem?_set_self hlt, hfy hf]
        exact ⟨rfl, .inl rfl⟩
    reported e he := by
      rcases he with he | he | he
      · obtain ⟨c, hc, hce⟩ := hinv.reported e (.inl he)
        exact ⟨c, List.mem_append_left _ hc, hce⟩
      · obtain ⟨c, hc, hce⟩ := hinv.reported e (.inr (.inl he))
        exact ⟨c, List.mem_append_left _ hc, hce⟩
      · rcases (hsend (some e)).mp he with he | he
        · obtain ⟨c, hc, hce⟩ := hinv.reported e (.inr (.inr he))
          exact ⟨c, List.mem_append_left _ hc, hce⟩
        · -- the error worker `j` is now sending is the one its call returned
          exact ⟨(j, k), List.mem_append_right _ (List.mem_singleton_self _), (hys _ he).1.symm⟩
    failed c hc hf := by
      rcases List.mem_append.mp hc with hc | hc
      · obtain ⟨e, he⟩ := hinv.failed c hc hf
        refine ⟨e, ?_⟩
        rcases he with he | he | he
        · exact .inl he
        · exact .inr (.inl he)
        · exact .inr (.inr ((hsend (some e)).mpr (.inl he)))
      · obtain rfl := List.mem_singleton.mp hc
        obtain ⟨e, he⟩ := Option.isSome_iff_exists.mp hf
        refine ⟨e, .inr (.inr ((hsend (some e)).mpr (.inr ?_)))⟩
        rw [hfy hf, he]
        exact List.mem_singleton_self _
    buffer_le := by
      dsimp only
      rw [hdone]
      exact hinv.buffer_le
    dispatching hp := by
      obtain ⟨herr, hlen, hnil, hnil'⟩ := hinv.dispatching hp
      refine ⟨herr, hdone ▸ hlen, hnil, fun hn => ?_⟩
      rcases (hsend none).mp hn with hn | hn
      · exact hnil' hn
      · obtain ⟨hv, hsome⟩ := hys none hn
        rw [← hv] at hsome
        cases hsome
    exited hp := (hinv.not_done_of_returned hw rfl hp).elim
  }

theorem finish (hinv : PoolInv p n s) (h : poolStep p n s (.finish j) = some s') :
    PoolInv p n s' := by
  obtain ⟨hw, hp, rfl⟩ := poolStep_finish h
  -- `workQueue` is closed: the waiting worker `j` goes on to send `nil`
  have hdone := countP_done_set hw rfl (.sending none)
  have hheld := perm_filterMap_set PoolWorker.workIndex? hw (.sending none)
  have hsend := mem_sending_set hw (.sending none)
  simp only [PoolWorker.done, PoolWorker.workIndex?, PoolWorker.sending?, Option.toList,
    List.append_nil, Bool.false_eq_true, if_false, Nat.add_zero, List.not_mem_nil, or_false,
    List.mem_singleton] at hdone hheld hsend
  have hrep : ∀ e : ε,
      PoolState.Reported { s with workers := s.workers.set j (.sending none) } e ↔ s.Reported e :=
    reported_iff rfl rfl fun e => by simpa using hsend (some e)
  exact { hinv with
    workers_length := (List.length_set ..).trans hinv.workers_length
    handed := (hheld.append_left _).trans hinv.handed
    stops c hc hf := by
      refine ⟨(hinv.stops c hc hf).1, ?_⟩
      dsimp only
      rw [List.getElem?_set_ne (hinv.ne_of_failed hw rfl rfl hc hf).symm]
      exact (hinv.stops c hc hf).2
    reported e he := hinv.reported e ((hrep e).mp he)
    failed c hc hf := (hinv.failed c hc hf).imp fun e he => (hrep e).mpr he
    buffer_le := by
      dsimp only
      rw [hdone]
      exact hinv.buffer_le
    dispatching h' := absurd h' hp
    exited h' := (hinv.not_done_of_returned hw rfl h').elim
  }

theorem send (hinv : PoolInv p n s) (h : poolStep p n s (.send j) = some s') :
    PoolInv p n s' := by
  obtain ⟨v, hw, -, -, rfl⟩ := poolStep_send h
  -- worker `j`'s value moves into `errCh`, and the worker quits
  have hdone := countP_done_set hw rfl .exited
  have hheld := perm_filterMap_set PoolWorker.workIndex? hw .exited
  have hsend := mem_sending_set hw .exited
  simp only [PoolWorker.done, PoolWorker.workIndex?, PoolWorker.sending?, Option.toList,
    List.append_nil, if_true, List.not_mem_nil, or_false, List.mem_singleton] at hdone hheld hsend
  have hv : v ∈ s.workers.filterMap PoolWorker.sending? := (hsend v).mp (.inr rfl)
  exact { hinv with
    workers_length := (List.length_set ..).trans hinv.workers_length
    handed := (hheld.append_left _).trans hinv.handed
    stops c hc hf := by
      refine ⟨(hinv.stops c hc hf).1, ?_⟩
      dsimp only
      by_cases hcj : j = c.1
      · rw [← hcj, List.getElem?_set_self (List.getElem?_eq_some_iff.mp hw).1]
        exact .inr rfl
      · rw [List.getElem?_set_ne hcj]
        exact (hinv.stops c hc hf).2
    reported e he := by
      rcases he with he | he | he
      · exact hinv.reported e (.inl he)
      · rcases List.mem_append.mp he with he | he
        · exact hinv.reported e (.inr (.inl he))
        · rw [← List.mem_singleton.mp he] at hv
          exact hinv.reported e (.inr (.inr hv))
      · exact hinv.reported e (.inr (.inr ((hsend (some e)).mp (.inl he))))
    failed c hc hf := by
      obtain ⟨e, he⟩ := hinv.failed c hc hf
      refine ⟨e, ?_⟩
      rcases he with he | he | he
      · exact .inl he
      · exact .inr (.inl (List.mem_append_left _ he))
      · rcases (hsend (some e)).mpr he with he | he
        · exact .inr (.inr he)
        · exact .inr (.inl (List.mem_append_right _ (List.mem_singleton.mpr he)))
    buffer_le := by
      dsimp only
      rw [hdone, List.length_append, List.length_singleton]
      exact Nat.add_le_add_right hinv.buffer_le 1
    dispatching hp := by
      obtain ⟨herr, hlen, hnil, hnil'⟩ := hinv.dispatching hp
      refine ⟨herr, ?_, ?_, fun hn => hnil' ((hsend none).mp (.inl hn))⟩
      · rw [hdone, List.length_append, List.length_singleton, hlen]
      · -- the value sent while the loop runs is an error
        intro hn
        rcases List.mem_append.mp hn with hn | hn
        · exact hnil hn
        · rw [← List.mem_singleton.mp hn] at hv
          exact hnil' hv
    exited h' := (hinv.not_done_of_returned hw rfl h').elim
    returned h' := (hinv.not_done_of_returned hw rfl (.inr h')).elim
  }

theorem wait (hinv : PoolInv p n s) (h : poolStep p n s .wait = some s') : PoolInv p n s' := by
  obtain ⟨hp, hall, rfl⟩ := poolStep_wait h
  exact { hinv with
    dispatching h' := by
      dsimp only at h'
      split at h' <;> cases h'
    closed := by
      dsimp only
      rw [Chan.close_closed]
      split <;> simp
    exited _ := hall
    loop_ended _ := hinv.loop_ended (by simp [hp])
    -- `Run` returns at once with the error it stopped at
    returned h' := by
      dsimp only at h'
      split at h'
      · exact .inl ‹_›
      · cases h'
  }

theorem drain (hinv : PoolInv p n s) (h : poolStep p n s .drain = some s') : PoolInv p n s' := by
  obtain ⟨hp, ⟨v, rest, hbuf, rfl⟩ | ⟨hbuf, hc, rfl⟩⟩ := poolStep_drain h
  · -- one value of the closed channel: an error replaces `err`, `nil` leaves it
    exact { hinv with
      reported e he := by
        have hmem : v ∈ s.errCh.buffer := by
          rw [hbuf]
          exact List.mem_cons_self ..
        rcases he with he | he | he
        · cases v with
          | some e' =>
            obtain rfl : e' = e := Option.some.inj he
            exact hinv.reported e' (.inr (.inl hmem))
          | none => exact hinv.reported e (.inl he)
        · exact hinv.reported e (.inr (.inl (by rw [hbuf]; exact List.mem_cons_of_mem _ he)))
        · exact hinv.reported e (.inr (.inr he))
      failed c hc hf := by
        obtain ⟨e, he⟩ := hinv.failed c hc hf
        rcases he with he | he | he
        · -- `err` stays an error
          obtain ⟨e', he'⟩ := Option.isSome_iff_exists.mp (show (v.or s.err).isSome by simp [he])
          exact ⟨e', .inl he'⟩
        · rw [hbuf] at he
          rcases List.mem_cons.mp he with he | he
          · exact ⟨e, .inl (by rw [← he]; rfl)⟩
          · exact ⟨e, .inr (.inl he)⟩
        · exact ⟨e, .inr (.inr he)⟩
      buffer_le := by
        have hle := hinv.buffer_le
        rw [hbuf, List.length_cons] at hle
        dsimp only
        omega
      dispatching h' := by simp [hp] at h'
      loop_ended h' := (hinv.loop_ended h').imp_right fun he => by simp [he]
      returned h' := by simp [hp] at h'
    }
  · -- the range ends: `Run` returns with `errCh` drained
    exact { hinv with
      dispatching h' := by simp at h'
      closed := by simp [hc]
      exited _ := hinv.exited (.inl hp)
      loop_ended _ := hinv.loop_ended (by simp [hp])
      returned _ := .inr hbuf
    }

theorem step (hinv : PoolInv p n s) {a : PoolAction} (h : poolStep p n s a = some s') :
    PoolInv p n s' := by
  cases a with
  | dispatch j => exact hinv.dispatch h
  | receive => exact hinv.receive h
  | close => exact hinv.close h
  | process j => exact hinv.process h
  | finish j => exact hinv.finish h
  | send j => exact hinv.send h
  | wait => exact hinv.wait h
  | drain => exact hinv.drain h

theorem of_reachable (hr : Reachable (poolStep p n) (PoolState.init p.Concurrency) s) :
    PoolInv p n s :=
  Reachable.invariant (PoolInv p n) (init p n) (fun _ _ _ hs h => hs.step h) hr

theorem index_lt (hinv : PoolInv p n s) {c : ℕ × ℕ} (hc : c ∈ s.calls) : c.2 < n := by
  have hmem : c.2 ∈ List.range s.i :=
    hinv.handed.subset (List.mem_append_left _ (List.mem_map_of_mem hc))
  exact Nat.lt_of_lt_of_le (List.mem_range.mp hmem) hinv.i_le

theorem nodup_calls (hinv : PoolInv p n s) : (s.calls.map Prod.snd).Nodup :=
  (hinv.handed.nodup_iff.mpr List.nodup_range).sublist (List.sublist_append_left _ _)

/-- Once every worker has quit, none holds an index or a value to send. -/
theorem filterMap_of_returned (hinv : PoolInv p n s)
    (hp : s.phase = .draining ∨ s.phase = .returned) {δ : Type*} (f : PoolWorker ε → Option δ)
    (hf : f .exited = none) : s.workers.filterMap f = [] := by
  rw [List.filterMap_eq_nil_iff]
  intro w hw
  have hd := hinv.exited hp w hw
  cases w with
  | exited => exact hf
  | _ => simp [PoolWorker.done] at hd

/-- `Run` returns `nil` exactly when every index was handed out and every call succeeded. -/
theorem err_eq_none_iff (hinv : PoolInv p n s) (hp : s.phase = .returned) :
    s.err = none ↔
      (∀ k < n, k ∈ s.calls.map Prod.snd) ∧ ∀ c ∈ s.calls, (p.Process c.2).2 = none := by
  have hsend := hinv.filterMap_of_returned (.inr hp) PoolWorker.sending? rfl
  constructor
  · intro herr
    -- the loop handed out every index, and no error was left behind
    have hi : n ≤ s.i := by
      rcases hinv.loop_ended (by simp [hp]) with h | h
      · exact h
      · simp [herr] at h
    have hheld := hinv.filterMap_of_returned (.inr hp) PoolWorker.workIndex? rfl
    refine ⟨fun k hk => ?_, fun c hc => ?_⟩
    · have hmem := hinv.handed.mem_iff.mpr (List.mem_range.mpr (Nat.lt_of_lt_of_le hk hi))
      rw [hheld, List.append_nil] at hmem
      exact hmem
    · by_contra hf
      obtain ⟨e, he⟩ := hinv.failed c hc (Option.isSome_iff_ne_none.mpr hf)
      have hbuf : s.errCh.buffer = [] := (hinv.returned hp).resolve_left (by simp [herr])
      rcases he with he | he | he
      · rw [herr] at he
        cases he
      · rw [hbuf] at he
        cases he
      · rw [hsend] at he
        cases he
  · rintro ⟨-, hok⟩
    -- an error returned came from a failed call
    cases herr : s.err with
    | none => rfl
    | some e =>
      obtain ⟨c, hc, hce⟩ := hinv.reported e (.inl herr)
      rw [hok c hc] at hce
      cases hce

end PoolInv

/-! ## Every schedule ends -/

/-- What a worker has left: a waiting worker may still take an index, and every worker sends
once. -/
def PoolWorker.cost : PoolWorker ε → ℕ
  | .waiting => 3
  | .processing _ => 4
  | .sending _ => 2
  | .exited => 0

/-- What `Run` has left, with `left` indexes still to hand out: each costs more than the call it
starts. -/
def PoolPhase.cost (left : ℕ) : PoolPhase → ℕ
  | .dispatching => 2 * left + 3
  | .waitGroup => 2
  | .draining => 1
  | .returned => 0

/-- A bound on what is left of a run of `Run(n)`; each value in `errCh` is received once. -/
def PoolState.cost (n : ℕ) (s : PoolState β ε) : ℕ :=
  s.phase.cost (n - s.i) + s.errCh.buffer.length + (s.workers.map PoolWorker.cost).sum

section Progress

variable {p : WorkerPool β ε} {n j : ℕ} {s s' : PoolState β ε} {a : PoolAction}

/-- Every step lowers the cost, from a state whose loop runs with `errCh` open. -/
theorem cost_lt_of_poolStep (hopen : s.phase = .dispatching → s.errCh.closed = false)
    (h : poolStep p n s a = some s') : s'.cost n < s.cost n := by
  cases a with
  | dispatch j =>
    obtain ⟨hp, hi, hw, rfl⟩ := poolStep_dispatch h
    have hset := sum_map_set PoolWorker.cost hw (.processing s.i)
    simp only [PoolState.cost, hp, PoolPhase.cost, PoolWorker.cost] at hset ⊢
    omega
  | receive =>
    obtain ⟨hp, -, ⟨v, rest, hbuf, rfl⟩ | ⟨-, hc, -⟩⟩ := poolStep_receive h
    · -- the value leaves `errCh`, and the loop ends or goes on
      have hphase : (if v.isSome then PoolPhase.waitGroup else .dispatching).cost (n - s.i) ≤
          PoolPhase.cost (n - s.i) .dispatching := by
        split
        · simp only [PoolPhase.cost]
          omega
        · exact Nat.le_refl _
      simp only [PoolState.cost, hp, hbuf, List.length_cons] at hphase ⊢
      omega
    · rw [hopen hp] at hc
      cases hc
  | close =>
    obtain ⟨hp, hle, rfl⟩ := poolStep_close h
    simp only [PoolState.cost, hp, PoolPhase.cost]
    omega
  | process j =>
    obtain ⟨k, hw, rfl⟩ := poolStep_process h
    -- the call returns: the worker goes back to wait, or to send its error
    have hset := sum_map_set PoolWorker.cost hw
      (if (p.Process k).2.isSome then .sending (p.Process k).2 else .waiting)
    have hy : (if (p.Process k).2.isSome then PoolWorker.sending (p.Process k).2
        else .waiting).cost ≤ 3 := by
      split
      · simp [PoolWorker.cost]
      · exact Nat.le_refl _
    have hx : (PoolWorker.processing k : PoolWorker ε).cost = 4 := rfl
    rw [hx] at hset
    simp only [PoolState.cost]
    omega
  | finish j =>
    obtain ⟨hw, -, rfl⟩ := poolStep_finish h
    have hset := sum_map_set PoolWorker.cost hw (.sending none)
    simp only [PoolState.cost, PoolWorker.cost] at hset ⊢
    omega
  | send j =>
    obtain ⟨v, hw, -, -, rfl⟩ := poolStep_send h
    have hset := sum_map_set PoolWorker.cost hw .exited
    simp only [PoolState.cost, PoolWorker.cost, List.length_append, List.length_singleton]
      at hset ⊢
    omega
  | wait =>
    obtain ⟨hp, -, rfl⟩ := poolStep_wait h
    have hphase : (if s.err.isSome then PoolPhase.returned else .draining).cost (n - s.i) ≤ 1 := by
      split
      · simp [PoolPhase.cost]
      · exact Nat.le_refl _
    simp only [PoolState.cost, hp, Chan.close_buffer, PoolPhase.cost] at hphase ⊢
    omega
  | drain =>
    obtain ⟨hp, ⟨v, rest, hbuf, rfl⟩ | ⟨-, -, rfl⟩⟩ := poolStep_drain h
    · simp only [PoolState.cost, hp, hbuf, List.length_cons]
      omega
    · simp only [PoolState.cost, hp, PoolPhase.cost]
      omega

/-- A worker that has not quit can move, once the loop has ended or while it can hand out an
index. -/
theorem exists_worker_step (hinv : PoolInv p n s) {w : PoolWorker ε}
    (hj : s.workers[j]? = some w) (hw : w.done = false)
    (hphase : s.phase = .waitGroup ∨ (s.phase = .dispatching ∧ s.i < n)) :
    ∃ a, (poolStep p n s a).isSome := by
  cases w with
  | waiting =>
    rcases hphase with hp | ⟨hp, hi⟩
    · exact ⟨.finish j, by simp [poolStep, hj, hp]⟩
    · exact ⟨.dispatch j, by simp [poolStep, hj, hp, hi]⟩
  | processing k => exact ⟨.process j, by simp [poolStep, hj]⟩
  | sending v =>
    -- `errCh` has room: only the workers that quit have sent on it
    have hcount : s.workers.countP PoolWorker.done < p.Concurrency := by
      rw [← hinv.workers_length]
      exact List.countP_lt_length_iff.mpr ⟨_, List.mem_of_getElem? hj, hw⟩
    have hlt : s.errCh.buffer.length < p.Concurrency :=
      Nat.lt_of_le_of_lt hinv.buffer_le hcount
    have hopen := hinv.errCh_open (hphase.imp_right And.left).symm
    exact ⟨.send j, by simp [poolStep, hj, Chan.send, hlt, hopen]⟩
  | exited => simp [PoolWorker.done] at hw

/-- With `Concurrency ≥ 1`, a state a run reaches has an enabled step until `Run` returns. -/
theorem poolStep_progress (hc : 1 ≤ p.Concurrency) (hinv : PoolInv p n s)
    (hp : s.phase ≠ .returned) : ∃ a, (poolStep p n s a).isSome := by
  have hworker (hphase : s.phase = .waitGroup ∨ (s.phase = .dispatching ∧ s.i < n))
      (hall : ¬∀ w ∈ s.workers, w.done = true) : ∃ a, (poolStep p n s a).isSome := by
    simp only [not_forall, Bool.not_eq_true] at hall
    obtain ⟨w, hw, hwd⟩ := hall
    obtain ⟨j, hj⟩ := List.mem_iff_getElem?.mp hw
    exact exists_worker_step hinv hj hwd hphase
  cases hph : s.phase with
  | dispatching =>
    by_cases hi : s.i < n
    · by_cases hall : ∀ w ∈ s.workers, w.done = true
      · -- every worker quit on an error, which waits in `errCh`
        obtain ⟨-, hlen, -, -⟩ := hinv.dispatching hph
        have hcount : s.workers.countP PoolWorker.done = p.Concurrency := by
          rw [List.countP_eq_length.mpr hall, hinv.workers_length]
        have hpos : 0 < s.errCh.buffer.length := by omega
        obtain ⟨v, rest, hbuf⟩ := List.exists_cons_of_length_pos hpos
        exact ⟨.receive, by simp [poolStep, hph, hi, Chan.recv, hbuf]⟩
      · exact hworker (.inr ⟨hph, hi⟩) hall
    · exact ⟨.close, by simp [poolStep, hph, Nat.le_of_not_lt hi]⟩
  | waitGroup =>
    by_cases hall : ∀ w ∈ s.workers, w.done = true
    · exact ⟨.wait, by simp [poolStep, hph, List.all_eq_true.mpr hall]⟩
    · exact hworker (.inl hph) hall
  | draining =>
    -- `errCh` is closed, so the range never blocks
    have hclosed := hinv.closed.mpr (.inl hph)
    have hrecv : s.errCh.recv.isSome := by
      rw [Option.isSome_iff_ne_none, Ne, Chan.recv_eq_none]
      simp [hclosed]
    exact ⟨.drain, by simpa [poolStep, hph] using hrecv⟩
  | returned => exact absurd hph hp

/-- Once `Run` has returned nothing is enabled: every worker has quit. -/
theorem poolStep_returned (hinv : PoolInv p n s) (hp : s.phase = .returned) (a : PoolAction) :
    poolStep p n s a = none := by
  have hexited (j : ℕ) : s.workers[j]? = none ∨ s.workers[j]? = some .exited := by
    cases hj : s.workers[j]? with
    | none => exact .inl rfl
    | some w =>
      have hw := hinv.exited (.inr hp) w (List.mem_of_getElem? hj)
      cases w with
      | exited => exact .inr rfl
      | _ => simp [PoolWorker.done] at hw
  cases a with
  | dispatch j => simp [poolStep, hp]
  | receive => simp [poolStep, hp]
  | close => simp [poolStep, hp]
  | process j => rcases hexited j with hj | hj <;> simp [poolStep, hj]
  | finish j => rcases hexited j with hj | hj <;> simp [poolStep, hj]
  | send j => rcases hexited j with hj | hj <;> simp [poolStep, hj]
  | wait => simp [poolStep, hp]
  | drain => simp [poolStep, hp]

end Progress

/-- For every `n`, `Concurrency ≥ 1` and outcome of `Process`, from every state a schedule of
`Run(n)` reaches: no run goes on for longer than the state's cost, and the state is stuck exactly
when `Run` has returned. `Process` is called only on indexes below `n`, never twice on one; each
worker's slot of `results` holds the result of its last call; an error `Run` holds came from a
call; and `Run` returns `nil` exactly when every index was called and every call succeeded. -/
theorem Run_spec {p : WorkerPool β ε} {n : ℕ} {s : PoolState β ε} (hc : 1 ≤ p.Concurrency)
    (hr : Reachable (poolStep p n) (PoolState.init p.Concurrency) s) :
    (∀ as s', run (poolStep p n) s as = some s' → as.length ≤ s.cost n) ∧
      (s.phase = .returned ↔ ∀ a, poolStep p n s a = none) ∧
      (∀ c ∈ s.calls, c.2 < n) ∧ (s.calls.map Prod.snd).Nodup ∧
      (∀ j < p.Concurrency,
        s.results[j]? = some ((lastCall s.calls j).bind fun c => (p.Process c.2).1)) ∧
      (∀ e, s.err = some e → ∃ c ∈ s.calls, (p.Process c.2).2 = some e) ∧
      (s.phase = .returned → (s.err = none ↔
        (∀ k < n, k ∈ s.calls.map Prod.snd) ∧ ∀ c ∈ s.calls, (p.Process c.2).2 = none)) := by
  have hinv := PoolInv.of_reachable hr
  refine ⟨fun as s' h => ?_, ⟨poolStep_returned hinv, fun hnone => ?_⟩,
    fun c hc => hinv.index_lt hc, hinv.nodup_calls, hinv.results,
    fun e he => hinv.reported e (.inl he), hinv.err_eq_none_iff⟩
  · have hle := run_length_add_le_of_inv (PoolInv p n) (PoolState.cost n)
      (fun _ _ _ hs h => hs.step h)
      (fun _ _ _ hs h => cost_lt_of_poolStep (fun hp => hs.errCh_open (.inl hp)) h) hinv h
    omega
  · by_contra hp
    obtain ⟨a, ha⟩ := poolStep_progress hc hinv hp
    rw [hnone a] at ha
    cases ha

end Ghostferry
