import Ghostferry.Cursor
import Ghostferry.Lib.Assoc
import Ghostferry.Lib.Machine

/-!
# The data iterator

`DataIterator.Run` of `data_iterator.go` copies the tables of `Tables`. It reads each table's
largest primary key (`MaxPrimaryKeys`), marks the empty tables completed, records the others'
targets in its `DataIteratorState`, and sends the tables with data on the unbuffered channel
`tablesQueue` to `Concurrency` goroutines. Each goroutine runs `Cursor.Each` with
`DefaultBuildSelect` on every table it receives. It calls the batch listeners with each batch,
records the batch's last key as the table's last successful one, and marks the table completed.
Once every goroutine has returned, `Run` calls the done listeners.

The model is a step function over the interleavings of these goroutines and of the application,
which may write to the source (`iteratorStep`). The state maps are keyed by `table.String()`, the
tables themselves by their index in `Tables`, as the Go code keys `tablesWithData` by pointer.
`start` is `MaxPrimaryKeys` and the two loops that follow it; it runs before any goroutine
starts. A `pass` is one pass of the loop of `Cursor.Each`, with the batch listeners and
`UpdateLastSuccessfulPK`. The listeners accept every batch: a listener's error, like any error of
`Run`, goes to `ErrorHandler.Fatal`, which panics and ends the program. The logs `handed` and
`batches` record what the goroutines received and what the listeners were called with.

What each action does is stated once, in the lemmas `iteratorStep_*`, and the proofs about runs
use those lemmas rather than the step function.
-/

namespace Ghostferry

open Keyset Machine Assoc

variable {R : Type*}

/-! ## The source -/

/-- A table of `Tables` as the source holds it: `table.String()`, and the rows, whose primary key
is a `BIGINT UNSIGNED`, so every key is below `2^64`. -/
structure SourceTable (R : Type*) where
  name : String
  rows : KTable R
  keys_lt : ∀ k ∈ rows.keys, k < 2 ^ 64

/-- The application writes the row at `pk`, or deletes it with `none`. -/
def SourceTable.set (t : SourceTable R) (pk : UInt64) (v : Option R) : SourceTable R where
  name := t.name
  rows := t.rows.set pk.toNat v
  keys_lt := by
    intro k hk
    simp only [KTable.set] at hk
    split_ifs at hk
    · rcases Finset.mem_insert.mp hk with rfl | hk
      · exact UInt64.toNat_lt pk
      · exact t.keys_lt k hk
    · exact t.keys_lt k (Finset.mem_of_mem_erase hk)

/-- `maxPk`: the key `SELECT pk ... ORDER BY pk DESC LIMIT 1` reads, or `none` when the query
finds no row. -/
def maxPk (table : SourceTable R) : Option UInt64 := table.rows.maxKey?.map UInt64.ofNat

/-- `MaxPrimaryKeys`: the tables with data, by their index in `tables`, with their largest key,
and the empty tables. -/
def MaxPrimaryKeys (tables : List (SourceTable R)) : List (ℕ × UInt64) × List ℕ :=
  tables.zipIdx.foldl (fun acc e =>
    match maxPk e.1 with
    | some m => (acc.1 ++ [(e.2, m)], acc.2)
    | none => (acc.1, acc.2 ++ [e.2])) ([], [])

/-! ## The iterator's state -/

/-- `DataIteratorState`, its maps keyed by `table.String()`. Of `copySpeedLog` the model keeps
the position of the ring's current entry, the running total of the keys copied: the older entries
and the times only feed the speed estimate. -/
structure DataIteratorState where
  targetPrimaryKeys : List (String × UInt64)
  lastSuccessfulPrimaryKeys : List (String × UInt64)
  completedTables : List (String × Bool)
  copySpeedLog : UInt64
  deriving DecidableEq, Repr

def newDataIteratorState : DataIteratorState := ⟨[], [], [], 0⟩

def DataIteratorState.UpdateTargetPK (this : DataIteratorState) (table : String) (pk : UInt64) :
    DataIteratorState :=
  { this with targetPrimaryKeys := set this.targetPrimaryKeys table pk }

/-- The delta from the table's last successful key, which a missing key reads as `0`, is added
to the running total, both in `uint64`. -/
def DataIteratorState.UpdateLastSuccessfulPK (this : DataIteratorState) (table : String)
    (pk : UInt64) : DataIteratorState :=
  let deltaPK := pk - (this.lastSuccessfulPrimaryKeys.lookup table).getD 0
  { this with
    lastSuccessfulPrimaryKeys := set this.lastSuccessfulPrimaryKeys table pk
    copySpeedLog := this.copySpeedLog + deltaPK }

def DataIteratorState.MarkTableAsCompleted (this : DataIteratorState) (table : String) :
    DataIteratorState :=
  { this with completedTables := set this.completedTables table true }

section StateUpdates

variable (this : DataIteratorState) (table : String) (pk : UInt64)

@[simp]
theorem UpdateTargetPK_targetPrimaryKeys :
    (this.UpdateTargetPK table pk).targetPrimaryKeys = set this.targetPrimaryKeys table pk := rfl

@[simp]
theorem UpdateTargetPK_lastSuccessfulPrimaryKeys :
    (this.UpdateTargetPK table pk).lastSuccessfulPrimaryKeys = this.lastSuccessfulPrimaryKeys := rfl

@[simp]
theorem UpdateTargetPK_completedTables :
    (this.UpdateTargetPK table pk).completedTables = this.completedTables := rfl

@[simp]
theorem UpdateLastSuccessfulPK_targetPrimaryKeys :
    (this.UpdateLastSuccessfulPK table pk).targetPrimaryKeys = this.targetPrimaryKeys := rfl

@[simp]
theorem UpdateLastSuccessfulPK_lastSuccessfulPrimaryKeys :
    (this.UpdateLastSuccessfulPK table pk).lastSuccessfulPrimaryKeys =
      set this.lastSuccessfulPrimaryKeys table pk := rfl

@[simp]
theorem UpdateLastSuccessfulPK_completedTables :
    (this.UpdateLastSuccessfulPK table pk).completedTables = this.completedTables := rfl

@[simp]
theorem MarkTableAsCompleted_targetPrimaryKeys :
    (this.MarkTableAsCompleted table).targetPrimaryKeys = this.targetPrimaryKeys := rfl

@[simp]
theorem MarkTableAsCompleted_lastSuccessfulPrimaryKeys :
    (this.MarkTableAsCompleted table).lastSuccessfulPrimaryKeys =
      this.lastSuccessfulPrimaryKeys := rfl

@[simp]
theorem MarkTableAsCompleted_completedTables :
    (this.MarkTableAsCompleted table).completedTables = set this.completedTables table true := rfl

end StateUpdates

/-- The loop over the empty tables writes the completed map only. -/
theorem foldl_MarkTableAsCompleted (name : ℕ → String) (tables : List ℕ)
    (st : DataIteratorState) :
    tables.foldl (fun st i => st.MarkTableAsCompleted (name i)) st =
      { st with
        completedTables := tables.foldl (fun m i => set m (name i) true) st.completedTables } := by
  induction tables generalizing st with
  | nil => rfl
  | cons i tables ih => exact ih _

/-- The loop over the tables with data writes the targets only. -/
theorem foldl_UpdateTargetPK (name : ℕ → String) (pk : ℕ → UInt64) (tables : List ℕ)
    (st : DataIteratorState) :
    tables.foldl (fun st i => st.UpdateTargetPK (name i) (pk i)) st =
      { st with
        targetPrimaryKeys :=
          tables.foldl (fun m i => set m (name i) (pk i)) st.targetPrimaryKeys } := by
  induction tables generalizing st with
  | nil => rfl
  | cons i tables ih => exact ih _

/-- A goroutine of `Run` that iterates tables. -/
inductive Worker where
  /-- Waiting on `tablesQueue`. -/
  | idle
  /-- Running `Cursor.Each` on the table `table` with its `MaxPrimaryKey`, at
  `lastSuccessfulPrimaryKey = last`. -/
  | iterating (table MaxPrimaryKey last : ℕ)
  /-- Returned, after `tablesQueue` was closed. -/
  | exited
  deriving DecidableEq, Repr

/-- Where the goroutine that calls `Run` is. -/
inductive RunPhase where
  /-- Before `MaxPrimaryKeys`. -/
  | starting
  /-- Sending the tables with data on `tablesQueue`. -/
  | queueing
  /-- `tablesQueue` is closed; in `wg.Wait()`. -/
  | waiting
  /-- The done listeners have run, and `Run` has returned. -/
  | done
  deriving DecidableEq, Repr

structure IteratorState (R : Type*) where
  /-- The tables of `Tables` as the source holds them. -/
  source : List (SourceTable R)
  phase : RunPhase
  /-- The result of `MaxPrimaryKeys`, a map keyed by table. -/
  tablesWithData : List (ℕ × UInt64)
  /-- The tables with data not sent on `tablesQueue` yet. -/
  unsent : List ℕ
  workers : List Worker
  CurrentState : DataIteratorState
  /-- Every send on `tablesQueue`: the table, and the goroutine that received it. -/
  handed : List (ℕ × ℕ)
  /-- Every call of the batch listeners: the table, and the batch's rows with their keys. -/
  batches : List (ℕ × List (ℕ × Option R))

/-- The start of `Run` on the tables `source`. -/
def IteratorState.init (source : List (SourceTable R)) : IteratorState R where
  source := source
  phase := .starting
  tablesWithData := []
  unsent := []
  workers := []
  CurrentState := newDataIteratorState
  handed := []
  batches := []

/-- `table.String()` of the table with index `i`. -/
def IteratorState.tableName (s : IteratorState R) (i : ℕ) : String :=
  ((s.source[i]?).map SourceTable.name).getD ""

/-- The steps of a run. -/
inductive IteratorAction (R : Type*) where
  /-- `MaxPrimaryKeys`, the empty tables marked completed, the targets set in the order `order`
  that `range tablesWithData` visits them in, and the goroutines started. -/
  | start (order : List ℕ)
  /-- `tablesQueue <- table`, received by the idle goroutine `worker`. -/
  | send (table worker : ℕ)
  /-- `close(tablesQueue)`. -/
  | close
  /-- One pass of the loop of `Cursor.Each` in the goroutine `worker`. -/
  | pass (worker : ℕ)
  /-- The idle goroutine `worker` finds `tablesQueue` closed and returns. -/
  | exit (worker : ℕ)
  /-- `wg.Wait()` returns and the done listeners run. -/
  | wait
  /-- The application writes the row `row` at `pk` of the table `table`. -/
  | write (table : ℕ) (pk : UInt64) (row : Option R)

def IteratorAction.isWrite : IteratorAction R → Bool
  | .write .. => true
  | _ => false

/-- One step of `Run`, with `Concurrency` goroutines and the cursors' `BatchSize`; `none` when the
action is not enabled. -/
def iteratorStep (Concurrency BatchSize : ℕ) (s : IteratorState R) :
    IteratorAction R → Option (IteratorState R)
  | .start order =>
    let maxPks := MaxPrimaryKeys s.source
    if s.phase = .starting ∧ order.Perm (maxPks.1.map Prod.fst) then
      let st := maxPks.2.foldl (fun st i => st.MarkTableAsCompleted (s.tableName i))
        s.CurrentState
      let st := order.foldl
        (fun st i => st.UpdateTargetPK (s.tableName i) ((maxPks.1.lookup i).getD 0)) st
      some { s with
        phase := .queueing
        tablesWithData := maxPks.1
        unsent := maxPks.1.map Prod.fst
        workers := List.replicate Concurrency .idle
        CurrentState := st }
    else none
  | .send i w =>
    if s.phase = .queueing ∧ i ∈ s.unsent ∧ s.workers[w]? = some .idle then
      -- the goroutine makes its cursor with the target recorded under the table's name
      let MaxPrimaryKey := ((s.CurrentState.targetPrimaryKeys.lookup (s.tableName i)).getD 0).toNat
      some { s with
        unsent := s.unsent.erase i
        workers := s.workers.set w (.iterating i MaxPrimaryKey 0)
        handed := s.handed ++ [(i, w)] }
    else none
  | .close => if s.phase = .queueing ∧ s.unsent = [] then some { s with phase := .waiting } else none
  | .pass w =>
    match s.workers[w]? with
    | some (.iterating i MaxPrimaryKey last) =>
      match s.source[i]? with
      | some t =>
        let batch := defaultFetch t.rows BatchSize last
        match pass MaxPrimaryKey last (batch.map Prod.fst) with
        | .exit =>
          some { s with
            workers := s.workers.set w .idle
            CurrentState := s.CurrentState.MarkTableAsCompleted t.name }
        -- `Each` returns an error, and `Fatal` panics
        | .fail _ => none
        | .advance pkpos =>
          some { s with
            workers := s.workers.set w (.iterating i MaxPrimaryKey pkpos)
            CurrentState := s.CurrentState.UpdateLastSuccessfulPK t.name (UInt64.ofNat pkpos)
            batches := s.batches ++ [(i, batch)] }
      | none => none
    | _ => none
  | .exit w =>
    if s.phase = .waiting ∧ s.workers[w]? = some .idle then
      some { s with workers := s.workers.set w .exited }
    else none
  | .wait =>
    if s.phase = .waiting ∧ ∀ w ∈ s.workers, w = .exited then some { s with phase := .done }
    else none
  | .write i pk row => (s.source[i]?).map fun t => { s with source := s.source.set i (t.set pk row) }

/-! ## `MaxPrimaryKeys` -/

/-- A `filterMap` that keeps `g a` or nothing of each `a` is a sublist of the map by `g`. -/
theorem filterMap_sublist_map {α β : Type*} {f : α → Option β} {g : α → β}
    (h : ∀ a b, f a = some b → b = g a) (l : List α) : (l.filterMap f).Sublist (l.map g) := by
  induction l with
  | nil => exact List.Sublist.slnil
  | cons a l ih =>
    rw [List.filterMap_cons, List.map_cons]
    cases hfa : f a with
    | none => exact ih.cons _
    | some b => exact (h a b hfa) ▸ ih.cons_cons _

/-- The loop of `MaxPrimaryKeys` splits the tables by their largest key. -/
theorem MaxPrimaryKeys_eq (tables : List (SourceTable R)) :
    MaxPrimaryKeys tables =
      (tables.zipIdx.filterMap fun e => (maxPk e.1).map (e.2, ·),
        tables.zipIdx.filterMap fun e => if maxPk e.1 = none then some e.2 else none) := by
  -- the loop appends to both lists as it walks the tables
  suffices h : ∀ (l : List (SourceTable R × ℕ)) (a : List (ℕ × UInt64)) (b : List ℕ),
      l.foldl (fun acc e =>
        match maxPk e.1 with
        | some m => (acc.1 ++ [(e.2, m)], acc.2)
        | none => (acc.1, acc.2 ++ [e.2])) (a, b) =
      (a ++ l.filterMap fun e => (maxPk e.1).map (e.2, ·),
        b ++ l.filterMap fun e => if maxPk e.1 = none then some e.2 else none) by
    unfold MaxPrimaryKeys
    simpa using h tables.zipIdx [] []
  intro l
  induction l with
  | nil => simp
  | cons e l ih =>
    intro a b
    rw [List.foldl_cons]
    cases hm : maxPk e.1 <;> simp [hm, ih]

theorem mem_MaxPrimaryKeys_fst {tables : List (SourceTable R)} {i : ℕ} {m : UInt64} :
    (i, m) ∈ (MaxPrimaryKeys tables).1 ↔ ∃ t, tables[i]? = some t ∧ maxPk t = some m := by
  rw [MaxPrimaryKeys_eq, List.mem_filterMap]
  constructor
  · rintro ⟨e, he, hm⟩
    obtain ⟨m', hm', heq⟩ := Option.map_eq_some_iff.mp hm
    obtain ⟨rfl, rfl⟩ := Prod.mk.inj heq
    exact ⟨e.1, List.mem_zipIdx_iff_getElem?.mp he, hm'⟩
  · rintro ⟨t, ht, hm⟩
    exact ⟨(t, i), List.mem_zipIdx_iff_getElem?.mpr ht, by simp [hm]⟩

theorem mem_MaxPrimaryKeys_snd {tables : List (SourceTable R)} {i : ℕ} :
    i ∈ (MaxPrimaryKeys tables).2 ↔ ∃ t, tables[i]? = some t ∧ maxPk t = none := by
  rw [MaxPrimaryKeys_eq, List.mem_filterMap]
  constructor
  · rintro ⟨e, he, hm⟩
    split_ifs at hm with hnone
    obtain rfl := Option.some.inj hm
    exact ⟨e.1, List.mem_zipIdx_iff_getElem?.mp he, hnone⟩
  · rintro ⟨t, ht, hm⟩
    exact ⟨(t, i), List.mem_zipIdx_iff_getElem?.mpr ht, by simp [hm]⟩

/-- `tablesWithData` is a map: each table once. -/
theorem nodup_MaxPrimaryKeys (tables : List (SourceTable R)) :
    ((MaxPrimaryKeys tables).1.map Prod.fst).Nodup := by
  rw [MaxPrimaryKeys_eq, List.map_filterMap]
  refine (filterMap_sublist_map (g := Prod.snd) (fun e b h => ?_) _).nodup ?_
  · simp only [Option.map_map, Option.map_eq_some_iff, Function.comp_apply] at h
    obtain ⟨_, -, rfl⟩ := h
    rfl
  · rw [List.zipIdx_map_snd]
    exact List.nodup_range'

section Steps

variable {c bs : ℕ} {s s' : IteratorState R}

theorem iteratorStep_start {order : List ℕ} (h : iteratorStep c bs s (.start order) = some s') :
    s.phase = .starting ∧ order.Perm ((MaxPrimaryKeys s.source).1.map Prod.fst) ∧
      s' = { s with
        phase := .queueing
        tablesWithData := (MaxPrimaryKeys s.source).1
        unsent := (MaxPrimaryKeys s.source).1.map Prod.fst
        workers := List.replicate c .idle
        CurrentState := order.foldl (fun st i => st.UpdateTargetPK (s.tableName i)
            (((MaxPrimaryKeys s.source).1.lookup i).getD 0))
          ((MaxPrimaryKeys s.source).2.foldl
            (fun st i => st.MarkTableAsCompleted (s.tableName i)) s.CurrentState) } := by
  simp only [iteratorStep] at h
  split_ifs at h with hc
  cases h
  exact ⟨hc.1, hc.2, rfl⟩

theorem iteratorStep_send {i w : ℕ} (h : iteratorStep c bs s (.send i w) = some s') :
    s.phase = .queueing ∧ i ∈ s.unsent ∧ s.workers[w]? = some .idle ∧
      s' = { s with
        unsent := s.unsent.erase i
        workers := s.workers.set w (.iterating i
          ((s.CurrentState.targetPrimaryKeys.lookup (s.tableName i)).getD 0).toNat 0)
        handed := s.handed ++ [(i, w)] } := by
  simp only [iteratorStep] at h
  split_ifs at h with hc
  cases h
  exact ⟨hc.1, hc.2.1, hc.2.2, rfl⟩

theorem iteratorStep_close (h : iteratorStep c bs s .close = some s') :
    s.phase = .queueing ∧ s.unsent = [] ∧ s' = { s with phase := .waiting } := by
  simp only [iteratorStep] at h
  split_ifs at h with hc
  cases h
  exact ⟨hc.1, hc.2, rfl⟩

/-- A pass reads one keyset page of the table at the cursor, and either ends the table or hands
the page to the listeners and moves the cursor to its last key. -/
theorem iteratorStep_pass {w : ℕ} (h : iteratorStep c bs s (.pass w) = some s') :
    ∃ i M last t, s.workers[w]? = some (.iterating i M last) ∧ s.source[i]? = some t ∧
      ((pass M last (Keyset.page t.rows.keys last bs) = .exit ∧
          s' = { s with
            workers := s.workers.set w .idle
            CurrentState := s.CurrentState.MarkTableAsCompleted t.name }) ∨
        ∃ pkpos, pass M last (Keyset.page t.rows.keys last bs) = .advance pkpos ∧
          s' = { s with
            workers := s.workers.set w (.iterating i M pkpos)
            CurrentState := s.CurrentState.UpdateLastSuccessfulPK t.name (UInt64.ofNat pkpos)
            batches := s.batches ++
              [(i, (Keyset.page t.rows.keys last bs).map fun k => (k, t.rows.rows k))] }) := by
  simp only [iteratorStep] at h
  split at h
  · rename_i i M last hw
    split at h
    · rename_i t ht
      refine ⟨i, M, last, t, hw, ht, ?_⟩
      -- the batch is the page with its rows
      have hpks : (defaultFetch t.rows bs last).map Prod.fst = Keyset.page t.rows.keys last bs :=
        map_fst_map_pair _
      split at h
      · rename_i hexit
        cases h
        exact .inl ⟨hpks ▸ hexit, rfl⟩
      · cases h
      · rename_i pkpos hadv
        cases h
        exact .inr ⟨pkpos, hpks ▸ hadv, rfl⟩
    · cases h
  · cases h

theorem iteratorStep_exit {w : ℕ} (h : iteratorStep c bs s (.exit w) = some s') :
    s.phase = .waiting ∧ s.workers[w]? = some .idle ∧
      s' = { s with workers := s.workers.set w .exited } := by
  simp only [iteratorStep] at h
  split_ifs at h with hc
  cases h
  exact ⟨hc.1, hc.2, rfl⟩

theorem iteratorStep_wait (h : iteratorStep c bs s .wait = some s') :
    s.phase = .waiting ∧ (∀ w ∈ s.workers, w = .exited) ∧ s' = { s with phase := .done } := by
  simp only [iteratorStep] at h
  split_ifs at h with hc
  cases h
  exact ⟨hc.1, hc.2, rfl⟩

theorem iteratorStep_write {i : ℕ} {pk : UInt64} {row : Option R}
    (h : iteratorStep c bs s (.write i pk row) = some s') :
    ∃ t, s.source[i]? = some t ∧ s' = { s with source := s.source.set i (t.set pk row) } := by
  simp only [iteratorStep, Option.map_eq_some_iff] at h
  obtain ⟨t, ht, rfl⟩ := h
  exact ⟨t, ht, rfl⟩

end Steps

end Ghostferry
