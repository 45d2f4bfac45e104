import Ghostferry.Lib.Machine
import Ghostferry.Lib.Cas
import Ghostferry.Cursor

/-!
# The ferry run on one table

A run of `Ferry` copies one source table to an empty target while the application keeps writing
to the source, as `ghostferry.tla` models it, for every table and every interleaving. Its
parties move by the actions of `Action`:

* the application writes a row, and MySQL appends the row event `(pk, old image, new image)`
  to the binlog in the same step;
* `DataIterator.Run` reads `MaxPrimaryKeys` (after `Ferry.Start` read the binlog position, which
  is where `binlog` starts), and then runs the passes of `Cursor.Each`, each copying one page of
  rows with `BatchWriter.WriteRowBatch` (`INSERT IGNORE`) while the rows stay locked;
* the `BinlogStreamer` hands the next row event to the `BinlogWriter`, which applies it as the
  statement that `AsSQLString` builds: a conditional write of the new image where the target
  row is the old image (`Cas.cas`);
* at cutover the application stops writing, `FlushAndStop` records the binlog's end, and the
  streamer exits once it has streamed up to that position.

`target_eq_source_of_complete` proves that a run that has completed leaves the target equal to
the source at every primary key from `1` on. A row with primary key `0` is never copied: the
cursor starts at `lastSuccessfulPrimaryKey = 0` and selects `pk > 0`
(`complete_target_ne_source`).
-/

namespace Ghostferry

open Keyset Cas Machine

/-- A row event of the source binlog: the row's primary key and its images before and after the
write, `none` where there is no row (before an insert, after a delete). -/
structure BinlogRecord (R : Type*) where
  /-- The primary key of the row written. -/
  pk : ℕ
  /-- The row before the write. -/
  old : Option R
  /-- The row after the write. -/
  new : Option R
  deriving DecidableEq

/-- The event as a keyed conditional write. -/
def BinlogRecord.write {R : Type*} (r : BinlogRecord R) : ℕ × Option R × Option R :=
  (r.pk, r.old, r.new)

/-- How far the data iterator is with the table. -/
inductive Iteration where
  /-- `MaxPrimaryKeys` has not been read yet. -/
  | waiting
  /-- `Cursor.Each` runs with `MaxPrimaryKey = maxPk` at `lastSuccessfulPrimaryKey = last`. -/
  | copying (maxPk last : ℕ)
  /-- The table is in `CompletedTables`. -/
  | completed
  /-- `Cursor.Each` returned an error. -/
  | failed
  deriving DecidableEq

/-- The state of a ferry run on one table. -/
structure FerryState (R : Type*) where
  /-- The source table. -/
  source : KTable R
  /-- The target table. -/
  target : ℕ → Option R
  /-- The source binlog from the position that `Ferry.Start` read. -/
  binlog : List (BinlogRecord R)
  /-- `lastStreamedBinlogPosition`: the number of events streamed and applied. -/
  streamed : ℕ
  /-- The data iterator's progress. -/
  iteration : Iteration
  /-- The application has stopped writing (cutover). -/
  readonly : Bool
  /-- `targetBinlogPosition` once `FlushAndStop` has set `stopRequested`. -/
  stopAt : Option ℕ

/-- The actions of a run. -/
inductive Action (R : Type*) where
  /-- The application writes the row `new` at primary key `pk` (`none` deletes it). -/
  | write (pk : ℕ) (new : Option R)
  /-- `DataIterator.Run` reads `MaxPrimaryKeys`. -/
  | readMaxPk
  /-- One pass of `Cursor.Each`, with `BatchWriter.WriteRowBatch` as the batch listener. -/
  | copyBatch
  /-- The streamer hands the next event to the `BinlogWriter`, which applies it. -/
  | stream
  /-- Cutover: the application stops writing. -/
  | setReadonly
  /-- `FlushAndStop` records the binlog's current end and sets `stopRequested`. -/
  | flushAndStop

variable {R : Type*}

/-- `WriteRowBatch` of a batch of the source's rows at the keys `pks`: `INSERT IGNORE` adds a
row only where the target has none with its key. -/
def insertIgnore (target src : ℕ → Option R) (pks : List ℕ) : ℕ → Option R :=
  pks.foldl (fun t k => Function.update t k ((t k).or (src k))) target

theorem insertIgnore_apply (target src : ℕ → Option R) (pks : List ℕ) (k : ℕ) :
    insertIgnore target src pks k = if k ∈ pks then (target k).or (src k) else target k := by
  induction pks generalizing target with
  | nil => simp [insertIgnore]
  | cons j pks ih =>
    simp only [insertIgnore, List.foldl_cons] at ih ⊢
    rw [ih]
    by_cases hkj : k = j
    · -- A second row with the same key is ignored, as the first one now holds it.
      subst hkj
      cases target k <;> cases src k <;> simp
    · simp [hkj]

/-- The streamer's loop guard, `!stopRequested || lastStreamedBinlogPosition < target`. -/
def streaming (s : FerryState R) : Bool :=
  match s.stopAt with
  | none => true
  | some t => s.streamed < t

/-- The start of a run: the source as it is when `Ferry.Start` reads the binlog position, and an
empty target. -/
def FerryState.init (source : KTable R) : FerryState R where
  source := source
  target := fun _ => none
  binlog := []
  streamed := 0
  iteration := .waiting
  readonly := false
  stopAt := none

/-- A completed run: the table is in `CompletedTables`, `FlushAndStop` has recorded its target
position, and the streamer has exited, having streamed up to it. -/
def FerryState.Complete (s : FerryState R) : Prop :=
  s.iteration = .completed ∧ ∃ t, s.stopAt = some t ∧ t ≤ s.streamed

/-! ## The events of one key -/

/-- The writes of key `k` among the events `b`, in binlog order. -/
def writesAt (b : List (BinlogRecord R)) (k : ℕ) : List (Option R × Option R) :=
  writesOf (b.map BinlogRecord.write) k

/-- The events of key `k` that the streamer has applied. -/
def FerryState.applied (s : FerryState R) (k : ℕ) : List (Option R × Option R) :=
  writesAt (s.binlog.take s.streamed) k

/-- The events of key `k` that the streamer has yet to apply. -/
def FerryState.pending (s : FerryState R) (k : ℕ) : List (Option R × Option R) :=
  writesAt (s.binlog.drop s.streamed) k

theorem writesAt_append (b b' : List (BinlogRecord R)) (k : ℕ) :
    writesAt (b ++ b') k = writesAt b k ++ writesAt b' k := by
  simp [writesAt, writesOf_append]

theorem writesAt_singleton (r : BinlogRecord R) (k : ℕ) :
    writesAt [r] k = if r.pk = k then [(r.old, r.new)] else [] := by
  by_cases h : r.pk = k <;> simp [writesAt, writesOf, BinlogRecord.write, h]

theorem applied_append_pending (s : FerryState R) (k : ℕ) :
    s.applied k ++ s.pending k = writesAt s.binlog k := by
  rw [FerryState.applied, FerryState.pending, ← writesAt_append, List.take_append_drop]

/-! ## Steps -/

section Steps

variable [DecidableEq R]

/-- One step of a run, with the data iterator's `BatchSize` `batchSize`; `none` when the action
is not enabled. -/
def step (batchSize : ℕ) (s : FerryState R) : Action R → Option (FerryState R)
  | .write pk new =>
    -- A write that changes nothing (deleting a missing row) leaves no event.
    if s.readonly = false ∧ (s.source.rows pk ≠ none ∨ new ≠ none) then
      some { s with
        source := s.source.set pk new
        binlog := s.binlog ++ [⟨pk, s.source.rows pk, new⟩] }
    else none
  | .readMaxPk =>
    if s.iteration = .waiting then
      -- An empty table is marked completed without a cursor.
      some { s with
        iteration := match s.source.maxKey? with
          | none => .completed
          | some m => .copying m 0 }
    else none
  | .copyBatch =>
    match s.iteration with
    | .copying maxPk last =>
      let pks := DefaultBuildSelect s.source last batchSize
      match pass maxPk last pks with
      | .exit => some { s with iteration := .completed }
      | .fail _ => some { s with iteration := .failed }
      | .advance pkpos =>
        some { s with
          target := insertIgnore s.target s.source.rows pks
          iteration := .copying maxPk pkpos }
    | _ => none
  | .stream =>
    match s.binlog[s.streamed]? with
    | some r =>
      if streaming s then
        some { s with
          target := Function.update s.target r.pk (cas r.old r.new (s.target r.pk))
          streamed := s.streamed + 1 }
      else none
    | none => none
  | .setReadonly => if s.readonly = false then some { s with readonly := true } else none
  | .flushAndStop =>
    if s.readonly = true ∧ s.stopAt = none then
      some { s with stopAt := some s.binlog.length }
    else none

/-! ### What each action does -/

variable {bs : ℕ} {s s' : FerryState R}

theorem step_write {pk : ℕ} {new : Option R} (h : step bs s (.write pk new) = some s') :
    s.readonly = false ∧ s' = { s with
      source := s.source.set pk new
      binlog := s.binlog ++ [⟨pk, s.source.rows pk, new⟩] } := by
  simp only [step] at h
  split_ifs at h with hc
  cases h
  simpa using hc.1

theorem step_readMaxPk (h : step bs s .readMaxPk = some s') :
    s.iteration = .waiting ∧ s' = { s with
      iteration := match s.source.maxKey? with
        | none => .completed
        | some m => .copying m 0 } := by
  simp only [step] at h
  split_ifs at h with hc
  cases h
  exact ⟨hc, rfl⟩

theorem step_copyBatch (h : step bs s .copyBatch = some s') :
    ∃ maxPk last, s.iteration = .copying maxPk last ∧
      ((pass maxPk last (DefaultBuildSelect s.source last bs) = .exit ∧
          s' = { s with iteration := .completed }) ∨
        (∃ err, pass maxPk last (DefaultBuildSelect s.source last bs) = .fail err) ∨
        (∃ pkpos, pass maxPk last (DefaultBuildSelect s.source last bs) = .advance pkpos ∧
          s' = { s with
            target := insertIgnore s.target s.source.rows (DefaultBuildSelect s.source last bs)
            iteration := .copying maxPk pkpos })) := by
  simp only [step] at h
  split at h
  · rename_i maxPk last hit
    refine ⟨maxPk, last, hit, ?_⟩
    split at h
    · cases h
      exact .inl ⟨by assumption, rfl⟩
    · exact .inr (.inl ⟨_, by assumption⟩)
    · cases h
      exact .inr (.inr ⟨_, by assumption, rfl⟩)
  · cases h

theorem step_stream (h : step bs s .stream = some s') :
    ∃ r, s.binlog[s.streamed]? = some r ∧ s' = { s with
      target := Function.update s.target r.pk (cas r.old r.new (s.target r.pk))
      streamed := s.streamed + 1 } := by
  simp only [step] at h
  split at h
  · rename_i r hr
    split_ifs at h
    cases h
    exact ⟨r, hr, rfl⟩
  · cases h

theorem step_setReadonly (h : step bs s .setReadonly = some s') :
    s' = { s with readonly := true } := by
  simp only [step] at h
  split_ifs at h
  cases h
  rfl

theorem step_flushAndStop (h : step bs s .flushAndStop = some s') :
    s.readonly = true ∧ s.stopAt = none ∧ s' = { s with stopAt := some s.binlog.length } := by
  simp only [step] at h
  split_ifs at h with hc
  cases h
  exact ⟨hc.1, hc.2, rfl⟩

end Steps

/-! ## The invariant -/

section Invariant

variable (init : ℕ → Option R)

/-- The source row at `k` has existed at every moment since the run started. -/
def PresentThroughout (s : FerryState R) (k : ℕ) : Prop :=
  ∀ x ∈ values (init k) (writesAt s.binlog k), x.isSome

/-- The cursor has not passed `k` yet. -/
def FerryState.Uncovered (s : FerryState R) (k : ℕ) : Prop :=
  s.iteration = .waiting ∨ ∃ maxPk last, s.iteration = .copying maxPk last ∧ last < k

/-- The target row at `k` is one of the values the source row takes from the streamer's
position on: in step with the streamer, or ahead of it and waiting for it at a later value. Or
it is still missing: no event applied so far wrote it from nothing, and when the source row has
existed throughout, the cursor has yet to copy it. -/
def KeyInv (s : FerryState R) (k : ℕ) : Prop :=
  s.target k ∈ values (final (init k) (s.applied k)) (s.pending k) ∨
    (s.target k = none ∧ (∀ w ∈ s.applied k, w.1.isSome) ∧
      (PresentThroughout init s k → s.Uncovered k))

/-- The invariant of a run from a source whose rows were `init`. -/
structure Inv (s : FerryState R) : Prop where
  /-- The events of each key form a chain from its first row. -/
  chain : ∀ k, Chain (init k) (writesAt s.binlog k)
  /-- The source row is where its chain ends. -/
  source : ∀ k, s.source.rows k = final (init k) (writesAt s.binlog k)
  streamed_le : s.streamed ≤ s.binlog.length
  /-- `FlushAndStop` runs after cutover, so its position stays the binlog's end. -/
  stopAt : ∀ t, s.stopAt = some t → s.readonly = true ∧ t = s.binlog.length
  /-- `MaxPrimaryKeys` bounds every key whose row has existed throughout. -/
  cursor : ∀ maxPk last, s.iteration = .copying maxPk last →
    ∀ k, PresentThroughout init s k → k ≤ maxPk
  key : ∀ k, 1 ≤ k → KeyInv init s k

variable {init}

theorem present_of_presentThroughout {s : FerryState R} {k : ℕ} (hi : Inv init s)
    (hp : PresentThroughout init s k) : (s.source.rows k).isSome := by
  rw [hi.source k]
  exact hp _ (final_mem_values _ _)

/-- A target row in step with the streamer or waiting for it holds one of the chain's values
from the current one on; the source row is the last of them. -/
theorem source_mem_values {s : FerryState R} {k : ℕ} (hi : Inv init s) :
    s.source.rows k ∈ values (final (init k) (s.applied k)) (s.pending k) := by
  rw [hi.source k, ← applied_append_pending, final_append]
  exact final_mem_values _ _

theorem Inv.initial (source : KTable R) : Inv source.rows (FerryState.init source) where
  chain k := chain_nil _
  source k := rfl
  streamed_le := le_refl _
  stopAt t h := by cases h
  cursor maxPk last h := by cases h
  key k _ := .inr ⟨rfl, by simp [FerryState.applied, writesAt, FerryState.init], fun _ => .inl rfl⟩

/-- A target row that the invariant keeps missing stays missing: the row the cursor copies there
is the source row, which is one of the chain's values from the streamer's position on. -/
theorem or_source_mem_values {s : FerryState R} {k : ℕ} (hi : Inv init s) (hk : 1 ≤ k) :
    (s.target k).or (s.source.rows k) ∈ values (final (init k) (s.applied k)) (s.pending k) := by
  cases htk : s.target k with
  | none => exact source_mem_values hi
  | some x =>
    rcases hi.key k hk with hv | ⟨hnone, -⟩
    · rw [htk] at hv
      exact hv
    · rw [htk] at hnone
      cases hnone

theorem lt_of_uncovered {s : FerryState R} {k maxPk last : ℕ} (hc : s.Uncovered k)
    (hit : s.iteration = .copying maxPk last) : last < k := by
  rcases hc with hw | ⟨m, l, hml, hlt⟩
  · rw [hit] at hw
    cases hw
  · rw [hit] at hml
    cases hml
    exact hlt

/-- Frame rule of a key's invariant: a step that leaves the binlog, the streamer's position and
the target row alone keeps it, as long as it keeps uncovered a missing row that has existed
throughout. -/
theorem KeyInv.frame {s s' : FerryState R} {k : ℕ} (hk : KeyInv init s k)
    (hbinlog : s'.binlog = s.binlog) (hstreamed : s'.streamed = s.streamed)
    (htarget : s'.target k = s.target k)
    (hcov : s.target k = none → PresentThroughout init s k → s.Uncovered k → s'.Uncovered k) :
    KeyInv init s' k := by
  have happ : s'.applied k = s.applied k := by
    rw [FerryState.applied, FerryState.applied, hbinlog, hstreamed]
  have hpend : s'.pending k = s.pending k := by
    rw [FerryState.pending, FerryState.pending, hbinlog, hstreamed]
  have hpt : PresentThroughout init s' k ↔ PresentThroughout init s k := by
    rw [PresentThroughout, PresentThroughout, hbinlog]
  unfold KeyInv
  rw [happ, hpend, htarget, hpt]
  rcases hk with hv | ⟨hnone, hold, hcov'⟩
  · exact .inl hv
  · exact .inr ⟨hnone, hold, fun hp => hcov hnone hp (hcov' hp)⟩

end Invariant

/-! ## Every action keeps the invariant -/

section Preservation

variable [DecidableEq R] {bs : ℕ} {init : ℕ → Option R} {s s' : FerryState R}

/-- An application write appends one event to the chain of the key it writes, from the source row
it overwrites; the streamer's position stays where it was. -/
theorem Inv.write {pk : ℕ} {new : Option R} (hi : Inv init s)
    (h : step bs s (.write pk new) = some s') : Inv init s' := by
  obtain ⟨hro, rfl⟩ := step_write h
  set r : BinlogRecord R := ⟨pk, s.source.rows pk, new⟩ with hr
  have hw (k : ℕ) : writesAt (s.binlog ++ [r]) k = writesAt s.binlog k ++ writesAt [r] k :=
    writesAt_append _ _ k
  have hpt (k : ℕ) (hp : ∀ x ∈ values (init k) (writesAt (s.binlog ++ [r]) k), x.isSome) :
      PresentThroughout init s k := fun x hx => hp x (by rw [hw]; exact mem_values_append _ hx)
  -- The streamer has not reached the new event.
  have happ (k : ℕ) : writesAt ((s.binlog ++ [r]).take s.streamed) k = s.applied k := by
    rw [List.take_append_of_le_length hi.streamed_le]
    rfl
  have hpend (k : ℕ) :
      writesAt ((s.binlog ++ [r]).drop s.streamed) k = s.pending k ++ writesAt [r] k := by
    rw [List.drop_append_of_le_length hi.streamed_le, writesAt_append]
    rfl
  refine ⟨fun k => ?_, fun k => ?_, ?_, fun t ht => ?_, fun maxPk last hit k hp => ?_,
    fun k hk => ?_⟩
  · -- The chain of `pk` continues from the row the write replaces.
    show Chain (init k) (writesAt (s.binlog ++ [r]) k)
    rw [hw, chain_append, writesAt_singleton]
    refine ⟨hi.chain k, ?_⟩
    split_ifs with hk
    · subst hk
      exact ⟨hi.source _, trivial⟩
    · trivial
  · show Function.update s.source.rows pk new k = final (init k) (writesAt (s.binlog ++ [r]) k)
    rw [hw, final_append, ← hi.source k, writesAt_singleton]
    by_cases hk : k = pk
    · subst hk
      simp [hr]
    · simp [Function.update_of_ne hk, hr, Ne.symm hk]
  · show s.streamed ≤ (s.binlog ++ [r]).length
    simp only [List.length_append]
    exact Nat.le_succ_of_le hi.streamed_le
  · -- No position is recorded before cutover, and the application writes only before it.
    have := (hi.stopAt t ht).1
    rw [hro] at this
    cases this
  · exact hi.cursor maxPk last hit k (hpt k hp)
  · rcases hi.key k hk with hv | ⟨hnone, hold, hcov⟩
    · refine .inl ?_
      show s.target k ∈ values (final (init k) (writesAt ((s.binlog ++ [r]).take s.streamed) k))
        (writesAt ((s.binlog ++ [r]).drop s.streamed) k)
      rw [happ, hpend]
      exact mem_values_append _ hv
    · refine .inr ⟨hnone, ?_, fun hp => hcov (hpt k hp)⟩
      show ∀ w ∈ writesAt ((s.binlog ++ [r]).take s.streamed) k, w.1.isSome
      rw [happ]
      exact hold

/-- Reading `MaxPrimaryKeys` bounds every row that has existed throughout, since it exists now;
an empty table has no such row. -/
theorem Inv.readMaxPk (hi : Inv init s) (h : step bs s .readMaxPk = some s') : Inv init s' := by
  obtain ⟨-, rfl⟩ := step_readMaxPk h
  refine ⟨hi.chain, hi.source, hi.streamed_le, hi.stopAt, fun maxPk last hit k hp => ?_,
    fun k hk => ?_⟩
  · simp only at hit
    split at hit
    · cases hit
    · rename_i m hm
      cases hit
      exact KTable.le_of_maxKey?_eq_some hm (present_of_presentThroughout hi hp)
  · refine (hi.key k hk).frame rfl rfl rfl fun _ hp _ => ?_
    have hsome := present_of_presentThroughout hi hp
    show _ ∨ ∃ maxPk last, (match s.source.maxKey? with
      | none => Iteration.completed
      | some m => Iteration.copying m 0) = .copying maxPk last ∧ last < k
    cases hm : s.source.maxKey? with
    | none =>
      rw [KTable.maxKey?_eq_none.mp hm k] at hsome
      cases hsome
    | some m => exact .inr ⟨m, 0, rfl, hk⟩

/-- One pass of the cursor. When it ends the iteration, no row that has existed throughout is
left above the cursor: the cursor reached `MaxPrimaryKey`, which bounds them, or the page was
empty. When it advances, it copies every row up to the new cursor that the target misses. -/
theorem Inv.copyBatch (hbs : 0 < bs) (hi : Inv init s) (h : step bs s .copyBatch = some s') :
    Inv init s' := by
  obtain ⟨maxPk, last, hit, ⟨hpass, rfl⟩ | ⟨err, hfail⟩ | ⟨pkpos, hadv, rfl⟩⟩ := step_copyBatch h
  · refine ⟨hi.chain, hi.source, hi.streamed_le, hi.stopAt, (fun _ _ hc => by cases hc),
      fun k hk => ?_⟩
    refine (hi.key k hk).frame rfl rfl rfl fun _ hp hcov => ?_
    exfalso
    have hlt := lt_of_uncovered hcov hit
    have hle := hi.cursor maxPk last hit k hp
    rcases pass_eq_exit_iff.mp hpass with hmax | hnil
    · omega
    · have hkey := s.source.mem_keys_iff.mpr (present_of_presentThroughout hi hp)
      have := (page_eq_nil_iff hbs).mp hnil k hkey
      omega
  · exact absurd hfail (pass_defaultBuildSelect_ne_fail err)
  · refine ⟨hi.chain, hi.source, hi.streamed_le, hi.stopAt, fun m l hc => ?_, fun k hk => ?_⟩
    · cases hc
      exact hi.cursor _ _ hit
    · by_cases hmem : k ∈ DefaultBuildSelect s.source last bs
      · show KeyInv init { s with
          target := insertIgnore s.target s.source.rows (DefaultBuildSelect s.source last bs)
          iteration := .copying maxPk pkpos } k
        unfold KeyInv
        simp only [FerryState.applied, FerryState.pending]
        rw [insertIgnore_apply, if_pos hmem]
        exact .inl (or_source_mem_values hi hk)
      · -- A key the page does not hold keeps its target row.
        have htarget : insertIgnore s.target s.source.rows (DefaultBuildSelect s.source last bs) k =
            s.target k := by
          rw [insertIgnore_apply, if_neg hmem]
        refine (hi.key k hk).frame rfl rfl htarget fun _ hp hcov => .inr ⟨maxPk, pkpos, rfl, ?_⟩
        -- A row between the old and the new cursor is in the page, so it was copied.
        by_contra hle
        exact hmem (mem_defaultBuildSelect_of_advance hadv
          (present_of_presentThroughout hi hp) (lt_of_uncovered hcov hit) (by omega))

/-- The streamer applies the event at its position. For the event's key, the target row moves
along the chain (`cas_mem_values`), or, still missing, is written by an insert and otherwise stays
missing; no other key changes. -/
theorem Inv.stream (hi : Inv init s) (h : step bs s .stream = some s') : Inv init s' := by
  obtain ⟨r, hr, rfl⟩ := step_stream h
  have hlt : s.streamed < s.binlog.length := (List.getElem?_eq_some_iff.mp hr).1
  have hget : s.binlog[s.streamed] = r := (List.getElem?_eq_some_iff.mp hr).2
  -- The event moves from the pending events to the applied ones.
  have happ (k : ℕ) :
      writesAt (s.binlog.take (s.streamed + 1)) k = s.applied k ++ writesAt [r] k := by
    rw [List.take_succ_eq_append_getElem hlt, hget, writesAt_append]
    rfl
  have hpend (k : ℕ) :
      s.pending k = writesAt [r] k ++ writesAt (s.binlog.drop (s.streamed + 1)) k := by
    rw [FerryState.pending, List.drop_eq_getElem_cons hlt, hget, ← writesAt_append]
    rfl
  refine ⟨hi.chain, hi.source, hlt, hi.stopAt, hi.cursor, fun k hk => ?_⟩
  show KeyInv init { s with
    target := Function.update s.target r.pk (cas r.old r.new (s.target r.pk))
    streamed := s.streamed + 1 } k
  unfold KeyInv
  simp only [FerryState.applied, FerryState.pending]
  rw [happ]
  by_cases hk' : r.pk = k
  · subst hk'
    rw [Function.update_self, writesAt_singleton, if_pos rfl, final_append]
    have hpk := hpend r.pk
    rw [writesAt_singleton, if_pos rfl, List.singleton_append] at hpk
    -- The chain of `k` from the streamer's position starts with this event.
    have hchain : Chain (final (init r.pk) (s.applied r.pk))
        ((r.old, r.new) :: writesAt (s.binlog.drop (s.streamed + 1)) r.pk) := by
      have := hi.chain r.pk
      rw [← applied_append_pending, chain_append, hpk] at this
      exact this.2
    rcases hi.key r.pk hk with hv | ⟨hnone, hold, hcov⟩
    · rw [hpk] at hv
      exact .inl (cas_mem_values hchain hv)
    · rw [hnone]
      by_cases ho : r.old = none
      · -- An insert writes the missing row.
        rw [ho, cas_self]
        exact .inl List.mem_cons_self
      · -- An update or a delete finds no row and changes nothing.
        rw [cas_of_ne (Ne.symm ho)]
        refine .inr ⟨rfl, fun w hw => ?_, hcov⟩
        rcases List.mem_append.mp hw with hw | hw
        · exact hold w hw
        · rw [List.mem_singleton] at hw
          rw [hw]
          exact Option.ne_none_iff_isSome.mp ho
  · rw [Function.update_of_ne (Ne.symm hk'), writesAt_singleton, if_neg hk', List.append_nil]
    have hpk := hpend k
    rw [writesAt_singleton, if_neg hk', List.nil_append] at hpk
    rw [← hpk]
    exact hi.key k hk

theorem Inv.setReadonly (hi : Inv init s) (h : step bs s .setReadonly = some s') :
    Inv init s' := by
  rw [step_setReadonly h]
  exact ⟨hi.chain, hi.source, hi.streamed_le, fun t ht => ⟨rfl, (hi.stopAt t ht).2⟩, hi.cursor,
    hi.key⟩

/-- `FlushAndStop` runs after cutover, so the position it records is the binlog's final end. -/
theorem Inv.flushAndStop (hi : Inv init s) (h : step bs s .flushAndStop = some s') :
    Inv init s' := by
  obtain ⟨hro, -, rfl⟩ := step_flushAndStop h
  refine ⟨hi.chain, hi.source, hi.streamed_le, fun t ht => ?_, hi.cursor, hi.key⟩
  cases ht
  exact ⟨hro, rfl⟩

/-- Every action keeps the invariant. -/
theorem Inv.step (hbs : 0 < bs) (hi : Inv init s) {a : Action R} (h : step bs s a = some s') :
    Inv init s' := by
  cases a with
  | write pk new => exact hi.write h
  | readMaxPk => exact hi.readMaxPk h
  | copyBatch => exact hi.copyBatch hbs h
  | stream => exact hi.stream h
  | setReadonly => exact hi.setReadonly h
  | flushAndStop => exact hi.flushAndStop h

end Preservation

/-! ## Convergence -/

section Convergence

variable [DecidableEq R] {bs : ℕ}

/-- Every state of a run from an empty target keeps the invariant. -/
theorem reachable_inv (hbs : 0 < bs) {source : KTable R} {s : FerryState R}
    (h : Reachable (step bs) (FerryState.init source) s) : Inv source.rows s :=
  h.invariant (Inv source.rows) (Inv.initial source) fun _ _ _ hi ha => hi.step hbs ha

omit [DecidableEq R] in
/-- A completed run has streamed the whole binlog: the application stopped before `FlushAndStop`
recorded its end, and the streamer exited only once it reached it. -/
theorem streamed_eq_of_complete {init : ℕ → Option R} {s : FerryState R} (hi : Inv init s)
    (hc : s.Complete) : s.streamed = s.binlog.length := by
  obtain ⟨-, t, hst, hle⟩ := hc
  obtain ⟨-, rfl⟩ := hi.stopAt t hst
  exact le_antisymm hi.streamed_le hle

/-- A completed run leaves the target equal to the source at every primary key from `1` on. The
target row is either in step with the source row or missing; a missing row was never written by
an event from nothing, and the cursor, which finished, would have copied it had it existed
throughout, so its chain ends without a row. -/
theorem target_eq_source_of_complete (hbs : 0 < bs) (source : KTable R) (s : FerryState R)
    (hs : Reachable (step bs) (FerryState.init source) s) (hc : s.Complete) (k : ℕ)
    (hk : 1 ≤ k) : s.target k = s.source.rows k := by
  have hi := reachable_inv hbs hs
  have hall := streamed_eq_of_complete hi hc
  have hpend : s.pending k = [] := by
    simp [FerryState.pending, hall, writesAt]
  have happ : s.applied k = writesAt s.binlog k := by
    rw [← applied_append_pending, hpend, List.append_nil]
  rcases hi.key k hk with hv | ⟨hnone, hold, hcov⟩
  · rw [hpend, values_nil, List.mem_singleton, happ] at hv
    rw [hv, hi.source k]
  · have hnp : ¬ PresentThroughout source.rows s k := by
      intro hp
      rcases hcov hp with hw | ⟨_, _, hcopy, _⟩
      · rw [hc.1] at hw
        cases hw
      · rw [hc.1] at hcopy
        cases hcopy
    rw [hnone, hi.source k]
    by_contra hne
    rw [happ] at hold
    exact hnp (values_isSome (hi.chain k) hold (Option.ne_none_iff_isSome.mp (Ne.symm hne)))

/-- A source table with one row, at primary key `1`. -/
def oneRow : KTable Unit := KTable.empty.set 1 (some ())

/-- The run that copies `oneRow`: read `MaxPrimaryKeys`, copy a page, reach `MaxPrimaryKey`, then
cut over. -/
def oneRowCopied : FerryState Unit :=
  runD (step 1) (FerryState.init oneRow)
    [.readMaxPk, .copyBatch, .copyBatch, .setReadonly, .flushAndStop]

theorem oneRowCopied_target :
    0 < 1 ∧ Reachable (step 1) (FerryState.init oneRow) oneRowCopied ∧ oneRowCopied.Complete ∧
      1 ≤ 1 ∧ oneRowCopied.target 1 = oneRowCopied.source.rows 1 := by
  have hr : Reachable (step 1) (FerryState.init oneRow) oneRowCopied := Reachable.runD (by decide)
  have hc : oneRowCopied.Complete := ⟨by decide, 0, by decide, Nat.zero_le _⟩
  exact ⟨by decide, hr, hc, le_refl 1,
    target_eq_source_of_complete (by decide) oneRow oneRowCopied hr hc 1 (le_refl 1)⟩

/-- A source table with one row, at primary key `0`. -/
def zeroRow : KTable Unit := KTable.empty.set 0 (some ())

/-- The run on `zeroRow`: `MaxPrimaryKey` is `0`, so the cursor's loop never starts. -/
def zeroRowRun : FerryState Unit :=
  runD (step 1) (FerryState.init zeroRow) [.readMaxPk, .copyBatch, .setReadonly, .flushAndStop]

/-- A completed run can leave the target without the source's row at primary key `0`. -/
theorem complete_target_ne_source :
    Reachable (step 1) (FerryState.init zeroRow) zeroRowRun ∧ zeroRowRun.Complete ∧
      zeroRowRun.target 0 ≠ zeroRowRun.source.rows 0 :=
  ⟨Reachable.runD (by decide), ⟨by decide, 0, by decide, Nat.zero_le _⟩, by decide⟩

end Convergence

end Ghostferry
