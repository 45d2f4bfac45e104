import Ghostferry.Lib.Machine
import Ghostferry.Lib.Keyset

/-!
# The iterative verifier

The `IterativeVerifier` checks the copy in two stages. `VerifyBeforeCutover` attaches
`binlogEventListener` to the streamer, scans the source table (`iterateAllTables`) and puts every
pk whose fingerprints differ into the `ReverifyStore`, then runs `reverifyUntilStoreIsSmallEnough`:
each round flushes the store into batches (`FlushAndBatchByTable`) and compares every pk of them
again, putting back the ones that still differ. Meanwhile every binlog event puts its pk into the
store. `VerifyDuringCutover`, once writes have stopped, flushes and compares the store one last
time, and a mismatch there is a failure.

The model is one table, source and target as maps from pk to row, with fingerprints equal exactly
when rows are. A source write hands its event to the `BinlogWriter`'s buffer and, once the listener
is attached, puts the pk into the store. A target write takes an event out of the buffer and
writes the target's row at its pk, with any value: the writer may apply it wrongly, which is
what the verifier is there to catch. Each comparison of a batch is a step of its own, so the
writes may interleave with them as the worker goroutines allow. The scan is one step.

A pk leaves the store after one comparison that matches, whether or not the writer still holds
events for it. `verifier_passes_with_faulty_target` is a run that exploits this: the source row
goes from `1` to `2` and back, the comparison in between finds both sides at `1`, and the
writer then applies the second event wrongly; cutover verification passes with the rows
different. `source_eq_target_of_passed` shows what does hold: on the runs where no pk is compared
while an event for it waits in the buffer, and where the scan starts with the buffer applied and
no target row outside the source's, a cutover verification that passes leaves the tables equal.
-/

namespace Ghostferry

open Keyset Machine

/-- Where the verifier is. -/
inductive VerifierPhase where
  /-- Before `VerifyBeforeCutover`: the listener is not attached. -/
  | idle
  /-- `VerifyBeforeCutover` has attached the listener and not yet scanned the table. -/
  | scanning
  /-- The rounds of `reverifyUntilStoreIsSmallEnough`. -/
  | reverifying
  /-- `beforeCutoverVerifyDone`, before the cutover. -/
  | waitingForCutover
  /-- `VerifyDuringCutover`: writes have stopped, and a mismatch is a failure. -/
  | duringCutover
  deriving DecidableEq, Repr

/-- The tables, the writer's buffer and the verifier's state. -/
structure VerifierState (R : Type) where
  source : KTable R
  target : KTable R
  /-- The events the `BinlogWriter` has received and not applied: each pk and its new row. -/
  buffer : List (ℕ × Option R)
  phase : VerifierPhase
  reverifyStore : Finset ℕ
  /-- The pks `FlushAndBatchByTable` has handed to the workers and they have not compared yet. -/
  batches : Finset ℕ
  /-- A comparison during cutover found a mismatch. -/
  failed : Bool

/-- The steps of a run. -/
inductive VerifierAction (R : Type) where
  /-- An application write at the source, and the delivery of its event. -/
  | sourceWrite (pk : ℕ) (row : Option R)
  /-- The writer applies the `i`-th buffered event, writing `row`. -/
  | targetWrite (i : ℕ) (row : Option R)
  | verifyBeforeCutover
  | iterateAllTables
  | flushAndBatchByTable
  /-- The comparison of one pk of a batch. -/
  | reverifyPk (pk : ℕ)
  | beforeCutoverVerifyDone
  | verifyDuringCutover

namespace VerifierState

variable {R : Type}

/-- The state before the verifier starts, with the writer's buffer empty. -/
def init (source target : KTable R) : VerifierState R :=
  ⟨source, target, [], .idle, ∅, ∅, false⟩

/-- `VerifyDuringCutover` has compared every pk of its store and found no mismatch. -/
def Passed (s : VerifierState R) : Prop :=
  s.phase = .duringCutover ∧ s.reverifyStore = ∅ ∧ s.batches = ∅ ∧ s.failed = false

instance (s : VerifierState R) : Decidable s.Passed :=
  inferInstanceAs (Decidable (_ ∧ _ ∧ _ ∧ _))

end VerifierState

section Step

variable {R : Type} [DecidableEq R]

/-- `binlogEventListener`: once attached, every event puts its pk into the store. -/
def binlogEventListener (phase : VerifierPhase) (reverifyStore : Finset ℕ) (pk : ℕ) : Finset ℕ :=
  if phase = .idle then reverifyStore else insert pk reverifyStore

/-- The pks of the scan whose fingerprints differ. -/
def mismatchedPks (source target : KTable R) : Finset ℕ :=
  source.keys.filter fun pk => source.rows pk ≠ target.rows pk

/-- One step of a run; `none` where the step is not enabled. -/
def verifierStep (s : VerifierState R) : VerifierAction R → Option (VerifierState R)
  | .sourceWrite pk row =>
    -- the listener refuses events once cutover verification has started
    if s.phase = .duringCutover then none
    else some { s with
      source := s.source.set pk row
      buffer := s.buffer ++ [(pk, row)]
      reverifyStore := binlogEventListener s.phase s.reverifyStore pk }
  | .targetWrite i row =>
    match s.buffer[i]? with
    | some (pk, _) =>
      if s.phase = .duringCutover then none
      else some { s with target := s.target.set pk row, buffer := s.buffer.eraseIdx i }
    | none => none
  | .verifyBeforeCutover => if s.phase = .idle then some { s with phase := .scanning } else none
  | .iterateAllTables =>
    if s.phase = .scanning then
      some { s with
        reverifyStore := s.reverifyStore ∪ mismatchedPks s.source s.target
        phase := .reverifying }
    else none
  | .flushAndBatchByTable =>
    if (s.phase = .reverifying ∨ s.phase = .duringCutover) ∧ s.batches = ∅ then
      some { s with batches := s.reverifyStore, reverifyStore := ∅ }
    else none
  | .reverifyPk pk =>
    if pk ∈ s.batches then
      if s.source.rows pk = s.target.rows pk then some { s with batches := s.batches.erase pk }
      -- before cutover a mismatch may come from writes still under way: the pk goes back
      else if s.phase = .duringCutover then
        some { s with batches := s.batches.erase pk, failed := true }
      else
        some { s with
          batches := s.batches.erase pk
          reverifyStore := insert pk s.reverifyStore }
    else none
  | .beforeCutoverVerifyDone =>
    if s.phase = .reverifying ∧ s.batches = ∅ then some { s with phase := .waitingForCutover }
    else none
  | .verifyDuringCutover =>
    if s.phase = .waitingForCutover then some { s with phase := .duringCutover } else none

end Step

/-! ## A faulty write that cutover verification misses -/

/-- One row, `1` at pk `1`. -/
def abaTable : KTable ℕ := KTable.empty.set 1 (some 1)

/-- The source row goes to `2` and back to `1`; the round compares pk `1` while both events wait
in the writer's buffer; the writer applies the first and then writes `2` for the second. -/
def abaRun : VerifierState ℕ :=
  runD verifierStep (VerifierState.init abaTable abaTable)
    [.verifyBeforeCutover, .iterateAllTables, .sourceWrite 1 (some 2), .sourceWrite 1 (some 1),
      .flushAndBatchByTable, .reverifyPk 1, .beforeCutoverVerifyDone, .targetWrite 0 (some 2),
      .targetWrite 0 (some 2), .verifyDuringCutover]

theorem verifier_passes_with_faulty_target :
    Reachable verifierStep (VerifierState.init abaTable abaTable) abaRun ∧ abaRun.Passed ∧
      abaRun.source.rows 1 ≠ abaRun.target.rows 1 :=
  ⟨Reachable.runD (by decide), by decide, by decide⟩

/-! ## Soundness on the runs where the writer keeps up -/

namespace VerifierState

variable {R : Type}

/-- The writer holds an event for `pk` that it has not applied. -/
def Buffered (s : VerifierState R) (pk : ℕ) : Prop := ∃ e ∈ s.buffer, e.1 = pk

/-- `pk` needs a check: its rows differ, or an event for it waits in the writer's buffer. -/
def Dirty (s : VerifierState R) (pk : ℕ) : Prop :=
  s.source.rows pk ≠ s.target.rows pk ∨ s.Buffered pk

/-- `pk` will be compared again, or a comparison has already failed. -/
def Pending (s : VerifierState R) (pk : ℕ) : Prop :=
  pk ∈ s.reverifyStore ∨ pk ∈ s.batches ∨ s.failed = true

/-- The scan is done. -/
def Scanned (s : VerifierState R) : Prop := s.phase ≠ .idle ∧ s.phase ≠ .scanning

theorem Pending.mono {s s' : VerifierState R} {pk : ℕ} (h : s.Pending pk)
    (hstore : pk ∈ s.reverifyStore → pk ∈ s'.reverifyStore)
    (hbatches : pk ∈ s.batches → pk ∈ s'.batches)
    (hfailed : s.failed = true → s'.failed = true) : s'.Pending pk := by
  rcases h with h | h | h
  · exact .inl (hstore h)
  · exact .inr (.inl (hbatches h))
  · exact .inr (.inr (hfailed h))

end VerifierState

section Soundness

variable {R : Type} [DecidableEq R]

open VerifierState

/-- The verifier's invariant: once the scan is done, every pk that needs a check will get one. -/
def VerifierInv (s : VerifierState R) : Prop := s.Scanned → ∀ pk, s.Dirty pk → s.Pending pk

/-- The interleavings the documented guarantee needs: the scan starts with the writer's buffer
applied and no target row where the source has none, and no pk is compared while an event for
it waits in the buffer. -/
def Drained (s : VerifierState R) : VerifierAction R → Prop
  | .iterateAllTables => s.buffer = [] ∧ s.target.keys ⊆ s.source.keys
  | .reverifyPk pk => ∀ e ∈ s.buffer, e.1 ≠ pk
  | _ => True

instance (s : VerifierState R) (a : VerifierAction R) : Decidable (Drained s a) := by
  cases a <;> unfold Drained <;> infer_instance

variable {s s' : VerifierState R}

theorem VerifierInv.sourceWrite {pk : ℕ} {row : Option R} (hs : VerifierInv s)
    (h : verifierStep s (.sourceWrite pk row) = some s') : VerifierInv s' := by
  simp only [verifierStep] at h
  split_ifs at h with hcut
  obtain rfl := Option.some.inj h
  intro hsc k hk
  have hsc' : s.Scanned := hsc
  by_cases hkp : k = pk
  · -- the listener is attached, and the written pk goes into the store
    subst hkp
    exact .inl (by simp [binlogEventListener, hsc'.1])
  · have hdirty : s.Dirty k := by
      rcases hk with hk | ⟨e, he, hek⟩
      · exact .inl (by simpa [Function.update_of_ne hkp] using hk)
      · rw [List.mem_append, List.mem_singleton] at he
        rcases he with he | rfl
        · exact .inr ⟨e, he, hek⟩
        · exact absurd hek.symm hkp
    refine (hs hsc' k hdirty).mono (fun hk => ?_) id id
    unfold binlogEventListener
    split
    · exact hk
    · exact Finset.mem_insert_of_mem hk

theorem VerifierInv.targetWrite {i : ℕ} {row : Option R} (hs : VerifierInv s)
    (h : verifierStep s (.targetWrite i row) = some s') : VerifierInv s' := by
  simp only [verifierStep] at h
  split at h
  · rename_i pk r hget
    split_ifs at h with hcut
    obtain rfl := Option.some.inj h
    intro hsc k hk
    -- the written pk had an event in the buffer, so it was already due for a check
    have hdirty : s.Dirty k := by
      by_cases hkp : k = pk
      · subst hkp
        exact .inr ⟨(k, r), List.mem_of_getElem? hget, rfl⟩
      · rcases hk with hk | ⟨e, he, hek⟩
        · exact .inl (by simpa [Function.update_of_ne hkp] using hk)
        · exact .inr ⟨e, List.mem_of_mem_eraseIdx he, hek⟩
    exact hs hsc k hdirty
  · cases h

theorem VerifierInv.iterateAllTables (hd : Drained s .iterateAllTables)
    (h : verifierStep s .iterateAllTables = some s') : VerifierInv s' := by
  simp only [verifierStep] at h
  split_ifs at h with hph
  obtain rfl := Option.some.inj h
  intro _ k hk
  -- the buffer is empty, so a dirty pk has rows that differ
  have hne : s.source.rows k ≠ s.target.rows k := by
    rcases hk with hk | ⟨e, he, -⟩
    · exact hk
    · simp [hd.1] at he
  -- and the source has a row there, since the target has none the source lacks
  have hkey : k ∈ s.source.keys := by
    rw [s.source.mem_keys_iff]
    by_contra hnone
    have hsnone : s.source.rows k = none := by simpa using hnone
    have htk : k ∈ s.target.keys := by
      rw [s.target.mem_keys_iff, ← Option.ne_none_iff_isSome]
      rw [hsnone] at hne
      exact Ne.symm hne
    exact hnone (s.source.mem_keys_iff.mp (hd.2 htk))
  exact .inl (Finset.mem_union_right _ (Finset.mem_filter.mpr ⟨hkey, hne⟩))

theorem VerifierInv.flushAndBatchByTable (hs : VerifierInv s)
    (h : verifierStep s .flushAndBatchByTable = some s') : VerifierInv s' := by
  simp only [verifierStep] at h
  split_ifs at h with hph
  obtain rfl := Option.some.inj h
  intro hsc k hk
  -- the store becomes the batches, which were empty
  rcases hs hsc k hk with hk | hk | hk
  · exact .inr (.inl hk)
  · simp [hph.2] at hk
  · exact .inr (.inr hk)

theorem VerifierInv.reverifyPk {pk : ℕ} (hs : VerifierInv s) (hd : Drained s (.reverifyPk pk))
    (h : verifierStep s (.reverifyPk pk) = some s') : VerifierInv s' := by
  simp only [verifierStep] at h
  split_ifs at h with hmem heq hcut
  all_goals
    obtain rfl := Option.some.inj h
    intro hsc k hk
  · -- a match: the compared pk is clean, as no event for it waits in the buffer
    have hkp : k ≠ pk := by
      rintro rfl
      rcases hk with hk | ⟨e, he, hek⟩
      · exact hk heq
      · exact hd e he hek
    exact (hs hsc k hk).mono id (fun hb => Finset.mem_erase.mpr ⟨hkp, hb⟩) id
  · exact .inr (.inr rfl)
  · by_cases hkp : k = pk
    · exact .inl (by simp [hkp])
    · exact (hs hsc k hk).mono (Finset.mem_insert_of_mem ·)
        (fun hb => Finset.mem_erase.mpr ⟨hkp, hb⟩) id

/-- The steps that only move the phase keep the invariant: the scan is not done before
`iterateAllTables`, and it stays done. -/
theorem VerifierInv.phase {a : VerifierAction R} (hs : VerifierInv s)
    (ha : a = .verifyBeforeCutover ∨ a = .beforeCutoverVerifyDone ∨ a = .verifyDuringCutover)
    (h : verifierStep s a = some s') : VerifierInv s' := by
  rcases ha with rfl | rfl | rfl <;> simp only [verifierStep] at h <;> split_ifs at h with hph <;>
    obtain rfl := Option.some.inj h
  · intro hsc
    exact absurd rfl hsc.2
  · intro _ k hk
    exact hs ⟨by simp [hph.1], by simp [hph.1]⟩ k hk
  · intro _ k hk
    exact hs ⟨by simp [hph], by simp [hph]⟩ k hk

/-- Every step of a run where the writer keeps up keeps the invariant. -/
theorem VerifierInv.step {a : VerifierAction R} (hs : VerifierInv s) (hd : Drained s a)
    (h : verifierStep s a = some s') : VerifierInv s' := by
  cases a with
  | sourceWrite pk row => exact hs.sourceWrite h
  | targetWrite i row => exact hs.targetWrite h
  | verifyBeforeCutover => exact hs.phase (.inl rfl) h
  | iterateAllTables => exact VerifierInv.iterateAllTables hd h
  | flushAndBatchByTable => exact hs.flushAndBatchByTable h
  | reverifyPk pk => exact hs.reverifyPk hd h
  | beforeCutoverVerifyDone => exact hs.phase (.inr (.inl rfl)) h
  | verifyDuringCutover => exact hs.phase (.inr (.inr rfl)) h

/-- On the runs where no pk is compared while an event for it waits in the writer's buffer, and
the scan starts with the buffer applied and no target row where the source has none, a cutover
verification that passes leaves the target equal to the source. -/
theorem source_eq_target_of_passed (source target : KTable R)
    (h : Reachable (restrict verifierStep Drained) (VerifierState.init source target) s)
    (hp : s.Passed) (pk : ℕ) : s.source.rows pk = s.target.rows pk := by
  have hinv : VerifierInv s := by
    refine Reachable.invariant VerifierInv (fun hsc => absurd rfl hsc.1) ?_ h
    intro s a s' hs ha
    obtain ⟨hd, hstep⟩ := restrict_eq_some.mp ha
    exact hs.step hd hstep
  obtain ⟨hph, hstore, hbatches, hfailed⟩ := hp
  by_contra hne
  -- a pk whose rows differ would still be in the store or a batch, or would have failed
  rcases hinv ⟨by simp [hph], by simp [hph]⟩ pk (.inl hne) with hk | hk | hk
  · simp [hstore] at hk
  · simp [hbatches] at hk
  · simp [hfailed] at hk

/-- The source row goes to `2`, the writer applies the event, and the round compares pk `1`
after it: cutover verification passes with the tables equal. -/
def keptUpRun : VerifierState ℕ :=
  runD (restrict verifierStep Drained) (VerifierState.init abaTable abaTable)
    [.verifyBeforeCutover, .iterateAllTables, .sourceWrite 1 (some 2), .targetWrite 0 (some 2),
      .flushAndBatchByTable, .reverifyPk 1, .beforeCutoverVerifyDone, .verifyDuringCutover]

theorem keptUpRun_source_eq_target :
    Reachable (restrict verifierStep Drained) (VerifierState.init abaTable abaTable) keptUpRun ∧
      keptUpRun.Passed ∧ keptUpRun.source.rows 1 = keptUpRun.target.rows 1 := by
  have hr : Reachable (restrict verifierStep Drained) (VerifierState.init abaTable abaTable)
      keptUpRun := Reachable.runD (by decide)
  have hp : keptUpRun.Passed := by decide
  exact ⟨hr, hp, source_eq_target_of_passed abaTable abaTable hr hp 1⟩

end Soundness

end Ghostferry
