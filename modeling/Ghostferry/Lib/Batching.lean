import Mathlib.Data.List.Basic

/-!
# Cutting a sequence into batches

The loop of a producer that collects items into an open batch, hands the batch on as soon as it
holds `b` items and opens a new one, and at the end hands on what is left. `push b emit` is one
item of the loop, `close emit` its end, and `batches b xs` the batches it cuts `xs` into.

The batches concatenate to `xs` (`flatten_batches`), none is empty and none holds more than
`max b 1` items (`mem_batches`), and every one but the last holds exactly `max b 1`
(`length_of_mem_dropLast`), so at most one holds fewer than `b` (`countP_short_le_one`). The
invariant of the loop that carries these is `Full`. A loop that hands each batch on as `emit` of
it, after some earlier output, leaves that output followed by the batches under `emit`
(`close_foldl_push`): this is how a caller that records more than the items uses the lemmas.
-/

namespace Batching

variable {α β : Type*}

/-- One item of the loop: `x` joins the open batch, which is handed on as `emit` of it once it
holds `b` items. -/
def push (b : ℕ) (emit : List α → β) (acc : List β × List α) (x : α) : List β × List α :=
  if b ≤ (acc.2 ++ [x]).length then (acc.1 ++ [emit (acc.2 ++ [x])], []) else (acc.1, acc.2 ++ [x])

/-- The end of the loop: the open batch is handed on when it holds an item. -/
def close (emit : List α → β) (acc : List β × List α) : List β :=
  if 0 < acc.2.length then acc.1 ++ [emit acc.2] else acc.1

/-- The batches the loop cuts `xs` into, in order. -/
def batches (b : ℕ) (xs : List α) : List (List α) :=
  close id (xs.foldl (push b id) ([], []))

/-! ## Handing batches on as something else -/

/-- The loop that hands on `emit` of each batch hands on what the plain loop hands on, under
`emit`. -/
theorem foldl_push_emit (b : ℕ) (emit : List α → β) (out : List β) (xs : List α)
    (done : List (List α)) (cur : List α) :
    xs.foldl (push b emit) (out ++ done.map emit, cur) =
      Prod.map (out ++ ·.map emit) id (xs.foldl (push b id) (done, cur)) := by
  induction xs generalizing done cur with
  | nil => rfl
  | cons x xs ih =>
    simp only [List.foldl_cons, push]
    split_ifs
    · -- the batch is handed on: it joins `done` under `emit`
      have hout : out ++ done.map emit ++ [emit (cur ++ [x])] =
          out ++ (done ++ [id (cur ++ [x])]).map emit := by
        simp
      rw [hout, ih]
    · exact ih done _

theorem close_foldl_push (b : ℕ) (emit : List α → β) (out : List β) (xs : List α) :
    close emit (xs.foldl (push b emit) (out, [])) = out ++ (batches b xs).map emit := by
  have h := foldl_push_emit b emit out xs [] []
  rw [List.map_nil, List.append_nil] at h
  rw [h, batches]
  unfold close
  simp only [Prod.map_fst, Prod.map_snd, id]
  split_ifs <;> simp

/-! ## The loop's invariant -/

/-- What the loop keeps: every batch handed on holds `max b 1` items, and the open batch fewer. -/
def Full (b : ℕ) (acc : List (List α) × List α) : Prop :=
  (∀ c ∈ acc.1, c.length = max b 1) ∧ acc.2.length < max b 1

theorem full_nil (b : ℕ) : Full b (([], []) : List (List α) × List α) :=
  ⟨fun _ hc => absurd hc List.not_mem_nil,
    Nat.lt_of_lt_of_le Nat.zero_lt_one (Nat.le_max_right b 1)⟩

theorem full_push {b : ℕ} {acc : List (List α) × List α} (h : Full b acc) (x : α) :
    Full b (push b id acc x) := by
  obtain ⟨hdone, hcur⟩ := h
  have hlen : (acc.2 ++ [x]).length = acc.2.length + 1 := by simp
  unfold push
  split_ifs with hb
  · -- the batch handed on holds at least `b` items and at most `max b 1`
    refine ⟨fun c hc => ?_, Nat.lt_of_lt_of_le Nat.zero_lt_one (Nat.le_max_right b 1)⟩
    rcases List.mem_append.mp hc with hc | hc
    · exact hdone c hc
    · rw [List.mem_singleton.mp hc, id, hlen]
      omega
  · exact ⟨hdone, show (acc.2 ++ [x]).length < max b 1 by omega⟩

theorem full_foldl_push {b : ℕ} {acc : List (List α) × List α} (h : Full b acc) (xs : List α) :
    Full b (xs.foldl (push b id) acc) := by
  induction xs generalizing acc with
  | nil => exact h
  | cons x xs ih => exact ih (full_push h x)

theorem flatten_push (b : ℕ) (acc : List (List α) × List α) (x : α) :
    (push b id acc x).1.flatten ++ (push b id acc x).2 = acc.1.flatten ++ acc.2 ++ [x] := by
  unfold push
  split_ifs <;> simp

theorem flatten_foldl_push (b : ℕ) (acc : List (List α) × List α) (xs : List α) :
    (xs.foldl (push b id) acc).1.flatten ++ (xs.foldl (push b id) acc).2 =
      acc.1.flatten ++ acc.2 ++ xs := by
  induction xs generalizing acc with
  | nil => simp
  | cons x xs ih =>
    rw [List.foldl_cons, ih, flatten_push, List.append_assoc _ [x], List.singleton_append]

/-! ## The batches -/

theorem flatten_batches (b : ℕ) (xs : List α) : (batches b xs).flatten = xs := by
  have h := flatten_foldl_push b ([], []) xs
  simp only [List.flatten_nil, List.nil_append] at h
  unfold batches close
  split_ifs with hcur
  · simpa using h
  · rwa [List.length_eq_zero_iff.mp (Nat.eq_zero_of_not_pos hcur), List.append_nil] at h

/-- A batch holds at least one item and at most `max b 1`. -/
theorem mem_batches {b : ℕ} {xs : List α} {c : List α} (h : c ∈ batches b xs) :
    c ≠ [] ∧ c.length ≤ max b 1 := by
  obtain ⟨hdone, hcur⟩ := full_foldl_push (full_nil b) xs
  unfold batches close at h
  split_ifs at h with hpos
  · rcases List.mem_append.mp h with h | h
    · have hc := hdone c h
      exact ⟨List.ne_nil_of_length_pos (by omega), Nat.le_of_eq hc⟩
    · rw [List.mem_singleton.mp h]
      exact ⟨List.ne_nil_of_length_pos hpos, Nat.le_of_lt hcur⟩
  · have hc := hdone c h
    exact ⟨List.ne_nil_of_length_pos (by omega), Nat.le_of_eq hc⟩

/-- Every batch but the last is full. -/
theorem length_of_mem_dropLast {b : ℕ} {xs : List α} {c : List α}
    (h : c ∈ (batches b xs).dropLast) : c.length = max b 1 := by
  obtain ⟨hdone, -⟩ := full_foldl_push (full_nil b) xs
  unfold batches close at h
  split_ifs at h
  · rw [List.dropLast_concat] at h
    exact hdone c h
  · exact hdone c (List.dropLast_subset _ h)

/-- At most one batch, the last, holds fewer than `b` items. -/
theorem countP_short_le_one (b : ℕ) (xs : List α) :
    (batches b xs).countP (fun c => c.length < b) ≤ 1 := by
  rcases List.eq_nil_or_concat (batches b xs) with h | ⟨L, c, h⟩
  · simp [h]
  · -- the batches before the last are full, so none of them is short
    have hfull : L.countP (fun c => c.length < b) = 0 := by
      rw [List.countP_eq_zero]
      intro c' hc'
      have hmem : c' ∈ (batches b xs).dropLast := by simpa [h] using hc'
      have hlen := length_of_mem_dropLast hmem
      simp only [decide_eq_true_eq]
      omega
    rw [h, List.concat_eq_append, List.countP_append, hfull, Nat.zero_add]
    exact List.countP_le_length

end Batching
