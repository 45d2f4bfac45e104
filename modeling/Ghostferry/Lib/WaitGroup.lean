import Mathlib

/-!
# Wait groups

A Go `sync.WaitGroup` is a counter. `Add(delta)` adds `delta` to it and panics when the counter
goes below zero, `Done()` is `Add(-1)`, and `Wait()` returns once the counter is zero. A program
that makes wait groups with `&sync.WaitGroup{}` and keeps pointers to them has a heap of counters;
a pointer is the index of its wait group in the order they were made, or `none` for `nil`.

An `Add` through a pointer to a wait group that was made either panics with
`negativeCounter` (`Add_eq_error`) or changes the sum of the counters by `delta` and keeps every
counter at or above zero (`sum_Add`, `Add_nonneg`). The models count with it: while no `Add` has
panicked, the counters sum to what was added less what was taken, and none is below zero.
-/

namespace WaitGroup

/-- The panic of an `Add` that takes a counter below zero. -/
def negativeCounter : String := "sync: negative WaitGroup counter"

/-- The panic of a call through a `nil` pointer. -/
def nilPointer : String := "runtime error: invalid memory address or nil pointer dereference"

/-- The counters of the wait groups made so far, in the order they were made. -/
abbrev Heap := List ℤ

/-- `&sync.WaitGroup{}`: the heap with a new wait group at its end, and a pointer to it. -/
def new (h : Heap) : Heap × Option ℕ := (h ++ [0], some h.length)

/-- `wg.Add(delta)`: the heap after it, or the panic. -/
def Add (h : Heap) (wg : Option ℕ) (delta : ℤ) : Except String Heap :=
  match wg with
  | none => .error nilPointer
  | some i =>
    match h[i]? with
    | none => .error nilPointer
    | some c => if c + delta < 0 then .error negativeCounter else .ok (h.set i (c + delta))

/-- `wg.Done()`. -/
def Done (h : Heap) (wg : Option ℕ) : Except String Heap := Add h wg (-1)

/-- `wg.Wait()` returns: the counter is zero. -/
def Returns (h : Heap) (wg : Option ℕ) : Prop := ∃ i, wg = some i ∧ h[i]? = some 0

instance (h : Heap) (wg : Option ℕ) : Decidable (Returns h wg) :=
  decidable_of_iff (wg.bind (h[·]?) = some 0) (by cases wg <;> simp [Returns])

/-- A pointer to a wait group that was made. -/
def Valid (h : Heap) (wg : Option ℕ) : Prop := ∃ i, wg = some i ∧ i < h.length

variable {h h' : Heap} {wg : Option ℕ} {delta : ℤ}

theorem Add_eq_ok_iff :
    Add h wg delta = .ok h' ↔
      ∃ i c, wg = some i ∧ h[i]? = some c ∧ 0 ≤ c + delta ∧ h' = h.set i (c + delta) := by
  constructor
  · intro hh
    unfold Add at hh
    rcases wg with _ | i
    · cases hh
    · dsimp only at hh
      cases hc : h[i]? with
      | none =>
        rw [hc] at hh
        cases hh
      | some c =>
        rw [hc] at hh
        dsimp only at hh
        split_ifs at hh with hlt
        exact ⟨i, c, rfl, hc, by omega, (Except.ok.inj hh).symm⟩
  · rintro ⟨i, c, rfl, hc, hle, rfl⟩
    unfold Add
    dsimp only
    rw [hc]
    dsimp only
    rw [if_neg (by omega)]

/-- Through a pointer to a wait group that was made, `Add` panics only at a negative counter. -/
theorem Add_eq_error (hv : Valid h wg) {e : String} (he : Add h wg delta = .error e) :
    e = negativeCounter := by
  obtain ⟨i, rfl, hi⟩ := hv
  unfold Add at he
  dsimp only at he
  rw [List.getElem?_eq_getElem hi] at he
  dsimp only at he
  split_ifs at he
  exact (Except.error.inj he).symm

/-- `Add` through a pointer to a wait group that was made succeeds while the counter stays at or
above zero. -/
theorem Add_eq_ok_of_le (hv : Valid h wg) (hle : ∀ i c, wg = some i → h[i]? = some c →
    0 ≤ c + delta) : ∃ h', Add h wg delta = .ok h' := by
  obtain ⟨i, rfl, hi⟩ := hv
  refine ⟨h.set i (h[i] + delta), Add_eq_ok_iff.mpr ⟨i, h[i], rfl, ?_, ?_, rfl⟩⟩
  · exact List.getElem?_eq_getElem hi
  · exact hle i h[i] rfl (List.getElem?_eq_getElem hi)

theorem length_Add (hh : Add h wg delta = .ok h') : h'.length = h.length := by
  obtain ⟨i, c, -, -, -, rfl⟩ := Add_eq_ok_iff.mp hh
  exact List.length_set

theorem Valid.of_Add {wg' : Option ℕ} (hv : Valid h wg') (hh : Add h wg delta = .ok h') :
    Valid h' wg' := by
  obtain ⟨i, rfl, hi⟩ := hv
  exact ⟨i, rfl, (length_Add hh).symm ▸ hi⟩

/-- Setting the counter at `i` from `c` to `c + delta` adds `delta` to the sum. -/
theorem sum_set_add {i : ℕ} {c : ℤ} (hc : h[i]? = some c) (delta : ℤ) :
    (h.set i (c + delta)).sum = h.sum + delta := by
  induction h generalizing i with
  | nil => simp at hc
  | cons x h ih =>
    cases i with
    | zero =>
      obtain rfl : x = c := by simpa using hc
      simp only [List.set_cons_zero, List.sum_cons]
      ring
    | succ i =>
      have hrest := ih (by simpa using hc)
      simp only [List.set_cons_succ, List.sum_cons, hrest]
      ring

/-- An `Add` that does not panic adds `delta` to the sum of the counters. -/
theorem sum_Add (hh : Add h wg delta = .ok h') : h'.sum = h.sum + delta := by
  obtain ⟨i, c, -, hc, -, rfl⟩ := Add_eq_ok_iff.mp hh
  exact sum_set_add hc delta

/-- An `Add` that does not panic keeps every counter at or above zero. -/
theorem Add_nonneg (hnonneg : ∀ c ∈ h, 0 ≤ c) (hh : Add h wg delta = .ok h') :
    ∀ c ∈ h', 0 ≤ c := by
  obtain ⟨i, c, -, -, hle, rfl⟩ := Add_eq_ok_iff.mp hh
  intro c' hc'
  rcases List.mem_or_eq_of_mem_set hc' with hc' | rfl
  · exact hnonneg c' hc'
  · exact hle

@[simp]
theorem sum_new : (new h).1.sum = h.sum := by
  simp [new]

theorem new_nonneg (hnonneg : ∀ c ∈ h, 0 ≤ c) : ∀ c ∈ (new h).1, 0 ≤ c := by
  intro c hc
  rcases List.mem_append.mp hc with hc | hc
  · exact hnonneg c hc
  · rw [List.mem_singleton.mp hc]

theorem valid_new : Valid (new h).1 (new h).2 :=
  ⟨h.length, rfl, by simp [new]⟩

theorem Valid.append (hv : Valid h wg) (h' : Heap) : Valid (h ++ h') wg := by
  obtain ⟨i, rfl, hi⟩ := hv
  exact ⟨i, rfl, by rw [List.length_append]; omega⟩

/-- `Add(1)` on a new wait group leaves its counter at one. -/
theorem Add_new_one : Add (new h).1 (new h).2 1 = .ok (h ++ [1]) := by
  simp [Add, new]

end WaitGroup
