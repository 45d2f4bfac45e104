import Mathlib

/-!
# Runs of a step function

A system with states `σ` and actions `α` is a partial step function `step : σ → α → Option σ`:
`none` when the action is not enabled in the state. A run applies a list of actions in order and
fails as soon as one is not enabled; a state is reachable when some run ends in it. Everything
that holds at the start and is kept by every enabled action holds in every reachable state
(`Reachable.invariant`), which is how the run theorems of the models are proved, and what an
invariant's states never lower never goes down along a run (`Reachable.le_of_inv`); when every
enabled action lowers a measure, no run is longer than the measure of its start
(`run_length_add_le`, and `run_length_add_le_of_inv` where it falls only from the states of an
invariant).

`restrict step G` is the same system with an action enabled only where `G` allows it: its runs
are the runs of `step` whose every action satisfies `G` in the state it is taken from. A theorem
over them is a theorem about the interleavings `G` describes.
-/

namespace Machine

variable {σ α : Type*} (step : σ → α → Option σ)

/-- The state after the actions `as`, or `none` when one of them is not enabled. -/
def run (s : σ) (as : List α) : Option σ := as.foldlM step s

/-- `s` is the end of some run from `s₀`. -/
def Reachable (s₀ s : σ) : Prop := ∃ as, run step s₀ as = some s

/-- The end of the run of `as` from `s`, or `s` itself when an action is not enabled: the state
that a concrete run names. -/
def runD (s : σ) (as : List α) : σ := (run step s as).getD s

variable {step}

/-- The empty run stays where it starts. -/
@[simp]
theorem run_nil (s : σ) : run step s [] = some s := rfl

/-- A run takes its first action, then runs the rest from where that action leads. -/
theorem run_cons (s : σ) (a : α) (as : List α) :
    run step s (a :: as) = (step s a).bind (run step · as) := by
  simp only [run, List.foldlM_cons]
  rfl

/-- A run of two lists of actions runs the second from where the first ends. -/
theorem run_append (s : σ) (as bs : List α) :
    run step s (as ++ bs) = (run step s as).bind (run step · bs) := by
  simp only [run, List.foldlM_append]
  rfl

/-- Every state is reachable from itself, by the empty run. -/
theorem Reachable.refl (s : σ) : Reachable step s s := ⟨[], rfl⟩

/-- A run whose actions are all enabled reaches the state that `runD` names. -/
theorem Reachable.runD {s : σ} {as : List α} (h : (run step s as).isSome) :
    Reachable step s (runD step s as) := by
  refine ⟨as, ?_⟩
  rw [Machine.runD, Option.getD_of_ne_none (Option.isSome_iff_ne_none.mp h)]

/-- A reachable state followed by one enabled action is reachable. -/
theorem Reachable.tail {s₀ s s' : σ} {a : α} (h : Reachable step s₀ s) (ha : step s a = some s') :
    Reachable step s₀ s' := by
  obtain ⟨as, has⟩ := h
  refine ⟨as ++ [a], ?_⟩
  rw [run_append, has]
  simp [run_cons, ha]

/-- The invariant rule: a property of the start that every enabled action keeps holds in every
reachable state. -/
theorem Reachable.invariant {s₀ s : σ} (P : σ → Prop) (h₀ : P s₀)
    (hstep : ∀ s a s', P s → step s a = some s' → P s') (h : Reachable step s₀ s) : P s := by
  obtain ⟨as, has⟩ := h
  induction as generalizing s₀ with
  | nil =>
    cases has
    exact h₀
  | cons a as ih =>
    rw [run_cons] at has
    cases hs : step s₀ a with
    | none => simp [hs] at has
    | some s₁ =>
      rw [hs] at has
      exact ih (hstep _ _ _ h₀ hs) has

/-- The monotonicity rule: when every enabled action from a state of an invariant `P` keeps `P`
and does not lower `f`, then `f` does not go down along a run from a state of `P`. -/
theorem Reachable.le_of_inv {β : Type*} [Preorder β] (P : σ → Prop) (f : σ → β)
    (hP : ∀ s a s', P s → step s a = some s' → P s')
    (hf : ∀ s a s', P s → step s a = some s' → f s ≤ f s') {s s' : σ} (hs : P s)
    (h : Reachable step s s') : f s ≤ f s' :=
  (Reachable.invariant (fun t => P t ∧ f s ≤ f t) ⟨hs, le_rfl⟩
    (fun t a t' ht ha => ⟨hP t a t' ht.1 ha, le_trans ht.2 (hf t a t' ht.1 ha)⟩) h).2

/-- The variant rule under an invariant: when every enabled action from a state of `P` keeps
`P` and lowers `μ`, the length of a run from a state of `P` and `μ` of its end together stay
within `μ` of its start. -/
theorem run_length_add_le_of_inv (P : σ → Prop) (μ : σ → ℕ)
    (hP : ∀ s a s', P s → step s a = some s' → P s')
    (hμ : ∀ s a s', P s → step s a = some s' → μ s' < μ s)
    {s s' : σ} {as : List α} (hs : P s) (h : run step s as = some s') :
    as.length + μ s' ≤ μ s := by
  induction as generalizing s with
  | nil =>
    cases h
    simp
  | cons a as ih =>
    rw [run_cons] at h
    cases hs₁ : step s a with
    | none => simp [hs₁] at h
    | some s₁ =>
      rw [hs₁] at h
      have hlt := hμ s a s₁ hs hs₁
      have hrest := ih (hP s a s₁ hs hs₁) h
      rw [List.length_cons]
      omega

/-- The variant rule: when every enabled action lowers `μ`, the length of a run and `μ` of its
end together stay within `μ` of its start, so no run is longer than `μ` of its start. -/
theorem run_length_add_le (μ : σ → ℕ) (hμ : ∀ s a s', step s a = some s' → μ s' < μ s)
    {s s' : σ} {as : List α} (h : run step s as = some s') : as.length + μ s' ≤ μ s :=
  run_length_add_le_of_inv (fun _ => True) μ (fun _ _ _ _ _ => trivial)
    (fun s a s' _ h => hμ s a s' h) trivial h

/-! ## Restricted runs -/

/-- The step function that takes an action only where `G` allows it. -/
def restrict (step : σ → α → Option σ) (G : σ → α → Prop) [∀ s a, Decidable (G s a)] :
    σ → α → Option σ :=
  fun s a => if G s a then step s a else none

section Restrict

variable {G : σ → α → Prop} [∀ s a, Decidable (G s a)]

/-- An action of the restricted system is one that `G` allows and the system takes. -/
theorem restrict_eq_some {s s' : σ} {a : α} :
    restrict step G s a = some s' ↔ G s a ∧ step s a = some s' := by
  unfold restrict
  split <;> simp_all

end Restrict

/-! ## Goroutines

A system of goroutines keeps their states in a list and updates one of them per step, with
`List.set`. A measure summed over them changes by what that goroutine's changes by, and what they
hold together changes by what it gives up and takes. -/

section Goroutines

variable {γ : Type*} {l : List γ} {j : ℕ} {x : γ}

theorem sum_map_set (f : γ → ℕ) (hj : l[j]? = some x) (y : γ) :
    ((l.set j y).map f).sum + f x = (l.map f).sum + f y := by
  induction l generalizing j with
  | nil => simp at hj
  | cons v l ih =>
    cases j with
    | zero =>
      obtain rfl : v = x := by simpa using hj
      simp only [List.set_cons_zero, List.map_cons, List.sum_cons]
      omega
    | succ j =>
      have hrest := ih (by simpa using hj)
      simp only [List.set_cons_succ, List.map_cons, List.sum_cons]
      omega

theorem perm_filterMap_set {δ : Type*} (f : γ → Option δ) (hj : l[j]? = some x) (y : γ) :
    List.Perm ((l.set j y).filterMap f ++ (f x).toList) (l.filterMap f ++ (f y).toList) := by
  induction l generalizing j with
  | nil => simp at hj
  | cons v l ih =>
    cases j with
    | zero =>
      obtain rfl : v = x := by simpa using hj
      rw [List.set_cons_zero]
      -- the goroutine's part moves from the front to the back
      cases hx : f v with
      | none =>
        cases hy : f y with
        | none => simp [hx, hy]
        | some d => simpa [hx, hy] using (List.perm_append_singleton d (l.filterMap f)).symm
      | some a =>
        cases hy : f y with
        | none => simp [hx, hy]
        | some d =>
          have hswap : List.Perm (d :: (l.filterMap f ++ [a])) (a :: (l.filterMap f ++ [d])) :=
            calc List.Perm (d :: (l.filterMap f ++ [a])) (d :: a :: l.filterMap f) :=
                  (List.perm_append_singleton a _).cons d
              List.Perm _ (a :: d :: l.filterMap f) := List.Perm.swap a d _
              List.Perm _ (a :: (l.filterMap f ++ [d])) :=
                  (List.perm_append_singleton d _).symm.cons a
          simpa [hx, hy] using hswap
    | succ j =>
      have hrest := ih (by simpa using hj)
      rw [List.set_cons_succ]
      cases hv : f v with
      | none => simpa [List.filterMap_cons, hv] using hrest
      | some d => simpa [List.filterMap_cons, hv] using hrest.cons d

end Goroutines

end Machine
