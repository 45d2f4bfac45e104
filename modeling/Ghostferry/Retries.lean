import Mathlib.Data.Int.Basic

/-!
# Retries

`WithRetriesContext` of `utils.go` calls `f` until it returns `nil` or `context.Canceled`. After
any other error it gives up once `maxRetries` (when it is not `0`) attempts have been made;
otherwise it waits and calls `f` again. A context whose `Done` channel fires during a wait ends
the loop with `ctx.Err()`. `WithRetries` is `WithRetriesContext` with a nil context.

The model: a Go `error` is `Option ε`, `none` for `nil`, over a type of error values in which
`Canceled` stands for `context.Canceled`. `f` is the sequence of its outcomes, `f i` being the
outcome of the `i`-th call (from `1`). A context is `ctx.Err()` and, for each wait, whether `Done`
fires before the wait's timer; the length of a wait matters only to that. The loop runs on
`fuel`, so that a run that never returns is a run that uses up any fuel.

With `maxRetries = n ≥ 1`, the loop makes `min n i` calls, `i` the index of the first outcome that
stops it, and returns that outcome, or the `n`-th one (`WithRetriesContext_calls`). With `n = 0`
it calls `f` until such an outcome (`WithRetriesContext_unlimited`). A context cancelled during a
wait ends it with no further call (`WithRetriesContext_cancelled`).
-/

namespace Ghostferry

/-- A `context.Context`: whether its `Done` channel fires during the wait after the `i`-th call,
and `Err()`. -/
structure Context (ε : Type*) where
  Done : ℕ → Bool
  Err : ε

section Retries

variable {ε : Type*} [DecidableEq ε] (Canceled : ε)

/-- An outcome after which `WithRetriesContext` returns at once: `nil` or `context.Canceled`. -/
def Stops (err : Option ε) : Prop := err = none ∨ err = some Canceled

instance (err : Option ε) : Decidable (Stops Canceled err) :=
  inferInstanceAs (Decidable (_ ∨ _))

/-- `WithRetriesContext`: the error it returns and how many times it called `f`, or `none` when
`fuel` runs out first. -/
def WithRetriesContext (ctx : Option (Context ε)) (maxRetries : ℤ) (f : ℕ → Option ε)
    (fuel : ℕ) : Option (Option ε × ℕ) :=
  loop fuel 1
where
  /-- The `for` loop from the attempt `attempt` (the source's `try`, a keyword here). -/
  loop : ℕ → ℕ → Option (Option ε × ℕ)
    | 0, _ => none
    | fuel + 1, attempt =>
      let err := f attempt
      if Stops Canceled err then some (err, attempt)
      -- `break`, then `return` of the last error
      else if maxRetries ≠ 0 ∧ maxRetries ≤ attempt then some (err, attempt)
      else
        match ctx with
        | some c =>
          if c.Done attempt then some (some c.Err, attempt) else loop fuel (attempt + 1)
        | none => loop fuel (attempt + 1)

/-- `WithRetries`: `WithRetriesContext` with a nil context. -/
def WithRetries (maxRetries : ℤ) (f : ℕ → Option ε) (fuel : ℕ) : Option (Option ε × ℕ) :=
  WithRetriesContext Canceled none maxRetries f fuel

/-! ## One pass of the loop -/

variable {Canceled} {ctx : Option (Context ε)} {maxRetries : ℤ} {f : ℕ → Option ε}

/-- The loop goes on past attempt `j`: the outcome does not stop it, the attempts are not used
up, and no context fires during the wait. -/
def Continues (Canceled : ε) (ctx : Option (Context ε)) (maxRetries : ℤ) (f : ℕ → Option ε)
    (j : ℕ) : Prop :=
  ¬Stops Canceled (f j) ∧ ¬(maxRetries ≠ 0 ∧ maxRetries ≤ j) ∧ ∀ c ∈ ctx, c.Done j = false

/-- An attempt whose outcome stops the loop ends it with that outcome. -/
theorem loop_of_stops {fuel attempt : ℕ} (h : Stops Canceled (f attempt)) :
    WithRetriesContext.loop Canceled ctx maxRetries f (fuel + 1) attempt =
      some (f attempt, attempt) := by
  simp [WithRetriesContext.loop, h]

/-- An attempt that uses up `maxRetries` ends the loop with its outcome. -/
theorem loop_of_limit {fuel attempt : ℕ} (h : ¬Stops Canceled (f attempt))
    (hlim : maxRetries ≠ 0) (hle : maxRetries ≤ attempt) :
    WithRetriesContext.loop Canceled ctx maxRetries f (fuel + 1) attempt =
      some (f attempt, attempt) := by
  simp [WithRetriesContext.loop, h, hlim, hle]

/-- A context that fires during the wait after an attempt ends the loop with the context's
error. -/
theorem loop_of_done {fuel attempt : ℕ} {c : Context ε} (h : ¬Stops Canceled (f attempt))
    (hlim : ¬(maxRetries ≠ 0 ∧ maxRetries ≤ attempt)) (hdone : c.Done attempt = true) :
    WithRetriesContext.loop Canceled (some c) maxRetries f (fuel + 1) attempt =
      some (some c.Err, attempt) := by
  simp only [WithRetriesContext.loop, if_neg h, if_neg hlim, hdone, if_true]

/-- An attempt past which the loop goes on leaves the rest of the loop from the next attempt. -/
theorem loop_of_continues {fuel attempt : ℕ} (h : Continues Canceled ctx maxRetries f attempt) :
    WithRetriesContext.loop Canceled ctx maxRetries f (fuel + 1) attempt =
      WithRetriesContext.loop Canceled ctx maxRetries f fuel (attempt + 1) := by
  obtain ⟨hstop, hlim, hdone⟩ := h
  simp only [WithRetriesContext.loop, if_neg hstop, if_neg hlim]
  cases ctx with
  | none => rfl
  | some c => simp [hdone c rfl]

/-- The loop passes `d` attempts that all go on, one unit of fuel each. -/
theorem loop_skip {attempt : ℕ} (d : ℕ)
    (hcont : ∀ j, attempt ≤ j → j < attempt + d → Continues Canceled ctx maxRetries f j)
    (fuel : ℕ) :
    WithRetriesContext.loop Canceled ctx maxRetries f (fuel + d) attempt =
      WithRetriesContext.loop Canceled ctx maxRetries f fuel (attempt + d) := by
  induction d generalizing attempt with
  | zero => rfl
  | succ d ih =>
    -- the first attempt goes on, then the other `d` from the next one
    rw [← Nat.add_assoc, loop_of_continues (hcont attempt le_rfl (by omega)),
      ih fun j hj hjd => hcont j (by omega) (by omega), Nat.add_right_comm, Nat.add_assoc]

/-- Out of fuel, the loop has not returned. -/
theorem loop_zero (attempt : ℕ) :
    WithRetriesContext.loop Canceled ctx maxRetries f 0 attempt = none :=
  rfl

/-- With fuel to spare, the loop returns what it returns with just enough. -/
theorem loop_add_fuel {fuel attempt : ℕ} {r : Option ε × ℕ}
    (h : WithRetriesContext.loop Canceled ctx maxRetries f fuel attempt = some r) (extra : ℕ) :
    WithRetriesContext.loop Canceled ctx maxRetries f (fuel + extra) attempt = some r := by
  induction fuel generalizing attempt with
  | zero => cases h
  | succ fuel ih =>
    rw [show fuel + 1 + extra = fuel + extra + 1 by omega]
    simp only [WithRetriesContext.loop] at h ⊢
    split_ifs at h ⊢
    · exact h
    · exact h
    · cases ctx with
      | none => exact ih h
      | some c =>
        simp only at h ⊢
        split_ifs at h ⊢
        · exact h
        · exact ih h

/-! ## The number of calls and the error returned -/

/-- When the attempts before `m` all go on, the loop reaches attempt `m`, with what fuel is left. -/
theorem WithRetriesContext_eq_loop {m fuel : ℕ} (hm : 1 ≤ m)
    (hcont : ∀ j, 1 ≤ j → j < m → Continues Canceled ctx maxRetries f j) (hfuel : m ≤ fuel) :
    WithRetriesContext Canceled ctx maxRetries f fuel =
      WithRetriesContext.loop Canceled ctx maxRetries f (fuel - m + 1) m := by
  have hskip : WithRetriesContext.loop Canceled ctx maxRetries f (fuel - m + 1 + (m - 1)) 1 =
      WithRetriesContext.loop Canceled ctx maxRetries f (fuel - m + 1) (1 + (m - 1)) :=
    loop_skip (m - 1) (fun j hj hjm => hcont j hj (by omega)) (fuel - m + 1)
  rw [show fuel - m + 1 + (m - 1) = fuel by omega, show 1 + (m - 1) = m by omega] at hskip
  exact hskip

/-- With a nil context and `maxRetries = n ≥ 1`, the loop calls `f` `m` times and returns the
`m`-th outcome, where `m` is the first attempt whose outcome stops it or, when none of the first
`n` does, `n`. -/
theorem WithRetriesContext_calls {n m fuel : ℕ} (hn : 1 ≤ n) (hm : 1 ≤ m) (hmn : m ≤ n)
    (hbefore : ∀ j, 1 ≤ j → j < m → ¬Stops Canceled (f j))
    (hstop : Stops Canceled (f m) ∨ m = n) (hfuel : m ≤ fuel) :
    WithRetriesContext Canceled none n f fuel = some (f m, m) := by
  -- the attempts before `m` go on: their outcomes do not stop, and fewer than `n` were made
  have hcont : ∀ j, 1 ≤ j → j < m → Continues Canceled none n f j := fun j hj hjm =>
    ⟨hbefore j hj hjm, fun h => by omega, fun c hc => by cases hc⟩
  rw [WithRetriesContext_eq_loop hm hcont hfuel]
  by_cases hs : Stops Canceled (f m)
  · exact loop_of_stops hs
  · have hmn' : m = n := hstop.resolve_left hs
    exact loop_of_limit hs (by omega) (by omega)

/-- With `maxRetries = 0` and a nil context, the loop calls `f` until an outcome stops it. -/
theorem WithRetriesContext_unlimited {m fuel : ℕ} (hm : 1 ≤ m)
    (hbefore : ∀ j, 1 ≤ j → j < m → ¬Stops Canceled (f j)) (hstop : Stops Canceled (f m))
    (hfuel : m ≤ fuel) : WithRetriesContext Canceled none 0 f fuel = some (f m, m) := by
  have hcont : ∀ j, 1 ≤ j → j < m → Continues Canceled none 0 f j := fun j hj hjm =>
    ⟨hbefore j hj hjm, fun h => h.1 rfl, fun c hc => by cases hc⟩
  rw [WithRetriesContext_eq_loop hm hcont hfuel]
  exact loop_of_stops hstop

/-- With `maxRetries = 0`, a nil context and no outcome that stops it, the loop never returns. -/
theorem WithRetriesContext_unlimited_none (hnever : ∀ j, 1 ≤ j → ¬Stops Canceled (f j))
    (fuel : ℕ) : WithRetriesContext Canceled none 0 f fuel = none := by
  have hskip : WithRetriesContext.loop Canceled none 0 f (0 + fuel) 1 =
      WithRetriesContext.loop Canceled none 0 f 0 (1 + fuel) :=
    loop_skip fuel (fun j hj _ => ⟨hnever j hj, fun h => h.1 rfl, fun c hc => by cases hc⟩) 0
  rw [Nat.zero_add] at hskip
  exact hskip

/-- A context that fires during the wait after the `k`-th call ends the loop there with
`ctx.Err()`: `f` is called `k` times. -/
theorem WithRetriesContext_cancelled {c : Context ε} {k fuel : ℕ} (hk : 1 ≤ k)
    (hnk : maxRetries = 0 ∨ k < maxRetries) (hbefore : ∀ j, 1 ≤ j → j ≤ k → ¬Stops Canceled (f j))
    (hwait : ∀ j, 1 ≤ j → j < k → c.Done j = false) (hdone : c.Done k = true)
    (hfuel : k ≤ fuel) :
    WithRetriesContext Canceled (some c) maxRetries f fuel = some (some c.Err, k) := by
  -- no attempt up to `k` used the attempts up
  have hlim : ∀ j, j ≤ k → ¬(maxRetries ≠ 0 ∧ maxRetries ≤ j) := fun j hjk h => by omega
  have hcont : ∀ j, 1 ≤ j → j < k → Continues Canceled (some c) maxRetries f j := fun j hj hjk =>
    ⟨hbefore j hj (Nat.le_of_lt hjk), hlim j (Nat.le_of_lt hjk), fun c' hc' => by
      obtain rfl := Option.some.inj hc'
      exact hwait j hj hjk⟩
  rw [WithRetriesContext_eq_loop hk hcont hfuel]
  exact loop_of_done (hbefore k hk le_rfl) (hlim k le_rfl) hdone

theorem WithRetriesContext_spec (Canceled : ε) (f : ℕ → Option ε) :
    (∀ n m fuel : ℕ, 1 ≤ n → 1 ≤ m → m ≤ n → (∀ j, 1 ≤ j → j < m → ¬Stops Canceled (f j)) →
        (Stops Canceled (f m) ∨ m = n) → m ≤ fuel →
        WithRetriesContext Canceled none n f fuel = some (f m, m)) ∧
      (∀ m fuel : ℕ, 1 ≤ m → (∀ j, 1 ≤ j → j < m → ¬Stops Canceled (f j)) →
        Stops Canceled (f m) → m ≤ fuel →
        WithRetriesContext Canceled none 0 f fuel = some (f m, m)) ∧
      ((∀ j, 1 ≤ j → ¬Stops Canceled (f j)) →
        ∀ fuel, WithRetriesContext Canceled none 0 f fuel = none) ∧
      (∀ (c : Context ε) (maxRetries : ℤ) (k fuel : ℕ), 1 ≤ k → (maxRetries = 0 ∨ k < maxRetries) →
        (∀ j, 1 ≤ j → j ≤ k → ¬Stops Canceled (f j)) → (∀ j, 1 ≤ j → j < k → c.Done j = false) →
        c.Done k = true → k ≤ fuel →
        WithRetriesContext Canceled (some c) maxRetries f fuel = some (some c.Err, k)) :=
  ⟨fun _ _ _ hn hm hmn hbefore hstop hfuel =>
      WithRetriesContext_calls hn hm hmn hbefore hstop hfuel,
    fun _ _ hm hbefore hstop hfuel => WithRetriesContext_unlimited hm hbefore hstop hfuel,
    WithRetriesContext_unlimited_none,
    fun _ _ _ _ hk hnk hbefore hwait hdone hfuel =>
      WithRetriesContext_cancelled hk hnk hbefore hwait hdone hfuel⟩

end Retries

/-- The function of `TestRespectsMaxRetries`: an error on the first nine calls, `nil` after. -/
def failsNineTimes (j : ℕ) : Option String := if j < 10 then some "test error" else none

/-- `WithRetries(5, ...)` of `failsNineTimes` calls it five times and returns its error. -/
theorem respectsMaxRetries :
    WithRetriesContext "context canceled" none 5 failsNineTimes 5 =
      some (some "test error", 5) := by
  have hbefore : ∀ j, 1 ≤ j → j < 5 → ¬Stops "context canceled" (failsNineTimes j) := by
    intro j _ hj
    simp [Stops, failsNineTimes, show j < 10 by omega]
  exact (WithRetriesContext_spec "context canceled" failsNineTimes).1 5 5 5 (by decide)
    (by decide) le_rfl hbefore (.inr rfl) le_rfl

end Ghostferry
