import Mathlib

/-!
# Loops that stop at the first error

A Go loop that calls a function on each element of a slice and returns as soon as a call returns
an error is `List.forM` in the `Except` monad. It succeeds exactly when every call does
(`forM_eq_ok_iff`); when it fails, its error is the error of the first call that failed, after
calls that all succeeded (`forM_eq_error_iff`). A loop whose body fails on every element
succeeds only on an empty list (`forM_eq_ok_iff_nil`).
-/

namespace Loop

universe u v

variable {α : Type*} {ε : Type u} {f : α → Except ε Unit} {l : List α}

theorem bind_eq_ok {β γ : Type v} {x : Except ε β} {g : β → Except ε γ} {c : γ} :
    (x >>= g) = .ok c ↔ ∃ b, x = .ok b ∧ g b = .ok c := by
  cases x <;> simp [bind, Except.bind]

theorem bind_eq_error {β γ : Type v} {x : Except ε β} {g : β → Except ε γ} {e : ε} :
    (x >>= g) = .error e ↔ x = .error e ∨ ∃ b, x = .ok b ∧ g b = .error e := by
  cases x <;> simp [bind, Except.bind]

/-- A loop succeeds exactly when every call does. -/
theorem forM_eq_ok_iff : l.forM f = .ok () ↔ ∀ a ∈ l, f a = .ok () := by
  induction l with
  | nil => simp [List.forM, pure, Except.pure]
  | cons a l ih =>
    rw [List.forM, bind_eq_ok, List.forall_mem_cons, ← ih]
    constructor
    · rintro ⟨⟨⟩, ha, hl⟩
      exact ⟨ha, hl⟩
    · rintro ⟨ha, hl⟩
      exact ⟨(), ha, hl⟩

/-- A loop fails with the error of its first failing call, every call before it having
succeeded. -/
theorem forM_eq_error_iff {e : ε} :
    l.forM f = .error e ↔
      ∃ pre a post, l = pre ++ a :: post ∧ (∀ b ∈ pre, f b = .ok ()) ∧ f a = .error e := by
  induction l with
  | nil =>
    simp only [List.forM, pure, Except.pure, reduceCtorEq, false_iff, not_exists, not_and]
    intro pre a post h
    simp at h
  | cons a l ih =>
    rw [List.forM, bind_eq_error, ih]
    constructor
    · rintro (ha | ⟨⟨⟩, ha, pre, b, post, rfl, hpre, hb⟩)
      · exact ⟨[], a, l, rfl, by simp, ha⟩
      · refine ⟨a :: pre, b, post, rfl, ?_, hb⟩
        exact List.forall_mem_cons.mpr ⟨ha, hpre⟩
    · rintro ⟨pre, b, post, hl, hpre, hb⟩
      cases pre with
      | nil =>
        obtain ⟨rfl, rfl⟩ := List.cons.inj hl
        exact .inl hb
      | cons c pre =>
        obtain ⟨rfl, rfl⟩ := List.cons.inj hl
        obtain ⟨hc, hpre⟩ := List.forall_mem_cons.mp hpre
        exact .inr ⟨(), hc, pre, b, post, rfl, hpre, hb⟩

/-- The error of a failed loop is the error of one of its calls. -/
theorem exists_of_forM_eq_error {e : ε} (h : l.forM f = .error e) : ∃ a ∈ l, f a = .error e := by
  obtain ⟨pre, a, post, rfl, -, ha⟩ := forM_eq_error_iff.mp h
  exact ⟨a, List.mem_append_right pre List.mem_cons_self, ha⟩

/-- A loop whose body fails on every element succeeds only on the empty list. -/
theorem forM_eq_ok_iff_nil (hf : ∀ a, f a ≠ .ok ()) : l.forM f = .ok () ↔ l = [] := by
  rw [forM_eq_ok_iff]
  constructor
  · intro hall
    cases l with
    | nil => rfl
    | cons a l => exact absurd (hall a List.mem_cons_self) (hf a)
  · rintro rfl
    simp

end Loop
