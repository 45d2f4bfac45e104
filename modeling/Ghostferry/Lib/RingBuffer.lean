import Mathlib

/-!
# Rings of values

Go's `container/ring` is a circular list of `n` elements, each holding a `Value` that is `nil`
when `ring.New` makes it. A program holds pointers to elements and moves them with `Next` and
`Prev`. Here a ring is the values of its elements by position, and a pointer is a position, which
`Next` and `Prev` move by one modulo `n` (`Fin n` with its wrapping arithmetic).

A log kept by moving a pointer on and setting the value it reaches (`push`) holds its last `n`
entries. Behind the pointer, `i` elements back, is the entry pushed `i` pushes ago, and before the
ring is full, `nil` past the first entry (`get_sub_log`).

`walkBack` is the loop that moves a pointer back while the element behind it is not the one it
started from and holds a value to keep, reading the values by a type assertion that panics on
`nil`. On a log whose first entry is not kept it reads no `nil`, and it stops at the oldest entry
of the longest run of kept entries behind the newest, at most `n - 1` of them (`walkBack_log`).
-/

namespace RingBuffer

open Fin.NatCast

/-- The values of the elements of a ring of `n` elements, by position; `none` is `nil`. -/
abbrev Values (α : Type*) (n : ℕ) := Fin n → Option α

variable {α : Type*} {n : ℕ} [NeZero n]

/-- `ring.New(n)`: every value `nil`. -/
def New : Values α n := fun _ => none

/-- The value of the element at `p` set to `a`. -/
def set (r : Values α n) (p : Fin n) (a : α) : Values α n := Function.update r p (some a)

/-- `r = r.Next(); r.Value = a`: the pointer moved on, and the value it reaches set. -/
def push (rp : Values α n × Fin n) (a : α) : Values α n × Fin n :=
  (set rp.1 (rp.2 + 1) a, rp.2 + 1)

/-- A log begun with `a` at position `0` that then pushed each of `as`. -/
def log (a : α) (as : List α) : Values α n × Fin n :=
  as.foldl push (set New 0 a, 0)

omit [NeZero n] in
@[simp]
theorem set_self (r : Values α n) (p : Fin n) (a : α) : set r p a p = some a := by
  unfold set
  exact Function.update_self p _ r

omit [NeZero n] in
theorem set_of_ne (r : Values α n) {p q : Fin n} (h : q ≠ p) (a : α) : set r p a q = r q := by
  unfold set
  exact Function.update_of_ne h _ r

theorem log_append_singleton (a b : α) (as : List α) :
    (log a (as ++ [b]) : Values α n × Fin n) = push (log a as) b := by
  rw [log, List.foldl_append, List.foldl_cons, List.foldl_nil, ← log]

/-- The pointer of a log is at the number of pushes, modulo `n`. -/
theorem log_pointer (a : α) (as : List α) :
    (log a as : Values α n × Fin n).2 = (as.length : Fin n) := by
  induction as using List.reverseRecOn with
  | nil => rfl
  | append_singleton as b ih =>
    rw [log_append_singleton, push, ih, List.length_append, List.length_singleton, Nat.cast_add,
      Nat.cast_one]

/-- The pointer of a log holds the newest entry. -/
theorem get_pointer_log (a : α) (as : List α) :
    (log a as : Values α n × Fin n).1 (log a as).2 =
      some ((a :: as).getLast (List.cons_ne_nil _ _)) := by
  induction as using List.reverseRecOn with
  | nil => simp [log]
  | append_singleton as b ih =>
    rw [log_append_singleton, push]
    simp

/-- Going back `i + 1` elements from the next element is going back `i` from this one. -/
theorem add_one_sub_succ (p : Fin n) (i : ℕ) :
    p + 1 - ((i + 1 : ℕ) : Fin n) = p - (i : Fin n) := by
  rw [Nat.cast_add, Nat.cast_one]
  abel

/-- Going back `i` elements, `0 < i < n`, does not come back to the same element. -/
theorem sub_ne_self (p : Fin n) {i : ℕ} (h0 : 0 < i) (hi : i < n) : p - (i : Fin n) ≠ p := by
  intro h
  have hzero : (i : Fin n) = 0 := by
    have := congrArg (p - ·) h
    simpa using this
  rw [Fin.natCast_eq_zero] at hzero
  exact absurd (Nat.le_of_dvd h0 hzero) (by omega)

/-- Going back one element from `x ≠ 0` lowers its position. -/
theorem sub_one_val_lt {x : Fin n} (hx : x ≠ 0) : (x - 1).val < x.val := by
  obtain ⟨m, rfl⟩ : ∃ m, n = m + 1 := Nat.exists_eq_succ_of_ne_zero (NeZero.ne n)
  rw [Fin.coe_sub_one, if_neg hx]
  have hval : x.val ≠ 0 := fun h => hx (Fin.ext h)
  omega

/-- `i` elements behind the pointer of a log, `i < n`, is the entry pushed `i` pushes before the
last, or `nil` when there was none. -/
theorem get_sub_log (a : α) (as : List α) {i : ℕ} (hi : i < n) :
    (log a as : Values α n × Fin n).1 ((log a as : Values α n × Fin n).2 - i) =
      if i ≤ as.length then (a :: as)[as.length - i]? else none := by
  induction as using List.reverseRecOn generalizing i with
  | nil =>
    rw [log_pointer]
    cases i with
    | zero => simp [log]
    | succ i =>
      -- the first entry is the only one set
      have hne : (0 : Fin n) - ((i + 1 : ℕ) : Fin n) ≠ 0 := sub_ne_self 0 (Nat.succ_pos i) hi
      simp only [List.length_nil, Nat.cast_zero, Nat.le_zero, Nat.add_one_ne_zero, if_false]
      show set New 0 a (0 - ((i + 1 : ℕ) : Fin n)) = none
      rw [set_of_ne New hne]
      rfl
  | append_singleton as b ih =>
    rw [log_append_singleton, push]
    simp only
    cases i with
    | zero => simp
    | succ i =>
      -- an older entry: the push left it where it was
      rw [add_one_sub_succ, set_of_ne _ ?_ b, ih (Nat.lt_of_succ_lt hi)]
      · simp only [List.length_append, List.length_singleton]
        by_cases hle : i ≤ as.length
        · have hidx : as.length + 1 - (i + 1) = as.length - i := by omega
          rw [if_pos hle, if_pos (by omega), hidx, ← List.cons_append,
            List.getElem?_append_left (by simp only [List.length_cons]; omega)]
        · rw [if_neg hle, if_neg (by omega)]
      · rw [← add_one_sub_succ]
        exact sub_ne_self _ (Nat.succ_pos i) hi

/-- The entry `y` of a log, with the entries `ys` pushed after it, is `ys.length` elements behind the
pointer while `ys.length < n`. -/
theorem get_log_of_eq_append (a : α) (as : List α) {xs ys : List α} {y : α}
    (h : a :: as = xs ++ y :: ys) (hn : ys.length < n) :
    (log a as : Values α n × Fin n).1 ((log a as : Values α n × Fin n).2 - ys.length) = some y := by
  have hlen : as.length + 1 = xs.length + ys.length + 1 := by
    have := congrArg List.length h
    simp only [List.length_cons, List.length_append] at this
    omega
  have hidx : as.length - ys.length = xs.length := by omega
  rw [get_sub_log a as hn, if_pos (by omega), hidx, h, List.getElem?_append_right le_rfl,
    Nat.sub_self, List.getElem?_cons_zero]

/-- The loop `for e.Prev() != current && keep(e.Prev().Value) { e = e.Prev() }`, the values read
by a type assertion: `none` when it reads a `nil` value, where the assertion panics. Every element
of a ring has a `Prev`, so the loop's test that it is not `nil` always holds. -/
def walkBack (r : Values α n) (current : Fin n) (keep : α → Bool) (e : Fin n) : Option (Fin n) :=
  if e - 1 = current then some e
  else
    match r (e - 1) with
    | none => none
    | some v => if keep v then walkBack r current keep (e - 1) else some e
termination_by (e - 1 - current).val
decreasing_by
  have hne : e - 1 - current ≠ 0 := sub_ne_zero.mpr ‹¬e - 1 = current›
  calc (e - 1 - 1 - current).val = (e - 1 - current - 1).val := by rw [sub_right_comm]
    _ < (e - 1 - current).val := sub_one_val_lt hne

section Walk

variable (a c : α) (bs : List α) {keep : α → Bool}

/-- The walk on a log from an element with the kept entries `run` behind the newest, older ones
`older` before them, goes on over the kept entries at the end of `older`. -/
theorem walkBack_log_of_eq_append (ha : keep a = false) (older : List α) :
    ∀ run, a :: bs = older ++ run → run.length < n → (∀ x ∈ run, keep x = true) →
      ∃ older' run', older = older' ++ run' ∧ (run' ++ run).length < n ∧
        (∀ x ∈ run', keep x = true) ∧
        ((run' ++ run).length + 1 = n ∨ ∃ z, older'.getLast? = some z ∧ keep z = false) ∧
        walkBack (log a (bs ++ [c])).1 (log a (bs ++ [c])).2 keep
          ((log a (bs ++ [c]) : Values α n × Fin n).2 - (run.length : Fin n)) =
          some ((log a (bs ++ [c]) : Values α n × Fin n).2 - ((run' ++ run).length : Fin n)) := by
  -- the induction takes the entries of `older` from its newest end, as the walk reads them
  induction older using List.reverseRecOn with
  | nil =>
    intro run h _ hkeep
    rw [List.nil_append] at h
    have hmem : a ∈ run := h ▸ List.mem_cons_self
    rw [hkeep a hmem] at ha
    cases ha
  | append_singleton older z ih =>
    intro run h hlt hkeep
    set p := (log a (bs ++ [c]) : Values α n × Fin n).2
    have hprev : p - (run.length : Fin n) - 1 = p - ((run.length + 1 : ℕ) : Fin n) := by
      rw [Nat.cast_add, Nat.cast_one, sub_sub]
    by_cases hfull : run.length + 1 = n
    · -- the element behind is the newest one: the walk stops here
      have hstop : p - (run.length : Fin n) - 1 = p := by
        rw [hprev, hfull, Fin.natCast_self, sub_zero]
      refine ⟨older ++ [z], [], by rw [List.append_nil], by simpa using hlt, by simp,
        .inl (by simpa using hfull), ?_⟩
      rw [walkBack, if_pos hstop, List.nil_append]
    · have hne : p - (run.length : Fin n) - 1 ≠ p := by
        rw [hprev]
        exact sub_ne_self p (Nat.succ_pos _) (by omega)
      -- the element behind holds `z`
      have hz : (log a (bs ++ [c]) : Values α n × Fin n).1 (p - (run.length : Fin n) - 1) =
          some z := by
        have hsplit : a :: (bs ++ [c]) = older ++ z :: (run ++ [c]) := by
          rw [← List.cons_append, h]
          simp
        have hget : (log a (bs ++ [c]) : Values α n × Fin n).1
            (p - ((run ++ [c]).length : Fin n)) = some z :=
          get_log_of_eq_append a (bs ++ [c]) hsplit
            (by simp only [List.length_append, List.length_singleton]; omega)
        rwa [List.length_append, List.length_singleton, ← hprev] at hget
      rw [walkBack, if_neg hne, hz]
      dsimp only
      cases hkz : keep z with
      | false =>
        -- `z` is not kept: the walk stops with `run`
        refine ⟨older ++ [z], [], by rw [List.append_nil], by simpa using hlt, by simp,
          .inr ⟨z, by simp, hkz⟩, ?_⟩
        rw [if_neg (by simp), List.nil_append]
      | true =>
        -- `z` is kept: the walk goes on with `z :: run`
        have hrun : a :: bs = older ++ z :: run := by
          rw [h, List.append_assoc, List.singleton_append]
        obtain ⟨older', run', rfl, hlen, hkeep', hstop, hwalk⟩ := ih (z :: run) hrun
          (by simp only [List.length_cons]; omega)
          (fun x hx => (List.mem_cons.mp hx).elim (fun hx => hx ▸ hkz) (hkeep x))
        refine ⟨older', run' ++ [z], by rw [List.append_assoc], ?_, ?_, ?_, ?_⟩
        · simpa using hlen
        · intro x hx
          rcases List.mem_append.mp hx with hx | hx
          · exact hkeep' x hx
          · rw [List.mem_singleton.mp hx, hkz]
        · simpa using hstop
        · rw [if_pos rfl, hprev, ← List.length_cons, hwalk, List.append_assoc,
            List.singleton_append]

omit [NeZero n] in
/-- The entries the walk passes on a log, newest first: those kept behind the newest entry, up to the
first that is not, and at most `n - 1` of them. -/
theorem takeWhile_take_eq_reverse {older run : List α} (hsplit : a :: bs = older ++ run)
    (hlen : run.length < n) (hkeep : ∀ x ∈ run, keep x = true)
    (hstop : run.length + 1 = n ∨ ∃ z, older.getLast? = some z ∧ keep z = false) :
    ((a :: bs).reverse.takeWhile keep).take (n - 1) = run.reverse := by
  rw [hsplit, List.reverse_append, List.takeWhile_append_of_pos (by simpa using hkeep)]
  rcases hstop with hfull | ⟨z, hz, hkz⟩
  · -- `n - 1` kept entries: the cut ends the run
    exact List.take_left' (by rw [List.length_reverse]; omega)
  · -- the entry before the run is not kept: the run ends there
    obtain ⟨older', rfl⟩ := List.getLast?_eq_some_iff.mp hz
    rw [List.reverse_append, List.reverse_singleton, List.singleton_append,
      List.takeWhile_cons_of_neg (by simp [hkz]), List.append_nil,
      List.take_of_length_le (by rw [List.length_reverse]; omega)]

/-- Walking back from the pointer of a log whose first entry is not kept reads no `nil` value: it
stops after the kept entries behind the newest, up to the first that is not and at most `n - 1`
of them, at the element that holds the oldest of them, or the newest entry if there are none. -/
theorem walkBack_log (ha : keep a = false) :
    ∃ e, walkBack (log a (bs ++ [c])).1 (log a (bs ++ [c])).2 keep (log a (bs ++ [c])).2 =
        some e ∧ (log a (bs ++ [c]) : Values α n × Fin n).1 e =
          some ((c :: ((a :: bs).reverse.takeWhile keep).take (n - 1)).getLast
            (List.cons_ne_nil _ _)) := by
  obtain ⟨older, run, hsplit, hlen, hkeep, hstop, hwalk⟩ :=
    walkBack_log_of_eq_append a c bs ha (a :: bs) [] (List.append_nil _).symm
      (Nat.pos_of_neZero n) (by simp)
  rw [List.append_nil] at hlen hstop hwalk
  rw [List.length_nil, Nat.cast_zero, sub_zero] at hwalk
  have hrun := takeWhile_take_eq_reverse a bs hsplit hlen hkeep hstop
  refine ⟨_, hwalk, ?_⟩
  simp only [hrun]
  -- the element the walk stops at holds the run's oldest entry, or the newest if the run is empty
  cases run with
  | nil =>
    have hsplit' : a :: (bs ++ [c]) = (a :: bs) ++ c :: [] := by simp
    simpa using get_log_of_eq_append a (bs ++ [c]) hsplit' (Nat.pos_of_neZero n)
  | cons r rs =>
    have hsplit' : a :: (bs ++ [c]) = older ++ r :: (rs ++ [c]) := by
      rw [← List.cons_append, hsplit]
      simp
    have hget : (log a (bs ++ [c]) : Values α n × Fin n).1
        ((log a (bs ++ [c]) : Values α n × Fin n).2 - ((rs ++ [c]).length : Fin n)) = some r :=
      get_log_of_eq_append a (bs ++ [c]) hsplit'
        (by simp only [List.length_append, List.length_cons] at hlen ⊢; omega)
    simpa using hget

end Walk

end RingBuffer
