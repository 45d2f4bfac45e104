import Mathlib

/-!
# Keyed tables and keyset paging

`page s last n` is one page of keyset paging over a finite set of natural-number keys: the `n`
smallest keys above `last`, ascending, which is what `WHERE key > last ORDER BY key LIMIT n`
selects. A cursor that pages this way relies on three facts, proved here: every key of a page is
above the cursor (`mem_page`); a page reaches every key between the cursor and its own last key
(`mem_page_of_le`); and with `n ≥ 1` an empty page means no key is left above the cursor
(`page_eq_nil_iff`). The keys above the cursor are the page followed by the keys above its last
key (`above_eq_page_append`), so the pages of a cursor run are consecutive pieces of one ascending
list.

`KTable` is a finite map from natural-number keys to rows: a function to `Option` that carries its
finite set of keys, so that a table cannot be built whose key set misses a row.
-/

namespace Keyset

/-! ## Paging over a set of keys -/

/-- The keys of `s` above `last`, ascending: the numbers up to the largest key, kept when they
are keys above `last`. Counting up rather than sorting keeps the definition one that the kernel
evaluates. -/
def above (s : Finset ℕ) (last : ℕ) : List ℕ :=
  (List.range (s.sup id + 1)).filter fun k => k ∈ s ∧ last < k

/-- One page: the `n` smallest keys of `s` above `last`, ascending. -/
def page (s : Finset ℕ) (last n : ℕ) : List ℕ := (above s last).take n

variable {s : Finset ℕ} {last n k : ℕ}

@[simp]
theorem mem_above : k ∈ above s last ↔ k ∈ s ∧ last < k := by
  simp only [above, List.mem_filter, List.mem_range, decide_eq_true_eq, and_iff_right_iff_imp]
  intro hk
  have : k ≤ s.sup id := Finset.le_sup (f := id) hk.1
  omega

theorem above_sorted (s : Finset ℕ) (last : ℕ) : (above s last).Pairwise (· < ·) :=
  List.pairwise_lt_range.filter _

theorem above_eq_nil_iff : above s last = [] ↔ ∀ k ∈ s, k ≤ last := by
  constructor
  · intro h k hk
    by_contra hlt
    have hmem : k ∈ above s last := mem_above.mpr ⟨hk, by omega⟩
    rw [h] at hmem
    exact List.not_mem_nil hmem
  · intro h
    apply List.eq_nil_iff_forall_not_mem.mpr
    intro k hk
    have := h k (mem_above.mp hk).1
    have := (mem_above.mp hk).2
    omega

theorem mem_page (hk : k ∈ page s last n) : k ∈ s ∧ last < k :=
  mem_above.mp (List.mem_of_mem_take hk)

theorem page_sorted (s : Finset ℕ) (last n : ℕ) : (page s last n).Pairwise (· < ·) :=
  (above_sorted s last).sublist (List.take_sublist _ _)

/-- A non-empty page holds every key of `s` above the cursor up to its own last key: the keys it
leaves out come after all of its own in the ascending list. -/
theorem mem_page_of_le (hne : page s last n ≠ []) (hk : k ∈ s) (hlt : last < k)
    (hle : k ≤ (page s last n).getLast hne) : k ∈ page s last n := by
  have habove : k ∈ above s last := mem_above.mpr ⟨hk, hlt⟩
  rw [← List.take_append_drop n (above s last), List.mem_append] at habove
  rcases habove with h | h
  · exact h
  · have hgt := (above_sorted s last).rel_of_mem_take_of_mem_drop
      (List.getLast_mem hne) h
    omega

/-- The last key of a non-empty page is above the cursor. -/
theorem lt_getLast_page (hne : page s last n ≠ []) : last < (page s last n).getLast hne :=
  (mem_page (List.getLast_mem hne)).2

/-- Every key of a non-empty page is at most its last key. -/
theorem le_getLast_of_mem_page (hne : page s last n ≠ []) (hk : k ∈ page s last n) :
    k ≤ (page s last n).getLast hne := by
  have hsplit := List.dropLast_append_getLast hne
  have hsorted := page_sorted s last n
  rw [← hsplit] at hk hsorted
  rcases List.mem_append.mp hk with hk | hk
  · exact Nat.le_of_lt ((List.pairwise_append.mp hsorted).2.2 k hk _ (List.mem_singleton_self _))
  · exact Nat.le_of_eq (List.mem_singleton.mp hk)

/-- The keys above the cursor are a non-empty page followed by the keys above the page's last
key. -/
theorem above_eq_page_append (hne : page s last n ≠ []) :
    above s last = page s last n ++ above s ((page s last n).getLast hne) := by
  have hp : (page s last n).getLast hne ∈ (above s last).take n := List.getLast_mem hne
  -- the keys after the page are exactly the keys above its last one
  have hdrop : (above s last).drop n = above s ((page s last n).getLast hne) := by
    refine List.Pairwise.eq_of_mem_iff ((above_sorted s last).sublist (List.drop_sublist _ _))
      (above_sorted s _) fun k => ?_
    rw [mem_above]
    constructor
    · intro hk
      exact ⟨(mem_above.mp (List.mem_of_mem_drop hk)).1,
        (above_sorted s last).rel_of_mem_take_of_mem_drop hp hk⟩
    · rintro ⟨hk, hpk⟩
      have hlast := lt_getLast_page hne
      have habove : k ∈ above s last := mem_above.mpr ⟨hk, by omega⟩
      rw [← List.take_append_drop n (above s last), List.mem_append] at habove
      rcases habove with h | h
      · have := le_getLast_of_mem_page hne h
        omega
      · exact h
  calc above s last = (above s last).take n ++ (above s last).drop n :=
        (List.take_append_drop n _).symm
    _ = page s last n ++ above s ((page s last n).getLast hne) := by rw [hdrop]; rfl

/-- With room for at least one key, a page is empty exactly when no key is left above the
cursor. -/
theorem page_eq_nil_iff (hn : 0 < n) : page s last n = [] ↔ ∀ k ∈ s, k ≤ last := by
  rw [page, List.take_eq_nil_iff, ← above_eq_nil_iff]
  constructor
  · rintro (h | h)
    · omega
    · exact h
  · exact Or.inr

theorem length_above_le_card (s : Finset ℕ) (last : ℕ) : (above s last).length ≤ s.card := by
  have hnodup : (above s last).Nodup := (above_sorted s last).imp Nat.ne_of_lt
  rw [← List.toFinset_card_of_nodup hnodup]
  exact Finset.card_le_card fun k hk => (mem_above.mp (List.mem_toFinset.mp hk)).1

/-- A page with room for every key of `s` is all of them above the cursor: a query with no
`LIMIT` over a set of at most `n` keys reads one. -/
theorem page_eq_above (h : s.card ≤ n) : page s last n = above s last :=
  List.take_of_length_le ((length_above_le_card s last).trans h)

/-! ## Keyed tables -/

/-- A finite map from natural-number keys to rows. -/
structure KTable (R : Type*) where
  /-- The row at each key, `none` where there is none. -/
  rows : ℕ → Option R
  /-- The keys that hold a row. -/
  keys : Finset ℕ
  mem_keys : ∀ k, k ∈ keys ↔ (rows k).isSome

namespace KTable

variable {R : Type*}

/-- The table without rows. -/
def empty : KTable R where
  rows := fun _ => none
  keys := ∅
  mem_keys := by simp

/-- The table with the row at `k` replaced by `v`, or removed when `v` is `none`. -/
def set (t : KTable R) (k : ℕ) (v : Option R) : KTable R where
  rows := Function.update t.rows k v
  keys := if v.isSome then insert k t.keys else t.keys.erase k
  mem_keys := by
    intro j
    by_cases hj : j = k
    · subst hj
      cases v <;> simp
    · cases v <;> simp [hj, t.mem_keys]

@[simp]
theorem rows_empty (k : ℕ) : (empty : KTable R).rows k = none := rfl

@[simp]
theorem rows_set (t : KTable R) (k : ℕ) (v : Option R) :
    (t.set k v).rows = Function.update t.rows k v := rfl

theorem mem_keys_iff (t : KTable R) {k : ℕ} : k ∈ t.keys ↔ (t.rows k).isSome := t.mem_keys k

/-- The largest key, as `SELECT key ... ORDER BY key DESC LIMIT 1` reads it: `none` for an
empty table. -/
def maxKey? (t : KTable R) : Option ℕ :=
  if t.keys.Nonempty then some (t.keys.sup id) else none

theorem maxKey?_eq_none {t : KTable R} : t.maxKey? = none ↔ ∀ k, t.rows k = none := by
  unfold maxKey?
  split_ifs with h
  · simp only [false_iff, not_forall]
    obtain ⟨k, hk⟩ := h
    exact ⟨k, Option.ne_none_iff_isSome.mpr (t.mem_keys_iff.mp hk)⟩
  · simp only [true_iff]
    intro k
    rw [Finset.not_nonempty_iff_eq_empty] at h
    have hk := t.mem_keys_iff (k := k)
    rw [h] at hk
    simpa using hk

theorem le_of_maxKey?_eq_some {t : KTable R} {m k : ℕ} (h : t.maxKey? = some m)
    (hk : (t.rows k).isSome) : k ≤ m := by
  unfold maxKey? at h
  split_ifs at h with hne
  cases h
  exact Finset.le_sup (f := id) (t.mem_keys_iff.mpr hk)

/-- One page of the table's keys. -/
def page (t : KTable R) (last n : ℕ) : List ℕ := Keyset.page t.keys last n

end KTable

end Keyset
