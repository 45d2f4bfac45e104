import Ghostferry.Lib.Keyset
import Ghostferry.Mysql.Lexer

/-!
# MySQL's `INSERT IGNORE`, `UPDATE` and `DELETE` on one table

The statements here name columns by position, the value of column `i` of a row being the `i`-th
of the list. A table keeps its rows by primary key, the `pk`-th column, an integer; `Table n pk`
carries the invariant that every row has `n` columns and its own key in column `pk`. A table is
kept by natural numbers, each integer key at its own number (`keyCode`).

* `INSERT IGNORE` adds the row unless a row has its primary key, and otherwise changes nothing.
* `UPDATE ... SET ... WHERE ...` changes the rows that satisfy every condition, in key order: each
  gets the `SET` values in their columns, from left to right. When the new row's key is held by
  another row the statement fails with a duplicate-key error.
* `DELETE ... WHERE ...` removes the rows that satisfy every condition.

A condition is `c = v`, which no `NULL` satisfies, or `c IS NULL`. A value is what a literal
stands for (`Value`), and two values of a column are equal as SQL compares them exactly when they
are the same `Value`.
-/

namespace Mysql

open Keyset

/-- A condition on one column of a `WHERE` clause. -/
inductive Cond where
  /-- `column IS NULL`. -/
  | isNull
  /-- `column = v`: never true of `NULL`. -/
  | eq (v : Value)
  deriving DecidableEq, Repr

/-- Whether a column's value satisfies a condition. -/
def Cond.holds : Cond → Value → Bool
  | .isNull, x => x == .null
  | .eq v, x => x != .null && x == v

/-- A row satisfies a `WHERE` clause: the column of each condition, by position, satisfies it. -/
def satisfies (conds : List (ℕ × Cond)) (row : List Value) : Bool :=
  conds.all fun c => (row[c.1]?).any c.2.holds

/-- The row with the values of a `SET` clause put in their columns, from left to right. -/
def assign (set : List (ℕ × Value)) (row : List Value) : List Value :=
  set.foldl (fun row a => row.set a.1 a.2) row

/-- A statement on one table. -/
inductive Statement where
  | insertIgnore (row : List Value)
  | update (set : List (ℕ × Value)) (conds : List (ℕ × Cond))
  | delete (conds : List (ℕ × Cond))
  deriving DecidableEq, Repr

/-- The number an integer key is kept at: `2 * n` for `n ≥ 0`, and the odd numbers for the
negative keys. -/
def keyCode : ℤ → ℕ
  | .ofNat n => 2 * n
  | .negSucc n => 2 * n + 1

theorem keyCode_injective : Function.Injective keyCode := by
  intro a b h
  cases a <;> cases b <;> simp only [keyCode] at h
  · congr 1
    omega
  · omega
  · omega
  · congr 1
    omega

/-- The primary key a row holds in column `pk`, an integer, as the number it is kept at. -/
def keyOf (pk : ℕ) (row : List Value) : Option ℕ :=
  match row[pk]? with
  | some (.int n) => some (keyCode n)
  | _ => none

/-- A table of rows of `n` columns keyed by column `pk`. -/
structure Table (n pk : ℕ) where
  rows : KTable (List Value)
  wf : ∀ k row, rows.rows k = some row → row.length = n ∧ keyOf pk row = some k

/-- Putting the `SET` values in keeps the row's length. -/
@[simp]
theorem length_assign (set : List (ℕ × Value)) (row : List Value) :
    (assign set row).length = row.length := by
  induction set generalizing row with
  | nil => rfl
  | cons a set ih =>
    simp only [assign, List.foldl_cons] at ih ⊢
    rw [ih, List.length_set]

namespace Table

variable {n pk : ℕ}

/-- The keys of a finite set in ascending order, `0` included. -/
def sortedKeys (s : Finset ℕ) : List ℕ := (List.range (s.sup id + 1)).filter (· ∈ s)

/-- The keys of the rows that satisfy a `WHERE` clause, in key order. -/
def matching (t : Table n pk) (conds : List (ℕ × Cond)) : List ℕ :=
  sortedKeys (t.rows.keys.filter fun k => (t.rows.rows k).any (satisfies conds))

/-- The table without rows. -/
def empty : Table n pk where
  rows := KTable.empty
  wf := by simp

/-- The table with a row of the right shape put at its key. -/
def put (t : Table n pk) (row : List Value) (k : ℕ) (hrow : row.length = n ∧ keyOf pk row = some k) :
    Table n pk where
  rows := t.rows.set k (some row)
  wf := by
    intro j r hj
    by_cases hjk : j = k
    · subst hjk
      simp only [KTable.rows_set, Function.update_self, Option.some.injEq] at hj
      exact hj ▸ hrow
    · simp only [KTable.rows_set, Function.update_of_ne hjk] at hj
      exact t.wf j r hj

/-- The table without the row at `k`. -/
def erase (t : Table n pk) (k : ℕ) : Table n pk where
  rows := t.rows.set k none
  wf := by
    intro j r hj
    by_cases hjk : j = k
    · subst hjk
      simp at hj
    · simp only [KTable.rows_set, Function.update_of_ne hjk] at hj
      exact t.wf j r hj

/-- `UPDATE` of the row at `k` with the `SET` values: a duplicate-key error when another row
holds the new row's key. -/
def updateAt (set : List (ℕ × Value)) (t : Table n pk) (k : ℕ) : Except String (Table n pk) :=
  match hrow : t.rows.rows k with
  | none => .ok t
  | some row =>
    have h : (assign set row).length = n := (length_assign set row).trans (t.wf k row hrow).1
    match hk : keyOf pk (assign set row) with
    | some k' =>
      if k' ≠ k ∧ (t.rows.rows k').isSome then .error "Duplicate entry for key PRIMARY"
      else .ok ((t.erase k).put (assign set row) k' ⟨h, hk⟩)
    | none => .error "Incorrect primary key value"

/-- What a statement does to the table, or its error. -/
def exec (t : Table n pk) : Statement → Except String (Table n pk)
  | .insertIgnore row =>
    if h : row.length = n then
      match hk : keyOf pk row with
      | some k => if (t.rows.rows k).isSome then .ok t else .ok (t.put row k ⟨h, hk⟩)
      | none => .error "Incorrect primary key value"
    else .error "Column count doesn't match value count"
  | .update set conds => (t.matching conds).foldlM (updateAt set) t
  | .delete conds => .ok ((t.matching conds).foldl erase t)

@[ext]
theorem ext {t t' : Table n pk} (h : t.rows = t'.rows) : t = t' := by
  cases t
  cases t'
  cases h
  rfl

end Table

/-! ## The clauses of one image -/

/-- Each element with its position: `(i, a)` for the `i`-th element `a`. -/
def indexed {α : Type*} (l : List α) : List (ℕ × α) := l.zipIdx.map Prod.swap

theorem mem_indexed {α : Type*} {l : List α} {i : ℕ} {a : α} :
    (i, a) ∈ indexed l ↔ l[i]? = some a := by
  simp only [indexed, List.mem_map, Prod.exists, Prod.swap_prod_mk, Prod.mk.injEq]
  constructor
  · rintro ⟨b, j, hmem, rfl, rfl⟩
    exact List.mem_zipIdx_iff_getElem?.mp hmem
  · intro h
    exact ⟨a, i, List.mem_zipIdx_iff_getElem?.mpr h, rfl, rfl⟩

/-- The condition that a column holds `v`: `IS NULL` for `NULL`, `= v` otherwise. -/
def Cond.of (v : Value) : Cond := if v = .null then .isNull else .eq v

@[simp]
theorem holds_of (v x : Value) : (Cond.of v).holds x = true ↔ x = v := by
  unfold Cond.of Cond.holds
  split_ifs with hv
  · simp [hv]
  · simp only [bne_iff_ne, ne_eq, Bool.and_eq_true, beq_iff_eq]
    constructor
    · exact fun h => h.2
    · rintro rfl
      exact ⟨hv, rfl⟩

/-- A row of the image's length satisfies the conditions of an image exactly when it is the
image. -/
theorem satisfies_indexed_of {vs row : List Value} (hlen : row.length = vs.length) :
    satisfies (indexed (vs.map Cond.of)) row = true ↔ row = vs := by
  simp only [satisfies, List.all_eq_true, Prod.forall, mem_indexed, List.getElem?_map,
    Option.map_eq_some_iff, forall_exists_index, and_imp]
  constructor
  · -- each column holds the image's value
    intro h
    refine List.ext_getElem? fun i => ?_
    cases hv : vs[i]? with
    | none =>
      rw [List.getElem?_eq_none_iff] at hv ⊢
      omega
    | some v =>
      have hany := h i _ v hv rfl
      cases hx : row[i]? with
      | none =>
        rw [hx] at hany
        cases hany
      | some x =>
        rw [hx, Option.any_some, holds_of] at hany
        rw [hany]
  · rintro rfl i c v hv rfl
    simp [hv]

/-- The `SET` values of an image, one per column from column `i` on, make the row the image. -/
theorem assign_zipIdx (vs row : List Value) (i : ℕ) (hlen : row.length = i + vs.length) :
    assign ((vs.zipIdx i).map Prod.swap) row = row.take i ++ vs := by
  induction vs generalizing i row with
  | nil => simp [assign, List.take_of_length_le (by simp at hlen; omega : row.length ≤ i)]
  | cons v vs ih =>
    have hi : i < row.length := by simp at hlen; omega
    simp only [List.zipIdx_cons, List.map_cons, Prod.swap_prod_mk, assign, List.foldl_cons]
    -- the value goes to column `i`, and the rest of the image to the columns after it
    have hrest := ih (row.set i v) (i + 1) (by simp at hlen ⊢; omega)
    simp only [assign] at hrest
    rw [hrest, List.take_add_one, List.take_set_of_le (Nat.le_refl i),
      List.getElem?_set_self hi]
    simp

/-- The `SET` values of an image make a row of its length the image. -/
theorem assign_indexed {vs row : List Value} (hlen : row.length = vs.length) :
    assign (indexed vs) row = vs := by
  have h := assign_zipIdx vs row 0 (by omega)
  rw [List.take_zero, List.nil_append] at h
  exact h

namespace Table

variable {n pk : ℕ}

theorem sortedKeys_singleton (k : ℕ) : sortedKeys {k} = [k] := by
  simp only [sortedKeys, Finset.sup_singleton, id_eq, List.range_succ, List.filter_append,
    Finset.mem_singleton]
  rw [List.filter_eq_nil_iff.mpr fun j hj => by simp at hj ⊢; omega]
  simp

theorem sortedKeys_empty : sortedKeys ∅ = [] := rfl

/-- The rows an image's conditions select: the row at the image's key, if it is the image. -/
theorem matching_indexed_of (t : Table n pk) {old : List Value} (hlen : old.length = n) {k : ℕ}
    (hk : keyOf pk old = some k) :
    t.matching (indexed (old.map Cond.of)) = if t.rows.rows k = some old then [k] else [] := by
  -- the set of matching keys is `{k}` or empty: a row equal to the image sits at its key
  have hset : (t.rows.keys.filter fun j =>
      (t.rows.rows j).any (satisfies (indexed (old.map Cond.of)))) =
      if t.rows.rows k = some old then {k} else ∅ := by
    ext j
    simp only [Finset.mem_filter, t.rows.mem_keys_iff, Option.any_eq_true]
    constructor
    · rintro ⟨-, row, hrow, hsat⟩
      obtain rfl := (satisfies_indexed_of ((t.wf j row hrow).1.trans hlen.symm)).mp hsat
      have hj : keyOf pk row = some j := (t.wf j row hrow).2
      rw [hk] at hj
      obtain rfl := Option.some.inj hj
      simp [hrow]
    · intro hj
      split_ifs at hj with hold
      · obtain rfl := Finset.mem_singleton.mp hj
        exact ⟨by simp [hold], old, hold, (satisfies_indexed_of rfl).mpr rfl⟩
      · simp at hj
  unfold matching
  rw [hset]
  split_ifs
  · exact sortedKeys_singleton k
  · exact sortedKeys_empty

/-- No row satisfies the conditions of an image without a key. -/
theorem matching_indexed_of_none (t : Table n pk) {old : List Value} (hlen : old.length = n)
    (hk : keyOf pk old = none) : t.matching (indexed (old.map Cond.of)) = [] := by
  have hset : (t.rows.keys.filter fun j =>
      (t.rows.rows j).any (satisfies (indexed (old.map Cond.of)))) = ∅ := by
    ext j
    simp only [Finset.mem_filter, t.rows.mem_keys_iff, Option.any_eq_true,
      Finset.notMem_empty, iff_false, not_and]
    rintro - ⟨row, hrow, hsat⟩
    obtain rfl := (satisfies_indexed_of ((t.wf j row hrow).1.trans hlen.symm)).mp hsat
    have := (t.wf j row hrow).2
    rw [hk] at this
    cases this
  unfold matching
  rw [hset]
  exact sortedKeys_empty

/-- `DELETE` with an image's conditions removes the image's row, if the table holds it. -/
theorem exec_delete_indexed_of (t : Table n pk) {old : List Value} (hlen : old.length = n) {k : ℕ}
    (hk : keyOf pk old = some k) :
    t.exec (.delete (indexed (old.map Cond.of))) =
      .ok (if t.rows.rows k = some old then t.erase k else t) := by
  simp only [exec, matching_indexed_of t hlen hk]
  split_ifs <;> rfl

/-- `UPDATE` with an image's conditions updates the image's row, if the table holds it. -/
theorem exec_update_indexed_of (t : Table n pk) (set : List (ℕ × Value)) {old : List Value}
    (hlen : old.length = n) {k : ℕ} (hk : keyOf pk old = some k) :
    t.exec (.update set (indexed (old.map Cond.of))) =
      if t.rows.rows k = some old then t.updateAt set k else .ok t := by
  simp only [exec, matching_indexed_of t hlen hk]
  split_ifs
  · simp only [List.foldlM_cons, List.foldlM_nil]
    cases t.updateAt set k <;> rfl
  · rfl

end Table

end Mysql
