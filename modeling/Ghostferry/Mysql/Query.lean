import Mathlib.Data.List.Basic

/-!
# What MySQL returns for `SELECT *` and binds in a prepared `INSERT`

Two pieces of MySQL's semantics meet in the copy's read and write paths.

`SELECT *` returns the columns of its `FROM` clause. Over one table these are the table's columns
in the order of its definition. MySQL documents a join `USING (c)` as returning the coalesced
column `c` first, then the other columns of the first table in their order, then those of the
second. `starColumns` is that order for the two `FROM` clauses the cursor's queries use; the
derived table of the join has no column but `c`.

A prepared `INSERT INTO t (c₀, …, cₖ₋₁) VALUES (?, …, ?), …, (?, …, ?)` with `n` groups of `k`
placeholders takes its arguments in the order of the placeholders: placeholder `j` of group `r`
is argument `r * k + j`, and it goes to column `cⱼ` of the `r`-th row written (`bindInsert`).
When the arguments are rows of `k` values one after the other, value `j` of row `r` goes to
column `cⱼ` (`bindInsert_flatten`).
-/

namespace Mysql

/-! ## The columns of `SELECT *` -/

/-- The `FROM` clause of a query over one table. -/
inductive FromClause where
  /-- `FROM t`, whatever its `WHERE`, index hint, `ORDER BY` and `LIMIT`. -/
  | table
  /-- `FROM t JOIN (SELECT c FROM t ...) AS batch USING (c)`: a join with a derived table whose
  only column is `c`. -/
  | joinUsing (c : String)
  deriving DecidableEq, Repr

/-- The columns `SELECT *` returns over a table whose columns are `columns`, in order. -/
def starColumns (columns : List String) : FromClause → List String
  | .table => columns
  | .joinUsing c => c :: columns.filter (· ≠ c)

/-- A column of a select list as the result names it: without the backquotes around it. -/
def columnName (item : String) : String :=
  match item.toList with
  | '\x60' :: rest => if rest.getLast? = some '\x60' then String.ofList rest.dropLast else item
  | _ => item

/-- The columns a select list returns, in order: `*` stands for `starColumns`, any other item for
the column it names. -/
def selectColumns (columns : List String) (fromClause : FromClause) (select : List String) :
    List String :=
  select.flatMap fun item => if item = "*" then starColumns columns fromClause else [columnName item]

/-- Over the table itself, `SELECT *` returns the table's columns. -/
@[simp]
theorem selectColumns_star_table (columns : List String) :
    selectColumns columns .table ["*"] = columns := by
  simp [selectColumns, starColumns]

/-- A join `USING (c)` returns the table's columns in their own order exactly when `c` is the
table's first column, its names being distinct. -/
theorem starColumns_joinUsing_eq_iff {columns : List String} {c : String}
    (hnd : columns.Nodup) (hc : c ∈ columns) :
    starColumns columns (.joinUsing c) = columns ↔ columns.head? = some c := by
  simp only [starColumns]
  constructor
  · intro h
    rw [← h]
    rfl
  · intro h
    obtain ⟨rest, rfl⟩ : ∃ rest, columns = c :: rest := by
      cases columns with
      | nil => cases h
      | cons a rest =>
        obtain rfl := Option.some.inj h
        exact ⟨rest, rfl⟩
    -- `c` is not among the other columns, so the filter keeps all of them
    have hnot : c ∉ rest := (List.nodup_cons.mp hnd).1
    have hkeep : rest.filter (· ≠ c) = rest :=
      List.filter_eq_self.mpr fun a ha => by
        have : a ≠ c := fun hac => hnot (hac ▸ ha)
        simpa using this
    rw [List.filter_cons_of_neg (by simp), hkeep]

/-! ## The rows of a prepared `INSERT` -/

/-- One group of `k` placeholders, `(?,…,?)`. -/
def placeholderGroup (k : ℕ) : List Char :=
  ['('] ++ [','].intercalate (List.replicate k ['?']) ++ [')']

/-- The text of a prepared `INSERT IGNORE` into `table` of the columns `columns`, with `groups`
groups of one placeholder per column. -/
def insertText (table : List Char) (columns : List (List Char)) (groups : ℕ) : List Char :=
  "INSERT IGNORE INTO ".toList ++ table ++ " (".toList ++ [','].intercalate columns ++
    ") VALUES ".toList ++ [','].intercalate (List.replicate groups (placeholderGroup columns.length))

/-- The rows a prepared `INSERT` of `groups` groups of one placeholder per column writes with the
arguments `args`: in row `r`, column `j` gets argument `r * k + j`, `none` where there is none. -/
def bindInsert {α β : Type*} (columns : List α) (groups : ℕ) (args : List β) :
    List (List (α × Option β)) :=
  (List.range groups).map fun r => columns.mapIdx fun j c => (c, args[r * columns.length + j]?)

/-- Rows of `k` values laid one after the other: value `r * k + j` is value `j` of row `r`. -/
theorem getElem?_flatten_mul_add {β : Type*} {rows : List (List β)} {k : ℕ}
    (hk : ∀ row ∈ rows, row.length = k) {j : ℕ} (hj : j < k) :
    ∀ r, rows.flatten[r * k + j]? = rows[r]?.bind (·[j]?) := by
  induction rows with
  | nil => simp
  | cons row rows ih =>
    intro r
    have hrow : row.length = k := hk row (List.mem_cons_self ..)
    have ih' := ih fun row' h => hk row' (List.mem_cons_of_mem row h)
    rw [List.flatten_cons]
    cases r with
    | zero =>
      rw [List.getElem?_append_left (by omega)]
      simp
    | succ r =>
      -- skip the first row's `k` values
      have hidx : (r + 1) * k + j - row.length = r * k + j := by
        rw [hrow, Nat.succ_mul]
        omega
      rw [List.getElem?_append_right (by rw [hrow, Nat.succ_mul]; omega), hidx, ih' r]
      simp

/-- With the rows of `k = columns.length` values one after the other as its arguments, an
`INSERT` of one group per row writes value `j` of each row to column `j`. -/
theorem bindInsert_flatten {α β : Type*} (columns : List α) (rows : List (List β))
    (hk : ∀ row ∈ rows, row.length = columns.length) :
    bindInsert columns rows.length rows.flatten =
      rows.map fun row => columns.zip (row.map some) := by
  apply List.ext_getElem (by simp [bindInsert])
  intro r hr _
  have hr' : r < rows.length := by simpa [bindInsert] using hr
  have hrow : rows[r].length = columns.length := hk _ (List.getElem_mem hr')
  simp only [bindInsert, List.getElem_map, List.getElem_range]
  apply List.ext_getElem (by simp [hrow])
  intro j hj _
  have hj' : j < columns.length := by simpa using hj
  rw [List.getElem_mapIdx, List.getElem_zip, getElem?_flatten_mul_add hk hj' r]
  simp [hr', List.getElem?_eq_getElem (hrow ▸ hj')]

end Mysql
