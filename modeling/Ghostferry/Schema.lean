import Mathlib.Data.List.Basic

/-!
# Table schemas

The part of go-mysql's `schema.Table` that the modelled code reads: the table's database and name,
its columns with their type class and signedness, and the positions of its primary key columns.
`GetPKColumn` indexes the columns by those positions; in Go an index out of range panics, here it
is `none`.
-/

namespace Ghostferry

/-- The type classes of `schema.go` (`TYPE_NUMBER` ... `TYPE_JSON`). -/
inductive ColumnType where
  | number
  | float
  | enum
  | set
  | string
  | datetime
  | timestamp
  | date
  | time
  | bit
  | json
  deriving DecidableEq, Repr

/-- A column: its name, type class (`Type`, a keyword here), the type as the server names it, and
`IsUnsigned`. -/
structure TableColumn where
  Name : String
  type : ColumnType
  RawType : String
  IsUnsigned : Bool
  deriving DecidableEq, Repr

/-- A table's schema. -/
structure Table where
  Schema : String
  Name : String
  Columns : List TableColumn
  /-- The positions of the primary key's columns in `Columns`. -/
  PKColumns : List ℕ
  deriving DecidableEq, Repr

namespace Table

/-- `GetPKColumn`: the `index`-th column of the primary key. -/
def GetPKColumn (t : Table) (index : ℕ) : Option TableColumn :=
  t.PKColumns[index]?.bind fun i => t.Columns[i]?

/-- `FindColumn`: the position of the column called `name`. -/
def FindColumn (t : Table) (name : String) : Option ℕ :=
  t.Columns.findIdx? fun col => col.Name = name

end Table

/-- `Table.String()`: `database.table`. (A `String` in this namespace would hide the type.) -/
def Table.string (t : Table) : String := t.Schema ++ "." ++ t.Name

end Ghostferry
