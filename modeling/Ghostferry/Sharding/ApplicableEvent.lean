import Ghostferry.Sharding.CopyFilter

/-!
# Which binlog events the sharded copy applies

`ShardedCopyFilter.ApplicableEvent` of `sharding/filter.go` decides whether a row event belongs
to the shard being copied. It reads the sharding column of the event's table: `ShardingKey`, or
the primary key for a table of `PrimaryKeyTables`. `parseShardingValue` turns the value in that
column of each image into an `int64`. It compares the result with `ShardingValue`, and reports an
error when the two images disagree. `BuildSelect` selects the rows whose sharding column equals
`ShardingValue`, so the filter is meant to keep exactly the events of such rows.

`parseShardingValue` folds every Go integer into an `int64`, and an unsigned one with the
conversion `int64(v)`, which keeps the bits: a number from `2^63` on becomes itself minus `2^64`
(`toInt_parseShardingValue`). `ApplicableEvent_eq` states the filter's answer in those terms, for
any images whose sharding values are integers. Where the wrap changes nothing (every number below
`2^63`, or a non-negative `ShardingValue`), the answer is the agreement `filter.go` documents
(`ApplicableEvent_iff`). A negative `ShardingValue` and an unsigned `BIGINT` sharding column do
disagree: the row with the value `2^64 - 1` is applied for the sharding value `-1`, which
`BuildSelect` never selects (`wrapped_sharding_value_applied`).

`fmtVerb` is `fmt`'s formatting of a value under a verb (`%v`, `%t`); it makes the texts of the
errors and nothing else.
-/

namespace Ghostferry

/-- `fmt.Errorf(prefix + "%s", err)` on a failure: an error is wrapped, a panic goes through. -/
def wrapError (pre : String) : GoFailure → GoFailure
  | .error err => .error (pre ++ err)
  | .panic msg => .panic msg

/-- `OldValues()`: the old image, `nil` for an insert. -/
def DMLEvent.OldValues : DMLEvent → Option RowData
  | .insert _ _ => none
  | .update _ oldValues _ => some oldValues
  | .delete _ oldValues => some oldValues

/-- `NewValues()`: the new image, `nil` for a delete. -/
def DMLEvent.NewValues : DMLEvent → Option RowData
  | .insert _ newValues => some newValues
  | .update _ _ newValues => some newValues
  | .delete _ _ => none

/-- `GetPKColumn(0).Name`, which panics on a table without a primary key. -/
def pkColumnName (table : Table) : Except GoFailure String :=
  match table.PKColumns[0]? with
  | none => throw (.panic "runtime error: index out of range [0] with length 0")
  | some i =>
    match table.Columns[i]? with
    | some col => pure col.Name
    | none => throw (.panic ("runtime error: index out of range [" ++ toString i ++
        "] with length " ++ toString table.Columns.length))

/-! ## The `int64` of a sharding value -/

/-- The number a Go integer of any width and signedness stands for. -/
def GoValue.intValue (v : GoValue) : Option ℤ :=
  match Uint64Value v with
  | some u => some u.toNat
  | none => (Int64Value v).map Int64.toInt

/-- The `int64` with the bits of a number below `2^64`: the number itself below `2^63`, the number
minus `2^64` from there on. -/
def wrapInt64 (z : ℤ) : ℤ := if z < 2 ^ 63 then z else z - 2 ^ 64

/-- `int64(u)` keeps the bits of `u`. -/
theorem toInt_toInt64 (u : UInt64) : u.toInt64.toInt = wrapInt64 u.toNat := by
  have hbits : u.toInt64.toInt = u.toInt64.toBitVec.toInt := rfl
  have hnat : u.toBitVec.toNat = u.toNat := rfl
  rw [hbits, UInt64.toBitVec_toInt64, BitVec.toInt, hnat, wrapInt64]
  split_ifs <;> omega

/-- A signed integer's number is an `int64`'s: the wrap leaves it alone. -/
theorem wrapInt64_toInt (i : Int64) : wrapInt64 i.toInt = i.toInt := by
  have := Int64.toInt_lt i
  simp only [wrapInt64]
  split_ifs <;> omega

namespace Sharding

open Keyset

/-- `parseShardingValue`: the image's value at `index` as an `int64`, and whether the image
exists. -/
def parseShardingValue (fmtVerb : Char → GoValue → String) (values : Option RowData)
    (index : ℕ) : Except GoFailure (Int64 × Bool) :=
  match values with
  | none => pure (0, false)
  | some values =>
    match values[index]? with
    | none => throw (.panic ("runtime error: index out of range [" ++ toString index ++
        "] with length " ++ toString values.length))
    | some v =>
      match Uint64Value v with
      | some u => pure (u.toInt64, true)
      | none =>
        match Int64Value v with
        | some i => pure (i, true)
        | none => throw (.error ("invalid type " ++ fmtVerb 't' v))

/-- The first lines of `ApplicableEvent`: the sharding column of a table, `ShardingKey` or, for a
table of `PrimaryKeyTables`, its primary key. -/
def ShardedCopyFilter.shardingKeyFor (f : ShardedCopyFilter) (table : Table) :
    Except GoFailure String :=
  if table.Name ∈ f.PrimaryKeyTables then pkColumnName table else pure f.ShardingKey

/-- `ShardedCopyFilter.ApplicableEvent`. -/
def ShardedCopyFilter.ApplicableEvent (f : ShardedCopyFilter) (fmtVerb : Char → GoValue → String)
    (event : DMLEvent) : Except GoFailure Bool := do
  let table := event.TableSchema
  let shardingKey ← f.shardingKeyFor table
  match table.Columns.findIdx? (·.Name = shardingKey) with
  -- no column of the table is the sharding column
  | none => pure false
  | some idx =>
    let (oldShardingValue, oldExists) ←
      (parseShardingValue fmtVerb (DMLEvent.OldValues event) idx).mapError
        (wrapError "parsing old sharding key: ")
    let (newShardingValue, newExists) ←
      (parseShardingValue fmtVerb (DMLEvent.NewValues event) idx).mapError
        (wrapError "parsing new sharding key: ")
    let oldEqual := oldExists && decide (oldShardingValue.toInt = f.ShardingValue)
    let newEqual := newExists && decide (newShardingValue.toInt = f.ShardingValue)
    if oldEqual != newEqual && oldExists && newExists then
      throw (.error ("sharding key changed from " ++
        fmtVerb 'v' (((DMLEvent.OldValues event).bind (·[idx]?)).getD .nil) ++ " to " ++
        fmtVerb 'v' (((DMLEvent.NewValues event).bind (·[idx]?)).getD .nil)))
    pure (oldEqual || newEqual)

/-- The image's sharding value parses to the `int64` with the bits of its number. -/
theorem toInt_parseShardingValue (fmtVerb : Char → GoValue → String) {values : RowData}
    {idx : ℕ} {v : GoValue} {z : ℤ} (hv : values[idx]? = some v) (hz : v.intValue = some z) :
    ∃ x : Int64, parseShardingValue fmtVerb (some values) idx = .ok (x, true) ∧
      x.toInt = wrapInt64 z := by
  simp only [GoValue.intValue] at hz
  cases hu : Uint64Value v with
  | some u =>
    rw [hu, Option.some.injEq] at hz
    refine ⟨u.toInt64, by simp [parseShardingValue, hv, hu, pure, Except.pure], ?_⟩
    rw [toInt_toInt64, hz]
  | none =>
    -- a signed integer: `Int64Value` already gives the `int64`
    rw [hu] at hz
    obtain ⟨i, hi, rfl⟩ := Option.map_eq_some_iff.mp hz
    exact ⟨i, by simp [parseShardingValue, hv, hu, hi, pure, Except.pure], (wrapInt64_toInt i).symm⟩

/-! ## The filter's answer -/

/-- The number in the sharding column of an image, `none` for an image that does not exist. -/
def shardingNumber (img : Option RowData) (idx : ℕ) : Option ℤ :=
  img.bind fun vs => vs[idx]?.bind GoValue.intValue

/-- The image exists, and its sharding value is an integer. -/
def IntegerAt (idx : ℕ) (img : Option RowData) : Prop :=
  ∀ vs ∈ img, (vs[idx]?.bind GoValue.intValue).isSome

/-- An image whose sharding value is an integer parses to the `int64` of its number; an image that
does not exist, to `(0, false)`. -/
theorem parseShardingValue_eq (fmtVerb : Char → GoValue → String) {img : Option RowData}
    {idx : ℕ} (h : IntegerAt idx img) :
    ∃ x : Int64, parseShardingValue fmtVerb img idx = .ok (x, img.isSome) ∧
      ∀ z ∈ shardingNumber img idx, x.toInt = wrapInt64 z := by
  cases img with
  | none => exact ⟨0, rfl, fun z hz => by cases hz⟩
  | some vs =>
    obtain ⟨z, hz⟩ := Option.isSome_iff_exists.mp (h vs rfl)
    obtain ⟨v, hv, hvz⟩ := Option.bind_eq_some_iff.mp hz
    obtain ⟨x, hx, hxz⟩ := toInt_parseShardingValue fmtVerb hv hvz
    refine ⟨x, hx, fun z' hz' => ?_⟩
    have : z' = z := by
      simp only [shardingNumber, Option.bind_some] at hz'
      exact Option.some.inj (hz'.symm.trans hz)
    rw [this, hxz]

/-- The filter compares the wrapped number of an image with `ShardingValue`. -/
def WrappedEq (V : ℤ) (n : Option ℤ) : Bool := n.any fun z => decide (wrapInt64 z = V)

/-- The filter's comparison of an image: it exists and its parsed value is `ShardingValue`. -/
theorem exists_and_eq_WrappedEq {V : ℤ} {img : Option RowData} {idx : ℕ} {x : Int64}
    (hx : ∀ z ∈ shardingNumber img idx, x.toInt = wrapInt64 z) (h : IntegerAt idx img) :
    (img.isSome && decide (x.toInt = V)) = WrappedEq V (shardingNumber img idx) := by
  cases img with
  | none => rfl
  | some vs =>
    obtain ⟨z, hz⟩ := Option.isSome_iff_exists.mp (h vs rfl)
    have hn : shardingNumber (some vs) idx = some z := hz
    rw [hn, WrappedEq, Option.any_some, hx z hn]
    rfl

/-- The filter's answer for an event of a table whose sharding column is its `idx`-th column and
whose images hold integers there: an error when both images exist and exactly one of them has the
`int64` `ShardingValue`, and otherwise whether one of them has it. -/
theorem ApplicableEvent_eq {f : ShardedCopyFilter} (fmtVerb : Char → GoValue → String)
    {e : DMLEvent} {shardingKey : String} {idx : ℕ}
    (hkey : f.shardingKeyFor e.TableSchema = .ok shardingKey)
    (hidx : e.TableSchema.Columns.findIdx? (·.Name = shardingKey) = some idx)
    (hold : IntegerAt idx (DMLEvent.OldValues e)) (hnew : IntegerAt idx (DMLEvent.NewValues e)) :
    f.ApplicableEvent fmtVerb e =
      if (WrappedEq f.ShardingValue (shardingNumber (DMLEvent.OldValues e) idx) !=
          WrappedEq f.ShardingValue (shardingNumber (DMLEvent.NewValues e) idx)) &&
          (DMLEvent.OldValues e).isSome && (DMLEvent.NewValues e).isSome then
        .error (.error ("sharding key changed from " ++
          fmtVerb 'v' (((DMLEvent.OldValues e).bind (·[idx]?)).getD .nil) ++ " to " ++
          fmtVerb 'v' (((DMLEvent.NewValues e).bind (·[idx]?)).getD .nil)))
      else .ok (WrappedEq f.ShardingValue (shardingNumber (DMLEvent.OldValues e) idx) ||
        WrappedEq f.ShardingValue (shardingNumber (DMLEvent.NewValues e) idx)) := by
  obtain ⟨xo, hxo, hzo⟩ := parseShardingValue_eq fmtVerb hold
  obtain ⟨xn, hxn, hzn⟩ := parseShardingValue_eq fmtVerb hnew
  -- each image's comparison is the comparison of its wrapped number
  have heqo := exists_and_eq_WrappedEq (V := f.ShardingValue) hzo hold
  have heqn := exists_and_eq_WrappedEq (V := f.ShardingValue) hzn hnew
  simp only [ShardedCopyFilter.ApplicableEvent, hkey, hidx, hxo, hxn, Except.mapError, bind,
    Except.bind, heqo, heqn]
  split_ifs <;> rfl

/-- An integer's number is below `2^64`. -/
theorem intValue_lt {v : GoValue} {z : ℤ} (h : v.intValue = some z) : z < 2 ^ 64 := by
  unfold GoValue.intValue at h
  cases hu : Uint64Value v with
  | some u =>
    rw [hu, Option.some.injEq] at h
    have := u.toNat_lt
    omega
  | none =>
    rw [hu] at h
    obtain ⟨i, -, rfl⟩ := Option.map_eq_some_iff.mp h
    have := Int64.toInt_lt i
    omega

/-- Where the wrap changes nothing, the filter's comparison is numeric equality with an `int64`
`ShardingValue`: the number is below `2^63`, or `ShardingValue` is not negative, so that a wrapped
number, negative, cannot equal it. -/
theorem WrappedEq_eq {V : ℤ} {n : Option ℤ} (hV : V < 2 ^ 63) (hlt : ∀ z ∈ n, z < 2 ^ 64)
    (hw : ∀ z ∈ n, 0 ≤ V ∨ z < 2 ^ 63) : WrappedEq V n = decide (n = some V) := by
  cases n with
  | none => rfl
  | some z =>
    have h64 := hlt z rfl
    have hiff : wrapInt64 z = V ↔ z = V := by
      unfold wrapInt64
      rcases hw z rfl with hV0 | hz
      · -- from `2^63` on the wrapped number is negative, and the number above `V`
        split_ifs with h
        · rfl
        · constructor <;> intro h' <;> omega
      · rw [if_pos hz]
    simp only [WrappedEq, Option.any_some, Option.some.injEq, hiff]

theorem shardingNumber_lt {img : Option RowData} {idx : ℕ} :
    ∀ z ∈ shardingNumber img idx, z < 2 ^ 64 := by
  intro z hz
  cases img with
  | none => cases hz
  | some vs =>
    simp only [shardingNumber, Option.bind_some] at hz
    obtain ⟨v, -, hv⟩ := Option.bind_eq_some_iff.mp hz
    exact intValue_lt hv

/-- The agreement `filter.go` documents, where the wrap changes nothing: the filter fails exactly
when both images exist and one of them has the sharding value `ShardingValue` and the other does
not, and otherwise keeps the event exactly when one of them has it. -/
theorem ApplicableEvent_iff {f : ShardedCopyFilter} (fmtVerb : Char → GoValue → String)
    {e : DMLEvent} {shardingKey : String} {idx : ℕ}
    (hkey : f.shardingKeyFor e.TableSchema = .ok shardingKey)
    (hidx : e.TableSchema.Columns.findIdx? (·.Name = shardingKey) = some idx)
    (hold : IntegerAt idx (DMLEvent.OldValues e)) (hnew : IntegerAt idx (DMLEvent.NewValues e))
    (hV : f.ShardingValue < 2 ^ 63)
    (hwrap : ∀ img ∈ [DMLEvent.OldValues e, DMLEvent.NewValues e],
      ∀ z ∈ shardingNumber img idx, 0 ≤ f.ShardingValue ∨ z < 2 ^ 63) :
    ((∃ err, f.ApplicableEvent fmtVerb e = .error err) ↔
        (DMLEvent.OldValues e).isSome ∧ (DMLEvent.NewValues e).isSome ∧
          ¬(shardingNumber (DMLEvent.OldValues e) idx = some f.ShardingValue ↔
            shardingNumber (DMLEvent.NewValues e) idx = some f.ShardingValue)) ∧
      ∀ b, f.ApplicableEvent fmtVerb e = .ok b →
        (b = true ↔ shardingNumber (DMLEvent.OldValues e) idx = some f.ShardingValue ∨
          shardingNumber (DMLEvent.NewValues e) idx = some f.ShardingValue) := by
  have ho := WrappedEq_eq hV shardingNumber_lt (hwrap _ List.mem_cons_self)
  have hn := WrappedEq_eq hV shardingNumber_lt (hwrap _ (List.mem_cons_of_mem _
    List.mem_cons_self))
  rw [ApplicableEvent_eq fmtVerb hkey hidx hold hnew, ho, hn]
  constructor
  · constructor
    · rintro ⟨err, herr⟩
      split_ifs at herr with hc
      simp only [Bool.and_eq_true, bne_iff_ne, ne_eq, decide_eq_decide] at hc
      exact ⟨hc.1.2, hc.2, hc.1.1⟩
    · rintro ⟨hso, hsn, hne⟩
      refine ⟨_, if_pos ?_⟩
      simp only [Bool.and_eq_true, bne_iff_ne, ne_eq, decide_eq_decide]
      exact ⟨⟨hne, hso⟩, hsn⟩
  · intro b hb
    split_ifs at hb
    cases hb
    simp

/-- A table of accounts keyed by `id` and sharded by an unsigned `BIGINT` `tenant_id`. -/
def accountsTable : Table :=
  { Schema := "shard_1", Name := "accounts",
    Columns := [⟨"id", .number, "bigint(20) unsigned", true⟩,
      ⟨"tenant_id", .number, "bigint(20) unsigned", true⟩],
    PKColumns := [0] }

/-- The filter of the tenant whose sharding value is `-1`. -/
def negativeTenantFilter : ShardedCopyFilter :=
  { ShardingKey := "tenant_id", ShardingValue := -1, JoinedTables := [], PrimaryKeyTables := [] }

/-- The shard's `accounts`, whose row at pk `1` belongs to the tenant `2^64 - 1`. -/
def maxTenantSchema : Schema Row where
  tables := fun name =>
    if name = "accounts" then
      KTable.empty.set 1 (some [("id", 1), ("tenant_id", 18446744073709551615)])
    else KTable.empty
  column := fun r name => r.lookup name

theorem wrapped_sharding_value_applied (fmtVerb : Char → GoValue → String) :
    (GoValue.uint64 18446744073709551615).intValue ≠ some negativeTenantFilter.ShardingValue ∧
      negativeTenantFilter.ApplicableEvent fmtVerb
          (.insert accountsTable [.uint64 1, .uint64 18446744073709551615]) = .ok true ∧
      1 ∉ negativeTenantFilter.Selected maxTenantSchema "accounts" ∧
      negativeTenantFilter.BuildSelect maxTenantSchema "accounts" 0 200 = [] := by
  refine ⟨by decide, rfl, by decide, by decide⟩

end Sharding

end Ghostferry
