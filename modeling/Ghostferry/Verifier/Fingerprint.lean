import Ghostferry.DmlEvents
import Ghostferry.Lib.Keyset

/-!
# Row fingerprints

The verifier compares the source's rows with the target's by fingerprint. `GetMd5HashesSql`
selects each requested pk with `MD5(CONCAT(MD5(COALESCE(c₁, 'NULL')), …))` over the table's
columns, a `FLOAT` column read through `IF(c = '-0', 0, c)` (`normalizeAndQuoteColumn`), and
`compareHashes` returns the pks whose fingerprints differ or that only one side has.

`rowFingerprint` is the value of that expression, with the digest `md5` as a parameter: a value is
hashed as the text MySQL converts it to, and `NULL` as the text `NULL`. With an injective `md5`
of fixed width, two rows get one fingerprint exactly when each column has one text in both
(`rowFingerprint_eq_iff`). That is when the rows agree, up to the sign of a float zero, which the
`IF` removes, and up to `NULL` against the string `'NULL'`, which have the same text
(`coalesceText_eq_iff`). A target row that holds `'NULL'` where the source has `NULL` passes the
comparison (`null_string_passes_verification`).

`compareFingerprints` returns every requested pk whose row is on one side only or whose
fingerprints differ, and each once (`mem_compareFingerprints`, `nodup_compareFingerprints`).
-/

namespace Ghostferry

open Keyset

/-! ## The query -/

/-- `normalizeAndQuoteColumn`: the quoted column, read through `IF(c = '-0', 0, c)` when it is a
float. -/
def normalizeAndQuoteColumn (column : TableColumn) : List Char :=
  let quoted := quoteField column.Name
  if column.type = .float then "(if (".toList ++ quoted ++ " = '-0', 0, ".toList ++ quoted ++ "))".toList
  else quoted

/-- `rowMd5Selector`: the pk and the fingerprint of a row. -/
def rowMd5Selector (columns : List TableColumn) (pkColumn : String) : List Char :=
  let hashStrs := columns.map fun column =>
    "MD5(COALESCE(".toList ++ normalizeAndQuoteColumn column ++ ", 'NULL'))".toList
  quoteField pkColumn ++ ", MD5(CONCAT(".toList ++ [','].intercalate hashStrs ++
    ")) AS row_fingerprint".toList

/-- `GetMd5HashesSql`: the query of the fingerprints of the rows with the pks `pks`, and its
arguments. `squirrel` writes `pk IN (...)` with one placeholder per pk, and `(1=0)` for none. -/
def GetMd5HashesSql (schema table pkColumn : String) (columns : List TableColumn)
    (pks : List UInt64) : List Char × List UInt64 :=
  let quotedPK := quoteField pkColumn
  let condition := if pks = [] then "(1=0)".toList
    else quotedPK ++ " IN (".toList ++ [','].intercalate (pks.map fun _ => ['?']) ++ ")".toList
  ("SELECT ".toList ++ rowMd5Selector columns pkColumn ++ " FROM ".toList ++
    QuotedTableNameFromString schema table ++ " WHERE ".toList ++ condition ++
    " ORDER BY ".toList ++ quotedPK, pks)

/-! ## The value of a fingerprint -/

/-- A value of a row as MySQL's string functions read it: `NULL`; a float, by its sign and the
text of its magnitude (`0` for both zeros, whose sign the text shows and `=` ignores); or any
other value, by the text MySQL converts it to. -/
inductive Cell where
  | null
  | float (negative : Bool) (magnitude : List Char)
  | value (text : List Char)
  deriving DecidableEq, Repr

/-- `IF(c = '-0', 0, c)` on a float column, evaluated: `'-0'` compares as the number zero, so both
zeros become `0`. Other columns are read as they are. -/
def normalizeCell (column : TableColumn) (c : Cell) : Cell :=
  if column.type = .float then
    match c with
    | .float _ magnitude => if magnitude = ['0'] then .float false ['0'] else c
    | c => c
  else c

/-- `COALESCE(e, 'NULL')`: the text `MD5` reads. -/
def coalesceText : Cell → List Char
  | .null => "NULL".toList
  | .float negative magnitude => (if negative then ['-'] else []) ++ magnitude
  | .value text => text

/-- The fingerprint of a row: `MD5(CONCAT(MD5(COALESCE(c₁, 'NULL')), …))`, column `i` of the
table with value `i` of the row. -/
def rowFingerprint (md5 : List Char → List Char) (columns : List TableColumn) (row : List Cell) :
    List Char :=
  md5 (List.zipWith (fun column c => md5 (coalesceText (normalizeCell column c))) columns row).flatten

/-- The values a column can hold: a float in a float column, by a magnitude that starts with a
digit, and any other value in any other column. -/
def Cell.Fits (column : TableColumn) : Cell → Prop
  | .null => True
  | .float _ magnitude => column.type = .float ∧ ∃ d ∈ magnitude.head?, d.isDigit = true
  | .value _ => column.type ≠ .float

/-- A float zero, of either sign. -/
def Cell.IsZero (c : Cell) : Prop := ∃ negative, c = .float negative ['0']

/-! ## When two rows get one fingerprint -/

/-- Equal-length pieces are told apart by their concatenation. -/
theorem flatten_inj_of_length {α : Type*} {n : ℕ} :
    ∀ {L L' : List (List α)}, L.length = L'.length → (∀ l ∈ L, l.length = n) →
      (∀ l ∈ L', l.length = n) → (L.flatten = L'.flatten ↔ L = L')
  | [], [], _, _, _ => by simp
  | l :: L, l' :: L', hlen, hL, hL' => by
    have hl : l.length = l'.length := (hL l (by simp)).trans (hL' l' (by simp)).symm
    have ih := @flatten_inj_of_length α n L L' (by simpa using hlen)
      (fun l h => hL l (by simp [h])) (fun l h => hL' l (by simp [h]))
    simp only [List.flatten_cons, List.cons.injEq]
    constructor
    · intro h
      obtain ⟨rfl, hrest⟩ := List.append_inj h hl
      exact ⟨rfl, ih.mp hrest⟩
    · rintro ⟨rfl, rfl⟩
      rfl

section Fingerprint

variable {md5 : List Char → List Char} (hinj : Function.Injective md5)
  (hwidth : ∀ s, (md5 s).length = 32)

include hinj hwidth in
/-- With an injective digest of fixed width, two rows of the table's width get one fingerprint
exactly when each column has one text in both. -/
theorem rowFingerprint_eq_iff {columns : List TableColumn} {row row' : List Cell}
    (hlen : row.length = columns.length) (hlen' : row'.length = columns.length) :
    rowFingerprint md5 columns row = rowFingerprint md5 columns row' ↔
      ∀ (i : ℕ) (column : TableColumn) (c c' : Cell), columns[i]? = some column → row[i]? = some c →
        row'[i]? = some c' →
          coalesceText (normalizeCell column c) = coalesceText (normalizeCell column c') := by
  -- the outer digest is injective, and the concatenated inner digests have one width
  have hw : ∀ r : List Cell, ∀ l ∈ List.zipWith
      (fun column c => md5 (coalesceText (normalizeCell column c))) columns r, l.length = 32 := by
    intro r l hl
    obtain ⟨x, hx, rfl⟩ := List.getElem_of_mem hl
    simp [hwidth]
  rw [rowFingerprint, rowFingerprint, hinj.eq_iff,
    flatten_inj_of_length (by simp [hlen, hlen']) (hw row) (hw row')]
  constructor
  · intro h i column c c' hcol hc hc'
    have hi := congrArg (·[i]?) h
    simp only [List.getElem?_zipWith, hcol, hc, hc', Option.some.injEq] at hi
    exact hinj hi
  · intro h
    apply List.ext_getElem?
    intro i
    simp only [List.getElem?_zipWith]
    cases hcol : columns[i]? with
    | none => simp
    | some column =>
      -- a column of the table has a value in both rows
      have hi : i < columns.length := (List.getElem?_eq_some_iff.mp hcol).1
      obtain ⟨c, hc⟩ : ∃ c, row[i]? = some c := ⟨row[i], List.getElem?_eq_getElem (by omega)⟩
      obtain ⟨c', hc'⟩ : ∃ c', row'[i]? = some c' :=
        ⟨row'[i], List.getElem?_eq_getElem (by omega)⟩
      simp [hc, hc', h i column c c' hcol hc hc']

end Fingerprint

/-- The text of a float whose magnitude starts with a digit tells its sign and magnitude. -/
theorem coalesceText_float_inj {negative negative' : Bool} {magnitude magnitude' : List Char}
    (hm : ∃ d ∈ magnitude.head?, d.isDigit = true)
    (hm' : ∃ d ∈ magnitude'.head?, d.isDigit = true) :
    coalesceText (.float negative magnitude) = coalesceText (.float negative' magnitude') ↔
      negative = negative' ∧ magnitude = magnitude' := by
  obtain ⟨d, hd, hdig⟩ := hm
  obtain ⟨d', hd', hdig'⟩ := hm'
  -- a magnitude starts with a digit, so it is never `-` followed by anything
  have hminus : ∀ {l : List Char} {e : Char}, e ∈ l.head? → e.isDigit = true →
      ∀ l', l ≠ '-' :: l' := by
    rintro l e he hdig l' rfl
    simp only [List.head?_cons, Option.mem_def, Option.some.injEq] at he
    subst he
    revert hdig
    decide
  cases negative <;> cases negative' <;> simp [coalesceText]
  · exact hminus hd hdig magnitude'
  · exact fun h => hminus hd' hdig' magnitude h.symm

@[simp]
theorem normalizeCell_null (column : TableColumn) : normalizeCell column .null = .null := by
  unfold normalizeCell
  split <;> rfl

@[simp]
theorem normalizeCell_value (column : TableColumn) (text : List Char) :
    normalizeCell column (.value text) = .value text := by
  unfold normalizeCell
  split <;> rfl

/-- In a float column, the `IF` drops the sign of zero and of nothing else. -/
theorem normalizeCell_float {column : TableColumn} (h : column.type = .float) (negative : Bool)
    (magnitude : List Char) :
    normalizeCell column (.float negative magnitude) =
      .float (negative && decide (magnitude ≠ ['0'])) magnitude := by
  by_cases hm : magnitude = ['0']
  · simp [normalizeCell, h, hm]
  · simp [normalizeCell, h, hm]

/-- No float's text is `NULL`: it starts with `-` or a digit. -/
theorem coalesceText_float_ne_null {negative : Bool} {magnitude : List Char}
    (hm : ∃ d ∈ magnitude.head?, d.isDigit = true) :
    coalesceText (.float negative magnitude) ≠ "NULL".toList := by
  obtain ⟨d, hd, hdig⟩ := hm
  intro h
  have hhead := congrArg List.head? h
  cases negative
  · simp only [coalesceText, Bool.false_eq_true, if_false, List.nil_append] at hhead
    rw [Option.mem_def.mp hd] at hhead
    obtain rfl : d = 'N' := by simpa using hhead
    revert hdig
    decide
  · simp [coalesceText] at hhead

/-- Two values of a column have one text exactly when they are equal, or both float zeros, or
`NULL` and the string `'NULL'`. -/
theorem coalesceText_eq_iff {column : TableColumn} {c c' : Cell} (hc : c.Fits column)
    (hc' : c'.Fits column) :
    coalesceText (normalizeCell column c) = coalesceText (normalizeCell column c') ↔
      c = c' ∨ (c.IsZero ∧ c'.IsZero) ∨ (c = .null ∧ c' = .value "NULL".toList) ∨
        (c = .value "NULL".toList ∧ c' = .null) := by
  -- one case per pair of kinds; a float and another value never share a column
  cases c with
  | null =>
    cases c' with
    | null => simp
    | float negative' magnitude' =>
      obtain ⟨hty, hm'⟩ := hc'
      rw [normalizeCell_null, normalizeCell_float hty]
      refine iff_of_false (coalesceText_float_ne_null hm').symm ?_
      simp [Cell.IsZero]
    | value text' => simp [coalesceText, Cell.IsZero, eq_comm]
  | float negative magnitude =>
    obtain ⟨hty, hm⟩ := hc
    cases c' with
    | null =>
      rw [normalizeCell_null, normalizeCell_float hty]
      refine iff_of_false (coalesceText_float_ne_null hm) ?_
      simp [Cell.IsZero]
    | float negative' magnitude' =>
      obtain ⟨-, hm'⟩ := hc'
      rw [normalizeCell_float hty, normalizeCell_float hty, coalesceText_float_inj hm hm']
      by_cases h0 : magnitude = ['0'] <;> by_cases h0' : magnitude' = ['0'] <;>
        simp [Cell.IsZero, h0, h0']
      -- a zero against another float: their magnitudes differ
      intro h
      exact absurd h.symm h0'
    | value text' => exact absurd hty hc'
  | value text =>
    cases c' with
    | null => simp [coalesceText, Cell.IsZero]
    | float negative' magnitude' => exact absurd hc'.1 hc
    | value text' => simp [coalesceText, Cell.IsZero]

/-! ## Comparing the fingerprints -/

/-- `GetHashes`: the fingerprint of each requested pk that has a row, the map `resultSet`. -/
def GetHashes (md5 : List Char → List Char) (columns : List TableColumn)
    (t : KTable (List Cell)) (pks : List UInt64) : List (UInt64 × List Char) :=
  pks.dedup.filterMap fun pk => (t.rows pk.toNat).map fun row => (pk, rowFingerprint md5 columns row)

/-- One loop of `compareHashes`: the pks of `hashes` whose hash `other` does not hold, added to
the set `mismatchSet`. -/
def addMismatches (other : List (UInt64 × List Char)) (mismatchSet : List UInt64)
    (hashes : List (UInt64 × List Char)) : List UInt64 :=
  hashes.foldl (fun mismatchSet (pk, hash) =>
    if other.lookup pk = some hash then mismatchSet else mismatchSet.insert pk) mismatchSet

/-- `compareHashes`: the pks whose hash differs between the maps or is in one of them only, each
once. -/
def compareHashes (source target : List (UInt64 × List Char)) : List UInt64 :=
  addMismatches target (addMismatches source [] target) source

/-- `compareFingerprints`: the hashes of the requested pks on each side, compared. -/
def compareFingerprints (md5 : List Char → List Char) (columns : List TableColumn)
    (source target : KTable (List Cell)) (pks : List UInt64) : List UInt64 :=
  compareHashes (GetHashes md5 columns source pks) (GetHashes md5 columns target pks)

/-- One pass of the loop adds `pk` to the set exactly when `other` does not hold its hash. -/
theorem mem_ite_insert {other : List (UInt64 × List Char)} {mismatchSet : List UInt64}
    {pk x : UInt64} {hash : List Char} :
    x ∈ (if other.lookup pk = some hash then mismatchSet else mismatchSet.insert pk) ↔
      x ∈ mismatchSet ∨ (x = pk ∧ other.lookup x ≠ some hash) := by
  by_cases hpk : other.lookup pk = some hash
  · rw [if_pos hpk]
    -- `pk` itself is not added, and the condition rules it out
    constructor
    · exact .inl
    · rintro (h | ⟨rfl, hne⟩)
      · exact h
      · exact absurd hpk hne
  · rw [if_neg hpk, List.mem_insert_iff]
    constructor
    · rintro (rfl | h)
      · exact .inr ⟨rfl, hpk⟩
      · exact .inl h
    · rintro (h | ⟨rfl, -⟩)
      · exact .inr h
      · exact .inl rfl

/-- A pk is in the set after the loop when it was before, or the loop met it with a hash that
`other` does not hold. -/
theorem mem_addMismatches {other : List (UInt64 × List Char)} {x : UInt64} :
    ∀ {mismatchSet : List UInt64} {hashes : List (UInt64 × List Char)},
      x ∈ addMismatches other mismatchSet hashes ↔
        x ∈ mismatchSet ∨ ∃ hash, (x, hash) ∈ hashes ∧ other.lookup x ≠ some hash
  | mismatchSet, [] => by simp [addMismatches]
  | mismatchSet, (pk, hash) :: hashes => by
    have ih := @mem_addMismatches other x
      (if other.lookup pk = some hash then mismatchSet else mismatchSet.insert pk) hashes
    simp only [addMismatches, List.foldl_cons] at ih ⊢
    rw [ih, mem_ite_insert]
    -- the head's pair is the first of the pairs met
    simp only [List.mem_cons, Prod.mk.injEq, or_and_right, exists_or, and_assoc,
      exists_and_left, exists_eq_left, or_assoc]

/-- The loop adds each pk once. -/
theorem nodup_addMismatches {other : List (UInt64 × List Char)} :
    ∀ {mismatchSet : List UInt64} {hashes : List (UInt64 × List Char)}, mismatchSet.Nodup →
      (addMismatches other mismatchSet hashes).Nodup
  | _, [], h => h
  | mismatchSet, (pk, hash) :: hashes, h => by
    simp only [addMismatches, List.foldl_cons]
    apply nodup_addMismatches
    split
    · exact h
    · exact h.insert

/-- The map of pairs built from a list of distinct keys looks a key up to its value. -/
theorem lookup_filterMap_pair {K V : Type*} [BEq K] [LawfulBEq K] (f : K → Option V) (k : K) :
    ∀ {l : List K}, l.Nodup →
      (l.filterMap fun k => (f k).map fun v => (k, v)).lookup k = if k ∈ l then f k else none
  | [], _ => by simp
  | a :: l, hnd => by
    have ih := lookup_filterMap_pair f k (List.nodup_cons.mp hnd).2
    have ha : a ∉ l := (List.nodup_cons.mp hnd).1
    by_cases hak : a = k
    · subst hak
      cases hfa : f a with
      | none => simp [hfa, ih, ha]
      | some v => simp [hfa]
    · have hka : (k == a) = false := by simp [Ne.symm hak]
      cases hfa : f a with
      | none => simp [hfa, ih, Ne.symm hak]
      | some v => simp [hfa, List.lookup, hka, ih, Ne.symm hak]

/-- `GetHashes` maps each requested pk with a row to the row's fingerprint. -/
theorem lookup_GetHashes (md5 : List Char → List Char) (columns : List TableColumn)
    (t : KTable (List Cell)) (pks : List UInt64) (pk : UInt64) :
    (GetHashes md5 columns t pks).lookup pk =
      if pk ∈ pks then (t.rows pk.toNat).map (rowFingerprint md5 columns) else none := by
  -- the map's pairs are each pk with the fingerprint of its row
  have hpairs : GetHashes md5 columns t pks = pks.dedup.filterMap fun pk =>
      ((t.rows pk.toNat).map (rowFingerprint md5 columns)).map fun hash => (pk, hash) := by
    simp [GetHashes, Option.map_map, Function.comp_def]
  rw [hpairs, lookup_filterMap_pair _ pk (List.nodup_dedup pks)]
  simp [List.mem_dedup]

/-- A pair of `GetHashes` is a requested pk with its row's fingerprint. -/
theorem mem_GetHashes {md5 : List Char → List Char} {columns : List TableColumn}
    {t : KTable (List Cell)} {pks : List UInt64} {pk : UInt64} {hash : List Char} :
    (pk, hash) ∈ GetHashes md5 columns t pks ↔
      pk ∈ pks ∧ (t.rows pk.toNat).map (rowFingerprint md5 columns) = some hash := by
  simp only [GetHashes, List.mem_filterMap, List.mem_dedup]
  constructor
  · rintro ⟨pk', hpk', hmap⟩
    obtain ⟨row, hrow, hpair⟩ := Option.map_eq_some_iff.mp hmap
    obtain ⟨rfl, rfl⟩ := Prod.mk.inj hpair
    exact ⟨hpk', by simp [hrow]⟩
  · rintro ⟨hpk, hmap⟩
    obtain ⟨row, hrow, rfl⟩ := Option.map_eq_some_iff.mp hmap
    exact ⟨pk, hpk, by simp [hrow]⟩

section Compare

variable {md5 : List Char → List Char} {columns : List TableColumn}
  {source target : KTable (List Cell)} {pks : List UInt64}

/-- `compareFingerprints` returns exactly the requested pks whose row is on one side only or whose
fingerprints differ. -/
theorem mem_compareFingerprints {pk : UInt64} :
    pk ∈ compareFingerprints md5 columns source target pks ↔
      pk ∈ pks ∧ (source.rows pk.toNat).map (rowFingerprint md5 columns) ≠
        (target.rows pk.toNat).map (rowFingerprint md5 columns) := by
  simp only [compareFingerprints, compareHashes, mem_addMismatches, List.not_mem_nil, false_or,
    mem_GetHashes, lookup_GetHashes]
  -- a hash on one side that the other side does not hold
  constructor
  · rintro (⟨hash, ⟨hpk, ht⟩, hne⟩ | ⟨hash, ⟨hpk, hs⟩, hne⟩)
    · rw [if_pos hpk] at hne
      exact ⟨hpk, fun h => hne (h.trans ht)⟩
    · rw [if_pos hpk] at hne
      exact ⟨hpk, fun h => hne (h.symm.trans hs)⟩
  · rintro ⟨hpk, hne⟩
    rw [if_pos hpk, if_pos hpk]
    cases ht : (target.rows pk.toNat).map (rowFingerprint md5 columns) with
    | some hash => exact .inl ⟨hash, ⟨hpk, rfl⟩, fun h => hne (h.trans ht.symm)⟩
    | none =>
      rw [ht] at hne
      obtain ⟨hash, hs⟩ := Option.ne_none_iff_exists'.mp hne
      exact .inr ⟨hash, ⟨hpk, hs⟩, by simp⟩

/-- `compareFingerprints` returns each pk once. -/
theorem nodup_compareFingerprints : (compareFingerprints md5 columns source target pks).Nodup :=
  nodup_addMismatches (nodup_addMismatches List.nodup_nil)

end Compare

/-- The columns of a table with a pk and a string column. -/
def notesColumns : List TableColumn :=
  [⟨"id", .number, "bigint(20)", false⟩, ⟨"note", .string, "varchar(16)", false⟩]

/-- A source whose row at pk `1` has `NULL` in `note`. -/
def nullNoteSource : KTable (List Cell) := KTable.empty.set 1 (some [.value ['1'], .null])

/-- A target whose row at pk `1` has the string `'NULL'` in `note`. -/
def nullStringTarget : KTable (List Cell) :=
  KTable.empty.set 1 (some [.value ['1'], .value "NULL".toList])

theorem null_string_passes_verification (md5 : List Char → List Char) :
    nullNoteSource.rows 1 ≠ nullStringTarget.rows 1 ∧
      compareFingerprints md5 notesColumns nullNoteSource nullStringTarget [1] = [] := by
  refine ⟨by decide, List.eq_nil_iff_forall_not_mem.mpr fun pk hpk => ?_⟩
  obtain ⟨hpk1, hne⟩ := mem_compareFingerprints.mp hpk
  obtain rfl := List.mem_singleton.mp hpk1
  -- `COALESCE(NULL, 'NULL')` and `COALESCE('NULL', 'NULL')` are the same text
  exact hne rfl

end Ghostferry
