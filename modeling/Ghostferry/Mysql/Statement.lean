import Ghostferry.Mysql.Dml

/-!
# MySQL's reading of the statements the binlog writer sends

The `BinlogWriter` sends three shapes of statement on a table `db`.`t`:

* `INSERT IGNORE INTO `db`.`t` (`c₀`,...,`cₖ`) VALUES (v₀,...,vₖ)`,
* `UPDATE `db`.`t` SET `c₀`=v₀,...,`cₖ`=vₖ WHERE w₀ AND ... AND wₘ`,
* `DELETE FROM `db`.`t` WHERE w₀ AND ... AND wₘ`,

where a `vᵢ` is a literal and a `wᵢ` is `` `c`=v `` or `` `c` IS NULL ``. `parseStatement` reads
them as MySQL's parser does: an identifier between backticks, in which a doubled backtick stands
for one (`lexIdent`); each literal by a reader of literals (`LiteralReader`, MySQL's is
`lexLiteralReader`); and each column by its position among the table's columns. A `SET` puts its
values in their columns from left to right, and an `INSERT` gives the columns it does not name
their default, here `NULL`.

MySQL also takes other spellings of these statements (keywords in any case, any blank between
tokens). The reader here takes the one the writer uses; a text it does not take is `none`, as is a
column the table does not have.

The second part reads the texts built from pieces back: a list of quoted names, a list of
literals, and the clauses of `SET` and `WHERE`, each followed by a text of any kind
(`lexIdents_quoted`, `lexLiterals_intercalate`, `lexAssignments_intercalate`,
`lexConds_intercalate`), and then the three statements whole, over every column of a table whose
column names are distinct and, like its database's and its own, hold no backtick
(`parseStatement_insertIgnore`, `parseStatement_update`, `parseStatement_delete`). A backtick in
a name that is not doubled ends the name where it stands.
-/

namespace Mysql

/-! ## The reader -/

/-- The text after `pre`, when `text` starts with it. -/
def expect (pre text : List Char) : Option (List Char) :=
  if pre.isPrefixOf text then some (text.drop pre.length) else none

/-- The body of a quoted identifier, read after its opening backtick: the name and the text after
its closing backtick; `none` for an identifier that does not end. -/
def identBody : List Char → Option (List Char × List Char)
  | [] => none
  | '\x60' :: '\x60' :: rest => (identBody rest).map fun p => ('\x60' :: p.1, p.2)
  | '\x60' :: rest => some ([], rest)
  | c :: rest => (identBody rest).map fun p => (c :: p.1, p.2)

/-- A quoted identifier at the start of `text`: its name and the text after it. -/
def lexIdent : List Char → Option (List Char × List Char)
  | '\x60' :: rest => identBody rest
  | _ => none

/-- A table name, a quoted database and a quoted table joined by a point, and the text after it. -/
def lexTableName (text : List Char) : Option ((List Char × List Char) × List Char) :=
  match lexIdent text with
  | some (database, '.' :: rest) => (lexIdent rest).map fun p => ((database, p.1), p.2)
  | _ => none

/-- The body of an identifier takes some text. -/
theorem length_lt_of_identBody {text rest name : List Char}
    (h : identBody text = some (name, rest)) : rest.length < text.length := by
  induction text using identBody.induct generalizing name with
  | case1 => simp [identBody] at h
  | case2 rest' ih =>
    simp only [identBody, Option.map_eq_some_iff, Prod.mk.injEq] at h
    obtain ⟨p, hp, -, rfl⟩ := h
    have := ih hp
    simp only [List.length_cons]
    omega
  | case3 rest' hne =>
    rw [identBody.eq_3 _ hne] at h
    obtain ⟨-, rfl⟩ := Prod.mk.inj (Option.some.inj h)
    simp
  | case4 c rest' hne hc ih =>
    simp only [identBody.eq_4 _ _ hne hc, Option.map_eq_some_iff, Prod.mk.injEq] at h
    obtain ⟨p, hp, -, rfl⟩ := h
    have := ih hp
    simp only [List.length_cons]
    omega

/-- Every identifier takes some text. -/
theorem length_lt_of_lexIdent {text rest name : List Char}
    (h : lexIdent text = some (name, rest)) : rest.length < text.length := by
  unfold lexIdent at h
  split at h
  · have := length_lt_of_identBody h
    simp only [List.length_cons]
    omega
  · cases h

/-- A comma-separated list of quoted identifiers closed by a parenthesis, read after the opening
one: the names and the text after the parenthesis. -/
def lexIdents (text : List Char) : Option (List (List Char) × List Char) :=
  match _h : lexIdent text with
  | some (name, ',' :: rest) => (lexIdents rest).map fun p => (name :: p.1, p.2)
  | some (name, ')' :: rest) => some ([name], rest)
  | _ => none
termination_by text.length
decreasing_by
  have := length_lt_of_lexIdent _h
  simp only [List.length_cons] at this
  omega

/-- A comma-separated list of literals: the literals and the text after the last. -/
def lexLiterals (lex : LiteralReader) (text : List Char) : Option (List Literal × List Char) :=
  match _h : lex.read text with
  | some (l, ',' :: rest) => (lexLiterals lex rest).map fun p => (l :: p.1, p.2)
  | some (l, rest) => some ([l], rest)
  | none => none
termination_by text.length
decreasing_by
  have := lex.shortens _h
  simp only [List.length_cons] at this
  omega

/-- The assignments of a `SET` clause, `column=literal` separated by commas: the columns with the
values, and the text after the last. -/
def lexAssignments (lex : LiteralReader) (text : List Char) :
    Option (List (List Char × Value) × List Char) :=
  match _h : lexIdent text with
  | some (name, '=' :: rest) =>
    match _hl : lex.read rest with
    | some (l, ',' :: rest') =>
      (lexAssignments lex rest').map fun p => ((name, l.denote) :: p.1, p.2)
    | some (l, rest') => some ([(name, l.denote)], rest')
    | none => none
  | _ => none
termination_by text.length
decreasing_by
  have h1 := length_lt_of_lexIdent _h
  have h2 := lex.shortens _hl
  simp only [List.length_cons] at h1 h2
  omega

/-- The test of a `WHERE` condition after its column: ` IS NULL`, or `=` and a literal; with the
text after it. -/
def lexCond (lex : LiteralReader) (text : List Char) : Option (Cond × List Char) :=
  match expect " IS NULL".toList text with
  | some rest => some (.isNull, rest)
  | none =>
    match text with
    | '=' :: rest => (lex.read rest).map fun p => (.eq p.1.denote, p.2)
    | _ => none

/-- Reading an expected text never lengthens what is left. -/
theorem length_le_of_expect {pre text rest : List Char} (h : expect pre text = some rest) :
    rest.length ≤ text.length := by
  unfold expect at h
  split at h
  · obtain rfl := Option.some.inj h
    simp
  · cases h

/-- Reading a condition never lengthens what is left. -/
theorem length_le_of_lexCond {lex : LiteralReader} {text rest : List Char} {c : Cond}
    (h : lexCond lex text = some (c, rest)) : rest.length ≤ text.length := by
  unfold lexCond at h
  split at h
  · rename_i rest' hexp
    obtain ⟨-, rfl⟩ := Prod.mk.inj (Option.some.inj h)
    exact length_le_of_expect hexp
  · split at h
    · rename_i rest'
      obtain ⟨p, hp, hpe⟩ := Option.map_eq_some_iff.mp h
      have := lex.shortens hp
      rw [← (Prod.mk.inj hpe).2]
      simp only [List.length_cons]
      omega
    · cases h

/-- The conditions of a `WHERE` clause, joined by ` AND ` up to the end of the text. -/
def lexConds (lex : LiteralReader) (text : List Char) : Option (List (List Char × Cond)) :=
  match _h : lexIdent text with
  | some (name, rest) =>
    match _hc : lexCond lex rest with
    | some (c, []) => some [(name, c)]
    | some (c, rest') =>
      match _he : expect " AND ".toList rest' with
      | some rest'' => (lexConds lex rest'').map ((name, c) :: ·)
      | none => none
    | none => none
  | none => none
termination_by text.length
decreasing_by
  have h1 := length_lt_of_lexIdent _h
  have h2 := length_le_of_lexCond _hc
  have h3 := length_le_of_expect _he
  omega

/-- The position of a column among the table's columns. MySQL compares column names without
case; the names here are the table's own, so comparing them exactly finds the same column. -/
def columnIndex (columns : List (List Char)) (name : List Char) : Option ℕ :=
  if name ∈ columns then some (columns.idxOf name) else none

/-- Each column of a clause replaced by its position; `none` for a column the table does not
have. -/
def resolve {α : Type*} (columns : List (List Char)) (clause : List (List Char × α)) :
    Option (List (ℕ × α)) :=
  clause.mapM fun c => (columnIndex columns c.1).map fun i => (i, c.2)

/-- `INSERT IGNORE INTO table (columns) VALUES (values)`, read after its keywords. -/
def parseInsert (lex : LiteralReader) (columns : List (List Char)) (text : List Char) :
    Option ((List Char × List Char) × Statement) := do
  let (table, rest) ← lexTableName text
  let rest ← expect " (".toList rest
  let (names, rest) ← lexIdents rest
  let rest ← expect " VALUES (".toList rest
  let (values, rest) ← lexLiterals lex rest
  guard (rest = [')'])
  let positions ← names.mapM (columnIndex columns)
  guard (positions.length = values.length)
  pure (table, .insertIgnore
    (assign (positions.zip (values.map Literal.denote)) (List.replicate columns.length .null)))

/-- `UPDATE table SET assignments WHERE conditions`, read after its keyword. -/
def parseUpdate (lex : LiteralReader) (columns : List (List Char)) (text : List Char) :
    Option ((List Char × List Char) × Statement) := do
  let (table, rest) ← lexTableName text
  let rest ← expect " SET ".toList rest
  let (assignments, rest) ← lexAssignments lex rest
  let rest ← expect " WHERE ".toList rest
  let conds ← lexConds lex rest
  let set ← resolve columns assignments
  let conds ← resolve columns conds
  pure (table, .update set conds)

/-- `DELETE FROM table WHERE conditions`, read after its keywords. -/
def parseDelete (lex : LiteralReader) (columns : List (List Char)) (text : List Char) :
    Option ((List Char × List Char) × Statement) := do
  let (table, rest) ← lexTableName text
  let rest ← expect " WHERE ".toList rest
  let conds ← lexConds lex rest
  let conds ← resolve columns conds
  pure (table, .delete conds)

/-- The statement a text stands for on a table with the columns `columns`: the database and the
name of the table it names, and the statement by column positions. -/
def parseStatement (lex : LiteralReader) (columns : List (List Char)) (text : List Char) :
    Option ((List Char × List Char) × Statement) :=
  match expect "INSERT IGNORE INTO ".toList text with
  | some rest => parseInsert lex columns rest
  | none =>
    match expect "UPDATE ".toList text with
    | some rest => parseUpdate lex columns rest
    | none =>
      match expect "DELETE FROM ".toList text with
      | some rest => parseDelete lex columns rest
      | none => none

/-! ## The reader, one step at a time -/

/-- A text that starts with the expected one is read past it. -/
@[simp]
theorem expect_append (pre rest : List Char) : expect pre (pre ++ rest) = some rest := by
  simp [expect, List.isPrefixOf_iff_prefix]

section Steps

variable {lex : LiteralReader}

/-- A name followed by a comma: the list goes on after it. -/
theorem lexIdents_of_comma {text rest name : List Char}
    (h : lexIdent text = some (name, ',' :: rest)) :
    lexIdents text = (lexIdents rest).map fun p => (name :: p.1, p.2) := by
  rw [lexIdents]
  split <;> simp_all

/-- A name followed by a closing parenthesis ends the list. -/
theorem lexIdents_of_paren {text rest name : List Char}
    (h : lexIdent text = some (name, ')' :: rest)) : lexIdents text = some ([name], rest) := by
  rw [lexIdents]
  split <;> simp_all

/-- A literal followed by a comma: the list goes on after it. -/
theorem lexLiterals_of_comma {text rest : List Char} {l : Literal}
    (h : lex.read text = some (l, ',' :: rest)) :
    lexLiterals lex text = (lexLiterals lex rest).map fun p => (l :: p.1, p.2) := by
  rw [lexLiterals]
  split <;> simp_all

/-- A literal followed by no comma ends the list. -/
theorem lexLiterals_of_last {text rest : List Char} {l : Literal}
    (h : lex.read text = some (l, rest)) (hc : rest.head? ≠ some ',') :
    lexLiterals lex text = some ([l], rest) := by
  rw [lexLiterals]
  split
  · rename_i l' rest' heq
    rw [h, Option.some.injEq, Prod.mk.injEq] at heq
    rw [heq.2] at hc
    simp at hc
  all_goals simp_all

-- The readers match on what the last reader returned; each case of the match that these
-- lemmas do not describe contradicts their hypotheses.

/-- An assignment followed by a comma: the clause goes on after it. -/
theorem lexAssignments_of_comma {text rest rest' name : List Char} {l : Literal}
    (hi : lexIdent text = some (name, '=' :: rest)) (hl : lex.read rest = some (l, ',' :: rest')) :
    lexAssignments lex text =
      (lexAssignments lex rest').map fun p => ((name, l.denote) :: p.1, p.2) := by
  rw [lexAssignments]
  split <;> simp_all
  split <;> grind

/-- An assignment followed by no comma ends the clause. -/
theorem lexAssignments_of_last {text rest rest' name : List Char} {l : Literal}
    (hi : lexIdent text = some (name, '=' :: rest)) (hl : lex.read rest = some (l, rest'))
    (hc : rest'.head? ≠ some ',') :
    lexAssignments lex text = some ([(name, l.denote)], rest') := by
  rw [lexAssignments]
  split <;> simp_all
  split <;> grind

/-- ` IS NULL` is the condition that the column is `NULL`. -/
@[simp]
theorem lexCond_isNull (rest : List Char) :
    lexCond lex (" IS NULL".toList ++ rest) = some (.isNull, rest) := by
  unfold lexCond
  rw [expect_append]

/-- A condition at the end of the text ends the clause. -/
theorem lexConds_of_last {text rest name : List Char} {c : Cond}
    (hi : lexIdent text = some (name, rest)) (hc : lexCond lex rest = some (c, [])) :
    lexConds lex text = some [(name, c)] := by
  rw [lexConds]
  split <;> simp_all
  split <;> grind

/-- A condition followed by ` AND `: the clause goes on after it. -/
theorem lexConds_of_and {text rest rest' name : List Char} {c : Cond}
    (hi : lexIdent text = some (name, rest))
    (hc : lexCond lex rest = some (c, " AND ".toList ++ rest')) :
    lexConds lex text = (lexConds lex rest').map ((name, c) :: ·) := by
  have he : expect " AND ".toList (" AND ".toList ++ rest') = some rest' := expect_append _ _
  rw [lexConds]
  split <;> simp_all
  split <;> simp_all
  split <;> grind

end Steps

/-! ## Reading the writer's text back -/

/-- A name between backticks, as the writer quotes it. -/
def quoted (name : List Char) : List Char := '\x60' :: name ++ ['\x60']

/-- The body of a quoted name without backticks ends at its closing backtick, when no backtick
follows that. -/
theorem identBody_append {name rest : List Char} (hname : '\x60' ∉ name)
    (hrest : rest.head? ≠ some '\x60') :
    identBody (name ++ '\x60' :: rest) = some (name, rest) := by
  induction name with
  | nil =>
    -- the closing backtick is not doubled
    rw [List.nil_append, identBody.eq_3 _ fun r h => hrest (by simp [h])]
  | cons c name ih =>
    have hc : c ≠ '\x60' := fun h => hname (h ▸ List.mem_cons_self)
    rw [List.cons_append, identBody.eq_4 _ _ (fun _ h => absurd h hc) hc,
      ih fun h => hname (List.mem_cons_of_mem c h)]
    rfl

/-- A quoted name without backticks reads back as itself, when no backtick follows it. -/
theorem lexIdent_quoted {name rest : List Char} (hname : '\x60' ∉ name)
    (hrest : rest.head? ≠ some '\x60') : lexIdent (quoted name ++ rest) = some (name, rest) := by
  simpa [quoted, lexIdent] using identBody_append hname hrest

/-- The writer's quoted `database`.`table` reads back as the two names. -/
theorem lexTableName_quoted {database table rest : List Char} (hd : '\x60' ∉ database)
    (ht : '\x60' ∉ table) (hrest : rest.head? ≠ some '\x60') :
    lexTableName (quoted database ++ '.' :: (quoted table ++ rest)) =
      some ((database, table), rest) := by
  have hdb : lexIdent (quoted database ++ '.' :: (quoted table ++ rest)) =
      some (database, '.' :: (quoted table ++ rest)) := lexIdent_quoted hd (by simp)
  simp only [lexTableName, hdb, lexIdent_quoted ht hrest, Option.map_some]

/-- A list joined by a separator: its first part, then each other part after a separator. -/
theorem intercalate_cons_eq_append_flatMap {α : Type*} (sep x : List α) (xs : List (List α)) :
    sep.intercalate (x :: xs) = x ++ xs.flatMap (sep ++ ·) := by
  induction xs generalizing x with
  | nil => simp
  | cons y ys ih =>
    rw [List.intercalate_cons_cons, ih, List.flatMap_cons]
    simp

section Lists

variable {lex : LiteralReader}

/-- The writer's list of quoted column names reads back as the names. -/
theorem lexIdents_quoted {names : List (List Char)} (hne : names ≠ [])
    (hnames : ∀ name ∈ names, '\x60' ∉ name) (rest : List Char) :
    lexIdents ([','].intercalate (names.map quoted) ++ ')' :: rest) = some (names, rest) := by
  induction names with
  | nil => exact absurd rfl hne
  | cons name names ih =>
    have hname := hnames name List.mem_cons_self
    cases names with
    | nil =>
      rw [List.map_singleton, List.intercalate_singleton,
        lexIdents_of_paren (lexIdent_quoted hname (by simp))]
    | cons name' names =>
      have hrest := ih (List.cons_ne_nil _ _) fun n hn => hnames n (List.mem_cons_of_mem _ hn)
      rw [List.map_cons, List.intercalate_cons_of_ne_nil (by simp)]
      generalize [','].intercalate (List.map quoted (name' :: names)) = others at hrest ⊢
      -- the first name ends at the comma before the others
      simp only [List.append_assoc, List.cons_append, List.nil_append]
      rw [lexIdents_of_comma (lexIdent_quoted hname (by simp)), hrest, Option.map_some]

/-- Literals joined by commas read back one by one, when the text after them delimits the last
and is no comma. -/
theorem lexLiterals_intercalate {texts : List (List Char)} {xs : List Value}
    (h : List.Forall₂ lex.Reads texts xs) (hne : texts ≠ []) {rest : List Char}
    (hr : delimits rest = true) (hc : rest.head? ≠ some ',') :
    ∃ ls, lexLiterals lex ([','].intercalate texts ++ rest) = some (ls, rest) ∧
      ls.map Literal.denote = xs := by
  induction h with
  | nil => exact absurd rfl hne
  | @cons text x texts xs hx htail ih =>
    cases htail with
    | nil =>
      obtain ⟨l, hl, hd⟩ := hx rest hr
      refine ⟨[l], ?_, by simp [hd]⟩
      rw [List.intercalate_singleton, lexLiterals_of_last hl hc]
    | @cons text' x' texts' xs' hx' htail' =>
      obtain ⟨ls, hls, hmap⟩ := ih (List.cons_ne_nil _ _)
      rw [List.intercalate_cons_of_ne_nil (List.cons_ne_nil _ _)]
      generalize [','].intercalate (text' :: texts') = others at hls ⊢
      -- the first literal ends at the comma before the others
      obtain ⟨l, hl, hd⟩ := hx _ (delimits_comma (others ++ rest))
      refine ⟨l :: ls, ?_, by simp [hd, hmap]⟩
      simp only [List.append_assoc, List.cons_append, List.nil_append]
      rw [lexLiterals_of_comma hl, hls, Option.map_some]

/-- The assignments of a `SET` clause as the writer joins them read back as the columns with the
values, when the text after them delimits the last literal and is no comma. -/
theorem lexAssignments_intercalate {names texts : List (List Char)} {xs : List Value}
    (hnames : ∀ name ∈ names, '\x60' ∉ name) (hlen : names.length = texts.length)
    (h : List.Forall₂ lex.Reads texts xs) (hne : texts ≠ []) {rest : List Char}
    (hr : delimits rest = true) (hc : rest.head? ≠ some ',') :
    lexAssignments lex ([','].intercalate
        (List.zipWith (fun name text => quoted name ++ '=' :: text) names texts) ++ rest) =
      some (names.zip xs, rest) := by
  induction h generalizing names with
  | nil => exact absurd rfl hne
  | @cons text x texts xs hx htail ih =>
    obtain ⟨name, names, rfl⟩ := List.exists_cons_of_length_eq_add_one hlen
    have hname := hnames name List.mem_cons_self
    cases htail with
    | nil =>
      obtain rfl : names = [] := List.eq_nil_of_length_eq_zero (by simpa using hlen)
      obtain ⟨l, hl, hd⟩ := hx rest hr
      simp only [List.zipWith_cons_cons, List.zipWith_nil_left, List.intercalate_singleton,
        List.append_assoc, List.cons_append]
      rw [lexAssignments_of_last (lexIdent_quoted hname (by simp)) hl hc, hd]
      rfl
    | @cons text' x' texts' xs' hx' htail' =>
      obtain ⟨name', names', rfl⟩ :=
        List.exists_cons_of_length_eq_add_one (by simpa using hlen)
      have hrest := ih (fun n hn => hnames n (List.mem_cons_of_mem _ hn)) (by simpa using hlen)
        (List.cons_ne_nil _ _)
      rw [List.zipWith_cons_cons, List.intercalate_cons_of_ne_nil (by simp)]
      generalize [','].intercalate (List.zipWith (fun name text => quoted name ++ '=' :: text)
        (name' :: names') (text' :: texts')) = others at hrest ⊢
      -- the first literal ends at the comma before the other assignments
      obtain ⟨l, hl, hd⟩ := hx _ (delimits_comma (others ++ rest))
      simp only [List.append_assoc, List.cons_append, List.nil_append]
      rw [lexAssignments_of_comma (lexIdent_quoted hname (by simp)) hl, hrest, Option.map_some,
        hd]
      rfl

/-- The text of a condition after its column, as the writer writes it: ` IS NULL`, or `=` and a
literal that stands for the value. -/
def CondText (lex : LiteralReader) (text : List Char) : Cond → Prop
  | .isNull => text = " IS NULL".toList
  | .eq x => ∃ t, text = '=' :: t ∧ lex.Reads t x

/-- The writer's text of a condition reads back as the condition, whatever delimiting text
follows it. -/
theorem lexCond_of_CondText {text rest : List Char} {c : Cond} (h : CondText lex text c)
    (hr : delimits rest = true) : lexCond lex (text ++ rest) = some (c, rest) := by
  cases c with
  | isNull => rw [show text = " IS NULL".toList from h, lexCond_isNull]
  | eq x =>
    obtain ⟨t, rfl, ht⟩ := h
    obtain ⟨l, hl, rfl⟩ := ht rest hr
    -- `=` does not begin ` IS NULL`
    have hexp : expect " IS NULL".toList ('=' :: (t ++ rest)) = none := rfl
    simp only [lexCond, List.cons_append, hexp, hl, Option.map_some]

/-- The text of a condition starts with no backtick, so it ends the column's name before it. -/
theorem head_of_CondText {text rest : List Char} {c : Cond} (h : CondText lex text c) :
    (text ++ rest).head? ≠ some '\x60' := by
  cases c with
  | isNull =>
    rw [show text = " IS NULL".toList from h]
    simp
  | eq x =>
    obtain ⟨t, rfl, -⟩ := h
    simp

/-- The conditions of a `WHERE` clause as the writer joins them read back as the columns with the
conditions. -/
theorem lexConds_intercalate {names texts : List (List Char)} {conds : List Cond}
    (hnames : ∀ name ∈ names, '\x60' ∉ name) (hlen : names.length = texts.length)
    (h : List.Forall₂ (CondText lex) texts conds) (hne : texts ≠ []) :
    lexConds lex (" AND ".toList.intercalate
        (List.zipWith (fun name text => quoted name ++ text) names texts)) =
      some (names.zip conds) := by
  induction h generalizing names with
  | nil => exact absurd rfl hne
  | @cons text c texts conds hc htail ih =>
    obtain ⟨name, names, rfl⟩ := List.exists_cons_of_length_eq_add_one hlen
    have hname := hnames name List.mem_cons_self
    cases htail with
    | nil =>
      obtain rfl : names = [] := List.eq_nil_of_length_eq_zero (by simpa using hlen)
      have hcond := lexCond_of_CondText hc delimits_nil
      have hhead : (text ++ []).head? ≠ some '\x60' := head_of_CondText hc
      have hident := lexIdent_quoted hname hhead
      rw [List.append_nil] at hcond hident
      simp only [List.zipWith_cons_cons, List.zipWith_nil_left, List.intercalate_singleton]
      rw [lexConds_of_last hident hcond]
      rfl
    | @cons text' c' texts' conds' hc' htail' =>
      obtain ⟨name', names', rfl⟩ :=
        List.exists_cons_of_length_eq_add_one (by simpa using hlen)
      have hrest := ih (fun n hn => hnames n (List.mem_cons_of_mem _ hn)) (by simpa using hlen)
        (List.cons_ne_nil _ _)
      rw [List.zipWith_cons_cons, List.intercalate_cons_of_ne_nil (by simp)]
      generalize " AND ".toList.intercalate (List.zipWith (fun name text => quoted name ++ text)
        (name' :: names') (text' :: texts')) = others at hrest ⊢
      -- the first condition ends at the ` AND ` before the others
      have hcond : lexCond lex (text ++ (" AND ".toList ++ others)) =
          some (c, " AND ".toList ++ others) := lexCond_of_CondText hc (delimits_space _)
      have hident : lexIdent (quoted name ++ (text ++ (" AND ".toList ++ others))) =
          some (name, text ++ (" AND ".toList ++ others)) :=
        lexIdent_quoted hname (head_of_CondText hc)
      simp only [List.append_assoc]
      rw [lexConds_of_and hident hcond, hrest, Option.map_some]
      rfl

end Lists

/-! ## Columns by position -/

/-- Columns the table has are read as their positions. -/
theorem mapM_columnIndex {columns names : List (List Char)}
    (h : ∀ name ∈ names, name ∈ columns) :
    names.mapM (columnIndex columns) = some (names.map columns.idxOf) := by
  induction names with
  | nil => rfl
  | cons name names ih =>
    have hname : columnIndex columns name = some (columns.idxOf name) :=
      if_pos (h name List.mem_cons_self)
    simp [hname, ih fun n hn => h n (List.mem_cons_of_mem name hn)]

/-- Every column of a clause that the table has is put at its position. -/
theorem resolve_eq {α : Type*} {columns : List (List Char)} {clause : List (List Char × α)}
    (h : ∀ c ∈ clause, c.1 ∈ columns) :
    resolve columns clause = some (clause.map fun c => (columns.idxOf c.1, c.2)) := by
  induction clause with
  | nil => rfl
  | cons c clause ih =>
    have hc : columnIndex columns c.1 = some (columns.idxOf c.1) := if_pos (h c List.mem_cons_self)
    have hrest := ih fun d hd => h d (List.mem_cons_of_mem c hd)
    simp only [resolve] at hrest ⊢
    simp [hc, hrest]

/-- The positions of distinct columns, each with its value, are the values by index. -/
theorem zip_map_idxOf {α : Type*} {columns : List (List Char)} (hnodup : columns.Nodup)
    {xs : List α} (hlen : xs.length = columns.length) :
    (columns.map columns.idxOf).zip xs = indexed xs := by
  apply List.ext_getElem
  · simp [indexed, hlen]
  · intro i h1 h2
    simp [indexed, List.getElem_zipIdx, hnodup.idxOf_getElem]

/-- A clause with one entry for each of the table's distinct columns, in their order, puts each
value at its column's position. -/
theorem resolve_zip {α : Type*} {columns : List (List Char)} (hnodup : columns.Nodup)
    {xs : List α} (hlen : xs.length = columns.length) :
    resolve columns (columns.zip xs) = some (indexed xs) := by
  rw [resolve_eq fun c hc => (List.of_mem_zip hc).1, ← zip_map_idxOf hnodup hlen,
    List.zip_map_left]
  rfl

/-! ## The writer's statements -/

section Statements

variable {lex : LiteralReader} {columns : List (List Char)} {database table : List Char}
  (hnodup : columns.Nodup) (hcols : ∀ name ∈ columns, '\x60' ∉ name)
  (hd : '\x60' ∉ database) (ht : '\x60' ∉ table) (hne : columns ≠ [])
include hnodup hcols hd ht hne

/-- An `INSERT IGNORE` of one literal per column, the columns named in the table's order, reads
back as the insert of the row of the literals' values. -/
theorem parseStatement_insertIgnore {texts : List (List Char)} {row : List Value}
    (h : List.Forall₂ lex.Reads texts row) (hlen : texts.length = columns.length) :
    parseStatement lex columns ("INSERT IGNORE INTO ".toList ++
        (quoted database ++ '.' :: (quoted table ++ (" (".toList ++
        ([','].intercalate (columns.map quoted) ++ (")".toList ++ (" VALUES (".toList ++
        ([','].intercalate texts ++ ")".toList)))))))) =
      some ((database, table), .insertIgnore row) := by
  have hrow : row.length = columns.length := h.length_eq ▸ hlen
  have htexts : texts ≠ [] := List.ne_nil_of_length_pos (hlen ▸ List.length_pos_of_ne_nil hne)
  -- each piece of the text reads back
  obtain ⟨ls, hls, hmap⟩ := lexLiterals_intercalate h htexts (delimits_paren []) (by simp)
  have hidents : lexIdents ([','].intercalate (columns.map quoted) ++ (")".toList ++
      (" VALUES (".toList ++ ([','].intercalate texts ++ ")".toList)))) =
      some (columns, " VALUES (".toList ++ ([','].intercalate texts ++ ")".toList)) :=
    lexIdents_quoted hne hcols _
  have hvalues : lexLiterals lex ([','].intercalate texts ++ ")".toList) = some (ls, [')']) := hls
  have hlength : (columns.map columns.idxOf).length = ls.length := by
    rw [List.length_map, ← hrow, ← hmap, List.length_map]
  -- the values go to their columns in a row of defaults
  have hassign : assign ((columns.map columns.idxOf).zip (ls.map Literal.denote))
      (List.replicate columns.length .null) = row := by
    rw [hmap, zip_map_idxOf hnodup hrow, assign_indexed (by rw [List.length_replicate, hrow])]
  simp only [parseStatement, expect_append, parseInsert]
  rw [lexTableName_quoted hd ht]
  · simp only [Option.bind_eq_bind, Option.bind_some, expect_append, hidents, hvalues,
      mapM_columnIndex fun _ h => h, hlength, hassign]
    rfl
  · simp

/-- An `UPDATE` that sets every column and tests every column, in the table's order, reads back
as the update that puts the values by position, where the conditions hold by position. -/
theorem parseStatement_update {setTexts condTexts : List (List Char)} {new : List Value}
    {conds : List Cond} (hset : List.Forall₂ lex.Reads setTexts new)
    (hsetlen : setTexts.length = columns.length)
    (hwhere : List.Forall₂ (CondText lex) condTexts conds)
    (hwherelen : condTexts.length = columns.length) :
    parseStatement lex columns ("UPDATE ".toList ++ (quoted database ++ '.' :: (quoted table ++
        (" SET ".toList ++ ([','].intercalate
          (List.zipWith (fun name text => quoted name ++ '=' :: text) columns setTexts) ++
        (" WHERE ".toList ++ " AND ".toList.intercalate
          (List.zipWith (fun name text => quoted name ++ text) columns condTexts))))))) =
      some ((database, table), .update (indexed new) (indexed conds)) := by
  have hnonempty : ∀ {α : Type} {l : List α}, l.length = columns.length → l ≠ [] :=
    fun hl => List.ne_nil_of_length_pos (hl ▸ List.length_pos_of_ne_nil hne)
  -- each piece of the text reads back
  have hassignments : lexAssignments lex ([','].intercalate
      (List.zipWith (fun name text => quoted name ++ '=' :: text) columns setTexts) ++
        (" WHERE ".toList ++ " AND ".toList.intercalate
          (List.zipWith (fun name text => quoted name ++ text) columns condTexts))) =
      some (columns.zip new, " WHERE ".toList ++ " AND ".toList.intercalate
        (List.zipWith (fun name text => quoted name ++ text) columns condTexts)) :=
    lexAssignments_intercalate hcols hsetlen.symm hset (hnonempty hsetlen) (by simp) (by simp)
  have hconds := lexConds_intercalate hcols hwherelen.symm hwhere (hnonempty hwherelen)
  -- the `UPDATE` keyword is not the `INSERT` one
  have hinsert : ∀ rest, expect "INSERT IGNORE INTO ".toList ("UPDATE ".toList ++ rest) = none :=
    fun _ => rfl
  simp only [parseStatement, hinsert, expect_append, parseUpdate]
  rw [lexTableName_quoted hd ht]
  · simp only [Option.bind_eq_bind, Option.bind_some, expect_append, hassignments, hconds,
      resolve_zip hnodup (hset.length_eq ▸ hsetlen),
      resolve_zip hnodup (hwhere.length_eq ▸ hwherelen)]
    rfl
  · simp

/-- A `DELETE` that tests every column, in the table's order, reads back as the delete where the
conditions hold by position. -/
theorem parseStatement_delete {condTexts : List (List Char)} {conds : List Cond}
    (hwhere : List.Forall₂ (CondText lex) condTexts conds)
    (hwherelen : condTexts.length = columns.length) :
    parseStatement lex columns ("DELETE FROM ".toList ++ (quoted database ++ '.' ::
        (quoted table ++ (" WHERE ".toList ++ " AND ".toList.intercalate
          (List.zipWith (fun name text => quoted name ++ text) columns condTexts))))) =
      some ((database, table), .delete (indexed conds)) := by
  have hnonempty : condTexts ≠ [] :=
    List.ne_nil_of_length_pos (hwherelen ▸ List.length_pos_of_ne_nil hne)
  have hconds := lexConds_intercalate hcols hwherelen.symm hwhere hnonempty
  -- the `DELETE` keyword is neither of the others
  have hinsert : ∀ rest,
      expect "INSERT IGNORE INTO ".toList ("DELETE FROM ".toList ++ rest) = none := fun _ => rfl
  have hupdate : ∀ rest, expect "UPDATE ".toList ("DELETE FROM ".toList ++ rest) = none :=
    fun _ => rfl
  simp only [parseStatement, hinsert, hupdate, expect_append, parseDelete]
  rw [lexTableName_quoted hd ht]
  · simp only [Option.bind_eq_bind, Option.bind_some, expect_append, hconds,
      resolve_zip hnodup (hwhere.length_eq ▸ hwherelen)]
    rfl
  · simp

end Statements

end Mysql
