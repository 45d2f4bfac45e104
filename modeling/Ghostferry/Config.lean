import Ghostferry.Literal

/-!
# Database configuration and the session's `sql_mode`

`DatabaseConfig.Validate` checks a connection's settings and, through `assertParamSet`, asks for
two session variables in `Params`: `time_zone` and a `sql_mode` with `NO_BACKSLASH_ESCAPES`, the
mode under which quote doubling is all the escaping `appendEscapedString` needs. The driver runs
`SET param=value` for every entry of `Params` when it opens a session (`handleParams` of
go-sql-driver/mysql), so those entries decide how the target reads the statements' literals.

Both methods have value receivers. `Params` is a Go map, a reference: when it exists, the copy
shares it and the write of `assertParamSet` reaches the caller's config. When it is nil,
`assertParamSet` allocates a map for its own copy, writes to it and drops it, and the caller's
`Params` stays nil. `Validate` then succeeds without setting either variable, and the sessions
keep the server's `sql_mode`. The models here return the caller's config after the call, which
is where the difference shows.
-/

namespace Ghostferry

open Mysql

/-! ## Maps -/

/-- A Go `map[string]string`, by its entries; a key has at most one. -/
abbrev GoMap := List (String × String)

/-- Reading a map: the key's value, or `""` for a key it lacks. -/
def GoMap.get (m : GoMap) (k : String) : String := (m.lookup k).getD ""

/-- Writing a key of a map. -/
def GoMap.set (m : GoMap) (k v : String) : GoMap := (k, v) :: m.filter (·.1 != k)

@[simp]
theorem GoMap.lookup_set_self (m : GoMap) (k v : String) : (m.set k v).lookup k = some v := by
  simp [GoMap.set]

/-! ## Connections -/

/-- The connection settings that `Validate` reads; `Params = none` is a nil map. -/
structure DatabaseConfig where
  Host : String
  Port : UInt16
  User : String
  Params : Option GoMap
  deriving DecidableEq, Repr

/-- `assertParamSet`: an error when `param` is set to another value than `value`; otherwise the
caller's `Params` after the call. The receiver is a copy, so the write reaches the caller only
through a map that already existed. -/
def DatabaseConfig.assertParamSet (c : DatabaseConfig) (param value : String) :
    Except String (Option GoMap) :=
  -- a nil map reads as empty; the map `make` allocates for it belongs to the copy
  let Params := c.Params.getD []
  if Params.get param ≠ "" ∧ Params.get param ≠ value then
    .error (param ++ " must be set to " ++ value)
  else .ok (c.Params.map fun m => m.set param value)

/-- `Validate`: an error for a missing host, port or user or a conflicting session variable;
otherwise the caller's config after the call. -/
def DatabaseConfig.Validate (c : DatabaseConfig) : Except String DatabaseConfig := do
  if c.Host = "" then throw "host is empty"
  if c.Port = 0 then throw "port is not specified"
  if c.User = "" then throw "user is empty"
  let Params ← c.assertParamSet "time_zone" "'+00:00'"
  -- the second check sees the first one's write, which went to the shared map if any
  let Params ← { c with Params }.assertParamSet "sql_mode" "'STRICT_ALL_TABLES,NO_BACKSLASH_ESCAPES'"
  pure { c with Params }

/-- The `sql_mode` of a session of the pool `SqlDB` opens: the driver sets the value of a
`sql_mode` entry of `Params`; without one the session has the server's default. -/
def DatabaseConfig.sessionSqlMode (c : DatabaseConfig) (serverDefault : List String) :
    List String :=
  match c.Params.bind fun m => m.lookup "sql_mode" with
  | some v => sqlModeNames v
  | none => serverDefault

theorem assertParamSet_ok {c : DatabaseConfig} {param value : String} {Params : Option GoMap}
    (h : c.assertParamSet param value = .ok Params) :
    Params = c.Params.map fun m => m.set param value := by
  simp only [DatabaseConfig.assertParamSet] at h
  split at h
  · cases h
  · exact (Except.ok.inj h).symm

/-- What `Validate` leaves in the caller's config: both session variables in `Params` when it is
a map, and nothing when it is nil. -/
theorem Validate_ok {c c' : DatabaseConfig} (h : c.Validate = .ok c') :
    c' = { c with Params := c.Params.map fun m =>
      (m.set "time_zone" "'+00:00'").set "sql_mode" "'STRICT_ALL_TABLES,NO_BACKSLASH_ESCAPES'" } := by
  simp only [DatabaseConfig.Validate, bind, Except.bind, pure, Except.pure] at h
  split at h
  · cases h
  split at h
  · cases h
  split at h
  · cases h
  -- the two `assertParamSet` calls, each either failing or returning the caller's map
  split at h
  · cases h
  rename_i P₁ h₁
  split at h
  · cases h
  rename_i P₂ h₂
  rw [← Except.ok.inj h, assertParamSet_ok h₂, assertParamSet_ok h₁]
  cases c.Params <;> rfl

/-- With a map in `Params`, the sessions of a validated config read backslashes as ordinary
characters. -/
theorem sessionSqlMode_of_Params {c c' : DatabaseConfig} (h : c.Validate = .ok c')
    (hp : c.Params.isSome) (serverDefault : List String) :
    backslashEscapes (c'.sessionSqlMode serverDefault) = false := by
  obtain ⟨m, hm⟩ := Option.isSome_iff_exists.mp hp
  rw [Validate_ok h]
  simp only [DatabaseConfig.sessionSqlMode, hm, Option.map_some, Option.bind_some,
    GoMap.lookup_set_self]
  decide

/-- With a nil `Params`, the sessions of a validated config keep the server's `sql_mode`. -/
theorem sessionSqlMode_of_nil_Params {c c' : DatabaseConfig} (h : c.Validate = .ok c')
    (hp : c.Params = none) (serverDefault : List String) :
    c'.sessionSqlMode serverDefault = serverDefault := by
  rw [Validate_ok h]
  simp [DatabaseConfig.sessionSqlMode, hp]

/-! ## The whole configuration -/

/-- The settings `ValidateConfig` reads and defaults, over the type of the table filter. -/
structure Config (F : Type) where
  Source : DatabaseConfig
  Target : DatabaseConfig
  TableFilter : Option F
  DBWriteRetries : Int
  BinlogEventBatchSize : Int
  DataIterationBatchSize : UInt64
  DBReadRetries : Int
  DataIterationConcurrency : Int
  ServerBindAddr : String
  WebBasedir : String

/-- `ValidateConfig`: both connections validated, a table filter required, and a default for
every setting left at its zero value. -/
def Config.ValidateConfig {F : Type} (c : Config F) : Except String (Config F) := do
  let Source ← c.Source.Validate.mapError fun err => "source: " ++ err
  let Target ← c.Target.Validate.mapError fun err => "target: " ++ err
  if c.TableFilter.isNone then throw "Table filter function must be provided"
  pure { c with
    Source, Target
    DBWriteRetries := if c.DBWriteRetries = 0 then 5 else c.DBWriteRetries
    DataIterationBatchSize := if c.DataIterationBatchSize = 0 then 200 else c.DataIterationBatchSize
    BinlogEventBatchSize := if c.BinlogEventBatchSize = 0 then 100 else c.BinlogEventBatchSize
    DataIterationConcurrency :=
      if c.DataIterationConcurrency = 0 then 4 else c.DataIterationConcurrency
    DBReadRetries := if c.DBReadRetries = 0 then 5 else c.DBReadRetries
    ServerBindAddr := if c.ServerBindAddr = "" then "0.0.0.0:8000" else c.ServerBindAddr
    WebBasedir := if c.WebBasedir = "" then "." else c.WebBasedir }

section ValidateConfig

variable {F : Type} {c c' : Config F}

/-- What `ValidateConfig` returns: the validated connections and the defaults. -/
theorem ValidateConfig_ok (h : c.ValidateConfig = .ok c') :
    c.Source.Validate = .ok c'.Source ∧ c.Target.Validate = .ok c'.Target ∧
      c.TableFilter.isSome ∧ c'.TableFilter = c.TableFilter ∧
      c'.DBWriteRetries = (if c.DBWriteRetries = 0 then 5 else c.DBWriteRetries) ∧
      c'.DataIterationBatchSize =
        (if c.DataIterationBatchSize = 0 then 200 else c.DataIterationBatchSize) ∧
      c'.BinlogEventBatchSize =
        (if c.BinlogEventBatchSize = 0 then 100 else c.BinlogEventBatchSize) ∧
      c'.DataIterationConcurrency =
        (if c.DataIterationConcurrency = 0 then 4 else c.DataIterationConcurrency) ∧
      c'.DBReadRetries = (if c.DBReadRetries = 0 then 5 else c.DBReadRetries) ∧
      c'.ServerBindAddr = (if c.ServerBindAddr = "" then "0.0.0.0:8000" else c.ServerBindAddr) ∧
      c'.WebBasedir = (if c.WebBasedir = "" then "." else c.WebBasedir) := by
  simp only [Config.ValidateConfig, bind, Except.bind, pure, Except.pure, Except.mapError] at h
  cases hs : c.Source.Validate <;> simp only [hs] at h
  · cases h
  cases ht : c.Target.Validate <;> simp only [ht] at h
  · cases h
  cases hf : c.TableFilter <;> simp only [hf, Option.isNone_none, Option.isNone_some] at h
  · cases h
  · simp only [Bool.false_eq_true, ↓reduceIte, Except.ok.injEq] at h
    subst h
    simp

/-- Every setting `ValidateConfig` defaults is set afterwards. -/
theorem ValidateConfig_defaults (h : c.ValidateConfig = .ok c') :
    c'.DBWriteRetries ≠ 0 ∧ 0 < c'.DataIterationBatchSize ∧ c'.BinlogEventBatchSize ≠ 0 ∧
      c'.DataIterationConcurrency ≠ 0 ∧ c'.DBReadRetries ≠ 0 ∧ c'.ServerBindAddr ≠ "" ∧
      c'.WebBasedir ≠ "" := by
  obtain ⟨-, -, -, -, h₁, h₂, h₃, h₄, h₅, h₆, h₇⟩ := ValidateConfig_ok h
  refine ⟨?_, ?_, ?_, ?_, ?_, ?_, ?_⟩
  · rw [h₁]; split <;> simp_all
  · rw [h₂]
    split
    · decide
    · exact UInt64.pos_iff_ne_zero.mpr ‹_›
  · rw [h₃]; split <;> simp_all
  · rw [h₄]; split <;> simp_all
  · rw [h₅]; split <;> simp_all
  · rw [h₆]; split <;> simp_all
  · rw [h₇]; split <;> simp_all

/-- A validated configuration whose target `Params` is a map: the target's sessions read every
rendered list of values that are not floats back as one literal per value. -/
theorem lexValues_of_ValidateConfig (AppendFloat : List Char → UInt64 → List Char)
    (h : c.ValidateConfig = .ok c') (hp : c.Target.Params.isSome) (serverDefault : List String)
    {vs : List GoValue} (hne : vs ≠ []) (hv : ∀ v ∈ vs, (sqlValue v).isSome) :
    ∃ ls, lexValues (backslashEscapes (c'.Target.sessionSqlMode serverDefault))
        (buildStringListForValues AppendFloat vs) = some ls ∧
      ls.map (some ∘ Literal.denote) = vs.map sqlValue :=
  lexValues_buildStringListForValues AppendFloat hne hv
    (.inl (sessionSqlMode_of_Params (ValidateConfig_ok h).2.1 hp serverDefault))

end ValidateConfig

/-! ## A target without `Params` -/

/-- In a session that reads backslashes as escapes, a first value of one backslash runs its
literal past its closing quote: the literal takes the comma and the next value's opening quote,
ends inside that value's text, and leaves the rest of the text to be read as SQL. -/
theorem lexLiteral_backslash_value (AppendFloat : List Char → UInt64 → List Char) {c : Char}
    {s : List Char} (hc : c ≠ '\'') :
    lexLiteral true (buildStringListForValues AppendFloat [.string ['\\'], .string (c :: s)]) =
      some (.string ['\'', ','], c :: escapeQuotes s ++ ['\'']) := by
  have htext : buildStringListForValues AppendFloat [.string ['\\'], .string (c :: s)] =
      '\'' :: '\\' :: '\'' :: ',' :: '\'' :: (c :: escapeQuotes s ++ ['\'']) := by
    simp [buildStringListForValues, appendEscapedValue, isNilValue, Uint64Value, Int64Value,
      appendEscapedString, escapeQuotes, hc]
  have hclose : stringBody true ('\'' :: (c :: escapeQuotes s ++ ['\''])) =
      some ([], c :: escapeQuotes s ++ ['\'']) :=
    stringBody_close (by simpa using hc)
  rw [htext, lexLiteral_string, stringBody_backslash_escape,
    stringBody_plain (by decide) (by decide), hclose]
  rfl

/-- The source of the sharding example configuration. -/
def devConfSource : DatabaseConfig :=
  { Host := "shopify.railgun", Port := 20015, User := "root", Params := none }

/-- The target of the sharding example configuration, which sets no `Params`. -/
def devConfTarget : DatabaseConfig :=
  { Host := "shopify.railgun", Port := 20017, User := "root", Params := none }

/-- The sharding example configuration, with a table filter and every other setting left to its
default. -/
def devConf : Config Unit :=
  { Source := devConfSource, Target := devConfTarget, TableFilter := some (), DBWriteRetries := 0,
    BinlogEventBatchSize := 0, DataIterationBatchSize := 0, DBReadRetries := 0,
    DataIterationConcurrency := 0, ServerBindAddr := "", WebBasedir := "" }

theorem devConf_backslash_escapes (AppendFloat : List Char → UInt64 → List Char) :
    ∃ c', devConf.ValidateConfig = .ok c' ∧
      backslashEscapes (c'.Target.sessionSqlMode defaultSqlMode) = true ∧
      lexValues true (buildStringListForValues AppendFloat [.string ['\\']]) = none ∧
      lexLiteral true (buildStringListForValues AppendFloat [.string ['\\'], .string ['x']]) =
        some (.string ['\'', ','], ['x', '\'']) := by
  obtain ⟨c', hc'⟩ : ∃ c', devConf.ValidateConfig = .ok c' := ⟨_, rfl⟩
  -- the target's `Params` stays nil, so its sessions have the server's mode
  have hmode : c'.Target.sessionSqlMode defaultSqlMode = defaultSqlMode :=
    sessionSqlMode_of_nil_Params (ValidateConfig_ok hc').2.1 rfl defaultSqlMode
  have hlit : lexLiteral true (buildStringListForValues AppendFloat [.string ['\\']]) = none := by
    simp only [buildStringListForValues, List.foldl_nil, appendEscapedValue, isNilValue,
      Uint64Value, Int64Value]
    decide
  refine ⟨c', hc', by rw [hmode]; decide, lexValues_of_lexLiteral_none hlit, ?_⟩
  exact lexLiteral_backslash_value AppendFloat (s := []) (by decide)

end Ghostferry
