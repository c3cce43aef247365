import Yali.Spec.Api

/-!
# Schema, migration and startup

`db::init` on a database file: the tables are created if absent, the columns that
the legacy `policies` table lacks are added, and the legacy config is copied into
`default_config_json`. Each statement is one operation, so an interrupted `init`
is a prefix of the program.

`buildStateAndListener` is the startup of the control plane: `init`, a new
`ConfigState`, a first publication.
-/

namespace Yali

open Conc

/-! ## Database files -/

/-- A column of `policies` that the legacy table does not have. -/
inductive Column
  | supportedStages
  | configSchema
  | defaultConfig
  deriving DecidableEq

def Column.name : Column → String
  | .supportedStages => "supported_stages_json"
  | .configSchema => "config_schema_json"
  | .defaultConfig => "default_config_json"

/-- The declared default. -/
def Column.default : Column → String
  | .supportedStages => "[\"pre_route\",\"pre_upstream\",\"post_response\"]"
  | .configSchema => "\x7b\"type\":\"object\"\x7d"
  | .defaultConfig => "\x7b\x7d"

/-- The table `policies`: which of the later columns it has, and its rows. The cell
of a column that is not there means nothing. -/
structure PoliciesTable where
  supportedStages : Bool
  configSchema : Bool
  defaultConfig : Bool
  rows : List PolicyRow

/-- A database file; a table may be absent. -/
structure DbFile where
  policies : Option PoliciesTable
  routes : Option (List RouteRow)

namespace PoliciesTable

def has (t : PoliciesTable) : Column → Bool
  | .supportedStages => t.supportedStages
  | .configSchema => t.configSchema
  | .defaultConfig => t.defaultConfig

/-- The first of the later columns that is not there. -/
def missing (t : PoliciesTable) : Option Column :=
  [Column.supportedStages, .configSchema, .defaultConfig].find? fun c => !t.has c

def columns (t : PoliciesTable) : List String :=
  ["id", "version", "wasm_uri", "sha256", "config_json", "created_at"] ++
    ([Column.supportedStages, .configSchema, .defaultConfig].filter t.has).map Column.name

/-- `ALTER TABLE policies ADD COLUMN`: the rows there get the declared default. -/
def addColumn (t : PoliciesTable) : Column → PoliciesTable
  | .supportedStages =>
    { t with
      supportedStages := true
      rows := t.rows.map fun r => { r with supportedStagesJson := Column.supportedStages.default } }
  | .configSchema =>
    { t with
      configSchema := true
      rows := t.rows.map fun r => { r with configSchemaJson := Column.configSchema.default } }
  | .defaultConfig =>
    { t with
      defaultConfig := true
      rows := t.rows.map fun r => { r with defaultConfigJson := Column.defaultConfig.default } }

/-- The `UPDATE` of the backfill, on one row. -/
def backfillRow (r : PolicyRow) : PolicyRow :=
  if r.defaultConfigJson ∈ ["\x7b\x7d", "null", ""] ∧ r.configJson ∉ ["null", ""] then
    { r with defaultConfigJson := r.configJson }
  else r

def backfill (t : PoliciesTable) : PoliciesTable := { t with rows := t.rows.map backfillRow }

/-- A row is added unless its key is there. -/
def insert (t : PoliciesTable) (row : PolicyRow) : Except SqlxError Unit × PoliciesTable :=
  if t.rows.any fun r => r.id = row.id ∧ r.version = row.version then
    (.error (.database 1555 "UNIQUE constraint failed: policies.id, policies.version"), t)
  else (.ok (), { t with rows := t.rows ++ [row] })

end PoliciesTable

/-! ## `db::init` -/

inductive InitOp
  | createPolicies
  | tableInfo
  | addColumn (c : Column)
  | backfill
  | createRoutes

abbrev InitOp.Res : InitOp → Type
  | .tableInfo => Except SqlxError (List String)
  | _ => Except SqlxError Unit

/-- A statement on the table `policies`, which must be there. -/
def DbFile.onPolicies (f : DbFile) (g : PoliciesTable → Except SqlxError Unit × PoliciesTable) :
    Except SqlxError Unit × DbFile :=
  match f.policies with
  | some t => ((g t).1, { f with policies := some (g t).2 })
  | none => (.error (.database 1 "no such table: policies"), f)

def execInit : Unit → (o : InitOp) → DbFile → o.Res × DbFile
  -- `IF NOT EXISTS`: a new table has every column, one that is there is kept
  | _, .createPolicies, f =>
    (.ok (), { f with policies := some (f.policies.getD ⟨true, true, true, []⟩) })
  -- no rows for a table that is not there
  | _, .tableInfo, f => (.ok ((f.policies.map PoliciesTable.columns).getD []), f)
  | _, .addColumn c, f =>
    f.onPolicies fun t =>
      if t.has c then (.error (.database 1 ("duplicate column name: " ++ c.name)), t)
      else (.ok (), t.addColumn c)
  | _, .backfill, f =>
    f.onPolicies fun t =>
      if t.defaultConfig then (.ok (), t.backfill)
      else (.error (.database 1 "no such column: default_config_json"), t)
  | _, .createRoutes, f => (.ok (), { f with routes := some (f.routes.getD []) })

abbrev InitProg (α : Type) := Prog InitOp InitOp.Res SqlxError α

def columnExists (column : String) : InitProg Bool := do
  let names ← .op .tableInfo .ofExcept
  return List.any names (· == column)

/-- The column is added if it is not there. -/
def ensureColumn (c : Column) : InitProg Unit := do
  if !(← columnExists c.name) then .op (.addColumn c) .ofExcept
  else return ()

def migratePoliciesTable : InitProg Unit := do
  ensureColumn .supportedStages
  ensureColumn .configSchema
  ensureColumn .defaultConfig
  .op .backfill .ofExcept

def init : InitProg Unit := do
  .op .createPolicies .ofExcept
  migratePoliciesTable
  .op .createRoutes .ofExcept

/-- `init` run to its end. -/
def DbFile.init (f : DbFile) : Except SqlxError Unit × DbFile :=
  let r := Yali.init.run execInit (fun _ => ()) f
  (r.1, r.2.1)

/-- `init` interrupted after `n` statements. -/
def DbFile.initUpTo (n : ℕ) (f : DbFile) : DbFile := Yali.init.runUpTo execInit (fun _ => ()) n f

/-- The tables, once both are there with every column. -/
def DbFile.tables (f : DbFile) : Option Tables :=
  match f.policies, f.routes with
  | some t, some routes => if t.missing.isNone then some ⟨t.rows, routes⟩ else none
  | _, _ => none

/-- The file that a running control plane leaves. -/
def DbFile.of (db : Tables) : DbFile := ⟨some ⟨true, true, true, db.policies⟩, some db.routes⟩

/-! ## The legacy program -/

/-- `PolicySpec` of `_legacy_models.rs`. -/
structure LegacyPolicySpec where
  id : String
  version : String
  wasmUri : String
  sha256 : String
  config : Value

/-- The row of the legacy `INSERT`, which leaves the later columns at their defaults. -/
def legacyRow (E : Env) (policy : LegacyPolicySpec) : PolicyRow where
  id := policy.id
  version := policy.version
  wasmUri := policy.wasmUri
  sha256 := policy.sha256
  configJson := (E.toString policy.config).getD "null"
  supportedStagesJson := Column.supportedStages.default
  configSchemaJson := Column.configSchema.default
  defaultConfigJson := Column.defaultConfig.default

def DbFile.legacyInsert (E : Env) (policy : LegacyPolicySpec) (f : DbFile) :
    Except SqlxError Unit × DbFile :=
  f.onPolicies fun t => t.insert (legacyRow E policy)

/-- `insert_policy` on a file, which names every column. -/
def DbFile.insertPolicy (E : Env) (policy : PolicySpec) (f : DbFile) : Except SqlxError Unit × DbFile :=
  f.onPolicies fun t =>
    match t.missing with
    | none => t.insert (Db.policyRow E policy)
    | some c => (.error (.database 1 ("table policies has no column named " ++ c.name)), t)

/-! ## Startup -/

/-- `build_state_and_listener`: the state of the process, if it comes up. -/
def buildStateAndListener (E : Env) (f : DbFile) : Option AppState :=
  match f.init with
  | (.ok (), f') =>
    match f'.tables with
    | some db =>
      match (publishFromDb E).run exec noFault ⟨db, .new⟩ with
      | (.ok (), s, _) => some s
      | _ => none
    | none => none
  | _ => none

end Yali
