import Mathlib.Data.List.Infix
import Mathlib.Data.List.Sort
import Yali.Conc.Prog
import Yali.Conc.Watch
import Yali.Spec.Env
import Yali.Spec.Model
import Yali.Spec.Proto

/-!
# The store and its operations

The atomic operations of a request: the SQL statements on the tables `policies`
and `routes`, the increment of the snapshot version and the send on the channel.
`exec` says what each does to the state. A statement that fails changes nothing.

`listRoutes`, `insertRoute` and the rest are the functions of `db/routes.rs` and
`db/policies.rs`: statements with the encoding of records as text columns around
them.
-/

namespace Yali

open Conc

/-! ## Tables -/

/-- A row of `policies`, less `created_at`, which no statement reads. -/
structure PolicyRow where
  id : String
  version : String
  wasmUri : String
  sha256 : String
  configJson : String
  supportedStagesJson : String
  configSchemaJson : String
  defaultConfigJson : String

/-- A row of `routes`, less `created_at` and `updated_at`, which no statement reads. An `UPDATE`
moves `updated_at`; that one has taken effect is told by its rows affected. -/
structure RouteRow where
  id : String
  matchJson : String
  upstreamsJson : String
  lb : Option String
  failoverJson : Option String
  policiesJson : String

/-- The database once `db::init` has run. -/
structure Tables where
  policies : List PolicyRow
  routes : List RouteRow

/-- What a statement fails with. Only an error of the database carries a message that is read. -/
inductive SqlxError
  | database (code : ℕ) (message : String)
  | other (text : String)

/-- `Display`, as it goes into a detail. -/
def SqlxError.display : SqlxError → String
  | .database code message =>
    "error returned from database: (code: " ++ toString code ++ ") " ++ message
  | .other text => text

namespace Tables

variable (db : Tables)

/-- `ORDER BY id ASC, version ASC`. -/
def selectPolicies : List PolicyRow :=
  db.policies.insertionSort fun a b => a.id < b.id ∨ a.id = b.id ∧ a.version ≤ b.version

/-- `WHERE id = ?1 ORDER BY version ASC`. -/
def selectPolicyVersions (id : String) : List PolicyRow :=
  (db.policies.filter fun row => row.id = id).insertionSort fun a b => a.version ≤ b.version

/-- By the primary key, so there is one at most. -/
def selectPolicy (id version : String) : Option PolicyRow :=
  db.policies.find? fun row => row.id = id ∧ row.version = version

/-- The primary key is the pair of id and version. -/
def insertPolicy (row : PolicyRow) : Except SqlxError Unit × Tables :=
  if db.policies.any fun r => r.id = row.id ∧ r.version = row.version then
    (.error (.database 1555 "UNIQUE constraint failed: policies.id, policies.version"), db)
  else (.ok (), { db with policies := db.policies ++ [row] })

/-- `ORDER BY id ASC`. -/
def selectRoutes : List RouteRow := db.routes.insertionSort fun a b => a.id ≤ b.id

def selectRoute (id : String) : Option RouteRow := db.routes.find? fun row => row.id = id

/-- The primary key is the id. -/
def insertRoute (row : RouteRow) : Except SqlxError Unit × Tables :=
  if db.routes.any fun r => r.id = row.id then
    (.error (.database 1555 "UNIQUE constraint failed: routes.id"), db)
  else (.ok (), { db with routes := db.routes ++ [row] })

/-- The number of rows affected comes with the new tables. -/
def updateRoute (row : RouteRow) : ℕ × Tables :=
  (db.routes.countP fun r => r.id = row.id,
    { db with routes := db.routes.map fun r => if r.id = row.id then row else r })

def deleteRoute (id : String) : ℕ × Tables :=
  (db.routes.countP fun r => r.id = id, { db with routes := db.routes.filter fun r => r.id ≠ id })

end Tables

/-! ## Operations -/

/-- `ConfigState`: the version counter and the channel to the subscribers. -/
structure ConfigState where
  version : UInt64
  tx : Channel Proto.Snapshot

/-- What the handlers share: the pool of the database and the publication. -/
structure AppState where
  pool : Tables
  configState : ConfigState

/-- An atomic operation of a handler. -/
inductive Op
  | selectPolicies
  | selectPolicyVersions (id : String)
  | selectPolicy (id version : String)
  | insertPolicy (row : PolicyRow)
  | selectRoutes
  | selectRoute (id : String)
  | insertRoute (row : RouteRow)
  | updateRoute (row : RouteRow)
  | deleteRoute (id : String)
  | fetchAdd
  | send (snapshot : Proto.Snapshot)

/-- What an operation answers: a statement can fail, the two others cannot. -/
abbrev Op.Res : Op → Type
  | .selectPolicies => Except SqlxError (List PolicyRow)
  | .selectPolicyVersions _ => Except SqlxError (List PolicyRow)
  | .selectPolicy _ _ => Except SqlxError (Option PolicyRow)
  | .insertPolicy _ => Except SqlxError Unit
  | .selectRoutes => Except SqlxError (List RouteRow)
  | .selectRoute _ => Except SqlxError (Option RouteRow)
  | .insertRoute _ => Except SqlxError Unit
  | .updateRoute _ => Except SqlxError ℕ
  | .deleteRoute _ => Except SqlxError ℕ
  | .fetchAdd => UInt64
  | .send _ => Unit

/-- A statement: it fails with the error chosen, or does its work. -/
def statement {α : Type} (fault : Option SqlxError) (s : AppState)
    (f : Except SqlxError α × Tables) : Except SqlxError α × AppState :=
  match fault with
  | some e => (.error e, s)
  | none => (f.1, { s with pool := f.2 })

/-- What an operation answers and does to the state, given the error that strikes it. -/
def exec (fault : Option SqlxError) : (o : Op) → AppState → o.Res × AppState
  | .selectPolicies, s => statement fault s (.ok s.pool.selectPolicies, s.pool)
  | .selectPolicyVersions id, s => statement fault s (.ok (s.pool.selectPolicyVersions id), s.pool)
  | .selectPolicy id version, s => statement fault s (.ok (s.pool.selectPolicy id version), s.pool)
  | .insertPolicy row, s => statement fault s (s.pool.insertPolicy row)
  | .selectRoutes, s => statement fault s (.ok s.pool.selectRoutes, s.pool)
  | .selectRoute id, s => statement fault s (.ok (s.pool.selectRoute id), s.pool)
  | .insertRoute row, s => statement fault s (s.pool.insertRoute row)
  | .updateRoute row, s => statement fault s ((s.pool.updateRoute row).map .ok id)
  | .deleteRoute id, s => statement fault s ((s.pool.deleteRoute id).map .ok (fun db => db))
  | .fetchAdd, s =>
    (s.configState.version,
      { s with configState := { s.configState with version := s.configState.version + 1 } })
  | .send snapshot, s =>
    ((), { s with configState := { s.configState with tx := s.configState.tx.send snapshot } })

/-- A function of the control plane that awaits operations. -/
abbrev Async (ε α : Type) := Prog Op Op.Res ε α

/-! ## `db/policies.rs` -/

namespace Db

variable (E : Env)

/-- The columns of a policy. `config_json` has the defaults once more, for older readers. -/
def policyRow (policy : PolicySpec) : PolicyRow where
  id := policy.id
  version := policy.version
  wasmUri := policy.wasmUri
  sha256 := policy.sha256
  configJson := (E.toString policy.defaultConfig).getD "\x7b\x7d"
  supportedStagesJson :=
    (E.toString policy.supportedStages).getD "[\"pre_route\",\"pre_upstream\",\"post_response\"]"
  configSchemaJson := (E.toString policy.configSchema).getD "\x7b\"type\":\"object\"\x7d"
  defaultConfigJson := (E.toString policy.defaultConfig).getD "\x7b\x7d"

/-- Every column is `TEXT NOT NULL`, so only the JSON in them can fail to decode. -/
def rowToPolicy (row : PolicyRow) : PolicySpec where
  id := row.id
  version := row.version
  wasmUri := row.wasmUri
  sha256 := row.sha256
  supportedStages := (E.fromStr row.supportedStagesJson).getD defaultSupportedStages
  configSchema := (E.fromStr row.configSchemaJson).getD defaultConfigSchema
  defaultConfig := (E.fromStr row.defaultConfigJson).getD Value.emptyObject

def insertPolicy (policy : PolicySpec) : Async SqlxError Unit :=
  .op (.insertPolicy (policyRow E policy)) .ofExcept

def listPolicies : Async SqlxError (List PolicySpec) := do
  let rows ← .op .selectPolicies .ofExcept
  return rows.map (rowToPolicy E)

/-- All versions, or the one asked for. -/
def getPolicy (id : String) (version : Option String) : Async SqlxError (List PolicySpec) :=
  match version with
  | some version => do
    let row ← .op (.selectPolicy id version) .ofExcept
    return row.toList.map (rowToPolicy E)
  | none => do
    let rows ← .op (.selectPolicyVersions id) .ofExcept
    return rows.map (rowToPolicy E)

/-- The policy that an entry of a route names. -/
def getPolicyVersion (id version : String) : Async SqlxError (Option PolicySpec) := do
  let row ← .op (.selectPolicy id version) .ofExcept
  return row.map (rowToPolicy E)

/-! ## `db/routes.rs` -/

/-- The columns of a route. A field that has no text falls back to an empty one. -/
def routeRow (route : RouteSpec) : RouteRow where
  id := route.id
  matchJson := (E.toString route.matchRules).getD "\x7b\x7d"
  upstreamsJson := (E.toString route.upstreams).getD "[]"
  lb := route.lb
  failoverJson := some ((E.toString route.failover).getD "null")
  policiesJson := (E.toString route.policies).getD "[]"

/-- The cells are texts, so reading them fails nowhere: `NULL` in `failover_json` is read
as the empty `String`, which is no JSON. JSON that cannot be read falls back, silently. -/
def rowToRoute (row : RouteRow) : RouteSpec where
  id := row.id
  matchRules := (E.fromStr row.matchJson).getD Value.emptyObject
  upstreams := (E.fromStr row.upstreamsJson).getD []
  lb := row.lb
  failover := (E.fromStr (row.failoverJson.getD "")).getD none
  policies := (E.fromStr row.policiesJson).getD []

def insertRoute (route : RouteSpec) : Async SqlxError Unit :=
  .op (.insertRoute (routeRow E route)) .ofExcept

def listRoutes : Async SqlxError (List RouteSpec) := do
  let rows ← .op .selectRoutes .ofExcept
  return rows.map (rowToRoute E)

def getRoute (id : String) : Async SqlxError (Option RouteSpec) := do
  let row ← .op (.selectRoute id) .ofExcept
  return row.map (rowToRoute E)

/-- The number of rows affected. -/
def updateRoute (route : RouteSpec) : Async SqlxError ℕ :=
  .op (.updateRoute (routeRow E route)) .ofExcept

def deleteRoute (id : String) : Async SqlxError ℕ := .op (.deleteRoute id) .ofExcept

end Db

end Yali
