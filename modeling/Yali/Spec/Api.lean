import Yali.Spec.Grpc
import Yali.Spec.Service

/-!
# The admin API

`api/`: the handlers. Each is a sequence of fallible operations; an early return
is the error branch of the program.
-/

namespace Yali

open Conc

/-- The status codes that the handlers give. -/
inductive Status
  | ok | created | noContent | notFound | conflict | unprocessableEntity | internalServerError
  deriving DecidableEq

/-- `{"error": …}`, or that with the details of a failed validation. -/
inductive ApiErrorBody
  | message (message : String)
  | validation (details : List String)

/-- An error response. -/
structure ApiError where
  status : Status
  body : ApiErrorBody

namespace ApiError

def notFound (message : String) : ApiError := ⟨.notFound, .message message⟩

def conflict (message : String) : ApiError := ⟨.conflict, .message message⟩

def validation (details : List String) : ApiError := ⟨.unprocessableEntity, .validation details⟩

def internal (message : String) : ApiError := ⟨.internalServerError, .message message⟩

end ApiError

/-- A violated key is a conflict, told by the message; everything else is internal. -/
def mapDbError (err : SqlxError) : ApiError :=
  match err with
  | .database _ message =>
    if Str.contains message "UNIQUE" || Str.contains message "PRIMARY" then
      .conflict "resource already exists"
    else .internal "database error"
  | .other _ => .internal "database error"

/-- The body of a success. -/
inductive Reply
  | policyCreated (policy : PolicySpec)
  | policies (policies : List PolicySpec)
  | routeCreated (route : RouteSpec)
  | routes (routes : List RouteSpec)
  | route (route : RouteSpec)
  | noContent

def Reply.status : Reply → Status
  | .policyCreated _ => .created
  | .routeCreated _ => .created
  | .noContent => .noContent
  | _ => .ok

/-- The status of a response. -/
def status : Except ApiError Reply → Status
  | .ok reply => reply.status
  | .error err => err.status

/-- A handler, from the request it was given. -/
abbrev Handler := Async ApiError Reply

namespace Api

variable (E : Env)

/-! ## `api/policies.rs` -/

/-- Checks, inserts, publishes. -/
def createPolicy (policy : PolicySpec) : Handler := do
  .ofExcept ((validatePolicySpec E policy).mapError fun err => .validation err.details)
  (Db.insertPolicy E policy).mapErr mapDbError
  (publishFromDb E).mapErr mapDbError
  return .policyCreated policy

def listPolicies : Handler := do
  let policies ← (Db.listPolicies E).mapErr mapDbError
  return .policies policies

/-- No row at all is a 404. -/
def getPolicy (id : String) (version : Option String) : Handler := do
  let policies ← (Db.getPolicy E id version).mapErr mapDbError
  if policies.isEmpty then .err (.notFound "policy not found")
  else return .policies policies

/-! ## `api/routes.rs` -/

/-- Checks the entries against the policies stored, inserts, publishes. -/
def createRoute (route : RouteSpec) : Handler := do
  (validateRoutePolicies E route).mapErr fun err => .validation err.details
  (Db.insertRoute E route).mapErr mapDbError
  (publishFromDb E).mapErr mapDbError
  return .routeCreated route

def listRoutes : Handler := do
  let routes ← (Db.listRoutes E).mapErr mapDbError
  return .routes routes

def getRoute (id : String) : Handler := do
  match ← (Db.getRoute E id).mapErr mapDbError with
  | some route => return .route route
  | none => .err (.notFound "route not found")

/-- The path's id replaces the body's. -/
def updateRoute (id : String) (route : RouteSpec) : Handler := do
  let route := if route.id ≠ id then { route with id := id } else route
  (validateRoutePolicies E route).mapErr fun err => .validation err.details
  let rows ← (Db.updateRoute E route).mapErr mapDbError
  -- nothing was written, nothing is published
  if rows = 0 then .err (.notFound "route not found")
  else do
    (publishFromDb E).mapErr mapDbError
    return .route route

/-- The one change that checks nothing before its write. -/
def deleteRoute (id : String) : Handler := do
  let rows ← (Db.deleteRoute id).mapErr mapDbError
  if rows = 0 then .err (.notFound "route not found")
  else do
    (publishFromDb E).mapErr mapDbError
    return .noContent

end Api

/-- The requests that change the configuration. -/
inductive Request
  | createPolicy (policy : PolicySpec)
  | createRoute (route : RouteSpec)
  | updateRoute (id : String) (route : RouteSpec)
  | deleteRoute (id : String)

/-- The handler of a change. -/
def handle (E : Env) : Request → Handler
  | .createPolicy policy => Api.createPolicy E policy
  | .createRoute route => Api.createRoute E route
  | .updateRoute id route => Api.updateRoute E id route
  | .deleteRoute id => Api.deleteRoute E id

/-- The requests that the API answers. The ids come from the path, whose parameters match
only text that is not empty. -/
inductive Call
  | change (req : Request)
  | listPolicies
  | getPolicy (id : String) (version : Option String)
  | listRoutes
  | getRoute (id : String)

/-- The handler of each route of the API; `/health` is not among them. -/
def router (E : Env) : Call → Handler
  | .change req => handle E req
  | .listPolicies => Api.listPolicies E
  | .getPolicy id version => Api.getPolicy E id version
  | .listRoutes => Api.listRoutes E
  | .getRoute id => Api.getRoute E id

/-- The document that a success is answered with. -/
def Reply.document : Reply → Option Json
  | .policyCreated spec => some (Serde.ser spec)
  | .policies specs => some (Serde.ser specs)
  | .routeCreated spec => some (Serde.ser spec)
  | .routes specs => some (Serde.ser specs)
  | .route spec => some (Serde.ser spec)
  | .noContent => none

/-- The body of a success. -/
def Reply.body (E : Env) (reply : Reply) : Option String := reply.document.bind E.toText

/-- The bytes that a body may have: the limit of axum where the router sets none. -/
def bodyLimit : ℕ := 2097152

/-- The extractor `Json`: a body over the limit is refused (413), and so is one that cannot
be read (400, 422). -/
def extractJson {α : Type} [Serde α] (E : Env) (body : String) : Option α :=
  if body.utf8ByteSize ≤ bodyLimit then E.fromStr body else none

/-- The request of a body posted to `/policies`, if it is not refused. -/
def postPolicies (E : Env) (body : String) : Option Request := (extractJson E body).map .createPolicy

/-- The request of a body posted to `/routes`, if it is not refused. -/
def postRoutes (E : Env) (body : String) : Option Request := (extractJson E body).map .createRoute

/-- No statement fails. -/
def noFault : ℕ → Option SqlxError := fun _ => none

/-- A request run on its own, `faults n` being the failure of its `n`-th operation. -/
def serve (E : Env) (faults : ℕ → Option SqlxError) (req : Request) (s : AppState) :
    Except ApiError Reply × AppState :=
  let r := (handle E req).run exec faults s
  (r.1, r.2.1)

/-- A call run on its own, with no statement failing. -/
def serveCall (E : Env) (call : Call) (s : AppState) : Except ApiError Reply × AppState :=
  let r := (router E call).run exec noFault s
  (r.1, r.2.1)

end Yali
