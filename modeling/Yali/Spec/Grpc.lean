import Yali.Spec.Store

/-!
# The config service

`grpc/mod.rs`: the snapshot of the stored routes, its publication, and the stream
a subscriber gets. `publish_from_db` makes three atomic operations: the read of
the routes, the increment of the version and the send.

`subscribe` makes a receiver, clones the value held, and returns that value
followed by the `WatchStream` of the receiver; the three steps are separate.
-/

namespace Yali

open Conc

/-! ## Snapshots -/

/-- The members of `match` that are read: `path_prefix`, `method`, `host`. What is
not of the expected form is left out. -/
def parseMatch (matchRules : Value) : String × List String × String :=
  match matchRules.doc.asObject with
  | some obj =>
    (((obj.lookup "path_prefix").bind Json.asStr).getD "",
      (((obj.lookup "method").bind Json.asArray).getD []).filterMap Json.asStr,
      ((obj.lookup "host").bind Json.asStr).getD "")
  | none => ("", [], "")

def upstreamToProto (upstream : Upstream) : Proto.Upstream where
  url := upstream.url
  weight := upstream.weight.getD 0
  priority := upstream.priority.getD 0

def policyToProto (policy : RoutePolicy) : Proto.PolicyRef where
  stage := policy.stage
  id := policy.id
  version := policy.version

def routeToProto (route : RouteSpec) : Proto.Route :=
  let (pathPrefix, methods, host) := parseMatch route.matchRules
  { id := route.id
    match_ := some { pathPrefix, methods, host }
    upstreams := route.upstreams.map upstreamToProto
    lb := route.lb.getD ""
    policies := route.policies.map policyToProto }

/-! ## Publishing -/

def ConfigState.new : ConfigState := ⟨0, .new ⟨0, []⟩⟩

def buildSnapshot (routes : List RouteSpec) : Async SqlxError Proto.Snapshot :=
  .op .fetchAdd fun (version : UInt64) => .ok ⟨version + 1, routes.map routeToProto⟩

/-- The result of the send is not looked at. -/
def publishFromDb (E : Env) : Async SqlxError Unit := do
  let routes ← Db.listRoutes E
  let snapshot ← buildSnapshot routes
  .op (.send snapshot) fun _ => .ok ()

/-! ## Subscriptions -/

/-- The stream of a subscriber: the initial value until it is yielded, and the
`WatchStream` chained to it. -/
structure SubscribeStream where
  initial : Option Proto.Snapshot
  updates : WatchStream

namespace SubscribeStream

/-- One poll: the item yielded and the stream after it, or pending. -/
def poll (tx : Channel Proto.Snapshot) (s : SubscribeStream) : Option (Proto.Snapshot × SubscribeStream) :=
  match s.initial with
  | some snapshot => some (snapshot, { s with initial := none })
  | none => (s.updates.poll tx).map fun r => (r.1, { s with updates := r.2 })

end SubscribeStream

/-- How far a call of `subscribe` has come. -/
inductive Subscription
  | receiver (seen : ℕ)
  | cloned (seen : ℕ) (initial : Proto.Snapshot)
  | streaming (stream : SubscribeStream)

/-- `self.tx.subscribe()`. -/
def subscribe (tx : Channel Proto.Snapshot) : Subscription × Channel Proto.Snapshot :=
  (.receiver tx.subscribe.1, tx.subscribe.2)

/-- The next step of `subscribe`: clone the value held, or build the stream. -/
def Subscription.advance (tx : Channel Proto.Snapshot) : Subscription → Subscription
  | .receiver seen => .cloned seen tx.value
  | .cloned seen initial => .streaming ⟨some initial, .new seen⟩
  | .streaming stream => .streaming stream

end Yali
