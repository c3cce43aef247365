import Yali.Spec.Grpc

/-!
# Rows and records

A record is stored as a row of text columns and read back. Over a lawful text
layer nothing is lost (`rowToPolicy_policyRow`, `rowToRoute_routeRow`), and no
fallback of the readers is taken. The one value that is not read back is
`params = Some(Null)`, which no request can carry.
-/

namespace Yali

variable {E : Env} (hE : E.Lawful)
include hE

/-- **A policy is read back as it was stored.** -/
theorem rowToPolicy_policyRow (policy : PolicySpec) :
    Db.rowToPolicy E (Db.policyRow E policy) = policy := by
  unfold Db.rowToPolicy Db.policyRow
  simp only [hE.read (LawfulSerde.de_ser policy.supportedStages),
    hE.read (LawfulSerde.de_ser policy.configSchema),
    hE.read (LawfulSerde.de_ser policy.defaultConfig), Option.getD_some]

/-- A stored route is read back, up to its policies. -/
theorem rowToRoute_routeRow_policies (route : RouteSpec) :
    Db.rowToRoute E (Db.routeRow E route) =
      { route with
        policies := (E.fromStr ((E.toString route.policies).getD "[]")).getD [] } := by
  unfold Db.rowToRoute Db.routeRow
  simp only [hE.read (LawfulSerde.de_ser route.matchRules),
    hE.read (LawfulSerde.de_ser route.upstreams), hE.read (LawfulSerde.de_ser route.failover),
    Option.getD_some]

/-- **A route is read back as it was stored.** -/
theorem rowToRoute_routeRow {route : RouteSpec} (h : ∀ p ∈ route.policies, p.Clean) :
    Db.rowToRoute E (Db.routeRow E route) = route := by
  rw [rowToRoute_routeRow_policies hE, hE.read (de_ser_policies h), Option.getD_some]

omit hE

namespace Sample

/-- A route without attachments. -/
def users : RouteSpec where
  id := "users"
  matchRules := .emptyObject
  upstreams := [⟨"http://127.0.0.1:9000", some 3, none, none, none, none⟩]
  lb := some "round_robin"
  failover := some ⟨true, some 2, none, none⟩
  policies := []

example (hE : E.Lawful) : Db.rowToRoute E (Db.routeRow E users) = users :=
  rowToRoute_routeRow hE (by simp [users])

/-- Another one, with every option left out. -/
def orders : RouteSpec where
  id := "orders"
  matchRules := .emptyObject
  upstreams := [⟨"http://127.0.0.1:9100", none, none, none, none, none⟩]
  lb := none
  failover := none
  policies := []

/-- A policy for one stage. -/
def quota : PolicySpec where
  id := "quota"
  version := "1"
  wasmUri := "oci://quota"
  sha256 := "fed"
  supportedStages := ["pre_route"]
  configSchema := defaultConfigSchema
  defaultConfig := .emptyObject

/-- A store with that policy. -/
def quotaStore : AppState := ⟨⟨[Db.policyRow .plain quota], []⟩, .new⟩

/-- A route with the policy attached. -/
def quotaRoute : RouteSpec := { users with policies := [⟨"pre_route", "quota", "1", none⟩] }

end Sample

end Yali
