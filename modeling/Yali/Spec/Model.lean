import Yali.Json.Serde

/-!
# The control plane's records

`PolicySpec` and `RouteSpec` as the admin API receives them and the store returns
them, with the JSON they are written as and read from.
-/

namespace Yali

open Serde

/-- All the stages that a policy may support. -/
def defaultSupportedStages : List String := ["pre_route", "pre_upstream", "post_response"]

/-- Any object. -/
def defaultConfigSchema : Value :=
  ⟨.obj [("type", .str "object")], .obj (by simp) (by simpa using Json.Canon.str _)⟩

def defaultPolicyConfig : Value := Value.emptyObject

/-- A version of a policy: the wasm module and the configuration it takes. -/
structure PolicySpec where
  id : String
  version : String
  wasmUri : String
  sha256 : String
  supportedStages : List String
  configSchema : Value
  defaultConfig : Value

/-- What a connection to an upstream does otherwise than by its url. -/
structure TlsOverride where
  serverName : Option String
  caCertPath : Option String
  insecureSkipVerify : Option Bool

/-- The probes of an upstream. -/
structure HealthCheck where
  path : String
  intervalMs : UInt64
  timeoutMs : UInt64
  unhealthyThreshold : UInt32
  healthyThreshold : UInt32

/-- When a failing upstream is ejected, and for how long. -/
structure OutlierDetection where
  consecutive5xx : UInt32
  ejectMs : UInt64

/-- A server behind a route. The data plane reads its url only. -/
structure Upstream where
  url : String
  weight : Option UInt32
  priority : Option UInt32
  tls : Option TlsOverride
  healthCheck : Option HealthCheck
  outlierDetection : Option OutlierDetection

/-- What is tried again on another upstream. -/
structure Failover where
  enabled : Bool
  maxFailovers : Option UInt32
  retryOn : Option (List String)
  perTryTimeoutMs : Option UInt64

/-- A policy attached to a route: the version it names, the stage it runs at and the params
laid over the defaults of the policy. -/
structure RoutePolicy where
  stage : String
  id : String
  version : String
  params : Option Value

/-- A route: the requests it takes (`match`, any JSON), where they go and what is run on them.
`lb` and `failover` are stored and not acted on. -/
structure RouteSpec where
  id : String
  matchRules : Value
  upstreams : List Upstream
  lb : Option String
  failover : Option Failover
  policies : List RoutePolicy

/-! ## JSON -/

/-- The fields in the order of their declaration, under the names of the source. -/
def PolicySpec.serialize (p : PolicySpec) : Json :=
  .obj [("id", ser p.id), ("version", ser p.version), ("wasm_uri", ser p.wasmUri),
    ("sha256", ser p.sha256), ("supported_stages", ser p.supportedStages),
    ("config_schema", ser p.configSchema), ("default_config", ser p.defaultConfig)]

/-- `default_config` has the alias `config`; both names are one field. -/
def PolicySpec.deserialize (j : Json) : Option PolicySpec := do
  let fs ← j.asObject
  -- a document with both has the field twice
  let fs := fs.map fun f => if f.1 = "config" then ("default_config", f.2) else f
  some {
    id := ← required fs "id"
    version := ← required fs "version"
    wasmUri := ← required fs "wasm_uri"
    sha256 := ← required fs "sha256"
    supportedStages := ← defaulted defaultSupportedStages fs "supported_stages"
    configSchema := ← defaulted defaultConfigSchema fs "config_schema"
    defaultConfig := ← defaulted defaultPolicyConfig fs "default_config" }

instance : Serde PolicySpec := ⟨PolicySpec.serialize, PolicySpec.deserialize⟩

def TlsOverride.serialize (t : TlsOverride) : Json :=
  .obj [("server_name", ser t.serverName), ("ca_cert_path", ser t.caCertPath),
    ("insecure_skip_verify", ser t.insecureSkipVerify)]

/-- An `Option` that is missing reads as `None`, with or without a `default`. -/
def TlsOverride.deserialize (j : Json) : Option TlsOverride := do
  let fs ← j.asObject
  some {
    serverName := ← defaulted none fs "server_name"
    caCertPath := ← defaulted none fs "ca_cert_path"
    insecureSkipVerify := ← defaulted none fs "insecure_skip_verify" }

instance : Serde TlsOverride := ⟨TlsOverride.serialize, TlsOverride.deserialize⟩

def HealthCheck.serialize (h : HealthCheck) : Json :=
  .obj [("path", ser h.path), ("interval_ms", ser h.intervalMs),
    ("timeout_ms", ser h.timeoutMs), ("unhealthy_threshold", ser h.unhealthyThreshold),
    ("healthy_threshold", ser h.healthyThreshold)]

def HealthCheck.deserialize (j : Json) : Option HealthCheck := do
  let fs ← j.asObject
  some {
    path := ← required fs "path"
    intervalMs := ← required fs "interval_ms"
    timeoutMs := ← required fs "timeout_ms"
    unhealthyThreshold := ← required fs "unhealthy_threshold"
    healthyThreshold := ← required fs "healthy_threshold" }

instance : Serde HealthCheck := ⟨HealthCheck.serialize, HealthCheck.deserialize⟩

def OutlierDetection.serialize (o : OutlierDetection) : Json :=
  .obj [("consecutive_5xx", ser o.consecutive5xx), ("eject_ms", ser o.ejectMs)]

def OutlierDetection.deserialize (j : Json) : Option OutlierDetection := do
  let fs ← j.asObject
  some {
    consecutive5xx := ← required fs "consecutive_5xx"
    ejectMs := ← required fs "eject_ms" }

instance : Serde OutlierDetection := ⟨OutlierDetection.serialize, OutlierDetection.deserialize⟩

def Upstream.serialize (u : Upstream) : Json :=
  .obj [("url", ser u.url), ("weight", ser u.weight), ("priority", ser u.priority),
    ("tls", ser u.tls), ("health_check", ser u.healthCheck),
    ("outlier_detection", ser u.outlierDetection)]

def Upstream.deserialize (j : Json) : Option Upstream := do
  let fs ← j.asObject
  some {
    url := ← required fs "url"
    weight := ← defaulted none fs "weight"
    priority := ← defaulted none fs "priority"
    tls := ← defaulted none fs "tls"
    healthCheck := ← defaulted none fs "health_check"
    outlierDetection := ← defaulted none fs "outlier_detection" }

instance : Serde Upstream := ⟨Upstream.serialize, Upstream.deserialize⟩

def Failover.serialize (f : Failover) : Json :=
  .obj [("enabled", ser f.enabled), ("max_failovers", ser f.maxFailovers),
    ("retry_on", ser f.retryOn), ("per_try_timeout_ms", ser f.perTryTimeoutMs)]

def Failover.deserialize (j : Json) : Option Failover := do
  let fs ← j.asObject
  some {
    enabled := ← required fs "enabled"
    maxFailovers := ← defaulted none fs "max_failovers"
    retryOn := ← defaulted none fs "retry_on"
    perTryTimeoutMs := ← defaulted none fs "per_try_timeout_ms" }

instance : Serde Failover := ⟨Failover.serialize, Failover.deserialize⟩

def RoutePolicy.serialize (p : RoutePolicy) : Json :=
  .obj [("stage", ser p.stage), ("id", ser p.id), ("version", ser p.version),
    ("params", ser p.params)]

def RoutePolicy.deserialize (j : Json) : Option RoutePolicy := do
  let fs ← j.asObject
  some {
    stage := ← required fs "stage"
    id := ← required fs "id"
    version := ← required fs "version"
    params := ← defaulted none fs "params" }

instance : Serde RoutePolicy := ⟨RoutePolicy.serialize, RoutePolicy.deserialize⟩

/-- `match_rules` is written as `match`. -/
def RouteSpec.serialize (r : RouteSpec) : Json :=
  .obj [("id", ser r.id), ("match", ser r.matchRules), ("upstreams", ser r.upstreams),
    ("lb", ser r.lb), ("failover", ser r.failover), ("policies", ser r.policies)]

def RouteSpec.deserialize (j : Json) : Option RouteSpec := do
  let fs ← j.asObject
  some {
    id := ← required fs "id"
    matchRules := ← required fs "match"
    upstreams := ← required fs "upstreams"
    lb := ← defaulted none fs "lb"
    failover := ← defaulted none fs "failover"
    policies := ← defaulted [] fs "policies" }

instance : Serde RouteSpec := ⟨RouteSpec.serialize, RouteSpec.deserialize⟩

/-! ## What is written is read back -/

section Lawful

attribute [local simp] required defaulted member Json.asObject LawfulSerde.de_ser

/-- A policy is read back: no field of it is an `Option`. -/
theorem PolicySpec.deserialize_serialize (p : PolicySpec) : deserialize p.serialize = some p := by
  simp [serialize, deserialize]

instance : LawfulSerde PolicySpec := ⟨PolicySpec.deserialize_serialize⟩

theorem TlsOverride.deserialize_serialize (t : TlsOverride) : deserialize t.serialize = some t := by
  simp [serialize, deserialize]

instance : LawfulSerde TlsOverride := ⟨TlsOverride.deserialize_serialize⟩

instance : NonNull TlsOverride := ⟨fun _ => Json.noConfusion⟩

theorem HealthCheck.deserialize_serialize (h : HealthCheck) : deserialize h.serialize = some h := by
  simp [serialize, deserialize]

instance : LawfulSerde HealthCheck := ⟨HealthCheck.deserialize_serialize⟩

instance : NonNull HealthCheck := ⟨fun _ => Json.noConfusion⟩

theorem OutlierDetection.deserialize_serialize (o : OutlierDetection) :
    deserialize o.serialize = some o := by
  simp [serialize, deserialize]

instance : LawfulSerde OutlierDetection := ⟨OutlierDetection.deserialize_serialize⟩

instance : NonNull OutlierDetection := ⟨fun _ => Json.noConfusion⟩

theorem Upstream.deserialize_serialize (u : Upstream) : deserialize u.serialize = some u := by
  simp [serialize, deserialize]

instance : LawfulSerde Upstream := ⟨Upstream.deserialize_serialize⟩

theorem Failover.deserialize_serialize (f : Failover) : deserialize f.serialize = some f := by
  simp [serialize, deserialize]

instance : LawfulSerde Failover := ⟨Failover.deserialize_serialize⟩

instance : NonNull Failover := ⟨fun _ => Json.noConfusion⟩

/-- The params are not `Some(Null)`, which no reading gives: `null` reads as `None`. -/
def RoutePolicy.Clean (p : RoutePolicy) : Prop := ∀ v, p.params = some v → v.doc ≠ .null

/-- An entry is read back if its params are not `Some(Null)`. -/
theorem RoutePolicy.deserialize_serialize {p : RoutePolicy} (h : p.Clean) :
    deserialize p.serialize = some p := by
  have hp : (de (ser p.params) : Option (Option Value)) = some p.params := by
    cases hv : p.params with
    | none => rfl
    | some v => exact de_ser_some (LawfulSerde.de_ser v) (h v hv)
  simp [serialize, deserialize, hp]

theorem de_ser_policies {ps : List RoutePolicy} (h : ∀ p ∈ ps, p.Clean) :
    (de (ser ps) : Option (List RoutePolicy)) = some ps :=
  de_ser_list fun p hp => RoutePolicy.deserialize_serialize (h p hp)

/-- **A route whose entries are clean is read back.** -/
theorem RouteSpec.deserialize_serialize {r : RouteSpec} (h : ∀ p ∈ r.policies, p.Clean) :
    deserialize r.serialize = some r := by
  simp [serialize, deserialize, de_ser_policies h]

end Lawful

/-- **A params value that was read is not `null`.** -/
theorem RoutePolicy.deserialize_clean {j : Json} {p : RoutePolicy} (h : deserialize j = some p) :
    p.Clean := by
  simp only [deserialize, Option.bind_eq_bind, Option.bind_eq_some_iff, Option.some.injEq] at h
  obtain ⟨fs, -, stage, -, id, -, version, -, params, hp, rfl⟩ := h
  intro v hv
  obtain rfl : params = some v := hv
  simp only [defaulted, Option.bind_eq_bind, Option.bind_eq_some_iff] at hp
  obtain ⟨o, -, ho⟩ := hp
  cases o with
  | none => exact absurd ho (by simp)
  | some j =>
    by_cases hj : j = .null
    · subst hj; exact absurd ho (by simp [de])
    · have ho' : (de j : Option (Option Value)) = some (some v) := ho
      rw [de_option hj] at ho'
      obtain ⟨w, hw, hwv⟩ := Option.map_eq_some_iff.1 ho'
      obtain rfl : w = v := by simpa using hwv
      obtain rfl : Value.ofDoc j = w := by simpa [de] using hw
      cases j <;> simp_all [Value.ofDoc, Json.canon]

/-- **The entries of a route that was read are clean.** -/
theorem RouteSpec.deserialize_clean {j : Json} {r : RouteSpec} (h : deserialize j = some r) :
    ∀ p ∈ r.policies, p.Clean := by
  simp only [deserialize, Option.bind_eq_bind, Option.bind_eq_some_iff, Option.some.injEq] at h
  obtain ⟨fs, -, id, -, rules, -, ups, -, lb, -, failover, -, ps, hp, rfl⟩ := h
  simp only [defaulted, Option.bind_eq_bind, Option.bind_eq_some_iff] at hp
  obtain ⟨o, -, ho⟩ := hp
  cases o with
  | none =>
    obtain rfl : [] = ps := by simpa using ho
    simp
  | some j =>
    intro p hmem
    obtain ⟨xs, -, hxs⟩ := Option.bind_eq_some_iff.1 ho
    obtain ⟨x, -, hx⟩ := mem_of_mapM hxs p hmem
    exact RoutePolicy.deserialize_clean hx

end Yali
