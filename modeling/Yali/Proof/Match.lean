import Yali.Proof.Codec
import Yali.Proof.Serve
import Yali.Spec.Execution

/-!
# What the data plane makes of a `match`

A stored route reaches the data plane through `routeToProto` and `routeOfProto`;
`install` is the two together. Each dimension of the installed route is a function
of one member of `match`: `install_pathPrefix`, `install_host`, `install_methods`.

A `match` decides nothing about acceptance: `parseMatch` reads what it can and
leaves the rest out, and no handler looks at it (`accepts_match`).
-/

namespace Yali

open Conc Router

/-! ## Installing -/

/-- A stored route as the data plane holds it. -/
def install (route : RouteSpec) : Router.Route := routeOfProto (routeToProto route)

/-- A member of the route's `match`; `none` if `match` is not an object. -/
def RouteSpec.constraint (route : RouteSpec) (key : String) : Option Json :=
  route.matchRules.doc.asObject.bind (List.lookup key)

theorem snapshotToRoutes_routeToProto (version : UInt64) (specs : List RouteSpec) :
    snapshotToRoutes ⟨version, specs.map routeToProto⟩ = ⟨specs.map install⟩ := by
  simp only [snapshotToRoutes, List.map_map]
  rfl

theorem nonEmpty_eq_some {s t : String} : nonEmpty s = some t ↔ s = t ∧ t ≠ "" := by
  unfold nonEmpty
  by_cases h : s = ""
  · subst h
    rw [if_pos (by decide)]
    constructor
    · intro h
      exact absurd h (by simp)
    · intro h
      exact absurd h.1.symm h.2
  · have hs : s.isEmpty = false := by simpa using h
    simp only [hs, Bool.false_eq_true, if_false, Option.some.injEq]
    constructor
    · intro heq
      exact ⟨heq, heq ▸ h⟩
    · exact fun h => h.1

theorem parseMatch_eq (route : RouteSpec) :
    parseMatch route.matchRules =
      (((route.constraint "path_prefix").bind Json.asStr).getD "",
        (((route.constraint "method").bind Json.asArray).getD []).filterMap Json.asStr,
        ((route.constraint "host").bind Json.asStr).getD "") := by
  unfold parseMatch RouteSpec.constraint
  cases route.matchRules.doc.asObject <;> rfl

@[simp] theorem install_id (route : RouteSpec) : (install route).id = route.id := rfl

@[simp] theorem install_upstreams (route : RouteSpec) :
    (install route).upstreams.map Router.Upstream.url = route.upstreams.map Yali.Upstream.url := by
  simp only [install, routeOfProto, routeToProto, Route.new, List.map_map]
  rfl

theorem install_pathPrefix (route : RouteSpec) :
    (install route).pathPrefix =
      nonEmpty (((route.constraint "path_prefix").bind Json.asStr).getD "") := by
  unfold install routeToProto
  rw [parseMatch_eq]
  rfl

theorem install_host (route : RouteSpec) :
    (install route).host = nonEmpty (((route.constraint "host").bind Json.asStr).getD "") := by
  unfold install routeToProto
  rw [parseMatch_eq]
  rfl

theorem install_methods (route : RouteSpec) :
    (install route).methods =
      (((route.constraint "method").bind Json.asArray).getD []).filterMap Json.asStr := by
  unfold install routeToProto
  rw [parseMatch_eq]
  rfl

/-- A string dimension is constrained exactly when its member is a non-empty string. -/
theorem nonEmpty_member {o : Option Json} {s : String} :
    nonEmpty ((o.bind Json.asStr).getD "") = some s ↔ o = some (.str s) ∧ s ≠ "" := by
  rw [nonEmpty_eq_some]
  constructor
  · intro h
    obtain ⟨h, hs⟩ := h
    refine ⟨?_, hs⟩
    cases o with
    | none => exact absurd h.symm hs
    | some j =>
      cases j with
      | str t => obtain rfl : t = s := h; rfl
      | _ => exact absurd h.symm hs
  · intro h
    obtain ⟨rfl, hs⟩ := h
    exact ⟨rfl, hs⟩

/-- An array dimension is the strings of its member, if that is an array. -/
theorem methods_member (o : Option Json) :
    ((o.bind Json.asArray).getD []).filterMap Json.asStr =
      match o with
      | some (.arr xs) => xs.filterMap Json.asStr
      | _ => [] := by
  cases o with
  | none => rfl
  | some j => cases j <;> rfl

/-! ## What an accepted request installs -/

/-- The constraints of an installed route are those of `spec` that can be read. -/
structure ReadsMatch (spec : RouteSpec) (route : Router.Route) : Prop where
  pathPrefix : ∀ s, route.pathPrefix = some s ↔ spec.constraint "path_prefix" = some (.str s) ∧ s ≠ ""
  host : ∀ s, route.host = some s ↔ spec.constraint "host" = some (.str s) ∧ s ≠ ""
  methods : route.methods =
    match spec.constraint "method" with
    | some (.arr xs) => xs.filterMap Json.asStr
    | _ => []

/-- **What `install` makes of a `match`**: only the member itself counts. -/
theorem readsMatch_install (spec : RouteSpec) : ReadsMatch spec (install spec) where
  pathPrefix s := by rw [install_pathPrefix]; exact nonEmpty_member
  host s := by rw [install_host]; exact nonEmpty_member
  methods := by rw [install_methods]; exact methods_member _

/-- The route a request writes. -/
def Request.route : Request → Option RouteSpec
  | .createRoute route => some route
  | .updateRoute id route => some (route.renamed id)
  | _ => none

/-- The same request with another `match`. -/
def Request.withMatch (req : Request) (m : Value) : Request :=
  match req with
  | .createRoute route => .createRoute { route with matchRules := m }
  | .updateRoute id route => .updateRoute id { route with matchRules := m }
  | req => req

variable {E : Env}

/-- The rows of the id written hold the route written. -/
theorem written_row {db : Tables} {req : Request} {route : RouteSpec} (hroute : req.route = some route)
    (hadm : req.Admissible E db) :
    Db.routeRow E route ∈ (req.written E db).routes ∧
      ∀ row ∈ (req.written E db).routes, row.id = route.id → row = Db.routeRow E route := by
  cases req with
  | createPolicy policy => exact absurd hroute (by simp [Request.route])
  | deleteRoute id => exact absurd hroute (by simp [Request.route])
  | createRoute r =>
    obtain rfl : r = route := by simpa [Request.route] using hroute
    refine ⟨List.mem_append_right _ List.mem_cons_self, ?_⟩
    intro row hrow hid
    rcases List.mem_append.1 hrow with hrow | hrow
    · exact absurd hid (hadm.2 row hrow)
    · exact List.mem_singleton.1 hrow
  | updateRoute id r =>
    obtain rfl : r.renamed id = route := by simpa [Request.route] using hroute
    -- every row of the id is replaced
    obtain ⟨-, old, hold, hid⟩ := hadm
    refine ⟨List.mem_map.2 ⟨old, hold, if_pos hid⟩, ?_⟩
    intro row hrow hid'
    obtain ⟨r', -, rfl⟩ := List.mem_map.1 hrow
    by_cases h : r'.id = id
    · exact if_pos h
    · have hne : ¬ r'.id = (Db.routeRow E (r.renamed id)).id := h
      rw [if_neg hne] at hid'
      exact absurd hid' h

/-- **No `match` is refused**: acceptance does not depend on it. -/
theorem accepts_match (faults : ℕ → Option SqlxError) (req : Request) (s : AppState) (m : Value) :
    Accepts E faults (req.withMatch m) s ↔ Accepts E faults req s := by
  rw [accepts_iff, accepts_iff]
  cases req <;> rfl

theorem ReadsMatch.congr {spec spec' : RouteSpec} {route : Router.Route}
    (hm : spec'.matchRules = spec.matchRules) (h : ReadsMatch spec' route) : ReadsMatch spec route := by
  have hc : spec'.constraint = spec.constraint := by
    unfold RouteSpec.constraint
    rw [hm]
  obtain ⟨hp, hh, hmeth⟩ := h
  rw [hc] at hp hh hmeth
  exact ⟨hp, hh, hmeth⟩

/-- **A `match` is read, never checked.** A request is accepted whatever its `match`
is; the route installed for it is constrained in a dimension exactly where the member
of that dimension can be read. -/
theorem match_never_refused (hE : E.Lawful) (faults : ℕ → Option SqlxError) (req : Request)
    (s : AppState) {route : RouteSpec} (hroute : req.route = some route) :
    (∀ m, Accepts E faults (req.withMatch m) s ↔ Accepts E faults req s) ∧
      (Accepts E faults req s →
        (∃ r ∈ (serve E faults req s).2.pool.specs E, r.id = route.id) ∧
          ∀ r ∈ (serve E faults req s).2.pool.specs E, r.id = route.id → ReadsMatch route (install r)) := by
  refine ⟨accepts_match faults req s, ?_⟩
  intro hacc
  rw [hacc.pool]
  obtain ⟨hrow, huniq⟩ := written_row hroute (accepts_iff.1 hacc).1
  have hread := rowToRoute_routeRow_policies hE route
  refine ⟨⟨_, mem_specs.2 ⟨_, hrow, hread⟩, rfl⟩, ?_⟩
  intro r hr hid
  obtain ⟨row, hmem, rfl⟩ := mem_specs.1 hr
  -- the row read has the id of the route, so it is the row written
  rw [huniq row hmem hid, hread]
  exact (readsMatch_install _).congr rfl

namespace Sample

/-- A method that is a bare string. -/
def bareMethod : RouteSpec where
  id := "users"
  matchRules := ⟨.obj [("method", .str "GET")], .obj (by simp) (by simpa using Json.Canon.str _)⟩
  upstreams := [⟨"http://127.0.0.1:9000", none, none, none, none, none⟩]
  lb := none
  failover := none
  policies := []

/-- An empty store. -/
def fresh : AppState := ⟨⟨[], []⟩, .new⟩

end Sample

theorem match_never_refused_users :
    (Request.createRoute Sample.bareMethod).route = some Sample.bareMethod ∧
      (∃ r ∈ (serve Env.plain noFault (.createRoute Sample.bareMethod) Sample.fresh).2.pool.specs Env.plain,
        r.id = "users") ∧
      ∀ r ∈ (serve Env.plain noFault (.createRoute Sample.bareMethod) Sample.fresh).2.pool.specs Env.plain,
        r.id = "users" → ReadsMatch Sample.bareMethod (install r) :=
  ⟨rfl, (match_never_refused Env.plain_lawful noFault (.createRoute Sample.bareMethod) Sample.fresh
    rfl).2 ⟨_, rfl⟩⟩

/-- The constraint `"method": "GET"` is accepted, and the route matches every method. -/
theorem bareMethod_accepted :
    Accepts Env.plain noFault (.createRoute Sample.bareMethod) Sample.fresh ∧
      status (serve Env.plain noFault (.createRoute Sample.bareMethod) Sample.fresh).1 = .created ∧
      Sample.bareMethod.constraint "method" = some (.str "GET") ∧
      (install Sample.bareMethod).methods = [] :=
  ⟨⟨_, rfl⟩, rfl, rfl, rfl⟩

end Yali
