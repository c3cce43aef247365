import Yali.Order.Keyed
import Yali.Proof.Codec
import Yali.Proof.Serve

/-!
# The route store is a finite map

`RouteMap` is what the store is for: a map from id to route. `RouteMap.Step` is a
request read as an operation of the map, `Observed` what the store shows of it.

* `Represents`: the rows are the encodings of the map's routes, one for each id.
* `represents_step`: a request takes one map to the next as `Step` allows.
* `store_refines_map`: so does a sequence of requests, and the reads agree.
-/

namespace Yali

open Conc

/-! ## The map -/

/-- A map from id to route. -/
abbrev RouteMap := String → Option RouteSpec

/-- A request and its response, read as an operation of the map. -/
inductive RouteMap.Step (m : RouteMap) : Request → Except ApiError Reply → RouteMap → Prop
  | createRejected {route err} (h : err.status = .unprocessableEntity) :
    Step m (.createRoute route) (.error err) m
  | created {route} (h : m route.id = none) :
    Step m (.createRoute route) (.ok (.routeCreated route)) (Function.update m route.id (some route))
  | createExists {route err} (h : m route.id ≠ none) (he : err.status = .conflict) :
    Step m (.createRoute route) (.error err) m
  | updateRejected {id route err} (h : err.status = .unprocessableEntity) :
    Step m (.updateRoute id route) (.error err) m
  | updated {id route} (h : m id ≠ none) :
    Step m (.updateRoute id route) (.ok (.route (route.renamed id)))
      (Function.update m id (some (route.renamed id)))
  | updateAbsent {id route err} (h : m id = none) (he : err.status = .notFound) :
    Step m (.updateRoute id route) (.error err) m
  | deleted {id} (h : m id ≠ none) :
    Step m (.deleteRoute id) (.ok .noContent) (Function.update m id none)
  | deleteAbsent {id err} (h : m id = none) (he : err.status = .notFound) :
    Step m (.deleteRoute id) (.error err) m

/-- A sequence of requests and their responses. -/
inductive RouteMap.Steps : RouteMap → List (Request × Except ApiError Reply) → RouteMap → Prop
  | nil (m) : Steps m [] m
  | cons {m m' m'' req res l} (h : Step m req res m') (hs : Steps m' l m'') :
    Steps m ((req, res) :: l) m''

/-! ## The store -/

variable (E : Env)

/-- Requests served one at a time, with their responses. -/
def serveAll (s : AppState) : List Request → List (Request × Except ApiError Reply) × AppState
  | [] => ([], s)
  | req :: reqs =>
    ((req, (serve E noFault req s).1) :: (serveAll (serve E noFault req s).2 reqs).1,
      (serveAll (serve E noFault req s).2 reqs).2)

/-- A request on routes whose body, if it has one, was read from JSON. -/
def Request.FromJson : Request → Prop
  | .createPolicy _ => False
  | .createRoute route => ∃ j, RouteSpec.deserialize j = some route
  | .updateRoute _ route => ∃ j, RouteSpec.deserialize j = some route
  | .deleteRoute _ => True

/-- Each column holds the JSON of its field, and is read without its fallback. -/
structure Faithful (row : RouteRow) (route : RouteSpec) : Prop where
  id : row.id = route.id
  lb : row.lb = route.lb
  matchText : E.toString route.matchRules = some row.matchJson
  matchRead : E.fromStr row.matchJson = some route.matchRules
  upstreamsText : E.toString route.upstreams = some row.upstreamsJson
  upstreamsRead : E.fromStr row.upstreamsJson = some route.upstreams
  failover : ∃ text, row.failoverJson = some text ∧ E.toString route.failover = some text ∧
    E.fromStr text = some route.failover
  policiesText : E.toString route.policies = some row.policiesJson
  policiesRead : E.fromStr row.policiesJson = some route.policies

/-- What the store shows of the map. -/
structure Observed (s : AppState) (m : RouteMap) : Prop where
  get : ∀ id, ((Api.getRoute E id).run exec noFault s).1 =
    match m id with
    | some route => .ok (.route route)
    | none => .error (.notFound "route not found")
  list : ∃ routes, ((Api.listRoutes E).run exec noFault s).1 = .ok (.routes routes) ∧
    (routes.map RouteSpec.id).Pairwise (· < ·) ∧ ∀ route, route ∈ routes ↔ m route.id = some route
  rows : ∀ row ∈ s.pool.routes, ∃ route, m row.id = some route ∧ Faithful E row route

/-! ## The rows of the map -/

/-- The rows are the encodings of the map's routes, one for each id. -/
structure Represents (rows : List RouteRow) (m : RouteMap) : Prop where
  nodup : (rows.map RouteRow.id).Nodup
  row : ∀ row ∈ rows, ∃ route, m row.id = some route ∧ row = Db.routeRow E route ∧
    ∀ p ∈ route.policies, p.Clean
  mem : ∀ id route, m id = some route → ∃ row ∈ rows, row.id = id

variable {E}

theorem Represents.none_iff {rows : List RouteRow} {m : RouteMap} (h : Represents E rows m) (id : String) :
    m id = none ↔ ∀ row ∈ rows, row.id ≠ id := by
  constructor
  · rintro hn row hrow rfl
    obtain ⟨route, hm, -⟩ := h.row row hrow
    rw [hn] at hm
    exact absurd hm (by simp)
  · intro hno
    cases hm : m id with
    | none => rfl
    | some route =>
      obtain ⟨row, hrow, hid⟩ := h.mem id route hm
      exact absurd hid (hno row hrow)

/-- The row of an id in the map. -/
theorem Represents.of_some {rows : List RouteRow} {m : RouteMap} (h : Represents E rows m) {id : String}
    {route : RouteSpec} (hm : m id = some route) :
    Db.routeRow E route ∈ rows ∧ route.id = id ∧ ∀ p ∈ route.policies, p.Clean := by
  obtain ⟨row, hrow, hid⟩ := h.mem id route hm
  obtain ⟨route', hm', rfl, hclean⟩ := h.row row hrow
  rw [hid, hm] at hm'
  obtain rfl : route = route' := by simpa using hm'
  exact ⟨hrow, hid, hclean⟩

theorem represents_nil : Represents E [] fun _ => none := ⟨by simp, by simp, by simp⟩

theorem Represents.insert {rows : List RouteRow} {m : RouteMap} (h : Represents E rows m)
    {route : RouteSpec} (hclean : ∀ p ∈ route.policies, p.Clean) (hm : m route.id = none) :
    Represents E (rows ++ [Db.routeRow E route]) (Function.update m route.id (some route)) := by
  have hno := (h.none_iff route.id).1 hm
  refine ⟨?_, ?_, ?_⟩
  · -- the id is new
    rw [List.map_append, List.nodup_append]
    refine ⟨h.nodup, by simp, ?_⟩
    intro a ha b hb hab
    obtain ⟨row, hrow, rfl⟩ := List.mem_map.1 ha
    obtain rfl : b = route.id := by simpa [Db.routeRow] using hb
    exact hno row hrow hab
  · intro row hrow
    rcases List.mem_append.1 hrow with hrow | hrow
    · rw [Function.update_of_ne (hno row hrow)]
      exact h.row row hrow
    · obtain rfl := List.mem_singleton.1 hrow
      exact ⟨route, Function.update_self .., rfl, hclean⟩
  · intro id r hr
    by_cases hid : id = route.id
    · exact ⟨_, List.mem_append_right _ List.mem_cons_self, hid.symm⟩
    · rw [Function.update_of_ne hid] at hr
      obtain ⟨row, hrow, hrid⟩ := h.mem id r hr
      exact ⟨row, List.mem_append_left _ hrow, hrid⟩

theorem Represents.replace {rows : List RouteRow} {m : RouteMap} (h : Represents E rows m)
    (route : RouteSpec) (hclean : ∀ p ∈ route.policies, p.Clean) (hm : m route.id ≠ none) :
    Represents E (rows.map fun r => if r.id = route.id then Db.routeRow E route else r)
      (Function.update m route.id (some route)) := by
  -- the rows keep their ids
  have hids : ∀ r : RouteRow, (if r.id = route.id then Db.routeRow E route else r).id = r.id := by
    intro r
    split
    · rename_i hid; exact hid.symm
    · rfl
  refine ⟨?_, ?_, ?_⟩
  · have hmap : (rows.map fun r => if r.id = route.id then Db.routeRow E route else r).map RouteRow.id =
        rows.map RouteRow.id := by
      rw [List.map_map]
      exact List.map_congr_left fun r _ => hids r
    rw [hmap]
    exact h.nodup
  · intro row hrow
    obtain ⟨r, hr, rfl⟩ := List.mem_map.1 hrow
    by_cases hid : r.id = route.id
    · rw [if_pos hid]
      exact ⟨route, Function.update_self .., rfl, hclean⟩
    · rw [if_neg hid, Function.update_of_ne hid]
      exact h.row r hr
  · intro id r hr
    by_cases hid : id = route.id
    · -- the row of the route replaced
      obtain ⟨old, hold⟩ := Option.ne_none_iff_exists'.1 hm
      obtain ⟨row, hrow, hrid⟩ := h.mem _ old hold
      have hid' : (if row.id = route.id then Db.routeRow E route else row).id = id := by
        rw [hids, hrid, hid]
      exact ⟨_, List.mem_map_of_mem hrow, hid'⟩
    · rw [Function.update_of_ne hid] at hr
      obtain ⟨row, hrow, hrid⟩ := h.mem id r hr
      have hid' : (if row.id = route.id then Db.routeRow E route else row).id = id := by
        rw [hids, hrid]
      exact ⟨_, List.mem_map_of_mem hrow, hid'⟩

theorem Represents.erase {rows : List RouteRow} {m : RouteMap} (h : Represents E rows m) (id : String) :
    Represents E (rows.filter fun r => r.id ≠ id) (Function.update m id none) := by
  refine ⟨?_, ?_, ?_⟩
  · exact h.nodup.sublist (List.filter_sublist.map _)
  · intro row hrow
    obtain ⟨hmem, hid⟩ := List.mem_filter.1 hrow
    rw [Function.update_of_ne (by simpa using hid)]
    exact h.row row hmem
  · intro id' route hr
    by_cases hid : id' = id
    · rw [hid, Function.update_self] at hr
      exact absurd hr (by simp)
    · rw [Function.update_of_ne hid] at hr
      obtain ⟨row, hrow, hrid⟩ := h.mem id' route hr
      have hne : decide (row.id ≠ id) = true := by
        rw [hrid]
        exact decide_eq_true hid
      exact ⟨row, List.mem_filter.2 ⟨hrow, hne⟩, hrid⟩

/-! ## Requests -/

theorem Request.FromJson.clean {req : Request} (h : req.FromJson) :
    match req with
    | .createRoute route => ∀ p ∈ route.policies, p.Clean
    | .updateRoute _ route => ∀ p ∈ route.policies, p.Clean
    | _ => True := by
  cases req with
  | createPolicy policy => trivial
  | createRoute route => obtain ⟨j, hj⟩ := h; exact RouteSpec.deserialize_clean hj
  | updateRoute id route => obtain ⟨j, hj⟩ := h; exact RouteSpec.deserialize_clean hj
  | deleteRoute id => trivial

/-- A key in the rows is one of the map. -/
theorem Represents.ne_none {rows : List RouteRow} {m : RouteMap} (h : Represents E rows m) {id : String}
    (hid : ∃ row ∈ rows, row.id = id) : m id ≠ none := by
  intro hn
  obtain ⟨row, hrow, hrid⟩ := hid
  exact (h.none_iff id).1 hn row hrow hrid

/-- A refused request takes the map to itself. -/
theorem refused_step {req : Request} (hreq : req.FromJson) {db : Tables} {m : RouteMap}
    (hm : Represents E db.routes m) {err : ApiError} (h : req.Refused db err) :
    m.Step req (.error err) m := by
  cases req with
  | createPolicy policy => exact absurd hreq id
  | createRoute route =>
    rcases h with h | ⟨h, hex⟩
    · exact .createRejected h
    · exact .createExists (hm.ne_none hex) h
  | updateRoute id route =>
    rcases h with h | ⟨h, hno⟩
    · exact .updateRejected h
    · exact .updateAbsent ((hm.none_iff id).2 hno) h
  | deleteRoute id => exact .deleteAbsent ((hm.none_iff id).2 h.2) h.1

/-- An admissible request is written to the rows as to the map. -/
theorem written_step {req : Request} (hreq : req.FromJson) {db : Tables} {m : RouteMap}
    (hm : Represents E db.routes m) (h : req.Admissible E db) :
    ∃ m', m.Step req (.ok req.reply) m' ∧ Represents E (req.written E db).routes m' := by
  have hclean := hreq.clean
  cases req with
  | createPolicy policy => exact absurd hreq id
  | createRoute route =>
    have hnone := (hm.none_iff route.id).2 h.2
    exact ⟨_, .created hnone, hm.insert hclean hnone⟩
  | updateRoute id route =>
    have hne := hm.ne_none h.2
    exact ⟨_, .updated hne, hm.replace (route.renamed id) hclean hne⟩
  | deleteRoute id => exact ⟨_, .deleted (hm.ne_none h), hm.erase id⟩

/-- **One request** takes the map to the next. -/
theorem represents_step {req : Request} (hreq : req.FromJson) {s : AppState} {m : RouteMap}
    (hm : Represents E s.pool.routes m) :
    ∃ m', m.Step req (serve E noFault req s).1 m' ∧
      Represents E (serve E noFault req s).2.pool.routes m' := by
  have hc := serve_cases (E := E) noFault req s
  generalize serve E noFault req s = r at hc
  cases hc with
  | refused h err he =>
    rcases he with ⟨i, hi⟩ | he
    · exact absurd rfl hi
    · exact ⟨m, refused_step hreq hm he, hm⟩
  | unpublished hadm hf hu err => exact absurd rfl hu
  | published hadm hf hu => exact written_step hreq hm hadm

/-- **A sequence of requests** takes the map through the steps of the responses. -/
theorem represents_steps {reqs : List Request} (hreqs : ∀ req ∈ reqs, req.FromJson) {s : AppState}
    {m : RouteMap} (hm : Represents E s.pool.routes m) :
    ∃ m', m.Steps (serveAll E s reqs).1 m' ∧ Represents E (serveAll E s reqs).2.pool.routes m' := by
  induction reqs generalizing s m with
  | nil => exact ⟨m, .nil m, hm⟩
  | cons req reqs ih =>
    have hrest : ∀ r ∈ reqs, r.FromJson := fun r hr => hreqs r (List.mem_cons_of_mem _ hr)
    obtain ⟨m₁, hstep, hm₁⟩ := represents_step (hreqs req List.mem_cons_self) hm
    obtain ⟨m', hsteps, hm'⟩ := ih hrest hm₁
    exact ⟨m', .cons hstep hsteps, hm'⟩

/-! ## Reads -/

variable (hE : E.Lawful)
include hE

theorem Represents.faithful {rows : List RouteRow} {m : RouteMap} (h : Represents E rows m) {row : RouteRow}
    (hrow : row ∈ rows) : ∃ route, m row.id = some route ∧ Faithful E row route := by
  obtain ⟨route, hm, rfl, hclean⟩ := h.row row hrow
  have htext : ∀ {α : Type} [Serde α] (a : α) (d : String), E.toString a = some ((E.toString a).getD d) := by
    intro α _ a d
    obtain ⟨s, hs, -⟩ := hE.roundTrip (Serde.ser a)
    unfold Env.toString
    rw [hs, Option.getD_some]
  have hread : ∀ {α : Type} [Serde α] [LawfulSerde α] (a : α) (d : String),
      E.fromStr ((E.toString a).getD d) = some a := by
    intro α _ _ a d
    exact hE.read (LawfulSerde.de_ser a) d
  refine ⟨route, hm, ?_⟩
  exact
    { id := rfl
      lb := rfl
      matchText := htext _ _
      matchRead := hread _ _
      upstreamsText := htext _ _
      upstreamsRead := hread _ _
      failover := ⟨_, rfl, htext _ _, hread _ _⟩
      policiesText := htext _ _
      policiesRead := hE.read (de_ser_policies hclean) _ }

/-- Every row is read back as the map's route. -/
theorem Represents.read {rows : List RouteRow} {m : RouteMap} (h : Represents E rows m) {row : RouteRow}
    (hrow : row ∈ rows) :
    m row.id = some (Db.rowToRoute E row) := by
  obtain ⟨route, hm, rfl, hclean⟩ := h.row row hrow
  rw [rowToRoute_routeRow hE hclean]
  exact hm

theorem Represents.get {s : AppState} {m : RouteMap} (h : Represents E s.pool.routes m) (id : String) :
    ((Api.getRoute E id).run exec noFault s).1 =
      match m id with
      | some route => .ok (.route route)
      | none => .error (.notFound "route not found") := by
  have hsel : s.pool.selectRoute id = (m id).map (Db.routeRow E) := by
    unfold Tables.selectRoute
    cases hm : m id with
    | none => exact Keyed.find_none.2 ((h.none_iff id).1 hm)
    | some route =>
      obtain ⟨hrow, hid, -⟩ := h.of_some hm
      exact (Keyed.find_key h.nodup).2 ⟨hrow, hid⟩
  simp only [Api.getRoute, Db.getRoute, Prog.bind_eq, Prog.op_bind, Prog.mapErr_op, Prog.run_op, exec,
    noFault, statement, hsel]
  cases hm : m id with
  | none => rfl
  | some route =>
    obtain ⟨-, -, hclean⟩ := h.of_some hm
    simp only [Option.map_some, Prog.ofExcept, Prog.ok_bind, rowToRoute_routeRow hE hclean]
    rfl

theorem Represents.specs {db : Tables} {m : RouteMap} (h : Represents E db.routes m) :
    ((db.specs E).map RouteSpec.id).Pairwise (· < ·) ∧
      ∀ route, route ∈ db.specs E ↔ m route.id = some route := by
  constructor
  · rw [specs_ids, List.pairwise_map]
    exact Keyed.sorted_strict h.nodup
  · intro route
    rw [mem_specs]
    constructor
    · intro hread
      obtain ⟨row, hrow, rfl⟩ := hread
      exact h.read hE hrow
    · intro hm
      obtain ⟨hrow, -, hclean⟩ := h.of_some hm
      exact ⟨_, hrow, rowToRoute_routeRow hE hclean⟩

/-- **The store shows the map.** -/
theorem Represents.observed {s : AppState} {m : RouteMap} (h : Represents E s.pool.routes m) :
    Observed E s m where
  get := h.get hE
  list := by
    refine ⟨s.pool.specs E, ?_, h.specs hE⟩
    simp only [Api.listRoutes, Prog.bind_eq, Prog.run_bind, Prog.run_mapErr, listRoutes_run, noFault]
    rfl
  rows _ hrow := h.faithful hE hrow

/-- **The route store refines a finite map.** Requests on routes, served one at a time
from an empty table without a database failure, act on the map as their responses
say, and every read shows the map. -/
theorem store_refines_map (s : AppState) (hs : s.pool.routes = []) (reqs : List Request)
    (hreqs : ∀ req ∈ reqs, req.FromJson) :
    ∃ m, RouteMap.Steps (fun _ => none) (serveAll E s reqs).1 m ∧ Observed E (serveAll E s reqs).2 m := by
  have h0 : Represents E s.pool.routes fun _ => none := by rw [hs]; exact represents_nil
  obtain ⟨m, hsteps, hm⟩ := represents_steps hreqs h0
  exact ⟨m, hsteps, hm.observed hE⟩

omit hE

theorem Sample.users_fromJson : ∃ j, RouteSpec.deserialize j = some users :=
  ⟨_, RouteSpec.deserialize_serialize (by simp [users])⟩

namespace Sample

/-- A route is created twice, replaced, and removed; one that is not there is removed; then
the first one is created again. -/
def edits : List Request :=
  [.createRoute users, .createRoute users, .updateRoute "users" users, .deleteRoute "users",
    .deleteRoute "orders", .createRoute users]

theorem edits_fromJson : ∀ req ∈ edits, req.FromJson := by
  simpa [edits, Request.FromJson] using users_fromJson

end Sample

theorem store_refines_map_users :
    (∀ req ∈ Sample.edits, req.FromJson) ∧
      ∃ m, RouteMap.Steps (fun _ => none) (serveAll Env.plain ⟨⟨[], []⟩, .new⟩ Sample.edits).1 m ∧
        Observed Env.plain (serveAll Env.plain ⟨⟨[], []⟩, .new⟩ Sample.edits).2 m ∧
        m "users" ≠ none ∧ m "orders" = none := by
  obtain ⟨m, hsteps, hm⟩ :=
    store_refines_map Env.plain_lawful ⟨⟨[], []⟩, .new⟩ rfl Sample.edits Sample.edits_fromJson
  refine ⟨Sample.edits_fromJson, m, hsteps, hm, ?_, ?_⟩
  · -- the row that is left is one of the map
    obtain ⟨route, hroute, -⟩ := hm.rows (Db.routeRow Env.plain Sample.users) List.mem_cons_self
    have hsome : m "users" = some route := hroute
    rw [hsome]
    exact Option.some_ne_none route
  · have hget := hm.get "orders"
    have hrun : ((Api.getRoute Env.plain "orders").run exec noFault
        (serveAll Env.plain ⟨⟨[], []⟩, .new⟩ Sample.edits).2).1 = .error (.notFound "route not found") := rfl
    rw [hrun] at hget
    cases hrow : m "orders" with
    | none => rfl
    | some route =>
      rw [hrow] at hget
      exact absurd hget (by simp)

end Yali
