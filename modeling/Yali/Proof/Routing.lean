import Mathlib.Data.Prod.Lex
import Mathlib.Data.String.Basic
import Yali.Order.Best
import Yali.Proof.Match

/-!
# Routing refines the stored specification

What a request should get is stated on the stored routes: those it satisfies
(`Satisfied`), the first of them in the order of `rank`. `matchRoute` scans the
installed routes for the best candidate (`matchRoute_best`, in any order of the
list); `rank_install` and `matchesRoute_install` connect the two,
`matchRoute_refines` is the result.
-/

namespace Yali

open Router

/-! ## The specification -/

/-- The constraints of `match` are of the expected form. -/
structure Readable (route : RouteSpec) : Prop where
  object : route.matchRules.isObject = true
  pathPrefix : ∀ j, route.constraint "path_prefix" = some j → ∃ s, j = .str s
  host : ∀ j, route.constraint "host" = some j → ∃ s, j = .str s
  methods : ∀ j, route.constraint "method" = some j → ∃ ms : List String, j = .arr (ms.map .str)

/-- A request satisfies a route. -/
structure Satisfied (path method : String) (host : Option String) (route : RouteSpec) : Prop where
  path : ∀ s, route.constraint "path_prefix" = some (.str s) → s.toList <+: path.toList
  method : ∀ ms : List String, route.constraint "method" = some (.arr (ms.map .str)) →
    ms = [] ∨ ∃ m ∈ ms, Str.eqIgnoreAsciiCase m method = true
  host : ∀ s, route.constraint "host" = some (.str s) → s ≠ "" →
    ∃ value, host = some value ∧ normalizeHost s = normalizeHost value

namespace RouteSpec

/-- The length of the path prefix in bytes. -/
def prefixLen (route : RouteSpec) : ℕ :=
  match route.constraint "path_prefix" with
  | some (.str s) => s.utf8ByteSize
  | _ => 0

def hasHost (route : RouteSpec) : Bool :=
  match route.constraint "host" with
  | some (.str s) => !s.isEmpty
  | _ => false

def hasMethods (route : RouteSpec) : Bool :=
  match route.constraint "method" with
  | some (.arr (_ :: _)) => true
  | _ => false

/-- The order of preference: longer prefixes first, then routes with a host, then
routes with methods, then by id. -/
def rank (route : RouteSpec) : ℕᵒᵈ ×ₗ Boolᵒᵈ ×ₗ Boolᵒᵈ ×ₗ String :=
  toLex (OrderDual.toDual route.prefixLen, toLex (OrderDual.toDual route.hasHost,
    toLex (OrderDual.toDual route.hasMethods, route.id)))

end RouteSpec

/-! ## Candidates -/

/-- The order of `isBetter`, as a rank. -/
def Router.Candidate.rank (c : Candidate) : ℕᵒᵈ ×ₗ Boolᵒᵈ ×ₗ Boolᵒᵈ ×ₗ String :=
  toLex (OrderDual.toDual c.pathLen, toLex (OrderDual.toDual c.hostSpecific,
    toLex (OrderDual.toDual c.methodSpecific, c.route.id)))

theorem isBetter_iff (a b : Candidate) : isBetter a b = true ↔ a.rank < b.rank := by
  unfold isBetter Candidate.rank
  simp only [Prod.Lex.toLex_lt_toLex, OrderDual.toDual_lt_toDual, OrderDual.toDual_inj]
  -- the dimensions in the order in which `isBetter` compares them
  by_cases h1 : a.pathLen = b.pathLen
  · by_cases h2 : a.hostSpecific = b.hostSpecific
    · by_cases h3 : a.methodSpecific = b.methodSpecific
      · simp [h1, h2, h3]
      · simp only [h1, h2, h3]
        cases ha : a.methodSpecific <;> cases hb : b.methodSpecific <;> simp_all
    · simp only [h1, h2]
      cases ha : a.hostSpecific <;> cases hb : b.hostSpecific <;> simp_all
  · simp [h1]

/-- The loop of `matchRoute` keeps the best of the routes that match. -/
theorem matchRoute_eq (snapshot : RouteSnapshot) (path method : String) (host : Option String) :
    matchRoute snapshot path method host =
      Best.scan (fun r => matchesRoute r path method host)
        (fun a b => isBetter (.of a) (.of b)) snapshot.routes := by
  have hstep : ∀ (best : Option Router.Route) (r : Router.Route),
      considerRoute path method host (best.map .of) r =
        (Best.keep (fun r => matchesRoute r path method host)
          (fun a b => isBetter (.of a) (.of b)) best r).map .of := by
    intro best r
    unfold considerRoute Best.keep
    split
    · rfl
    · cases best with
      | none => rfl
      | some b =>
        simp only [Option.map_some]
        split <;> rfl
  -- a candidate is a route with its rank, so the loop on candidates is one on routes
  have hfold : ∀ (l : List Router.Route) (best : Option Router.Route),
      l.foldl (considerRoute path method host) (best.map .of) =
        (l.foldl (Best.keep (fun r => matchesRoute r path method host)
          (fun a b => isBetter (.of a) (.of b))) best).map .of := by
    intro l
    induction l with
    | nil => intro best; rfl
    | cons r l ih => intro best; rw [List.foldl_cons, List.foldl_cons, hstep, ih]
  unfold matchRoute Best.scan
  have h := hfold snapshot.routes none
  rw [Option.map_none] at h
  rw [h, Option.map_map]
  exact congrFun Option.map_id _

/-! ## The best match -/

/-- The order of preference on installed routes. A route without a prefix counts as one
of length 0. -/
def Router.Route.rank (route : Router.Route) : ℕᵒᵈ ×ₗ Boolᵒᵈ ×ₗ Boolᵒᵈ ×ₗ String :=
  toLex (OrderDual.toDual (match route.pathPrefix with
      | some pathPrefix => pathPrefix.utf8ByteSize
      | none => 0),
    toLex (OrderDual.toDual route.host.isSome,
      toLex (OrderDual.toDual (decide (route.methods ≠ [])), route.id)))

theorem rank_of (route : Router.Route) : (Candidate.of route).rank = route.rank := by
  unfold Candidate.rank Candidate.of Router.Route.rank
  cases route.pathPrefix with
  | none => cases route.methods <;> rfl
  | some pathPrefix => cases route.methods <;> rfl

theorem isBetter_of (a b : Router.Route) :
    isBetter (.of a) (.of b) = true ↔ a.rank < b.rank := by
  rw [isBetter_iff, rank_of, rank_of]

/-- Installed routes of distinct ids have distinct ranks. -/
theorem route_rank_inj {routes : List Router.Route} (hid : (routes.map Router.Route.id).Nodup) :
    ∀ a ∈ routes, ∀ b ∈ routes, a.rank = b.rank → a = b := by
  intro a ha b hb h
  have hids : a.id = b.id := by
    simp only [Router.Route.rank, toLex_inj, Prod.mk.injEq] at h
    exact h.2.2.2
  exact List.inj_on_of_nodup_map hid ha hb hids

/-- **The route found is the best that matches**, and with distinct ids it does not depend
on the order of the routes. -/
theorem matchRoute_best (snapshot : RouteSnapshot) (path method : String) (host : Option String) :
    (matchRoute snapshot path method host = none ↔
        ∀ r ∈ snapshot.routes, matchesRoute r path method host = false) ∧
      (∀ route, matchRoute snapshot path method host = some route →
        route ∈ snapshot.routes ∧ matchesRoute route path method host = true ∧
          ∀ r ∈ snapshot.routes, matchesRoute r path method host = true → ¬ r.rank < route.rank) ∧
      ((snapshot.routes.map Router.Route.id).Nodup → ∀ routes, snapshot.routes.Perm routes →
        matchRoute ⟨routes⟩ path method host = matchRoute snapshot path method host) := by
  refine ⟨?_, ?_, ?_⟩
  · rw [matchRoute_eq]
    exact Best.scan_none isBetter_of
  · intro route h
    rw [matchRoute_eq] at h
    obtain ⟨hmem, hmatch, hbest⟩ := Best.scan_some isBetter_of h
    refine ⟨hmem, hmatch, ?_⟩
    intro r hr hm
    exact not_lt_of_ge (hbest r hr hm)
  · intro hid routes hperm
    rw [matchRoute_eq, matchRoute_eq]
    exact (Best.scan_perm isBetter_of (route_rank_inj hid) hperm).symm

namespace Sample

def wildcard : Router.Route := .new "a" (some "/v1") [] none []

def hostBound : Router.Route := .new "b" (some "/v1") ["GET"] (some "example.com") []

end Sample

theorem matchRoute_best_swapped :
    ([Sample.wildcard, Sample.hostBound].map Router.Route.id).Nodup ∧
      matchRoute ⟨[Sample.hostBound, Sample.wildcard]⟩ "/v1/users" "GET" (some "example.com") =
        matchRoute ⟨[Sample.wildcard, Sample.hostBound]⟩ "/v1/users" "GET" (some "example.com") := by
  have hid : ([Sample.wildcard, Sample.hostBound].map Router.Route.id).Nodup := by decide
  have h := matchRoute_best ⟨[Sample.wildcard, Sample.hostBound]⟩ "/v1/users" "GET" (some "example.com")
  exact ⟨hid, h.2.2 hid _ (List.Perm.swap _ _ _)⟩

/-! ## Installed routes -/

theorem filterMap_str (ms : List String) : (ms.map Json.str).filterMap Json.asStr = ms := by
  rw [List.filterMap_map]
  exact List.filterMap_some

theorem map_str_inj {ms ms' : List String} (h : ms.map Json.str = ms'.map Json.str) : ms = ms' := by
  rw [← filterMap_str ms, h, filterMap_str]

theorem install_pathPrefix_all (route : RouteSpec) (path : String) :
    (install route).pathPrefix.all (Str.startsWith path) = true ↔
      ∀ s, route.constraint "path_prefix" = some (.str s) → s.toList <+: path.toList := by
  have hread := (readsMatch_install route).pathPrefix
  constructor
  · intro h s hs
    by_cases he : s = ""
    · subst he; exact List.nil_prefix
    · rw [(hread s).2 ⟨hs, he⟩] at h
      exact List.isPrefixOf_iff_prefix.1 h
  · intro h
    cases hp : (install route).pathPrefix with
    | none => rfl
    | some s => exact List.isPrefixOf_iff_prefix.2 (h s ((hread s).1 hp).1)

theorem install_matchesHost (route : RouteSpec) (host : Option String) :
    matchesHost (install route).host host = true ↔
      ∀ s, route.constraint "host" = some (.str s) → s ≠ "" →
        ∃ value, host = some value ∧ normalizeHost s = normalizeHost value := by
  have hread := (readsMatch_install route).host
  unfold matchesHost
  constructor
  · intro h s hs he
    rw [(hread s).2 ⟨hs, he⟩] at h
    cases host with
    | none => exact absurd h Bool.false_ne_true
    | some value => exact ⟨value, rfl, by simpa using h⟩
  · intro h
    cases hp : (install route).host with
    | none => rfl
    | some s =>
      obtain ⟨hs, he⟩ := (hread s).1 hp
      obtain ⟨value, rfl, heq⟩ := h s hs he
      simpa using heq

/-- The methods of a readable route. -/
theorem Readable.methods_cases {route : RouteSpec} (h : Readable route) :
    (route.constraint "method" = none ∧ (install route).methods = []) ∨
      ∃ ms : List String, route.constraint "method" = some (.arr (ms.map .str)) ∧
        (install route).methods = ms := by
  rw [install_methods]
  cases hc : route.constraint "method" with
  | none => exact .inl ⟨rfl, rfl⟩
  | some j =>
    obtain ⟨ms, rfl⟩ := h.methods j hc
    exact .inr ⟨ms, rfl, filterMap_str ms⟩

theorem install_methods_any {route : RouteSpec} (h : Readable route) (method : String) :
    ((install route).methods.isEmpty ||
        (install route).methods.any fun m => Str.eqIgnoreAsciiCase m method) = true ↔
      ∀ ms : List String, route.constraint "method" = some (.arr (ms.map .str)) →
        ms = [] ∨ ∃ m ∈ ms, Str.eqIgnoreAsciiCase m method = true := by
  rcases h.methods_cases with ⟨hc, hm⟩ | ⟨ms, hc, hm⟩
  · rw [hc, hm]; simp
  · rw [hc, hm, Bool.or_eq_true, List.isEmpty_iff, List.any_eq_true]
    constructor
    · intro hms ms' heq
      have hmap : ms.map Json.str = ms'.map Json.str := by simpa using heq
      rwa [← map_str_inj hmap]
    · intro hall
      exact hall ms rfl

/-- **An installed route matches exactly the requests that satisfy the stored one.** -/
theorem matchesRoute_install {route : RouteSpec} (h : Readable route) (path method : String)
    (host : Option String) :
    matchesRoute (install route) path method host = true ↔ Satisfied path method host route := by
  unfold matchesRoute
  rw [Bool.and_eq_true, Bool.and_eq_true, install_pathPrefix_all, install_methods_any h,
    install_matchesHost]
  constructor
  · rintro ⟨⟨hp, hm⟩, hh⟩; exact ⟨hp, hm, hh⟩
  · rintro ⟨hp, hm, hh⟩; exact ⟨⟨hp, hm⟩, hh⟩

theorem prefixLen_install {route : RouteSpec} (h : Readable route) :
    (Candidate.of (install route)).pathLen = route.prefixLen := by
  unfold Candidate.of RouteSpec.prefixLen
  rw [install_pathPrefix]
  cases hc : route.constraint "path_prefix" with
  | none => rfl
  | some j =>
    obtain ⟨s, rfl⟩ := h.pathPrefix j hc
    -- an empty prefix is no prefix, and has no bytes either
    by_cases he : s = ""
    · subst he; rfl
    · have hsome := nonEmpty_member.2 ⟨hc, he⟩
      rw [hc] at hsome
      rw [hsome]
      rfl

theorem hasHost_install {route : RouteSpec} (h : Readable route) :
    (Candidate.of (install route)).hostSpecific = route.hasHost := by
  unfold Candidate.of RouteSpec.hasHost
  rw [install_host]
  cases hc : route.constraint "host" with
  | none => rfl
  | some j =>
    obtain ⟨s, rfl⟩ := h.host j hc
    by_cases he : s = ""
    · subst he; rfl
    · have hsome := nonEmpty_member.2 ⟨hc, he⟩
      rw [hc] at hsome
      rw [hsome]
      simp [he]

theorem hasMethods_install {route : RouteSpec} (h : Readable route) :
    (Candidate.of (install route)).methodSpecific = route.hasMethods := by
  unfold Candidate.of RouteSpec.hasMethods
  rcases h.methods_cases with ⟨hc, hm⟩ | ⟨ms, hc, hm⟩
  · rw [hc, hm]; rfl
  · rw [hc, hm]; cases ms <;> rfl

/-- **The installed route ranks as the stored one.** -/
theorem rank_install {route : RouteSpec} (h : Readable route) :
    (install route).rank = route.rank := by
  rw [← rank_of]
  unfold Candidate.rank RouteSpec.rank
  rw [prefixLen_install h, hasHost_install h, hasMethods_install h]
  rfl

/-! ## Refinement -/

/-- Routes of distinct ids have distinct ranks. -/
theorem rank_inj {specs : List RouteSpec} (hid : (specs.map RouteSpec.id).Nodup) {a b : RouteSpec}
    (ha : a ∈ specs) (hb : b ∈ specs) (h : a.rank = b.rank) : a = b := by
  have hids : a.id = b.id := by
    simp only [RouteSpec.rank, toLex_inj, Prod.mk.injEq] at h
    exact h.2.2.2
  exact List.inj_on_of_nodup_map hid ha hb hids

/-- **Routing refines the stored specification.** The data plane has no route exactly
when no stored route is satisfied, and otherwise the installed form of the satisfied
one that ranks first. -/
theorem matchRoute_refines (specs : List RouteSpec) (hid : (specs.map RouteSpec.id).Nodup)
    (hread : ∀ r ∈ specs, Readable r) (version : UInt64) (path method : String) (host : Option String) :
    (matchRoute (snapshotToRoutes ⟨version, specs.map routeToProto⟩) path method host = none ↔
        ∀ r ∈ specs, ¬ Satisfied path method host r) ∧
      ∀ route, matchRoute (snapshotToRoutes ⟨version, specs.map routeToProto⟩) path method host =
          some route →
        ∃ r ∈ specs, route = install r ∧ Satisfied path method host r ∧
          (∀ r' ∈ specs, Satisfied path method host r' → r' = r ∨ r.rank < r'.rank) ∧
          route.id = r.id ∧
          route.upstreams.map Router.Upstream.url = r.upstreams.map Yali.Upstream.url := by
  rw [snapshotToRoutes_routeToProto, matchRoute_eq]
  constructor
  · rw [Best.scan_none isBetter_of]
    simp only [List.forall_mem_map]
    refine forall₂_congr fun r hr => ?_
    rw [← matchesRoute_install (hread r hr), Bool.not_eq_true]
  · -- the best of the installed routes is the installed form of the best
    intro route h
    obtain ⟨hmem, hp, hbest⟩ := Best.scan_some isBetter_of h
    obtain ⟨r, hr, rfl⟩ := List.mem_map.1 hmem
    have hsat : Satisfied path method host r := (matchesRoute_install (hread r hr) _ _ _).1 hp
    refine ⟨r, hr, rfl, hsat, ?_, rfl, install_upstreams r⟩
    intro r' hr' hs'
    have hmatch := (matchesRoute_install (hread r' hr') path method host).2 hs'
    have hle := hbest (install r') (List.mem_map_of_mem hr') hmatch
    rw [rank_install (hread r hr), rank_install (hread r' hr')] at hle
    rcases eq_or_lt_of_le hle with heq | hlt
    · exact .inl (rank_inj hid hr hr' heq).symm
    · exact .inr hlt

namespace Sample

theorem method_lt_path_prefix : "method" < "path_prefix" := by
  rw [String.lt_iff_toList_lt]
  decide

/-- Any request under `/v1`. -/
def anyV1 : RouteSpec where
  id := "any"
  matchRules := ⟨.obj [("path_prefix", .str "/v1")], .obj (by simp) (by simpa using Json.Canon.str _)⟩
  upstreams := [⟨"http://127.0.0.1:9000", none, none, none, none, none⟩]
  lb := none
  failover := none
  policies := []

/-- `GET` under `/v1`. -/
def getV1 : RouteSpec where
  id := "get"
  matchRules := ⟨.obj [("method", .arr [.str "GET"]), ("path_prefix", .str "/v1")],
    .obj (by simpa using method_lt_path_prefix)
      (by simpa using ⟨.arr (by simpa using Json.Canon.str _), Json.Canon.str _⟩)⟩
  upstreams := [⟨"http://127.0.0.1:9001", none, none, none, none, none⟩]
  lb := none
  failover := none
  policies := []

theorem anyV1_readable : Readable anyV1 where
  object := rfl
  pathPrefix _ h := ⟨"/v1", (Option.some.inj h).symm⟩
  host _ h := absurd (show none = some _ from h) (Option.some_ne_none _).symm
  methods _ h := absurd (show none = some _ from h) (Option.some_ne_none _).symm

theorem getV1_readable : Readable getV1 where
  object := rfl
  pathPrefix _ h := ⟨"/v1", (Option.some.inj h).symm⟩
  host _ h := absurd (show none = some _ from h) (Option.some_ne_none _).symm
  methods _ h := ⟨["GET"], (Option.some.inj h).symm⟩

theorem anyV1_satisfied : Satisfied "/v1" "GET" none anyV1 where
  path s h := by
    obtain rfl : "/v1" = s := by simpa using Option.some.inj h
    exact List.prefix_refl _
  method ms h := absurd (show none = some _ from h) (Option.some_ne_none _).symm
  host s h := absurd (show none = some _ from h) (Option.some_ne_none _).symm

theorem getV1_satisfied : Satisfied "/v1" "GET" none getV1 where
  path s h := by
    obtain rfl : "/v1" = s := by simpa using Option.some.inj h
    exact List.prefix_refl _
  method ms h := by
    have hms : [Json.str "GET"] = ms.map Json.str := by simpa using Option.some.inj h
    cases ms with
    | nil => exact .inl rfl
    | cons m ms =>
      obtain rfl : "GET" = m := Json.str.inj (List.cons.inj hms).1
      exact .inr ⟨"GET", List.mem_cons_self, rfl⟩
  host s h := absurd (show none = some _ from h) (Option.some_ne_none _).symm

theorem getV1_first : getV1.rank < anyV1.rank := by
  decide

end Sample

/-- Both routes are satisfied and equally long: the one that names its methods wins. -/
theorem matchRoute_refines_v1 :
    ([Sample.anyV1, Sample.getV1].map RouteSpec.id).Nodup ∧
      (∀ r ∈ [Sample.anyV1, Sample.getV1], Readable r) ∧
      Satisfied "/v1" "GET" none Sample.anyV1 ∧
      matchRoute (snapshotToRoutes ⟨1, [Sample.anyV1, Sample.getV1].map routeToProto⟩)
        "/v1" "GET" none = some (install Sample.getV1) := by
  have hid : ([Sample.anyV1, Sample.getV1].map RouteSpec.id).Nodup := by decide
  have hread : ∀ r ∈ [Sample.anyV1, Sample.getV1], Readable r := by
    simpa using ⟨Sample.anyV1_readable, Sample.getV1_readable⟩
  obtain ⟨hnone, hsome⟩ := matchRoute_refines _ hid hread 1 "/v1" "GET" none
  have hne : matchRoute (snapshotToRoutes ⟨1, [Sample.anyV1, Sample.getV1].map routeToProto⟩)
      "/v1" "GET" none ≠ none :=
    fun h => hnone.1 h Sample.anyV1 List.mem_cons_self Sample.anyV1_satisfied
  obtain ⟨route, hroute⟩ := Option.ne_none_iff_exists'.1 hne
  obtain ⟨r, hr, rfl, -, hbest, -⟩ := hsome route hroute
  have hget : r = Sample.getV1 := by
    rcases hbest Sample.getV1 (by simp) Sample.getV1_satisfied with h | h
    · exact h.symm
    · -- nothing of the two is ranked before `getV1`
      rcases List.mem_pair.1 hr with rfl | rfl
      · exact absurd h (not_lt_of_gt Sample.getV1_first)
      · rfl
  exact ⟨hid, hread, Sample.anyV1_satisfied, hget ▸ hroute⟩

end Yali
