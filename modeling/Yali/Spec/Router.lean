import Mathlib.Data.Nat.Notation
import Yali.Spec.Str

/-!
# The data plane's router

`router.rs`, `router/matcher.rs` and `router/select.rs`. `rrIndex` is the value of
the counter that all clones of a route share.
-/

namespace Yali.Router

/-- An upstream of an installed route. -/
structure Upstream where
  url : String

/-- An installed route. Without a prefix, a host or methods the condition is void. -/
structure Route where
  id : String
  pathPrefix : Option String
  methods : List String
  host : Option String
  upstreams : List Upstream
  rrIndex : ℕ

/-- The routes of one snapshot, in its order. -/
structure RouteSnapshot where
  routes : List Route

def RouteSnapshot.empty : RouteSnapshot := ⟨[]⟩

/-- The counter of a new route starts at zero. -/
def Route.new (id : String) (pathPrefix : Option String) (methods : List String)
    (host : Option String) (upstreams : List Upstream) : Route :=
  { id, pathPrefix, methods, host, upstreams, rrIndex := 0 }

/-! ## `matcher.rs` -/

/-- Trimmed, in lower case, and without a port: what stands before the first colon. -/
def normalizeHost (value : String) : String :=
  let trimmed := (Str.toAsciiLowercase (Str.trim value)).toList
  -- an IPv6 address keeps its brackets and loses the port
  if trimmed.head? = some '[' ∧ ']' ∈ trimmed then
    .ofList (trimmed.takeWhile (· ≠ ']') ++ [']'])
  else .ofList (trimmed.takeWhile (· ≠ ':'))

/-- The host condition of `matches_route`. -/
def matchesHost (routeHost : Option String) (host : Option String) : Bool :=
  match routeHost with
  | none => true
  | some routeHost =>
    match host with
    | none => false
    | some value => normalizeHost routeHost == normalizeHost value

/-- All three conditions of `matches_route`; the method is compared without case. -/
def matchesRoute (route : Route) (path method : String) (host : Option String) : Bool :=
  route.pathPrefix.all (Str.startsWith path) &&
    (route.methods.isEmpty || route.methods.any fun m => Str.eqIgnoreAsciiCase m method) &&
    matchesHost route.host host

/-- A matching route with the three measures it is ranked by. -/
structure Candidate where
  route : Route
  pathLen : ℕ
  hostSpecific : Bool
  methodSpecific : Bool

/-- The measures as `match_route` takes them; the length is in bytes. -/
def Candidate.of (route : Route) : Candidate where
  route := route
  pathLen := (route.pathPrefix.map String.utf8ByteSize).getD 0
  hostSpecific := route.host.isSome
  methodSpecific := !route.methods.isEmpty

/-- Longer prefixes first, then a host, then methods, then the smaller id. -/
def isBetter (a b : Candidate) : Bool :=
  if a.pathLen ≠ b.pathLen then a.pathLen > b.pathLen
  else if a.hostSpecific ≠ b.hostSpecific then a.hostSpecific && !b.hostSpecific
  else if a.methodSpecific ≠ b.methodSpecific then a.methodSpecific && !b.methodSpecific
  else a.route.id < b.route.id

/-- One turn of the loop: `best` against the next route. -/
def considerRoute (path method : String) (host : Option String) (best : Option Candidate)
    (route : Route) : Option Candidate :=
  if !matchesRoute route path method host then best
  else
    match best with
    | none => some (.of route)
    -- of two equal ones the first stays
    | some current => if isBetter (.of route) current then some (.of route) else some current

/-- The best of the routes that match. -/
def matchRoute (snapshot : RouteSnapshot) (path method : String) (host : Option String) :
    Option Route :=
  (snapshot.routes.foldl (considerRoute path method host) none).map Candidate.route

/-! ## `select.rs` -/

/-- The upstream chosen and the route with its counter advanced; `w` is the width
of `usize`, at which the counter wraps. -/
def selectUpstream (w : ℕ) (route : Route) : Option Upstream × Route :=
  if route.upstreams.isEmpty then (none, route)
  else (route.upstreams[route.rrIndex % route.upstreams.length]?,
    { route with rrIndex := (route.rrIndex + 1) % 2 ^ w })

end Yali.Router
