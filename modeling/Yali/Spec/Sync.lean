import Yali.Spec.Proto
import Yali.Spec.Router

/-!
# The data plane's synchronisation

`sync.rs` and `state.rs`: a received snapshot becomes a set of routes, which
replaces the current one.
-/

namespace Yali

open Router

/-- Empty strings stand for absent ones. -/
def nonEmpty (s : String) : Option String := if s.isEmpty then none else some s

/-- The turn of the loop of `snapshot_to_routes`. -/
def routeOfProto (route : Proto.Route) : Route :=
  Route.new route.id
    (route.match_.bind fun m => nonEmpty m.pathPrefix)
    ((route.match_.map Proto.Match.methods).getD [])
    (route.match_.bind fun m => nonEmpty m.host)
    (route.upstreams.map fun u => ⟨u.url⟩)

/-- The routes of a snapshot, in its order and with new counters. -/
def snapshotToRoutes (snapshot : Proto.Snapshot) : RouteSnapshot :=
  ⟨snapshot.routes.map routeOfProto⟩

/-- `State`: the routes in use. -/
structure State where
  snapshot : RouteSnapshot

namespace State

def new (snapshot : RouteSnapshot) : State := ⟨snapshot⟩

def update (_ : State) (snapshot : RouteSnapshot) : State := ⟨snapshot⟩

end State

end Yali
