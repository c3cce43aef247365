import Yali.Spec.Sync

/-!
# The data plane's requests

`proxy.rs`. A request loads the routes in use, clones the one that matches and asks the
clone for an upstream. All clones of a route share its counter, also after other routes
came into use: so a `Proxy` keeps every route that was made, with the value of its
counter, in the order in which they were made; a clone is a position in this list, and
the routes in use are its last ones.
-/

namespace Yali

open Router

deriving instance DecidableEq for Router.Upstream
deriving instance DecidableEq for Router.Route

structure Proxy where
  routes : List Route
  offset : ℕ
  clones : ℕ → Option ℕ

/-- An upstream given to a request: the clone that was asked, the route as it stood
then, and the upstream. -/
structure Choice where
  address : ℕ
  route : Route
  upstream : Router.Upstream

inductive ProxyEvent
  /-- The loop of `CpSync::run_once` takes a snapshot. -/
  | apply (snapshot : Proto.Snapshot)
  /-- `upstream_peer` of request `t` up to the clone of the route. -/
  | accept (t : ℕ) (path method : String) (host : Option String)
  /-- `upstream_peer` of request `t` asks its clone for an upstream. -/
  | select (t : ℕ)

namespace Proxy

def new (state : State) : Proxy := ⟨state.snapshot.routes, 0, fun _ => none⟩

def state (p : Proxy) : State := .new ⟨p.routes.drop p.offset⟩

/-- The position of the route that matches; `match_route` returns the first of equal
ones. -/
def matchIndex (p : Proxy) (path method : String) (host : Option String) : Option ℕ :=
  (matchRoute p.state.snapshot path method host).bind fun route =>
    (p.state.snapshot.routes.idxOf? route).map (p.offset + ·)

/-- An event that is not enabled does nothing; `w` is the width of `usize`. -/
def next (w : ℕ) (p : Proxy) : ProxyEvent → Proxy × Option Choice
  | .apply snapshot =>
    let state := p.state.update (snapshotToRoutes snapshot)
    ({ p with routes := p.routes ++ state.snapshot.routes, offset := p.routes.length }, none)
  | .accept t path method host =>
    match p.clones t with
    | some _ => (p, none)
    -- without a match the request fails
    | none => ({ p with clones := Function.update p.clones t (p.matchIndex path method host) }, none)
  | .select t =>
    match (p.clones t).bind fun address => p.routes[address]?.map (address, ·) with
    | none => (p, none)
    | some (address, route) =>
      let (upstream, route') := selectUpstream w route
      ({ p with
          routes := p.routes.set address route'
          clones := Function.update p.clones t none },
        upstream.map fun upstream => ⟨address, route, upstream⟩)

def run (w : ℕ) (p : Proxy) (es : List ProxyEvent) : Proxy := es.foldl (fun p e => (p.next w e).1) p

/-- The upstreams given to requests, in order. -/
def choices (w : ℕ) (p : Proxy) : List ProxyEvent → List Choice
  | [] => []
  | e :: es => (p.next w e).2.toList ++ choices w (p.next w e).1 es

end Proxy

end Yali
