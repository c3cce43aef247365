import Yali.Spec.Execution
import Yali.Spec.Proxy

/-!
# The control plane and its proxies

The rest of `upstream_peer`: `build_peer`, and what a request is answered. A `Fleet` is
one control-plane process with its data planes and the proxy of each: the loop of
`run_once` hands every snapshot it takes to the `State` that its proxy routes by.

Parsing a URL is the work of the `url` crate, a parameter here.
-/

namespace Yali

open Router Conc

/-! ## Peers -/

/-- What is read of a parsed URL. -/
structure Url where
  scheme : String
  hostStr : Option String
  portOrKnownDefault : Option UInt16

/-- The arguments of `HttpPeer::new`. The call itself resolves the address, and panics where it
cannot; the request then has no answer. -/
structure HttpPeer where
  addr : String
  tls : Bool
  sni : String

/-- An upstream without a scheme is an `http` one. -/
def buildPeer (parse : String → Option Url) (upstream : Router.Upstream) : Except String HttpPeer :=
  match parse (if Str.contains upstream.url "://" then upstream.url else "http://" ++ upstream.url) with
  | none => .error "invalid upstream url"
  | some url =>
    match url.hostStr with
    | none => .error "invalid upstream host"
    | some host =>
      match url.portOrKnownDefault with
      | none => .error "invalid upstream port"
      | some port => .ok ⟨host ++ ":" ++ toString port, url.scheme == "https", host⟩

/-- What the event answers its request, if it does: `w` is the width of `usize`. -/
def Proxy.answer (parse : String → Option Url) (w : ℕ) (p : Proxy) :
    ProxyEvent → Option (Except String HttpPeer)
  | .apply _ => none
  | .accept t path method host =>
    match p.clones t, p.matchIndex path method host with
    | none, none => some (.error "no route")
    | _, _ => none
  | .select t =>
    ((p.clones t).bind (p.routes[·]?)).map fun route =>
      match (selectUpstream w route).1 with
      | none => .error "no upstream"
      | some upstream => buildPeer parse upstream

/-! ## The whole system -/

structure Fleet where
  gateway : Gateway
  proxies : ℕ → Proxy

inductive FleetEvent
  /-- Of the control plane and the connections to it. -/
  | gateway (e : Event)
  /-- Of request `t` at the proxy of data plane `d`. -/
  | accept (d t : ℕ) (path method : String) (host : Option String)
  | select (d t : ℕ)

/-- The message that data plane `d` takes off its stream. -/
def delivered (g : Gateway) (d : ℕ) : Event → Option Proto.Snapshot
  | .ext (.deliver d') =>
    if d' = d then (g.st.dp d).connection.bind fun c => c.sent[c.taken]? else none
  | _ => none

namespace Fleet

/-- A process whose state is `cp`, and data planes that have just started. -/
def start (cp : AppState) : Fleet := ⟨.idle (.start cp), fun _ => .new (.new .empty)⟩

def next (w : ℕ) (f : Fleet) : FleetEvent → Fleet
  | .gateway e =>
    { gateway := f.gateway.next e
      proxies := fun d =>
        match delivered f.gateway d e with
        | some snapshot => ((f.proxies d).next w (.apply snapshot)).1
        | none => f.proxies d }
  | .accept d t path method host =>
    { f with proxies := Function.update f.proxies d ((f.proxies d).next w (.accept t path method host)).1 }
  | .select d t =>
    { f with proxies := Function.update f.proxies d ((f.proxies d).next w (.select t)).1 }

def run (w : ℕ) (f : Fleet) (es : List FleetEvent) : Fleet := es.foldl (next w) f

/-- The request that the event answers, and the answer. -/
def answer (parse : String → Option Url) (w : ℕ) (f : Fleet) :
    FleetEvent → Option (ℕ × ℕ × Except String HttpPeer)
  | .gateway _ => none
  | .accept d t path method host =>
    ((f.proxies d).answer parse w (.accept t path method host)).map fun r => (d, t, r)
  | .select d t => ((f.proxies d).answer parse w (.select t)).map fun r => (d, t, r)

end Fleet

end Yali
