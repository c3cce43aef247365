import Mathlib.Data.Nat.Notation

/-!
# Messages of `gateway.proto`

An absent string is empty and an absent number is zero; only the `match` message
can be told from an absent one.
-/

namespace Yali.Proto

/-- What the data plane routes by. An empty string or list sets no condition. -/
structure Match where
  pathPrefix : String
  methods : List String
  host : String

/-- An upstream, by its url; the data plane has no use for the two numbers. -/
structure Upstream where
  url : String
  weight : UInt32
  priority : UInt32

/-- A policy attached to a route, without its params. -/
structure PolicyRef where
  stage : String
  id : String
  version : String

/-- A route as the data plane receives it; `lb` is empty for a route without one. -/
structure Route where
  id : String
  match_ : Option Match
  upstreams : List Upstream
  lb : String
  policies : List PolicyRef

/-- All routes at once, under the version of their publication. -/
structure Snapshot where
  version : UInt64
  routes : List Route

end Yali.Proto
