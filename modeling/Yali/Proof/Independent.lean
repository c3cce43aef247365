import Yali.Proof.Isolation

/-!
# Requests about different routes

A request reads and writes the policies and the row of its route, and no other row
(`written_selectRoute`, `serial_local`). So when the requests of a run are about different
routes, each is answered as if it were alone, and its route ends as it would then
(`disjoint_requests`).
-/

namespace Yali

open Conc

variable {E : Env}

/-! ## The row of a request -/

/-- The row that an admissible request leaves under the id of its route. -/
def Request.leaves (E : Env) : Request → Option RouteRow
  | .createRoute route => some (Db.routeRow E route)
  | .updateRoute id route => some (Db.routeRow E (route.renamed id))
  | .createPolicy _ | .deleteRoute _ => none

/-- The write of a request is about its route. -/
theorem writeOp_rewrites {req : Request} {id : String} (hid : req.routeId = some id) :
    (req.writeOp E).rewrites = some (id, req.leaves E) := by
  cases req with
  | createPolicy policy => exact absurd hid (by simp [Request.routeId])
  | createRoute route | updateRoute id' route | deleteRoute id' =>
    obtain rfl := Option.some.inj hid
    rfl

/-- **What a request writes**, row by row. -/
theorem written_selectRoute {db : Tables} {req : Request} {id : String} (hid : req.routeId = some id)
    (hadm : req.Admissible E db) (x : String) :
    (req.written E db).selectRoute x = if x = id then req.leaves E else db.selectRoute x := by
  rcases Request.write_cases (s := ⟨db, .new⟩) hadm.valid with ⟨-, hok, hs⟩ | ⟨hno, -⟩
  · have hrow := exec_selectRoute (w := .start ⟨db, .new⟩) (writeOp_rewrites hid) (answer_ok.1 hok) x
    have hpool : (World.exec none (req.writeOp E) (.start ⟨db, .new⟩)).2.cp.pool = req.written E db :=
      congrArg AppState.pool hs
    rwa [hpool] at hrow
  · exact absurd hadm hno

theorem written_policies {db : Tables} {req : Request} {id : String} (hid : req.routeId = some id) :
    (req.written E db).policies = db.policies := by
  cases req with
  | createPolicy policy => exact absurd hid (by simp [Request.routeId])
  | _ => rfl

/-! ## Locality -/

/-- The tables agree on what a request about the route `id` reads. -/
structure Alike (id : String) (db db' : Tables) : Prop where
  policies : db.policies = db'.policies
  row : db.selectRoute id = db'.selectRoute id

variable {db db' : Tables} {req : Request} {id : String}

theorem Alike.valid (h : Alike id db db') : req.Valid E db ↔ req.Valid E db' := by
  obtain ⟨policies, routes⟩ := db
  obtain ⟨policies', routes'⟩ := db'
  obtain rfl : policies = policies' := h.policies
  cases req with
  | _ => rfl

/-- The key of a request that is about the route `id` fits. -/
theorem admissible_iff (hid : req.routeId = some id) :
    req.Admissible E db ↔ req.Valid E db ∧
      match req with
      | .createRoute _ => db.selectRoute id = none
      | _ => db.selectRoute id ≠ none := by
  have hpresent : (∃ row ∈ db.routes, row.id = id) ↔ db.selectRoute id ≠ none := by
    rw [ne_eq, selectRoute_none]
    push Not
    rfl
  cases req with
  | createPolicy policy => exact absurd hid (by simp [Request.routeId])
  | createRoute route =>
    obtain rfl : route.id = id := Option.some.inj hid
    rw [selectRoute_none]
    rfl
  | updateRoute id' route =>
    obtain rfl : id' = id := Option.some.inj hid
    simp only [← hpresent]
    rfl
  | deleteRoute id' =>
    obtain rfl : id' = id := Option.some.inj hid
    simp only [← hpresent]
    exact ⟨fun h => ⟨trivial, h⟩, fun h => h.2⟩

/-- **A request sees its own row and the policies**: over alike tables it has the same
outcome, and leaves alike tables. -/
theorem serial_local (hid : req.routeId = some id) {s s' : AppState}
    (h : Alike id s.pool s'.pool) :
    outcome (serve E noFault req s).1 = outcome (serve E noFault req s').1 ∧
      Alike id (serve E noFault req s).2.pool (serve E noFault req s').2.pool := by
  have hadm : req.Admissible E s.pool ↔ req.Admissible E s'.pool := by
    rw [admissible_iff hid, admissible_iff hid, h.valid, h.row]
  by_cases ha : req.Admissible E s.pool
  · obtain ⟨hout, hpool⟩ := serial_written ha s rfl
    obtain ⟨hout', hpool'⟩ := serial_written (hadm.1 ha) s' rfl
    rw [hout, hout', hpool, hpool']
    refine ⟨rfl, ?_, ?_⟩
    · rw [written_policies hid, written_policies hid, h.policies]
    · rw [written_selectRoute hid ha, written_selectRoute hid (hadm.1 ha), if_pos rfl, if_pos rfl]
  · have ha' : ¬ req.Admissible E s'.pool := fun h' => ha (hadm.2 h')
    by_cases hv : req.Valid E s.pool
    · obtain ⟨hout, hpool⟩ := serial_refused hv ha s rfl
      obtain ⟨hout', hpool'⟩ := serial_refused (h.valid.1 hv) ha' s' rfl
      rw [hout, hout', hpool, hpool']
      exact ⟨rfl, h⟩
    · obtain ⟨hout, hpool⟩ := serial_invalid hv s rfl
      obtain ⟨hout', hpool'⟩ := serial_invalid (fun h' => hv (h.valid.2 h')) s' rfl
      rw [hout, hout', hpool, hpool']
      exact ⟨rfl, h⟩

theorem getRoute_congr {s s' : AppState} (h : s.pool.selectRoute id = s'.pool.selectRoute id) :
    ((Api.getRoute E id).run exec noFault s).1 = ((Api.getRoute E id).run exec noFault s').1 := by
  simp only [Api.getRoute, Db.getRoute, Prog.bind_eq, Prog.op_bind, Prog.mapErr_op, Prog.run_op, exec,
    noFault, statement, h]
  cases s'.pool.selectRoute id with
  | none => rfl
  | some row => rfl

/-- The id of the route that the call is about. -/
def Call.routeId : Call → Option String
  | .change req => req.routeId
  | .getRoute id => some id
  | .listPolicies | .getPolicy _ _ | .listRoutes => none

/-- A call that is no request leaves the state. -/
theorem serveCall_same {call : Call} (h : ∀ req, call ≠ .change req) (s : AppState) :
    (serveCall E call s).2 = s := by
  obtain ⟨o, f, ho, hcall, -⟩ := router_read (E := E) h
  rw [serveCall_read ho hcall]

theorem call_local {call : Call} (hid : call.routeId = some id) {s s' : AppState}
    (h : Alike id s.pool s'.pool) :
    outcome (serveCall E call s).1 = outcome (serveCall E call s').1 ∧
      Alike id (serveCall E call s).2.pool (serveCall E call s').2.pool := by
  cases call with
  | change req => exact serial_local hid h
  | getRoute id' =>
    obtain rfl : id' = id := Option.some.inj hid
    rw [serveCall_same (by simp), serveCall_same (by simp)]
    exact ⟨congrArg outcome (getRoute_congr h.row), h⟩
  | listPolicies | getPolicy | listRoutes => exact absurd hid (by simp [Call.routeId])

/-- Calls about other routes leave alike tables. -/
theorem serveCalls_elsewhere {calls : List Call}
    (h : ∀ call ∈ calls, ∃ id', call.routeId = some id' ∧ id ≠ id') (s : AppState) :
    Alike id (serveCalls E s calls).pool s.pool := by
  refine serveCalls_kept (J := fun db => Alike id db s.pool) ?_ ⟨rfl, rfl⟩
  intro req hreq db halike hadm
  obtain ⟨id', hid, hne⟩ := h _ hreq
  refine ⟨(written_policies hid).trans halike.policies, ?_⟩
  rw [written_selectRoute hid hadm, if_neg hne, halike.row]

/-! ## Concurrent requests -/

/-- **Requests about different routes do not interact.** In a run whose requests are about
routes of distinct ids, a request that was answered, with none of its statements failing, has
the outcome that it has on its own in the first state. `GET` of its route then returns what it
returns after the request on its own. -/
theorem disjoint_requests (w : World) (es : List Event) (calls : ℕ → Call)
    (hcalls : ServesCalls E calls w es) (ids : ℕ → String)
    (hids : ∀ t < (Gateway.run (.idle w) es).count, (calls t).routeId = some (ids t))
    (hdis : ∀ t < (Gateway.run (.idle w) es).count, ∀ u < (Gateway.run (.idle w) es).count,
      ids t = ids u → t = u) (t : ℕ) (r : Except ApiError Reply)
    (hr : (Gateway.run (.idle w) es).result t = some r) (hclean : ∀ e, .step t (some e) ∉ es) :
    outcome r = outcome (serveCall E (calls t) w.cp).1 ∧
      ((Api.getRoute E (ids t)).run exec noFault (Gateway.run (.idle w) es).st.cp).1 =
        ((Api.getRoute E (ids t)).run exec noFault (serveCall E (calls t) w.cp).2).1 := by
  obtain ⟨hist, stage, h⟩ := steps_run hcalls
  have hstarted := Steps.started h
  have htables := Steps.tables h (s := w.cp) rfl
  have hnodup := h.nodup
  obtain ⟨before, after, heq, hout⟩ := Steps.answer h hr hclean
  rw [heq] at hstarted htables hnodup
  have ht := hstarted t (by simp)
  -- the others are about other routes
  have hother : ∀ l : List ℕ, (∀ u ∈ l, u ∈ before ++ t :: after ∧ u ≠ t) →
      ∀ call ∈ l.map calls, ∃ id', call.routeId = some id' ∧ ids t ≠ id' := by
    intro l hl call hcall
    obtain ⟨u, hu, rfl⟩ := List.mem_map.1 hcall
    obtain ⟨hmem, hne⟩ := hl u hu
    exact ⟨ids u, hids u (hstarted u hmem), fun heq => hne (hdis t ht u (hstarted u hmem) heq).symm⟩
  obtain ⟨hnot, -⟩ := List.nodup_cons.1 (List.nodup_middle.1 hnodup)
  rw [List.mem_append, not_or] at hnot
  have hbefore := hother before fun u hu => ⟨List.mem_append_left _ hu, fun heq => hnot.1 (heq ▸ hu)⟩
  have hafter := hother after fun u hu =>
    ⟨List.mem_append_right _ (List.mem_cons_of_mem _ hu), fun heq => hnot.2 (heq ▸ hu)⟩
  -- the calls before it leave its row, and those after it leave what it made of it
  have halike := serveCalls_elsewhere (E := E) hbefore w.cp
  obtain ⟨hsame, hleft⟩ := call_local (hids t ht) halike
  refine ⟨(hout w.cp rfl).symm.trans hsame, getRoute_congr ?_⟩
  rw [← htables, List.map_append, serveCalls_append, List.map_cons]
  exact (serveCalls_elsewhere hafter _).row.trans hleft.row

namespace Sample

/-- Two routes are created at the same time. -/
def twins : ℕ → Call
  | 0 => .change (.createRoute users)
  | _ => .change (.createRoute { users with id := "orders" })

def twinIds : ℕ → String
  | 0 => "users"
  | _ => "orders"

def twinRun : List Event :=
  [.start (router .plain (twins 0)), .start (router .plain (twins 1)), .step 1 none, .step 0 none,
    .step 0 none, .step 1 none, .step 0 none, .step 0 none]

end Sample

theorem disjoint_requests_twins :
    (Gateway.run (.idle (.start ⟨⟨[], []⟩, .new⟩)) Sample.twinRun).result 0 =
        some (.ok (.routeCreated Sample.users)) ∧
      outcome (.ok (.routeCreated Sample.users)) =
        outcome (serveCall .plain (.change (.createRoute Sample.users)) ⟨⟨[], []⟩, .new⟩).1 ∧
      ((Api.getRoute .plain "users").run exec noFault
          (Gateway.run (.idle (.start ⟨⟨[], []⟩, .new⟩)) Sample.twinRun).st.cp).1 =
        ((Api.getRoute .plain "users").run exec noFault
          (serveCall .plain (.change (.createRoute Sample.users)) ⟨⟨[], []⟩, .new⟩).2).1 := by
  have hres : (Gateway.run (.idle (.start ⟨⟨[], []⟩, .new⟩)) Sample.twinRun).result 0 =
      some (.ok (.routeCreated Sample.users)) := rfl
  have hserves : ServesCalls .plain Sample.twins (.start ⟨⟨[], []⟩, .new⟩) Sample.twinRun := by
    intro n p hp
    match n with
    | 0 =>
      obtain rfl : _ = p := by simpa [Sample.twinRun] using hp
      rfl
    | 1 =>
      obtain rfl : _ = p := by simpa [Sample.twinRun] using hp
      rfl
    | 2 | 3 | 4 | 5 | 6 | 7 => exact absurd hp (by simp [Sample.twinRun])
    | n + 8 => exact absurd hp (by simp [Sample.twinRun])
  have hcount : (Gateway.run (.idle (.start ⟨⟨[], []⟩, .new⟩)) Sample.twinRun).count = 2 := rfl
  have hids : ∀ t < 2, (Sample.twins t).routeId = some (Sample.twinIds t) := by
    intro t ht
    match t with
    | 0 => rfl
    | 1 => rfl
    | t + 2 => omega
  have hdis : ∀ t < 2, ∀ u < 2, Sample.twinIds t = Sample.twinIds u → t = u := by decide
  exact ⟨hres, disjoint_requests _ _ Sample.twins hserves Sample.twinIds (hcount ▸ hids)
    (hcount ▸ hdis) 0 _ hres (by simp [Sample.twinRun])⟩

end Yali
