import Yali.Conc.Blind
import Yali.Proof.Isolation
import Yali.Proof.Legacy
import Yali.Proof.Registry

/-!
# What is listed decides the rest

The tables hold texts, in the order of the inserts; the handlers see what they read from
them, in the order of the keys. Over tables that read alike (`Tables.ReadAlike`) an
operation answers with results that no handler can tell apart (`exec_alike`,
`router_blind`), so two processes over such tables go in lockstep. Tables read alike when
`GET /policies` and `GET /routes` list the same of them (`alike_of_listed`): what these
list decides every later answer, and all that data planes get (`listing_decides`).
-/

namespace Yali

open Conc PoliciesTable

variable {E : Env}

/-! ## Tables that read alike -/

/-- The primary keys of the tables. -/
structure Tables.PrimaryKeys (db : Tables) : Prop where
  policies : (db.policies.map PolicyRow.key).Nodup
  routes : (db.routes.map RouteRow.id).Nodup

structure Tables.ReadAlike (E : Env) (db db' : Tables) : Prop where
  policies : Keyed.ReadAlike (Db.rowToPolicy E) db.policies db'.policies
  routes : Keyed.ReadAlike (Db.rowToRoute E) db.routes db'.routes
  keys : db.PrimaryKeys

/-- The key of a policy that was read. -/
def PolicySpec.key (policy : PolicySpec) : String ×ₗ String := toLex (policy.id, policy.version)

theorem rowToPolicy_key (row : PolicyRow) : (Db.rowToPolicy E row).key = row.key := rfl

theorem rowToRoute_key (row : RouteRow) : (Db.rowToRoute E row).id = row.id := rfl

/-! ## Results that read alike -/

/-- Two results of an operation that are read the same. -/
def Op.ReadAlike (E : Env) : (o : Op) → o.Res → o.Res → Prop
  | .selectPolicies, r, r' => r.map (List.map (Db.rowToPolicy E)) = r'.map (List.map (Db.rowToPolicy E))
  | .selectPolicyVersions _, r, r' =>
    r.map (List.map (Db.rowToPolicy E)) = r'.map (List.map (Db.rowToPolicy E))
  | .selectPolicy _ _, r, r' => r.map (Option.map (Db.rowToPolicy E)) = r'.map (Option.map (Db.rowToPolicy E))
  | .selectRoutes, r, r' => r.map (List.map (Db.rowToRoute E)) = r'.map (List.map (Db.rowToRoute E))
  | .selectRoute _, r, r' => r.map (Option.map (Db.rowToRoute E)) = r'.map (Option.map (Db.rowToRoute E))
  | _, r, r' => r = r'

/-! ### Every handler is blind to the rest -/

theorem getPolicyVersion_blind (id version : String) :
    (Db.getPolicyVersion E id version).Blind (Op.ReadAlike E) := by
  have heq : Db.getPolicyVersion E id version =
      .op (.selectPolicy id version) fun r => .ofExcept (r.map (Option.map (Db.rowToPolicy E))) :=
    congrArg (Prog.op _) (funext fun r => by cases r <;> rfl)
  rw [heq]
  exact Prog.blind_op fun r r' h => h

theorem listRoutes_blind : (Db.listRoutes E).Blind (Op.ReadAlike E) := by
  have heq : Db.listRoutes E =
      .op .selectRoutes fun r => .ofExcept (r.map (List.map (Db.rowToRoute E))) :=
    congrArg (Prog.op _) (funext fun r => by cases r <;> rfl)
  rw [heq]
  exact Prog.blind_op fun r r' h => h

theorem checkPolicies_blind (entries : List RoutePolicy) (index : ℕ) (details : List String) :
    (checkPolicies E index details entries).Blind (Op.ReadAlike E) := by
  induction entries generalizing index details with
  | nil => trivial
  | cons entry entries ih =>
    have hone : (checkPolicy E index entry).Blind (Op.ReadAlike E) := by
      unfold checkPolicy
      split
      · trivial
      · exact (getPolicyVersion_blind _ _).mapErr.bind fun policy => Prog.blind_ok _
    exact hone.bind fun added => ih (index + 1) (details ++ added)

theorem validateRoutePolicies_blind (route : RouteSpec) :
    (validateRoutePolicies E route).Blind (Op.ReadAlike E) := by
  refine (checkPolicies_blind route.policies 0 []).bind fun details => ?_
  split <;> trivial

theorem handle_blind (req : Request) : (handle E req).Blind (Op.ReadAlike E) := by
  have hroute : ∀ route, ((validateRoutePolicies E route).mapErr fun err =>
      ApiError.validation err.details).Blind (Op.ReadAlike E) :=
    fun route => (validateRoutePolicies_blind route).mapErr
  have hcheck : (req.check E).Blind (Op.ReadAlike E) := by
    cases req with
    | createPolicy policy => simp only [Request.check, Prog.blind_ofExcept]
    | createRoute route => exact hroute route
    | updateRoute id route => exact hroute (route.renamed id)
    | deleteRoute id => exact Prog.blind_ok ()
  have hwrite : (req.write E).Blind (Op.ReadAlike E) := by
    refine Prog.blind_op fun r r' h => ?_
    cases req with
    | _ => exact congrArg _ h
  have hsnapshot : ∀ routes, (buildSnapshot routes).Blind (Op.ReadAlike E) := by
    rintro routes version _ rfl
    exact ⟨rfl, trivial⟩
  have hsend : ∀ snapshot, (.op (.send snapshot) fun _ => .ok () : Async SqlxError Unit).Blind
      (Op.ReadAlike E) := fun snapshot _ _ _ => ⟨rfl, trivial⟩
  have hpublish : (publishFromDb E).Blind (Op.ReadAlike E) :=
    listRoutes_blind.bind fun routes => (hsnapshot routes).bind hsend
  rw [handle_eq, Request.change_eq]
  exact (hcheck.bind fun _ => hwrite).bind fun _ => hpublish.mapErr.bind fun _ => Prog.blind_ok _

/-- **No handler sees more than what is read.** -/
theorem router_blind (call : Call) : (router E call).Blind (Op.ReadAlike E) := by
  have hfound : ∀ policies : List PolicySpec,
      (if policies.isEmpty then .err (.notFound "policy not found")
        else .ok (.policies policies) : Handler).Blind (Op.ReadAlike E) := by
    intro policies
    split <;> trivial
  cases call with
  | change req => exact handle_blind req
  | listPolicies =>
    have heq : Db.listPolicies E = .op .selectPolicies fun r => .ofExcept (r.map (List.map (Db.rowToPolicy E))) :=
      congrArg (Prog.op _) (funext fun r => by cases r <;> rfl)
    have hlist : (Db.listPolicies E).Blind (Op.ReadAlike E) := heq ▸ Prog.blind_op fun r r' h => h
    exact hlist.mapErr.bind fun policies => Prog.blind_ok _
  | getPolicy id version =>
    have hget : (Db.getPolicy E id version).Blind (Op.ReadAlike E) := by
      cases version with
      | none =>
        have heq : Db.getPolicy E id none =
            .op (.selectPolicyVersions id) fun r => .ofExcept (r.map (List.map (Db.rowToPolicy E))) :=
          congrArg (Prog.op _) (funext fun r => by cases r <;> rfl)
        exact heq ▸ Prog.blind_op fun r r' h => h
      | some version =>
        have heq : Db.getPolicy E id (some version) = (Db.getPolicyVersion E id version).bind
            fun policy => .ok policy.toList := by
          refine congrArg (Prog.op _) (funext fun r => ?_)
          cases r with
          | error e => rfl
          | ok row => cases row <;> rfl
        exact heq ▸ (getPolicyVersion_blind id version).bind fun policy => Prog.blind_ok _
    exact hget.mapErr.bind hfound
  | listRoutes => exact listRoutes_blind.mapErr.bind fun routes => Prog.blind_ok _
  | getRoute id =>
    have heq : Db.getRoute E id = .op (.selectRoute id) fun r => .ofExcept (r.map (Option.map (Db.rowToRoute E))) :=
      congrArg (Prog.op _) (funext fun r => by cases r <;> rfl)
    have hget : (Db.getRoute E id).Blind (Op.ReadAlike E) := heq ▸ Prog.blind_op fun r r' h => h
    refine hget.mapErr.bind fun route => ?_
    cases route <;> trivial

/-! ### Every operation answers alike -/

namespace Tables.ReadAlike

variable {db db' : Tables}

theorem selectPolicies (h : db.ReadAlike E db') :
    db.selectPolicies.map (Db.rowToPolicy E) = db'.selectPolicies.map (Db.rowToPolicy E) := by
  rw [selectPolicies_eq, selectPolicies_eq]
  exact h.policies.sort rowToPolicy_key h.keys.policies

theorem selectPolicyVersions (h : db.ReadAlike E db') (id : String) :
    (db.selectPolicyVersions id).map (Db.rowToPolicy E) =
      (db'.selectPolicyVersions id).map (Db.rowToPolicy E) := by
  have hfield : ∀ row, (Db.rowToPolicy E row).id = row.id := fun _ => rfl
  have hversion : ∀ row, (Db.rowToPolicy E row).version = row.version := fun _ => rfl
  have hid := h.policies.filter hfield (· = id)
  exact hid.sort hversion (policyVersions_nodup h.keys.policies id)

theorem selectPolicy (h : db.ReadAlike E db') (id version : String) :
    (db.selectPolicy id version).map (Db.rowToPolicy E) =
      (db'.selectPolicy id version).map (Db.rowToPolicy E) := by
  rw [selectPolicy_eq, selectPolicy_eq]
  exact h.policies.find rowToPolicy_key h.keys.policies _

theorem selectRoutes (h : db.ReadAlike E db') :
    db.selectRoutes.map (Db.rowToRoute E) = db'.selectRoutes.map (Db.rowToRoute E) :=
  h.routes.sort rowToRoute_key h.keys.routes

theorem selectRoute (h : db.ReadAlike E db') (id : String) :
    (db.selectRoute id).map (Db.rowToRoute E) = (db'.selectRoute id).map (Db.rowToRoute E) :=
  h.routes.find rowToRoute_key h.keys.routes id

end Tables.ReadAlike

/-- The tables read alike, and nothing else of the states differs. -/
structure AppState.ReadAlike (E : Env) (s s' : AppState) : Prop where
  pool : s.pool.ReadAlike E s'.pool
  configState : s.configState = s'.configState

/-- A key that is taken is taken in both tables, and one that is free is inserted in both. -/
theorem insertPolicy_alike {s s' : AppState} (h : s.ReadAlike E s') (row : PolicyRow) :
    (exec none (.insertPolicy row) s).1 = (exec none (.insertPolicy row) s').1 ∧
      (exec none (.insertPolicy row) s).2.ReadAlike E (exec none (.insertPolicy row) s').2 := by
  have hany : (s.pool.policies.any fun r => r.id = row.id ∧ r.version = row.version) =
      s'.pool.policies.any fun r => r.id = row.id ∧ r.version = row.version :=
    h.pool.policies.any rowToPolicy_key fun k => (ofLex k).1 = row.id ∧ (ofLex k).2 = row.version
  simp only [exec, statement, Tables.insertPolicy, ← hany]
  split
  · exact ⟨rfl, h⟩
  · rename_i hfree
    refine ⟨rfl, ⟨h.pool.policies.concat row, h.pool.routes, ?_, h.pool.keys.routes⟩, h.configState⟩
    refine Keyed.nodup_concat h.pool.keys.policies fun r hr heq => hfree ?_
    rw [List.any_eq_true]
    exact ⟨r, hr, decide_eq_true (Prod.mk.inj (toLex.injective heq))⟩

theorem insertRoute_alike {s s' : AppState} (h : s.ReadAlike E s') (row : RouteRow) :
    (exec none (.insertRoute row) s).1 = (exec none (.insertRoute row) s').1 ∧
      (exec none (.insertRoute row) s).2.ReadAlike E (exec none (.insertRoute row) s').2 := by
  have hany : (s.pool.routes.any fun r => r.id = row.id) = s'.pool.routes.any fun r => r.id = row.id :=
    h.pool.routes.any rowToRoute_key (· = row.id)
  simp only [exec, statement, Tables.insertRoute, ← hany]
  split
  · exact ⟨rfl, h⟩
  · rename_i hfree
    refine ⟨rfl, ⟨h.pool.policies, h.pool.routes.concat row, h.pool.keys.policies, ?_⟩, h.configState⟩
    refine Keyed.nodup_concat h.pool.keys.routes fun r hr heq => hfree ?_
    rw [List.any_eq_true]
    exact ⟨r, hr, decide_eq_true heq⟩

theorem updateRoute_alike {s s' : AppState} (h : s.ReadAlike E s') (row : RouteRow) :
    (exec none (.updateRoute row) s).1 = (exec none (.updateRoute row) s').1 ∧
      (exec none (.updateRoute row) s).2.ReadAlike E (exec none (.updateRoute row) s').2 := by
  have hcount := h.pool.routes.countP rowToRoute_key (· = row.id)
  refine ⟨congrArg Except.ok hcount, ⟨h.pool.policies, h.pool.routes.replace rowToRoute_key row,
    h.pool.keys.policies, ?_⟩, h.configState⟩
  change ((s.pool.routes.map fun r => if r.id = row.id then row else r).map RouteRow.id).Nodup
  rw [replace_ids]
  exact h.pool.keys.routes

theorem deleteRoute_alike {s s' : AppState} (h : s.ReadAlike E s') (id : String) :
    (exec none (.deleteRoute id) s).1 = (exec none (.deleteRoute id) s').1 ∧
      (exec none (.deleteRoute id) s).2.ReadAlike E (exec none (.deleteRoute id) s').2 := by
  have hcount := h.pool.routes.countP rowToRoute_key (· = id)
  exact ⟨congrArg Except.ok hcount, ⟨h.pool.policies, h.pool.routes.filter rowToRoute_key (· ≠ id),
    h.pool.keys.policies, h.pool.keys.routes.sublist (List.filter_sublist.map _)⟩, h.configState⟩

/-- The operations on the channel and its counter do not touch the tables. -/
theorem publish_alike {s s' : AppState} (h : s.ReadAlike E s') (c : Option SqlxError) (snapshot : Proto.Snapshot) :
    ((exec c .fetchAdd s).1 = (exec c .fetchAdd s').1 ∧
        (exec c .fetchAdd s).2.ReadAlike E (exec c .fetchAdd s').2) ∧
      (exec c (.send snapshot) s).2.ReadAlike E (exec c (.send snapshot) s').2 := by
  refine ⟨⟨congrArg ConfigState.version h.configState, h.pool, ?_⟩, h.pool, ?_⟩
  · simp only [exec, h.configState]
  · simp only [exec, h.configState]

/-- **An operation answers alike**, and leaves tables that read alike. -/
theorem exec_alike (c : Option SqlxError) (o : Op) {s s' : AppState} (h : s.ReadAlike E s') :
    o.ReadAlike E (exec c o s).1 (exec c o s').1 ∧ (exec c o s).2.ReadAlike E (exec c o s').2 := by
  cases c with
  | some e =>
    cases o with
    | fetchAdd => exact (publish_alike h (some e) ⟨0, []⟩).1
    | send snapshot => exact ⟨rfl, (publish_alike h (some e) snapshot).2⟩
    | _ => exact ⟨rfl, h⟩
  | none =>
    cases o with
    | selectPolicies => exact ⟨congrArg Except.ok h.pool.selectPolicies, h⟩
    | selectPolicyVersions id => exact ⟨congrArg Except.ok (h.pool.selectPolicyVersions id), h⟩
    | selectPolicy id version => exact ⟨congrArg Except.ok (h.pool.selectPolicy id version), h⟩
    | insertPolicy row => exact insertPolicy_alike h row
    | selectRoutes => exact ⟨congrArg Except.ok h.pool.selectRoutes, h⟩
    | selectRoute id => exact ⟨congrArg Except.ok (h.pool.selectRoute id), h⟩
    | insertRoute row => exact insertRoute_alike h row
    | updateRoute row => exact updateRoute_alike h row
    | deleteRoute id => exact deleteRoute_alike h id
    | fetchAdd => exact (publish_alike h none ⟨0, []⟩).1
    | send snapshot => exact ⟨rfl, (publish_alike h none snapshot).2⟩

/-! ## Two processes -/

/-- Nothing but the texts in the tables differs. -/
structure World.ReadAlike (E : Env) (w w' : World) : Prop where
  cp : w.cp.ReadAlike E w'.cp
  dp : w.dp = w'.dp

/-- The connections do not see the tables. -/
theorem act_alike (a : Action) {w w' : World} (h : w.ReadAlike E w') : (w.act a).ReadAlike E (w'.act a) := by
  obtain ⟨⟨db, cs⟩, dp⟩ := w
  obtain ⟨⟨db', cs'⟩, dp'⟩ := w'
  obtain ⟨⟨hpool, rfl : cs = cs'⟩, rfl : dp = dp'⟩ := h
  suffices hact : ∃ cs' dp', World.act ⟨⟨db, cs⟩, dp⟩ a = ⟨⟨db, cs'⟩, dp'⟩ ∧
      World.act ⟨⟨db', cs⟩, dp⟩ a = ⟨⟨db', cs'⟩, dp'⟩ by
    obtain ⟨cs', dp', heq, heq'⟩ := hact
    rw [heq, heq']
    exact ⟨⟨hpool, rfl⟩, rfl⟩
  cases a with
  | subscribe d | advance d | disconnect d =>
    simp only [World.act]
    cases (dp d).connection <;> exact ⟨_, _, rfl, rfl⟩
  | poll d =>
    simp only [World.act]
    rcases (dp d).connection with _ | ⟨sub, sent, taken⟩
    · exact ⟨_, _, rfl, rfl⟩
    · cases sub with
      | streaming stream =>
        simp only [World.tx]
        cases stream.poll cs.tx <;> exact ⟨_, _, rfl, rfl⟩
      | _ => exact ⟨_, _, rfl, rfl⟩
  | deliver d =>
    simp only [World.act]
    rcases (dp d).connection with _ | ⟨sub, sent, taken⟩
    · exact ⟨_, _, rfl, rfl⟩
    · simp only
      cases sent[taken]? <;> exact ⟨_, _, rfl, rfl⟩

/-! ## What is listed -/

/-- `GET /policies` and `GET /routes` list the same. -/
structure ListedAlike (E : Env) (s s' : AppState) : Prop where
  policies : (serveCall E .listPolicies s).1 = (serveCall E .listPolicies s').1
  routes : (serveCall E .listRoutes s).1 = (serveCall E .listRoutes s').1

/-- **Tables that are listed alike read alike.** -/
theorem alike_of_listed {s s' : AppState} (hs : s.pool.PrimaryKeys) (h : ListedAlike E s s') :
    s.pool.ReadAlike E s'.pool where
  policies := by
    have hlist : s.pool.selectPolicies.map (Db.rowToPolicy E) = s'.pool.selectPolicies.map (Db.rowToPolicy E) :=
      Reply.policies.inj (Except.ok.inj h.policies)
    have hperm : ∀ db : Tables, (db.selectPolicies.map (Db.rowToPolicy E)).Perm
        (db.policies.map (Db.rowToPolicy E)) := fun db => (List.perm_insertionSort _ db.policies).map _
    exact (hperm s.pool).symm.trans (hlist ▸ hperm s'.pool)
  routes := by
    have hlist : s.pool.specs E = s'.pool.specs E := Reply.routes.inj (Except.ok.inj h.routes)
    have hperm : ∀ db : Tables, (db.specs E).Perm (db.routes.map (Db.rowToRoute E)) :=
      fun db => (List.perm_insertionSort _ db.routes).map _
    exact (hperm s.pool).symm.trans (hlist ▸ hperm s'.pool)
  keys := hs

/-! ## Every run -/

/-- After the events the two processes have given the same answers, made the same
publications, and their data planes have the same routes. -/
structure Indistinct (s s' : AppState) (es : List Event) : Prop where
  answers : ∀ t, (Gateway.run (.idle (.start s)) es).result t = (Gateway.run (.idle (.start s')) es).result t
  configState : (Gateway.run (.idle (.start s)) es).st.cp.configState =
    (Gateway.run (.idle (.start s')) es).st.cp.configState
  dataPlanes : (Gateway.run (.idle (.start s)) es).st.dp = (Gateway.run (.idle (.start s')) es).st.dp

/-- **Over tables that read alike, processes cannot be told apart.** -/
theorem indistinct_run {s s' : AppState} (h : s.ReadAlike E s') {es : List Event}
    (hes : ∀ p, .start p ∈ es → ∃ call, p = router E call) : Indistinct s s' es := by
  have hstart : (World.start s).ReadAlike E (World.start s') := ⟨h, rfl⟩
  have hexec : ∀ c o (w w' : World), w.ReadAlike E w' →
      o.ReadAlike E (World.exec c o w).1 (World.exec c o w').1 ∧
        (World.exec c o w).2.ReadAlike E (World.exec c o w').2 := by
    intro c o w w' h
    obtain ⟨hres, hcp⟩ := exec_alike c o h.cp
    exact ⟨hres, hcp, h.dp⟩
  have hblind : ∀ p, .start p ∈ es → p.Blind (Op.ReadAlike E) := by
    intro p hp
    obtain ⟨call, rfl⟩ := hes p hp
    exact router_blind call
  have hrun := Pool.lockstep_run hexec (fun a w w' => act_alike a) (.idle hstart) hblind
  exact ⟨hrun.result, hrun.st.cp.configState, hrun.st.dp⟩

/-- **What is listed decides the rest.** Of two processes with the same version counter and
channel, `GET /policies` and `GET /routes` list the same. Then nothing tells them apart
later, whatever the order and the failures of the statements of any calls. -/
theorem listing_decides (s s' : AppState) (hs : s.pool.PrimaryKeys) (hlisted : ListedAlike E s s')
    (hconf : s.configState = s'.configState) (es : List Event)
    (hes : ∀ p, .start p ∈ es → ∃ call, p = router E call) : Indistinct s s' es :=
  indistinct_run ⟨alike_of_listed hs hlisted, hconf⟩ hes

namespace Sample

/-- A process over the file of a legacy program, and one over a file that was never old. -/
def upgradedApp : AppState := ⟨(legacyFile [tracing]).migrated, .new⟩

def freshApp : AppState := ⟨⟨[Db.policyRow .plain tracing.upgraded], []⟩, .new⟩

/-- A route that uses the policy is created, and the policy read meanwhile. -/
def tracingRun : List Event :=
  [.start (router .plain (.change (.createRoute
      { users with policies := [⟨"pre_route", "tracing", "1", none⟩] }))), .step 0 none,
    .start (router .plain (.getPolicy "tracing" none)), .step 1 none, .step 0 none]

end Sample

theorem listing_decides_legacy :
    Sample.upgradedApp.pool.policies.map PolicyRow.configJson ≠
        Sample.freshApp.pool.policies.map PolicyRow.configJson ∧
      Indistinct Sample.upgradedApp Sample.freshApp Sample.tracingRun := by
  have hrows : Sample.upgradedApp.pool.policies = [backfillRow (legacyRow .plain Sample.tracing)] :=
    (Sample.legacyFile_one Sample.tracing).migrated_rows
  have hkeys : Sample.upgradedApp.pool.PrimaryKeys := by
    refine ⟨?_, List.nodup_nil⟩
    rw [hrows]
    exact List.nodup_singleton _
  have hlisted : ListedAlike .plain Sample.upgradedApp Sample.freshApp := by
    refine ⟨?_, rfl⟩
    have hread : Sample.upgradedApp.pool.selectPolicies.map (Db.rowToPolicy .plain) =
        Sample.freshApp.pool.selectPolicies.map (Db.rowToPolicy .plain) := by
      unfold Tables.selectPolicies
      rw [hrows]
      exact congrArg (fun policy => [policy]) ((legacyRow_read Env.plain_lawful Env.plain_compact Sample.tracing).trans
        (rowToPolicy_policyRow Env.plain_lawful Sample.tracing.upgraded).symm)
    exact congrArg (fun policies => Except.ok (Reply.policies policies)) hread
  have hroutes : ∀ p, .start p ∈ Sample.tracingRun → ∃ call, p = router .plain call := by
    intro p hp
    simp only [Sample.tracingRun, List.mem_cons, Conc.Event.start.injEq, reduceCtorEq, List.not_mem_nil,
      or_false, false_or] at hp
    rcases hp with rfl | rfl
    · exact ⟨_, rfl⟩
    · exact ⟨_, rfl⟩
  refine ⟨?_, listing_decides _ _ hkeys hlisted rfl _ hroutes⟩
  rw [hrows]
  decide

end Yali
