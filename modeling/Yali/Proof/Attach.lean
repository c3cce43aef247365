import Yali.Proof.Codec
import Yali.Proof.Publish

/-!
# Stored routes fit the policies

A route is checked in earlier steps than the one that writes it, and other requests
run in between. What the checks found stays true because requests only add policies,
each of them checked (`Adds`), so every request is safe whatever the others do
(`handle_safe`), for every property of the tables that its writes keep (`Kept`).
`Sound` is one, and every run keeps it (`attachments_sound`).
-/

namespace Yali

open Conc

variable (E : Env)

/-! ## The property -/

/-- The entry of a route fits a stored policy. -/
structure AttachmentSound (db : Tables) (entry : RoutePolicy) : Prop where
  params : ∀ v, entry.params = some v → v.isObject = true
  allowed : entry.stage ∈ allowedPolicyStages
  policy : ∃ row ∈ db.policies, row.id = entry.id ∧ row.version = entry.version ∧
    entry.stage ∈ (Db.rowToPolicy E row).supportedStages ∧
    ∃ schema merged, E.compile (Db.rowToPolicy E row).configSchema = .ok schema ∧
      (∀ context, deepMergeDefaultWithParams (Db.rowToPolicy E row).defaultConfig entry.params context =
        .ok merged) ∧
      E.errors schema merged = []

/-- The rows are those of policies that pass their check and of routes whose entries
are attached. -/
structure Sound (db : Tables) : Prop where
  policy : ∀ row ∈ db.policies, ∃ policy, row = Db.policyRow E policy ∧
    validatePolicySpec E policy = .ok ()
  route : ∀ row ∈ db.routes, ∃ route, row = Db.routeRow E route ∧
    ∀ entry ∈ route.policies, entry.Attached E db

/-- The row of a policy that passes its check. -/
def Checked (row : PolicyRow) : Prop :=
  ∃ policy, row = Db.policyRow E policy ∧ validatePolicySpec E policy = .ok ()

/-- Checked policies are added at the end, none is changed. -/
def Adds (db db' : Tables) : Prop :=
  ∃ more, db'.policies = db.policies ++ more ∧ ∀ row ∈ more, Checked E row

variable {E}

theorem Adds.refl (db : Tables) : Adds E db db := ⟨[], by simp, by simp⟩

theorem Adds.trans {a b c : Tables} (h : Adds E a b) (h' : Adds E b c) : Adds E a c := by
  obtain ⟨m, hm, hc⟩ := h
  obtain ⟨m', hm', hc'⟩ := h'
  refine ⟨m ++ m', by rw [hm', hm, List.append_assoc], ?_⟩
  intro row hrow
  rcases List.mem_append.1 hrow with hrow | hrow
  · exact hc row hrow
  · exact hc' row hrow

theorem Adds.selectPolicy {db db' : Tables} (h : Adds E db db') {id version : String} {row : PolicyRow}
    (hrow : db.selectPolicy id version = some row) : db'.selectPolicy id version = some row := by
  obtain ⟨more, hm, -⟩ := h
  unfold Tables.selectPolicy at *
  rw [hm, List.find?_append, hrow]
  rfl

/-- **An attachment stays.** -/
theorem Adds.attached {db db' : Tables} (h : Adds E db db') {entry : RoutePolicy}
    (ha : entry.Attached E db) : entry.Attached E db' := by
  obtain ⟨hp, row, hrow, hrest⟩ := ha
  exact ⟨hp, row, h.selectPolicy hrow, hrest⟩

/-- What is stored under the policy's key is the policy, and it passes its check. -/
structure Registered (E : Env) (db : Tables) (policy : PolicySpec) : Prop where
  stored : db.selectPolicy policy.id policy.version = some (Db.policyRow E policy)
  valid : validatePolicySpec E policy = .ok ()

theorem Adds.registered {db db' : Tables} (h : Adds E db db') {policy : PolicySpec}
    (hr : Registered E db policy) : Registered E db' policy := ⟨h.selectPolicy hr.stored, hr.valid⟩

/-- A policy added under a free key is the one stored there. -/
theorem registered_append {db : Tables} {policy : PolicySpec}
    (hfree : ∀ row ∈ db.policies, ¬ (row.id = policy.id ∧ row.version = policy.version))
    (hv : validatePolicySpec E policy = .ok ()) :
    Registered E { db with policies := db.policies ++ [Db.policyRow E policy] } policy := by
  refine ⟨?_, hv⟩
  have hnone : db.policies.find? (fun row => decide (row.id = policy.id ∧ row.version = policy.version)) =
      none := by
    rw [List.find?_eq_none]
    intro row hrow h
    exact hfree row hrow (by simpa using h)
  unfold Tables.selectPolicy
  rw [List.find?_append, hnone, Option.none_or, List.find?_cons_of_pos]
  simp [Db.policyRow]

/-- The property survives what requests write: a checked policy more, routes that are
kept or replaced by attached ones. -/
structure Kept (E : Env) (J : Tables → Prop) : Prop where
  policy : ∀ db policy, J db → validatePolicySpec E policy = .ok () →
    J { db with policies := db.policies ++ [Db.policyRow E policy] }
  routes : ∀ db routes, J db → (∀ row ∈ routes, row ∈ db.routes ∨
      ∃ route, row = Db.routeRow E route ∧ ∀ entry ∈ route.policies, entry.Attached E db) →
    J { db with routes := routes }

/-- Nothing need be kept. -/
theorem kept_true : Kept E fun _ => True := ⟨fun _ _ _ _ => trivial, fun _ _ _ _ => trivial⟩

theorem adds_append {db : Tables} {policy : PolicySpec} (hv : validatePolicySpec E policy = .ok ()) :
    Adds E db { db with policies := db.policies ++ [Db.policyRow E policy] } := by
  refine ⟨[Db.policyRow E policy], rfl, ?_⟩
  intro row hrow
  exact ⟨policy, List.mem_singleton.1 hrow, hv⟩

theorem sound_kept : Kept E (Sound E) where
  policy := by
    intro db policy h hv
    refine ⟨?_, ?_⟩
    · intro row hrow
      rcases List.mem_append.1 hrow with hrow | hrow
      · exact h.policy row hrow
      · exact ⟨policy, List.mem_singleton.1 hrow, hv⟩
    · -- the routes stored stay attached
      intro row hrow
      obtain ⟨route, hr, hatt⟩ := h.route row hrow
      exact ⟨route, hr, fun entry he => (adds_append hv).attached (hatt entry he)⟩
  routes := by
    intro db routes h hr
    refine ⟨h.policy, ?_⟩
    intro row hrow
    rcases hr row hrow with hold | hnew
    · exact h.route row hold
    · exact hnew

/-! ## Requests are safe -/

/-- A property of the tables, on a world. -/
def HasTables (J : Tables → Prop) (w : World) : Prop := J w.cp.pool

def AddsW (E : Env) (w w' : World) : Prop := Adds E w.cp.pool w'.cp.pool

theorem AddsW.trans (a b c : World) (h : AddsW E a b) (h' : AddsW E b c) : AddsW E a c := Adds.trans h h'

/-- A created policy is registered. -/
def Answered (E : Env) (reply : Reply) (w : World) : Prop :=
  ∀ policy, reply = .policyCreated policy → Registered E w.cp.pool policy

theorem Answered.stable (reply : Reply) (w w' : World) (hG : AddsW E w w') (h : Answered E reply w) :
    Answered E reply w' := by
  intro policy hreply
  exact hG.registered (h policy hreply)

variable {J : Tables → Prop}

/-- An operation that leaves the tables alone. -/
theorem HasTables.same {w w' : World} (h : HasTables J w) (hp : w'.cp.pool = w.cp.pool) :
    HasTables J w' ∧ AddsW E w w' := by
  unfold HasTables AddsW
  rw [hp]
  exact ⟨h, Adds.refl _⟩

theorem statement_pool {α : Type} (c : Option SqlxError) (s : AppState) (r : Except SqlxError α) :
    (statement c s (r, s.pool)).2.pool = s.pool := by
  cases c <;> rfl

/-- The checks of one entry: if they add nothing, it is attached. -/
theorem checkPolicy_safe (index : ℕ) (entry : RoutePolicy) (w : World) :
    (checkPolicy E index entry).Safe World.exec (HasTables J) (AddsW E)
      (fun added w => added = [] → entry.Attached E w.cp.pool) w := by
  unfold checkPolicy
  by_cases hp : ∀ v, entry.params = some v → v.isObject = true
  · simp only [params_any.not.2 (not_not.2 hp), Bool.false_eq_true, if_false]
    -- the read of the policy, in the world it then finds
    intro w₁ _ hI c
    have hpool : (World.exec c (.selectPolicy entry.id entry.version) w₁).2.cp.pool = w₁.cp.pool :=
      statement_pool c w₁.cp _
    obtain ⟨hI', hG⟩ := hI.same hpool
    refine ⟨hI', hG, ?_⟩
    cases c with
    | some e => trivial
    | none =>
      intro hnil
      exact (policyDetails_nil hp).1 hnil
  · simp only [params_any.2 hp, if_true]
    exact fun h => absurd h (by simp)

/-- The loop over the entries: if the details stay as they were, every entry is attached. -/
theorem checkPolicies_safe (entries : List RoutePolicy) (index : ℕ) (details : List String) (w : World)
    (hI : HasTables J w) :
    (checkPolicies E index details entries).Safe World.exec (HasTables J) (AddsW E)
      (fun d w => ∃ added, d = details ++ added ∧
        (added = [] → ∀ entry ∈ entries, entry.Attached E w.cp.pool)) w := by
  induction entries generalizing index details w with
  | nil => exact ⟨[], by simp, by simp⟩
  | cons entry entries ih =>
    refine Prog.Safe.bind hI (checkPolicy_safe index entry w) ?_
    intro added w₁ hI₁ hadd
    -- the entry stays attached while the others are checked
    have hframe := Prog.Safe.frame (F := fun w : World => added = [] → entry.Attached E w.cp.pool)
      (fun _ _ hG hF h => Adds.attached hG (hF h)) hadd (ih (index + 1) (details ++ added) w₁ hI₁)
    refine hframe.weaken hI₁ ?_
    intro d w₂ _ h
    obtain ⟨⟨more, rfl, hmore⟩, hentry⟩ := h
    refine ⟨added ++ more, List.append_assoc _ _ _, ?_⟩
    intro hnil
    obtain ⟨hadded, hmore'⟩ := List.append_eq_nil_iff.1 hnil
    exact List.forall_mem_cons.2 ⟨hentry hadded, hmore hmore'⟩

/-- **A checked route is attached** when its checks end. -/
theorem validateRoutePolicies_safe (route : RouteSpec) (w : World) (hI : HasTables J w) :
    (validateRoutePolicies E route).Safe World.exec (HasTables J) (AddsW E)
      (fun _ w => ∀ entry ∈ route.policies, entry.Attached E w.cp.pool) w := by
  refine Prog.Safe.bind hI (checkPolicies_safe route.policies 0 [] w hI) ?_
  intro d w₁ _ h
  obtain ⟨added, rfl, hadd⟩ := h
  split
  · rename_i hnil
    exact hadd (by simpa using hnil)
  · trivial

section Writes

variable (hJ : Kept E J)
include hJ

/-- **The write of an attached route keeps the property**, however late it comes. -/
theorem insertRoute_safe {route : RouteSpec} {w : World}
    (h : ∀ entry ∈ route.policies, entry.Attached E w.cp.pool) :
    (Db.insertRoute E route).Safe World.exec (HasTables J) (AddsW E) (fun _ _ => True) w := by
  intro w₁ hG hI c
  -- what was checked then holds now
  have hatt : ∀ entry ∈ route.policies, entry.Attached E w₁.cp.pool :=
    fun entry he => hG.attached (h entry he)
  have hend : ∀ r : Except SqlxError Unit, (Prog.ofExcept r : Async SqlxError Unit).Safe World.exec
      (HasTables J) (AddsW E) (fun _ _ => True) (World.exec c (.insertRoute (Db.routeRow E route)) w₁).2 :=
    fun r => by cases r <;> trivial
  rw [← and_assoc]
  refine ⟨?_, hend _⟩
  cases c with
  | some e => exact hI.same rfl
  | none =>
    rcases insertRoute_cases w₁.cp.pool (Db.routeRow E route) with ⟨-, hins⟩ | ⟨-, e, hins, -⟩
    · refine ⟨?_, ⟨[], ?_, by simp⟩⟩
      · simp only [HasTables, World.exec, exec, statement, hins]
        refine hJ.routes _ _ hI ?_
        intro row hrow
        rcases List.mem_append.1 hrow with hrow | hrow
        · exact .inl hrow
        · exact .inr ⟨route, List.mem_singleton.1 hrow, hatt⟩
      · simp only [World.exec, exec, statement, hins, List.append_nil]
    · refine hI.same ?_
      simp only [World.exec, exec, statement, hins]

theorem updateRoute_safe {route : RouteSpec} {w : World}
    (h : ∀ entry ∈ route.policies, entry.Attached E w.cp.pool) :
    (Db.updateRoute E route).Safe World.exec (HasTables J) (AddsW E) (fun _ _ => True) w := by
  intro w₁ hG hI c
  have hatt : ∀ entry ∈ route.policies, entry.Attached E w₁.cp.pool :=
    fun entry he => hG.attached (h entry he)
  cases c with
  | some e => exact ⟨hI, Adds.refl _, trivial⟩
  | none =>
    have hG₁ : AddsW E w₁ (World.exec none (.updateRoute (Db.routeRow E route)) w₁).2 :=
      ⟨[], by simp [World.exec, exec, statement, Tables.updateRoute], by simp⟩
    refine ⟨hJ.routes _ _ hI fun row hrow => ?_, hG₁, trivial⟩
    obtain ⟨old, hold, rfl⟩ := List.mem_map.1 hrow
    split
    · exact .inr ⟨route, rfl, hatt⟩
    · exact .inl hold

theorem deleteRoute_safe (id : String) (w : World) :
    (Db.deleteRoute id).Safe World.exec (HasTables J) (AddsW E) (fun _ _ => True) w := by
  intro w₁ _ hI c
  cases c with
  | some e => exact ⟨hI, Adds.refl _, trivial⟩
  | none =>
    have hG₁ : AddsW E w₁ (World.exec none (.deleteRoute id) w₁).2 :=
      ⟨[], by simp [World.exec, exec, statement, Tables.deleteRoute], by simp⟩
    refine ⟨hJ.routes _ _ hI fun row hrow => ?_, hG₁, trivial⟩
    exact .inl (List.mem_filter.1 hrow).1

/-- A policy that passed its check may be added, and is then registered. -/
theorem insertPolicy_safe {policy : PolicySpec} (hv : validatePolicySpec E policy = .ok ()) (w : World) :
    (Db.insertPolicy E policy).Safe World.exec (HasTables J) (AddsW E)
      (fun _ w => Registered E w.cp.pool policy) w := by
  intro w₁ _ hI c
  cases c with
  | some e =>
    have hpool : (World.exec (some e) (.insertPolicy (Db.policyRow E policy)) w₁).2.cp.pool =
        w₁.cp.pool := rfl
    obtain ⟨hI₁, hG₁⟩ := HasTables.same (E := E) hI hpool
    exact ⟨hI₁, hG₁, trivial⟩
  | none =>
    rcases insertPolicy_cases w₁.cp.pool (Db.policyRow E policy) with ⟨hfree, hins⟩ | ⟨-, e, hins, -⟩
    · have hr := registered_append hfree hv
      simp only [HasTables, AddsW, World.exec, exec, statement, hins]
      exact ⟨hJ.policy _ _ hI hv, adds_append hv, hr⟩
    · simp only [HasTables, AddsW, World.exec, exec, statement, hins]
      exact ⟨hI, Adds.refl _, trivial⟩

omit hJ in
/-- Publishing does not touch the tables. -/
theorem publishFromDb_safe (w : World) :
    (publishFromDb E).Safe World.exec (HasTables J) (AddsW E) (fun _ _ => True) w := by
  intro w₁ _ hI c
  have hpool : (World.exec c .selectRoutes w₁).2.cp.pool = w₁.cp.pool := statement_pool c w₁.cp _
  obtain ⟨hI₁, hG₁⟩ := hI.same hpool
  refine ⟨hI₁, hG₁, ?_⟩
  cases c with
  | some e => trivial
  | none =>
    -- the increment and the send
    intro w₂ _ hI₂ _
    refine ⟨hI₂, Adds.refl _, ?_⟩
    intro w₃ _ hI₃ _
    exact ⟨hI₃, Adds.refl _, trivial⟩

/-- The checks and the write of a request. -/
theorem change_safe (req : Request) (w : World) (hI : HasTables J w) :
    (req.change E).Safe World.exec (HasTables J) (AddsW E)
      (fun _ w => ∀ policy, req = .createPolicy policy → Registered E w.cp.pool policy) w := by
  have hrows : ∀ (rows : ℕ) (w : World), (if rows = 0 then .err (.notFound "route not found") else .ok () :
      Async ApiError Unit).Safe World.exec (HasTables J) (AddsW E) (fun _ _ => True) w := by
    intro rows w
    split <;> trivial
  cases req with
  | createPolicy policy =>
    simp only [Request.change, Prog.bind_eq]
    cases hv : validatePolicySpec E policy with
    | error err => trivial
    | ok u =>
      refine ((insertPolicy_safe hJ hv w).mapErr).weaken hI ?_
      intro _ w₁ _ hr policy' heq
      obtain rfl : policy = policy' := by simpa using heq
      exact hr
  | createRoute route =>
    have hvalid := validateRoutePolicies_safe (E := E) route w hI
    refine Prog.Safe.bind hI hvalid.mapErr ?_
    intro _ w₁ hI₁ hatt
    exact ((insertRoute_safe hJ hatt).mapErr).weaken hI₁ fun _ _ _ _ _ heq => absurd heq (by simp)
  | updateRoute id route =>
    have hvalid := validateRoutePolicies_safe (E := E) (route.renamed id) w hI
    refine Prog.Safe.bind hI hvalid.mapErr ?_
    intro _ w₁ hI₁ hatt
    refine Prog.Safe.bind hI₁ (updateRoute_safe hJ hatt).mapErr ?_
    intro rows w₂ hI₂ _
    exact (hrows rows w₂).weaken hI₂ fun _ _ _ _ _ heq => absurd heq (by simp)
  | deleteRoute id =>
    refine Prog.Safe.bind hI (deleteRoute_safe hJ id w).mapErr ?_
    intro rows w₁ hI₁ _
    exact (hrows rows w₁).weaken hI₁ fun _ _ _ _ _ heq => absurd heq (by simp)

/-- **Every request is safe**, whatever the others do between its steps. -/
theorem handle_safe (req : Request) (w : World) (hI : HasTables J w) :
    (handle E req).Safe World.exec (HasTables J) (AddsW E) (Answered E) w := by
  rw [handle_eq]
  refine Prog.Safe.bind hI (change_safe hJ req w hI) ?_
  intro _ w₁ hI₁ hreg
  -- after the publication only the answer is left
  have hans : Answered E req.reply w₁ := by
    intro policy hreply
    exact hreg policy (Request.reply_created hreply)
  have hpub := Prog.Safe.frame (Answered.stable req.reply) hans (publishFromDb_safe (J := J) w₁)
  refine Prog.Safe.bind hI₁ hpub.mapErr ?_
  intro _ w₂ _ h
  exact h.2

end Writes

/-! ## Every run -/

/-- **Every run keeps the property**, and every program in flight stays safe. -/
theorem run_kept (hJ : Kept E J) {w : World} (hw : J w.cp.pool) (es : List Event)
    (hes : ∀ p, .start p ∈ es → ∃ req, p = handle E req) :
    Pool.AllSafe World.exec (HasTables J) (AddsW E) (Answered E) (Gateway.run (.idle w) es) := by
  -- nothing is in flight at the start
  have hidle : ∀ t p, (Pool.idle w : Gateway).task t = some p →
      p.Safe World.exec (HasTables J) (AddsW E) (Answered E) w :=
    fun t p hp => absurd hp (by simp [Pool.idle])
  have hstart : ∀ p, .start p ∈ es → ∀ w : World, HasTables J w →
      p.Safe World.exec (HasTables J) (AddsW E) (Answered E) w := by
    intro p hp w hI
    obtain ⟨req, rfl⟩ := hes p hp
    exact handle_safe hJ req w hI
  refine Pool.run_safe AddsW.trans Answered.stable (fun w => Adds.refl w.cp.pool) hstart ?_ ⟨hw, hidle⟩
  intro a w _ hI
  exact hI.same (act_pool w a)

/-- **Every run keeps the invariant.** -/
theorem run_sound {w : World} (hw : Sound E w.cp.pool) (es : List Event)
    (hes : ∀ p, .start p ∈ es → ∃ req, p = handle E req) :
    Sound E (Gateway.run (.idle w) es).st.cp.pool := (run_kept sound_kept hw es hes).inv

/-! ## What the invariant says -/

/-- An attached entry is sound. -/
theorem Sound.attachment (hE : E.Lawful) {db : Tables} (h : Sound E db) {entry : RoutePolicy}
    (ha : entry.Attached E db) : AttachmentSound E db entry := by
  obtain ⟨hp, row, hrow, hstage, hschema⟩ := ha
  have hmem := List.mem_of_find?_eq_some hrow
  have hkey : row.id = entry.id ∧ row.version = entry.version := by simpa using List.find?_some hrow
  obtain ⟨policy, hpol, hvalid⟩ := h.policy row hmem
  have hread : Db.rowToPolicy E row = policy := by rw [hpol, rowToPolicy_policyRow hE]
  have hallowed : entry.stage ∈ allowedPolicyStages := by
    rw [hread] at hstage
    obtain ⟨-, -, ⟨-, hstages⟩, -⟩ := validatePolicySpec_ok.1 hvalid
    exact hstages entry.stage hstage
  exact ⟨hp, hallowed, row, hmem, hkey.1, hkey.2, hstage, hschema⟩

/-- **Stored routes never carry an invalid attachment.** From an empty database, after
any interleaving of requests, with any statements failing and any requests stopped, every
entry of every route that `list_routes` returns fits a stored policy. -/
theorem attachments_sound (hE : E.Lawful) (w : World) (hw : w.cp.pool = ⟨[], []⟩) (es : List Event)
    (hes : ∀ p, .start p ∈ es → ∃ req, p = handle E req) :
    ∀ route ∈ (Gateway.run (.idle w) es).st.cp.pool.specs E, ∀ entry ∈ route.policies,
      AttachmentSound E (Gateway.run (.idle w) es).st.cp.pool entry := by
  -- an empty database is sound, and every run keeps it so
  have h0 : Sound E w.cp.pool := by
    rw [hw]
    exact ⟨by simp, by simp⟩
  have h : Sound E (Gateway.run (.idle w) es).st.cp.pool := run_sound h0 es hes
  generalize (Gateway.run (.idle w) es).st.cp.pool = db at h
  intro route hr entry he
  obtain ⟨row, hrow, rfl⟩ := mem_specs.1 hr
  obtain ⟨stored, rfl, hatt⟩ := h.route row hrow
  -- params that are objects are read back as they were
  have hclean : ∀ p ∈ stored.policies, p.Clean := by
    intro p hp v hv hnull
    have hobj := (hatt p hp).1 v hv
    rw [Value.isObject, hnull] at hobj
    exact absurd hobj (by decide)
  rw [rowToRoute_routeRow hE hclean] at he
  exact h.attachment hE (hatt entry he)

namespace Sample

theorem quota_valid : validatePolicySpec .plain quota = .ok () :=
  validatePolicySpec_ok.2 ⟨by decide, rfl, by decide, quota.configSchema, rfl, rfl⟩

/-- Once it has read the policy, the request that creates the route goes on to its write. -/
theorem quotaRoute_checked : ∃ k : Op.Res (.selectPolicy "quota" "1") → Handler,
    handle .plain (.createRoute quotaRoute) = .op (.selectPolicy "quota" "1") k ∧
      k (.ok (some (Db.policyRow .plain quota))) =
        ((Request.createRoute quotaRoute).write .plain).bind fun _ =>
          publishAndReply .plain (.routeCreated quotaRoute) := by
  have hread : Db.rowToPolicy .plain (Db.policyRow .plain quota) = quota :=
    rowToPolicy_policyRow Env.plain_lawful quota
  have hdetails : ∀ context, policyDetails .plain context ⟨"pre_route", "quota", "1", none⟩
      (some (Db.rowToPolicy .plain (Db.policyRow .plain quota))) = [] := by
    intro context
    rw [hread]
    rfl
  have hcheck : ∃ k : Op.Res (.selectPolicy "quota" "1") → Async ApiError Unit,
      (Request.createRoute quotaRoute).check .plain = .op (.selectPolicy "quota" "1") k ∧
        k (.ok (some (Db.policyRow .plain quota))) = .ok () := by
    refine ⟨_, rfl, ?_⟩
    simp only [Prog.ofExcept, Prog.ok_bind, Option.map_some, Prog.pure_eq, Prog.mapErr_ok, hdetails]
    rfl
  obtain ⟨k, hk, hpass⟩ := hcheck
  refine ⟨fun r => (k r).bind fun _ => ((Request.createRoute quotaRoute).write .plain).bind fun _ =>
    publishAndReply .plain (.routeCreated quotaRoute), ?_, ?_⟩
  · rw [handle_eq, Request.change_eq, Prog.bind_assoc, hk]
    rfl
  · beta_reduce
    rw [hpass]
    rfl

/-- A policy and a route that references it: the route is checked as soon as the policy is
inserted, and inserted once the policy is published. -/
def attachment : List Event :=
  [.start (handle .plain (.createPolicy quota)), .start (handle .plain (.createRoute quotaRoute)),
    .step 0 none, .step 1 none, .step 0 none, .step 0 none, .step 0 none, .step 1 none]

theorem attachment_stored (cs : ConfigState) :
    (Gateway.run (.idle (.start ⟨⟨[], []⟩, cs⟩)) attachment).st.cp.pool =
      ⟨[Db.policyRow .plain quota], [Db.routeRow .plain quotaRoute]⟩ := by
  obtain ⟨k, hhandle, hk⟩ := quotaRoute_checked
  unfold attachment
  rw [hhandle]
  -- up to the write of the route
  have hbefore : ∃ g : Gateway, g.task 1 = some (k (.ok (some (Db.policyRow .plain quota)))) ∧
      g.st.cp.pool = ⟨[Db.policyRow .plain quota], []⟩ ∧
      Gateway.run (.idle (.start ⟨⟨[], []⟩, cs⟩))
        [.start (handle .plain (.createPolicy quota)), .start (.op (.selectPolicy "quota" "1") k),
          .step 0 none, .step 1 none, .step 0 none, .step 0 none, .step 0 none, .step 1 none] =
        g.next (.step 1 none) :=
    ⟨Gateway.run (.idle (.start ⟨⟨[], []⟩, cs⟩))
      [.start (handle .plain (.createPolicy quota)), .start (.op (.selectPolicy "quota" "1") k),
        .step 0 none, .step 1 none, .step 0 none, .step 0 none, .step 0 none], rfl, rfl, rfl⟩
  obtain ⟨g, htask, hpool, hrun⟩ := hbefore
  rw [hk] at htask
  rw [hrun, Gateway.next_step htask]
  simp [World.exec, Request.writeOp, exec, statement, hpool, Tables.insertRoute]

theorem attachment_starts : ∀ p, .start p ∈ attachment → ∃ req, p = handle .plain req := by
  intro p hp
  simp only [attachment, List.mem_cons, Conc.Event.start.injEq, reduceCtorEq, List.not_mem_nil,
    or_false] at hp
  rcases hp with rfl | rfl
  · exact ⟨_, rfl⟩
  · exact ⟨_, rfl⟩

end Sample

theorem attachments_sound_quota :
    (∀ p, .start p ∈ Sample.attachment → ∃ req, p = handle .plain req) ∧
      Sample.quotaRoute ∈
        (Gateway.run (.idle (.start ⟨⟨[], []⟩, .new⟩)) Sample.attachment).st.cp.pool.specs .plain ∧
      AttachmentSound .plain (Gateway.run (.idle (.start ⟨⟨[], []⟩, .new⟩)) Sample.attachment).st.cp.pool
        ⟨"pre_route", "quota", "1", none⟩ := by
  have hstored : Sample.quotaRoute ∈
      (Gateway.run (.idle (.start ⟨⟨[], []⟩, .new⟩)) Sample.attachment).st.cp.pool.specs .plain := by
    rw [Sample.attachment_stored, mem_specs]
    exact ⟨_, List.mem_singleton_self _,
      rowToRoute_routeRow Env.plain_lawful (by simp [Sample.quotaRoute, RoutePolicy.Clean])⟩
  exact ⟨Sample.attachment_starts, hstored, attachments_sound Env.plain_lawful _ rfl _
    Sample.attachment_starts _ hstored _ (List.mem_singleton_self _)⟩

end Yali
