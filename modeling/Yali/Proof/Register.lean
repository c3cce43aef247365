import Yali.Proof.Attach
import Yali.Proof.Merge

/-!
# A registered policy can be attached

`create_policy` checks a policy once, a route that references it is checked against
the columns stored. What registration accepts stays stored as it was
(`registered_of_accepted`) and is read back without a fallback
(`Registered.readsBack`), and the route's check of its own defaults repeats the
registration's (`Registered.attached`).
-/

namespace Yali

open Conc Json

variable {E : Env}

/-! ## Acceptance -/

/-- By point `n` of the run `create_policy` has accepted the policy: it has answered so, or
its `INSERT` has taken effect. -/
inductive AcceptedBy (E : Env) (g : Gateway) (es : List Event) (n : ℕ) (policy : PolicySpec) : Prop
  | answered (t m : ℕ) (hm : m ≤ n) (h : (g.wAt es m).task t = some (.ok (.policyCreated policy)))
  | inserted (t m : ℕ) (k : Op.Res (.insertPolicy (Db.policyRow E policy)) → Handler) (hm : m < n)
    (he : es[m]? = some (.step t none))
    (ht : (g.wAt es m).task t = some (.op (.insertPolicy (Db.policyRow E policy)) k))
    (hfree : ∀ row ∈ (g.wAt es m).st.cp.pool.policies, ¬ (row.id = policy.id ∧ row.version = policy.version))

/-- The stored columns are read back as the policy, each without its fallback. -/
structure ReadsBack (E : Env) (s : AppState) (policy : PolicySpec) : Prop where
  read : ∀ faults, faults 0 = none →
    ((Db.getPolicyVersion E policy.id policy.version).run exec faults s).1 = .ok (some policy)
  columns : ∃ row, s.pool.selectPolicy policy.id policy.version = some row ∧
    E.fromStr row.supportedStagesJson = some policy.supportedStages ∧
    E.fromStr row.configSchemaJson = some policy.configSchema ∧
    E.fromStr row.defaultConfigJson = some policy.defaultConfig

/-- The entry references one of the policies, at a stage that it supports, and leaves its
defaults as they are. -/
def RoutePolicy.Defaults (entry : RoutePolicy) (accepted : PolicySpec → Prop) : Prop :=
  ∃ policy, accepted policy ∧ policy.id = entry.id ∧ policy.version = entry.version ∧
    entry.stage ∈ policy.supportedStages ∧ (entry.params = none ∨ entry.params = some .emptyObject)

/-! ## Runs -/

section Run

variable {w : World} {es : List Event} (hes : ∀ p, .start p ∈ es → ∃ req, p = handle E req)
include hes

theorem wAt_safe (n : ℕ) :
    Pool.AllSafe World.exec (HasTables fun _ => True) (AddsW E) (Answered E)
      (Gateway.wAt (.idle w) es n) := by
  refine run_kept kept_true trivial (es.take n) ?_
  intro p hp
  exact hes p (List.mem_of_mem_take hp)

/-- **From any point on, policies are only added**, each of them checked. -/
theorem wAt_adds {n m : ℕ} (hnm : n ≤ m) :
    AddsW E (Gateway.wAt (.idle w) es n).st (Gateway.wAt (.idle w) es m).st := by
  induction m, hnm using Nat.le_induction with
  | base => exact Adds.refl _
  | succ m hnm ih =>
    by_cases hm : m < es.length
    · have hact : ∀ (a : Action) (w : World), es[m] = .ext a → HasTables (fun _ => True) w →
          AddsW E w (w.act a) := fun a w _ hI => (HasTables.same hI (act_pool w a)).2
      have hnext := (wAt_safe (w := w) hes m).next_rel (fun w => Adds.refl w.cp.pool) es[m] hact
      rw [Gateway.wAt_succ _ _ hm]
      exact AddsW.trans _ _ _ ih hnext
    · have hsame : Gateway.wAt (.idle w) es (m + 1) = Gateway.wAt (.idle w) es m := by
        unfold Gateway.wAt Pool.wAt
        rw [List.take_of_length_le (by omega), List.take_of_length_le (by omega)]
      rw [hsame]
      exact ih

/-- The `INSERT` of a request is one of a checked policy. -/
theorem registered_of_inserted (hE : E.Lawful) {policy : PolicySpec} {t m : ℕ}
    {k : Op.Res (.insertPolicy (Db.policyRow E policy)) → Handler} (he : es[m]? = some (.step t none))
    (ht : (Gateway.wAt (.idle w) es m).task t = some (.op (.insertPolicy (Db.policyRow E policy)) k))
    (hfree : ∀ row ∈ (Gateway.wAt (.idle w) es m).st.cp.pool.policies,
      ¬ (row.id = policy.id ∧ row.version = policy.version)) :
    Registered E (Gateway.wAt (.idle w) es (m + 1)).st.cp.pool policy := by
  have hadds := wAt_adds (w := w) hes (Nat.le_succ m)
  obtain ⟨hm, hem⟩ := List.getElem?_eq_some_iff.1 he
  have hins : (Gateway.wAt (.idle w) es m).st.cp.pool.insertPolicy (Db.policyRow E policy) =
      (.ok (), { (Gateway.wAt (.idle w) es m).st.cp.pool with
        policies := (Gateway.wAt (.idle w) es m).st.cp.pool.policies ++ [Db.policyRow E policy] }) := by
    rcases insertPolicy_cases (Gateway.wAt (.idle w) es m).st.cp.pool (Db.policyRow E policy) with
      ⟨-, h⟩ | ⟨hclash, -⟩
    · exact h
    · obtain ⟨row, hrow, hkey⟩ := hclash
      exact absurd hkey (hfree row hrow)
  have hpool : (Gateway.wAt (.idle w) es (m + 1)).st.cp.pool =
      { (Gateway.wAt (.idle w) es m).st.cp.pool with
        policies := (Gateway.wAt (.idle w) es m).st.cp.pool.policies ++ [Db.policyRow E policy] } := by
    rw [Gateway.wAt_succ _ _ hm, hem, Gateway.next_step ht]
    simp only [World.exec, exec, statement, hins]
  -- what was added is this row, so the row is that of a checked policy
  obtain ⟨more, hmore, hchecked⟩ := hadds
  rw [hpool] at hmore ⊢
  have hrow : Db.policyRow E policy ∈ more := by
    rw [← List.append_cancel_left hmore]
    exact List.mem_singleton_self _
  obtain ⟨policy', heq, hv⟩ := hchecked _ hrow
  have hsame := congrArg (Db.rowToPolicy E) heq
  rw [rowToPolicy_policyRow hE, rowToPolicy_policyRow hE] at hsame
  exact registered_append hfree (hsame ▸ hv)

/-- **An accepted policy is stored as it is**, from then on. -/
theorem registered_of_accepted (hE : E.Lawful) {n : ℕ} {policy : PolicySpec}
    (h : AcceptedBy E (.idle w) es n policy) :
    Registered E (Gateway.wAt (.idle w) es n).st.cp.pool policy := by
  cases h with
  | answered t m hm h =>
    have hans : Answered E (.policyCreated policy) (Gateway.wAt (.idle w) es m).st :=
      (wAt_safe hes m).task t _ h
    exact (wAt_adds hes hm).registered (hans policy rfl)
  | inserted t m k hm he ht hfree =>
    exact (wAt_adds hes hm).registered (registered_of_inserted hes hE he ht hfree)

end Run

/-! ## What is stored -/

/-- **The check at the route repeats the one at registration**: a default config that its
schema accepts needs no params. -/
theorem attached_defaults {db : Tables} {row : PolicyRow} {policy : PolicySpec} {entry : RoutePolicy}
    (hrow : db.selectPolicy entry.id entry.version = some row) (hread : Db.rowToPolicy E row = policy)
    (hobj : policy.defaultConfig.isObject = true)
    (hschema : ∃ schema, E.compile policy.configSchema = .ok schema ∧
      E.errors schema policy.defaultConfig = [])
    (hstage : entry.stage ∈ policy.supportedStages)
    (hparams : entry.params = none ∨ entry.params = some .emptyObject) : entry.Attached E db := by
  obtain ⟨schema, hcompile, herrors⟩ := hschema
  -- without params the merge is the default config
  have hmerge : ∀ context, deepMergeDefaultWithParams policy.defaultConfig entry.params context =
      .ok policy.defaultConfig := by
    intro context
    rcases hparams with hp | hp
    · rw [hp]
      exact deepMerge_none hobj context
    · rw [hp]
      exact deepMerge_empty hobj context
  refine ⟨?_, row, hrow, ?_⟩
  · intro v hv
    rcases hparams with hp | hp
    · rw [hp] at hv
      exact absurd hv (by simp)
    · rw [hp] at hv
      obtain rfl : Value.emptyObject = v := by simpa using hv
      rfl
  · rw [hread]
    exact ⟨hstage, schema, policy.defaultConfig, hcompile, hmerge, herrors⟩

namespace Registered

variable {policy : PolicySpec}

theorem readsBack (hE : E.Lawful) {s : AppState} (h : Registered E s.pool policy) :
    ReadsBack E s policy where
  read := by
    intro faults hf
    simp only [Db.getPolicyVersion, Prog.bind_eq, Prog.op_bind, Prog.run_op, exec, hf, statement,
      h.stored, Prog.ofExcept, Prog.ok_bind, Prog.pure_eq, Prog.run_ok, Option.map_some,
      rowToPolicy_policyRow hE]
  columns := by
    refine ⟨Db.policyRow E policy, h.stored, ?_, ?_, ?_⟩
    · exact hE.read (LawfulSerde.de_ser policy.supportedStages) _
    · exact hE.read (LawfulSerde.de_ser policy.configSchema) _
    · exact hE.read (LawfulSerde.de_ser policy.defaultConfig) _

theorem attached (hE : E.Lawful) {db : Tables} (h : Registered E db policy) {entry : RoutePolicy}
    (hid : policy.id = entry.id) (hversion : policy.version = entry.version)
    (hstage : entry.stage ∈ policy.supportedStages)
    (hparams : entry.params = none ∨ entry.params = some .emptyObject) : entry.Attached E db := by
  obtain ⟨-, hobj, -, hschema⟩ := validatePolicySpec_ok.1 h.valid
  have hrow := h.stored
  rw [hid, hversion] at hrow
  exact attached_defaults hrow (rowToPolicy_policyRow hE policy) hobj hschema hstage hparams

end Registered

/-- **Every registered policy is attachable with its own defaults**, over any database,
after any interleaving of requests with any failures: it is read back as it was
registered, and a route that references accepted policies only passes its checks. -/
theorem registered_attachable (hE : E.Lawful) (w : World) (es : List Event)
    (hes : ∀ p, .start p ∈ es → ∃ req, p = handle E req) (n : ℕ) :
    (∀ policy, AcceptedBy E (.idle w) es n policy →
        ReadsBack E (Gateway.wAt (.idle w) es n).st.cp policy) ∧
      ∀ route : RouteSpec, (∀ entry ∈ route.policies, entry.Defaults (AcceptedBy E (.idle w) es n)) →
        ∀ faults, (∀ i < route.policies.length, faults i = none) →
          ((validateRoutePolicies E route).run exec faults
            (Gateway.wAt (.idle w) es n).st.cp).1 = .ok () := by
  constructor
  · intro policy h
    exact (registered_of_accepted hes hE h).readsBack hE
  · intro route hroute faults hf
    have hatt : ∀ entry ∈ route.policies, entry.Attached E (Gateway.wAt (.idle w) es n).st.cp.pool := by
      intro entry hentry
      obtain ⟨policy, hacc, hid, hversion, hstage, hparams⟩ := hroute entry hentry
      exact (registered_of_accepted hes hE hacc).attached hE hid hversion hstage hparams
    exact validateRoutePolicies_pass hatt hf

namespace Sample

/-- The policy is inserted, the publication does not come about. -/
def insertion : List Event := [.start (handle .plain (.createPolicy quota)), .step 0 none]

theorem quota_accepted (w : World) (hw : w.cp.pool.policies = []) :
    AcceptedBy .plain (.idle w) insertion 2 quota := by
  have htask : ((Gateway.wAt (.idle w) insertion 1).task 0) = some (handle .plain (.createPolicy quota)) := rfl
  simp only [handle, Api.createPolicy, quota_valid, Except.mapError, Prog.ofExcept, Prog.bind_eq,
    Prog.ok_bind, Db.insertPolicy, Prog.mapErr_op, Prog.op_bind] at htask
  refine .inserted 0 1 _ (by decide) rfl htask ?_
  intro row hrow
  have hempty : (Gateway.wAt (.idle w) insertion 1).st.cp.pool.policies = [] := hw
  rw [hempty] at hrow
  exact absurd hrow List.not_mem_nil

end Sample

theorem registered_attachable_quota :
    (∀ p, .start p ∈ Sample.insertion → ∃ req, p = handle .plain req) ∧
      ReadsBack .plain (Gateway.wAt (.idle (.start ⟨⟨[], []⟩, .new⟩)) Sample.insertion 2).st.cp Sample.quota ∧
      ((validateRoutePolicies .plain Sample.quotaRoute).run exec noFault
        (Gateway.wAt (.idle (.start ⟨⟨[], []⟩, .new⟩)) Sample.insertion 2).st.cp).1 = .ok () := by
  have hes : ∀ p, .start p ∈ Sample.insertion → ∃ req, p = handle .plain req := by
    intro p hp
    simp only [Sample.insertion, List.mem_cons, Conc.Event.start.injEq, reduceCtorEq, List.not_mem_nil,
      or_false] at hp
    exact ⟨_, hp⟩
  have hacc := Sample.quota_accepted (.start ⟨⟨[], []⟩, .new⟩) rfl
  obtain ⟨hread, hroute⟩ := registered_attachable Env.plain_lawful (.start ⟨⟨[], []⟩, .new⟩)
    Sample.insertion hes 2
  refine ⟨hes, hread _ hacc, hroute _ ?_ noFault fun _ _ => rfl⟩
  intro entry hentry
  obtain rfl := List.mem_singleton.1 hentry
  exact ⟨Sample.quota, hacc, rfl, rfl, List.mem_singleton_self _, Or.inl rfl⟩

end Yali
