import Mathlib.Data.Prod.Lex
import Yali.Order.Keyed
import Yali.Proof.Linear
import Yali.Proof.Register

/-!
# The registry of policies is written once

`Registry` is what the table `policies` is for: a map from id and version to policy.
`Listed` is what the admin API shows of it.

* `Registers`: the rows have distinct keys, and each is that of a policy that was posted and
  passes its check. Every run keeps it (`registers_run`).
* `policies_write_once`: at every moment of a run the API shows a registry, which only
  grows, from the policies posted alone.
-/

namespace Yali

open Conc

variable {E : Env}

/-! ## The registry -/

/-- A map from id and version to policy. -/
abbrev Registry := String → String → Option PolicySpec

/-- The API shows the registry: `GET /policies` in the order of the keys, one version by
its key, all versions of an id in their order, and 404 where there is none. Over HTTP this is
of the ids that a path can have: all but the empty one. -/
structure Listed (E : Env) (s : AppState) (reg : Registry) : Prop where
  list : ∃ policies, ((Api.listPolicies E).run exec noFault s).1 = .ok (.policies policies) ∧
    policies.Pairwise (fun p q => p.id < q.id ∨ p.id = q.id ∧ p.version < q.version) ∧
      ∀ policy, policy ∈ policies ↔ reg policy.id policy.version = some policy
  version : ∀ id version, ((Api.getPolicy E id (some version)).run exec noFault s).1 =
    match reg id version with
    | some policy => .ok (.policies [policy])
    | none => .error (.notFound "policy not found")
  absent : ∀ id, (∀ version, reg id version = none) →
    ((Api.getPolicy E id none).run exec noFault s).1 = .error (.notFound "policy not found")
  versions : ∀ id, (∃ version, reg id version ≠ none) →
    ∃ policies, ((Api.getPolicy E id none).run exec noFault s).1 = .ok (.policies policies) ∧
      policies.Pairwise (fun p q => p.version < q.version) ∧
        ∀ policy, policy ∈ policies ↔ policy.id = id ∧ reg id policy.version = some policy
  valid : ∀ id version policy, reg id version = some policy →
    policy.id = id ∧ policy.version = version ∧ validatePolicySpec E policy = .ok ()

/-! ## The rows -/

/-- `PRIMARY KEY (id, version)`. -/
def PolicyRow.key (row : PolicyRow) : String ×ₗ String := toLex (row.id, row.version)

/-- Each row is that of a policy that was posted by one of the requests and passes its check. -/
structure Registers (E : Env) (posted : PolicySpec → Prop) (db : Tables) : Prop where
  nodup : (db.policies.map PolicyRow.key).Nodup
  row : ∀ row ∈ db.policies, ∃ policy, row = Db.policyRow E policy ∧
    validatePolicySpec E policy = .ok () ∧ posted policy

theorem written_registers {posted : PolicySpec → Prop} {db : Tables} {req : Request}
    (hreq : ∀ policy, req = .createPolicy policy → posted policy) (h : Registers E posted db)
    (hadm : req.Admissible E db) : Registers E posted (req.written E db) := by
  cases req with
  | createRoute route => exact ⟨h.nodup, h.row⟩
  | updateRoute id route => exact ⟨h.nodup, h.row⟩
  | deleteRoute id => exact ⟨h.nodup, h.row⟩
  | createPolicy policy =>
    obtain ⟨hvalid, hfree⟩ := hadm
    refine ⟨Keyed.nodup_concat h.nodup ?_, ?_⟩
    · intro row hrow heq
      exact hfree row hrow (Prod.mk.inj (toLex.injective heq))
    · intro row hrow
      rcases List.mem_append.1 hrow with hrow | hrow
      · exact h.row row hrow
      · exact ⟨policy, List.mem_singleton.1 hrow, hvalid, hreq policy rfl⟩

/-- A policy that one of the first `n` calls posts. -/
def PostedBy (calls : ℕ → Call) (n : ℕ) (policy : PolicySpec) : Prop :=
  ∃ t < n, calls t = .change (.createPolicy policy)

/-- **Every run keeps the registry.** -/
theorem registers_run {w : World} (hw : w.cp.pool = ⟨[], []⟩) {es : List Event} {calls : ℕ → Call}
    (hcalls : ServesCalls E calls w es) (n : ℕ) :
    Registers E (PostedBy calls (Gateway.wAt (.idle w) es n).count) (Gateway.wAt (.idle w) es n).st.cp.pool := by
  have hempty : Registers E (PostedBy calls (Gateway.wAt (.idle w) es n).count) w.cp.pool := by
    rw [hw]
    exact ⟨List.nodup_nil, fun row hrow => absurd hrow List.not_mem_nil⟩
  exact serial_run (hcalls.take n) hempty fun t ht req heq db h hadm =>
    written_registers (fun policy hreq => ⟨t, ht, hreq ▸ heq⟩) h hadm

/-! ## Reads -/

/-- The registry of the rows. -/
def Tables.registry (E : Env) (db : Tables) : Registry := fun id version =>
  (db.selectPolicy id version).map (Db.rowToPolicy E)

theorem key_le {a b : PolicyRow} : a.key ≤ b.key ↔ a.id < b.id ∨ a.id = b.id ∧ a.version ≤ b.version :=
  Prod.Lex.toLex_le_toLex

theorem key_lt {a b : PolicyRow} : a.key < b.key ↔ a.id < b.id ∨ a.id = b.id ∧ a.version < b.version :=
  Prod.Lex.toLex_lt_toLex

/-- `ORDER BY id ASC, version ASC` is the order of the keys. -/
theorem selectPolicies_eq (db : Tables) :
    db.selectPolicies = db.policies.insertionSort fun a b => a.key ≤ b.key := by
  unfold Tables.selectPolicies
  congr 1
  funext a b
  exact propext key_le.symm

theorem selectPolicy_eq (db : Tables) (id version : String) :
    db.selectPolicy id version = db.policies.find? fun row => row.key = toLex (id, version) := by
  unfold Tables.selectPolicy
  congr 1
  funext row
  exact decide_eq_decide.2 ⟨fun h => congrArg toLex (Prod.ext h.1 h.2), fun h => Prod.mk.inj (toLex.injective h)⟩

/-- The rows of `get_policy`. -/
def Tables.policyRows (db : Tables) (id : String) : Option String → List PolicyRow
  | some version => (db.selectPolicy id version).toList
  | none => db.selectPolicyVersions id

theorem getPolicy_run (id : String) (version : Option String) (s : AppState) :
    ((Api.getPolicy E id version).run exec noFault s).1 =
      if s.pool.policyRows id version = [] then .error (.notFound "policy not found")
      else .ok (.policies ((s.pool.policyRows id version).map (Db.rowToPolicy E))) := by
  have hbody : ((Api.getPolicy E id version).run exec noFault s).1 =
      ((if ((s.pool.policyRows id version).map (Db.rowToPolicy E)).isEmpty then
          .err (.notFound "policy not found")
        else .ok (.policies ((s.pool.policyRows id version).map (Db.rowToPolicy E))) : Handler).run exec noFault
          s).1 := by
    cases version with
    | some version => rfl
    | none => rfl
  rw [hbody]
  cases s.pool.policyRows id version with
  | nil => rfl
  | cons row rows => rfl

theorem mem_policyVersions {db : Tables} {id : String} {row : PolicyRow} :
    row ∈ db.selectPolicyVersions id ↔ row ∈ db.policies ∧ row.id = id := by
  unfold Tables.selectPolicyVersions
  rw [List.mem_insertionSort, List.mem_filter, decide_eq_true_eq]

/-- Rows of one id and one version are one row. -/
theorem policyVersions_nodup {rows : List PolicyRow} (h : (rows.map PolicyRow.key).Nodup) (id : String) :
    ((rows.filter fun row => row.id = id).map PolicyRow.version).Nodup := by
  refine (List.Nodup.of_map PolicyRow.key h |>.filter _).map_on ?_
  intro a ha b hb hversion
  simp only [List.mem_filter, decide_eq_true_eq] at ha hb
  refine Keyed.eq_of_key h ha.1 hb.1 ?_
  exact congrArg toLex (Prod.ext (ha.2.trans hb.2.symm) hversion)

variable {posted : PolicySpec → Prop} {s : AppState} (hE : E.Lawful)
include hE

theorem policyRow_inj {policy policy' : PolicySpec} (h : Db.policyRow E policy = Db.policyRow E policy') :
    policy = policy' := by
  rw [← rowToPolicy_policyRow hE policy, h, rowToPolicy_policyRow hE]

/-- A policy is in the registry iff its row is stored. -/
theorem Registers.some_iff {db : Tables} (h : Registers E posted db) {id version : String} {policy : PolicySpec} :
    db.registry E id version = some policy ↔
      Db.policyRow E policy ∈ db.policies ∧ policy.id = id ∧ policy.version = version := by
  unfold Tables.registry
  rw [selectPolicy_eq, Option.map_eq_some_iff]
  constructor
  · rintro ⟨row, hfind, rfl⟩
    obtain ⟨hmem, hkey⟩ := (Keyed.find_key h.nodup).1 hfind
    obtain ⟨policy, rfl, -, -⟩ := h.row row hmem
    rw [rowToPolicy_policyRow hE]
    exact ⟨hmem, Prod.mk.inj (toLex.injective hkey)⟩
  · rintro ⟨hmem, rfl, rfl⟩
    exact ⟨_, (Keyed.find_key h.nodup).2 ⟨hmem, rfl⟩, rowToPolicy_policyRow hE policy⟩

/-- The policies read from rows are those of the registry. -/
theorem Registers.mem_read {db : Tables} (h : Registers E posted db) {rows : List PolicyRow}
    (hrows : ∀ row, row ∈ rows → row ∈ db.policies) {policy : PolicySpec} :
    policy ∈ rows.map (Db.rowToPolicy E) ↔ Db.policyRow E policy ∈ rows := by
  rw [List.mem_map]
  constructor
  · rintro ⟨row, hrow, rfl⟩
    obtain ⟨policy, rfl, -, -⟩ := h.row row (hrows row hrow)
    rwa [rowToPolicy_policyRow hE]
  · intro hmem
    exact ⟨_, hmem, rowToPolicy_policyRow hE policy⟩

/-- **The API shows the registry.** -/
theorem Registers.listed (h : Registers E posted s.pool) : Listed E s (s.pool.registry E) where
  list := by
    refine ⟨s.pool.selectPolicies.map (Db.rowToPolicy E), rfl, ?_, ?_⟩
    · rw [selectPolicies_eq, List.pairwise_map]
      exact (Keyed.sorted_strict h.nodup).imp fun hlt => key_lt.1 hlt
    · intro policy
      have hrows : ∀ row, row ∈ s.pool.selectPolicies ↔ row ∈ s.pool.policies :=
        fun row => List.mem_insertionSort _
      rw [h.mem_read hE fun row hrow => (hrows row).1 hrow, hrows, h.some_iff hE]
      simp
  version id version := by
    rw [getPolicy_run, Tables.policyRows, Tables.registry]
    cases s.pool.selectPolicy id version <;> rfl
  absent id hnone := by
    have hrows : s.pool.selectPolicyVersions id = [] := by
      rw [List.eq_nil_iff_forall_not_mem]
      intro row hrow
      obtain ⟨hmem, rfl⟩ := mem_policyVersions.1 hrow
      obtain ⟨policy, rfl, -, -⟩ := h.row row hmem
      have hreg := (h.some_iff hE).2 ⟨hmem, rfl, rfl⟩
      exact absurd (hreg.symm.trans (hnone policy.version)) (by simp)
    rw [getPolicy_run, Tables.policyRows, if_pos hrows]
  versions id hsome := by
    obtain ⟨version, hne⟩ := hsome
    obtain ⟨policy, hreg⟩ := Option.ne_none_iff_exists'.1 hne
    obtain ⟨hmem, hid, -⟩ := (h.some_iff hE).1 hreg
    have hrows : s.pool.selectPolicyVersions id ≠ [] :=
      List.ne_nil_of_mem (mem_policyVersions.2 ⟨hmem, hid⟩)
    refine ⟨(s.pool.selectPolicyVersions id).map (Db.rowToPolicy E), ?_, ?_, ?_⟩
    · rw [getPolicy_run, Tables.policyRows, if_neg hrows]
    · rw [List.pairwise_map]
      exact Keyed.sorted_strict (policyVersions_nodup h.nodup id)
    · intro policy'
      rw [h.mem_read hE fun row hrow => (mem_policyVersions.1 hrow).1, mem_policyVersions, h.some_iff hE]
      constructor
      · rintro ⟨hrow, hkey⟩
        exact ⟨hkey, hrow, hkey, rfl⟩
      · rintro ⟨hkey, hrow, -⟩
        exact ⟨hrow, hkey⟩
  valid id version policy hreg := by
    obtain ⟨hmem, hid, hversion⟩ := (h.some_iff hE).1 hreg
    obtain ⟨policy', heq, hvalid, -⟩ := h.row _ hmem
    obtain rfl := policyRow_inj hE heq
    exact ⟨hid, hversion, hvalid⟩

omit hE

/-! ## Every run -/

/-- **Policies are written once.** From an empty database, whatever the order of the
statements of concurrent calls and whatever fails: at every moment the API shows a
registry, which keeps every entry that it had. It has what was answered with 201, and
nothing that was not posted. -/
theorem policies_write_once (hE : E.Lawful) (w : World) (hw : w.cp.pool = ⟨[], []⟩) (es : List Event)
    (calls : ℕ → Call) (hcalls : ServesCalls E calls w es) :
    ∃ reg : ℕ → Registry,
      (∀ n, Listed E (Gateway.wAt (.idle w) es n).st.cp (reg n)) ∧
      (∀ n m, n ≤ m → ∀ id version policy, reg n id version = some policy → reg m id version = some policy) ∧
      (∀ n t policy, (Gateway.wAt (.idle w) es n).result t = some (.ok (.policyCreated policy)) →
        reg n policy.id policy.version = some policy) ∧
      ∀ n id version policy, reg n id version = some policy →
        PostedBy calls (Gateway.wAt (.idle w) es n).count policy := by
  have hrun := registers_run hw hcalls
  refine ⟨fun n => (Gateway.wAt (.idle w) es n).st.cp.pool.registry E, fun n => (hrun n).listed hE, ?_, ?_, ?_⟩
  · intro n m hnm id version policy hreg
    obtain ⟨row, hrow, hread⟩ := Option.map_eq_some_iff.1 hreg
    exact Option.map_eq_some_iff.2 ⟨row, (calls_add hcalls.routed hnm).selectPolicy hrow, hread⟩
  · intro n t policy hres
    obtain ⟨p, hp, hp'⟩ := Option.bind_eq_some_iff.1 hres
    cases p with
    | ok reply =>
      obtain rfl : reply = .policyCreated policy := by simpa [Prog.result] using hp'
      have hans : Answered E (.policyCreated policy) (Gateway.wAt (.idle w) es n).st :=
        (calls_safe kept_true trivial hcalls.routed n).task t _ hp
      exact Option.map_eq_some_iff.2 ⟨_, (hans policy rfl).stored, rowToPolicy_policyRow hE policy⟩
    | err e => exact absurd hp' (by simp [Prog.result])
    | op o k => exact absurd hp' (by simp [Prog.result])
  · intro n id version policy hreg
    obtain ⟨hmem, -⟩ := ((hrun n).some_iff hE).1 hreg
    obtain ⟨policy', heq, -, hposted⟩ := (hrun n).row _ hmem
    obtain rfl := policyRow_inj hE heq
    exact hposted

namespace Sample

/-- Two requests post the same policy: the first to insert it is answered with 201. -/
def registration : List Event :=
  [.start (handle .plain (.createPolicy quota)), .start (handle .plain (.createPolicy quota)), .step 1 none,
    .step 0 none, .step 1 none, .step 1 none, .step 1 none]

theorem registration_serves (w : World) :
    ServesCalls .plain (fun _ => .change (.createPolicy quota)) w registration := by
  intro n p hp
  have hmem := List.mem_of_getElem? hp
  obtain rfl : p = handle .plain (.createPolicy quota) := by simpa [registration] using hmem
  rfl

end Sample

/-- The policy comes into the registry, once, and stays. -/
theorem policies_write_once_quota :
    ServesCalls .plain (fun _ => .change (.createPolicy Sample.quota)) (.start ⟨⟨[], []⟩, .new⟩)
        Sample.registration ∧
      ∃ reg : ℕ → Registry,
        (∀ n, Listed .plain
          (Gateway.wAt (.idle (.start ⟨⟨[], []⟩, .new⟩)) Sample.registration n).st.cp (reg n)) ∧
        (∀ n, 7 ≤ n → reg n "quota" "1" = some Sample.quota) ∧
        ∀ n id version policy, reg n id version = some policy → policy = Sample.quota := by
  have hserves := Sample.registration_serves (.start ⟨⟨[], []⟩, .new⟩)
  obtain ⟨reg, hlisted, hgrows, hanswered, hposted⟩ :=
    policies_write_once Env.plain_lawful (.start ⟨⟨[], []⟩, .new⟩) rfl _ _ hserves
  refine ⟨hserves, reg, hlisted, fun n hn => ?_, fun n id version policy hreg => ?_⟩
  · exact hgrows 7 n hn _ _ _ (hanswered 7 1 Sample.quota rfl)
  · obtain ⟨t, -, hcall⟩ := hposted n id version policy hreg
    simpa using hcall.symm

end Yali
