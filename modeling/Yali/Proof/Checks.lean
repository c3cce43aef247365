import Yali.Spec.Service

/-!
# What the checks accept

The checks of `service/` collect details and accept when there are none. Each is
read here as the condition it decides: `validatePolicySpec_ok` for a policy,
`policyDetails_nil` for an entry of a route, which is `Attached`.
-/

namespace Yali

variable {E : Env}

/-! ## Schemas and merging -/

theorem params_any {entry : RoutePolicy} :
    (entry.params.any fun v => !v.isObject) = true ↔ ¬ ∀ v, entry.params = some v → v.isObject = true := by
  cases entry.params <;> simp

/-- Whether the merge succeeds, and its value, do not depend on the context. -/
theorem deepMerge_ok {d : Value} {params : Option Value} {c c' : String} {v : Value}
    (h : deepMergeDefaultWithParams d params c = .ok v) : deepMergeDefaultWithParams d params c' = .ok v := by
  unfold deepMergeDefaultWithParams at *
  split at h
  · exact absurd h (by simp)
  · rename_i hd
    rw [if_neg hd]
    cases params with
    | none => exact h
    | some p =>
      simp only at h ⊢
      split at h
      · exact absurd h (by simp)
      · rename_i hp
        rw [if_neg hp]
        exact h

theorem validateAgainstSchema_ok {schema : E.Schema} {v : Value} {context : String} :
    validateAgainstSchema E schema v context = .ok () ↔ E.errors schema v = [] := by
  unfold validateAgainstSchema
  cases E.errors schema v <;> simp

/-- A value that is refused gives a detail for each error. -/
theorem validateAgainstSchema_error {schema : E.Schema} {v : Value} {context : String}
    {err : ValidationError} (h : validateAgainstSchema E schema v context = .error err) :
    E.errors schema v ≠ [] ∧ err.details = (E.errors schema v).map (schemaDetail context) := by
  unfold validateAgainstSchema at h
  cases he : E.errors schema v with
  | nil =>
    rw [he] at h
    exact absurd h (by simp)
  | cons a l =>
    rw [he] at h
    obtain rfl : _ = err := by simpa using h
    exact ⟨by simp, rfl⟩

/-- A merge that is refused gives one detail, on its context. -/
theorem deepMerge_error {d : Value} {params : Option Value} {context : String} {err : ValidationError}
    (h : deepMergeDefaultWithParams d params context = .error err) :
    ∃ rest, err.details = [context ++ rest] := by
  unfold deepMergeDefaultWithParams at h
  split at h
  · obtain rfl : _ = err := by simpa using h
    exact ⟨_, rfl⟩
  · cases params with
    | none => exact absurd h (by simp)
    | some p =>
      simp only at h
      split at h
      · obtain rfl : _ = err := by simpa using h
        exact ⟨_, rfl⟩
      · exact absurd h (by simp)

theorem compileSchema_ok {schema : Value} {context : String} {compiled : E.Schema} :
    compileSchema E schema context = .ok compiled ↔ E.compile schema = .ok compiled := by
  unfold compileSchema
  cases E.compile schema <;> simp [Except.mapError]

theorem compileSchema_error {schema : Value} {context : String} {err : ValidationError}
    (h : compileSchema E schema context = .error err) : ∃ rest, err.details = [context ++ rest] := by
  unfold compileSchema at h
  cases hc : E.compile schema with
  | ok v =>
    rw [hc] at h
    exact absurd h (by simp [Except.mapError])
  | error e =>
    rw [hc] at h
    obtain rfl : _ = err := by simpa [Except.mapError] using h
    exact ⟨".config_schema is invalid: " ++ e, by rw [ValidationError.new, String.append_assoc]⟩

/-! ## Policies -/

theorem validateSupportedStages_ok {stages : List String} (context : String) :
    validateSupportedStages stages context = .ok () ↔
      stages ≠ [] ∧ ∀ stage ∈ stages, stage ∈ allowedPolicyStages := by
  have hfilter : (stages.filter fun stage => !allowedPolicyStages.any (· == stage)) = [] ↔
      ∀ stage ∈ stages, stage ∈ allowedPolicyStages := by
    rw [List.filter_eq_nil_iff]
    refine forall₂_congr fun stage _ => ?_
    rw [Bool.not_eq_true, Bool.not_eq_false', List.any_beq', List.contains_eq_mem, decide_eq_true_iff]
  unfold validateSupportedStages
  rw [← hfilter]
  cases stages with
  | nil => simp
  | cons stage stages =>
    simp only [List.isEmpty_cons, Bool.false_eq_true, if_false, List.isEmpty_map]
    split
    · rename_i h; simpa using h
    · rename_i h; simpa using h

theorem validateSupportedStages_error {stages : List String} {context : String} {err : ValidationError}
    (h : validateSupportedStages stages context = .error err) : err.details ≠ [] := by
  unfold validateSupportedStages at h
  split at h
  · obtain rfl : _ = err := by simpa using h
    simp [ValidationError.new]
  · simp only at h
    split at h
    · exact absurd h (by simp)
    · rename_i hd
      obtain rfl : _ = err := by simpa using h
      simpa using hd

/-- **What `validate_policy_spec` accepts.** -/
theorem validatePolicySpec_ok {policy : PolicySpec} :
    validatePolicySpec E policy = .ok () ↔
      (Str.trim policy.sha256).isEmpty = false ∧ policy.defaultConfig.isObject = true ∧
        (policy.supportedStages ≠ [] ∧ ∀ stage ∈ policy.supportedStages, stage ∈ allowedPolicyStages) ∧
        ∃ schema, E.compile policy.configSchema = .ok schema ∧ E.errors schema policy.defaultConfig = [] := by
  unfold validatePolicySpec
  rw [← validateSupportedStages_ok "policy"]
  -- a detail of the first three checks ends it before the schema is compiled
  cases hsha : (Str.trim policy.sha256).isEmpty
  case true => simp
  cases hobj : policy.defaultConfig.isObject
  case false => simp
  cases hst : validateSupportedStages policy.supportedStages "policy" with
  | error err => simp [validateSupportedStages_error hst]
  | ok u =>
    simp only [Bool.false_eq_true, if_false, Bool.not_true, List.append_nil, List.isEmpty_nil,
      true_and]
    cases hc : compileSchema E policy.configSchema "policy" with
    | error err =>
      simp only [bind, Except.bind, reduceCtorEq, false_iff]
      intro h
      obtain ⟨schema, hcomp, -⟩ := h
      rw [compileSchema_ok.2 hcomp] at hc
      exact absurd hc (by simp)
    | ok schema =>
      have hcomp := compileSchema_ok.1 hc
      simp only [bind, Except.bind, validateAgainstSchema_ok]
      constructor
      · exact fun h => ⟨schema, hcomp, h⟩
      · intro h
        obtain ⟨schema', hcomp', herr⟩ := h
        obtain rfl : schema = schema' := by rw [hcomp] at hcomp'; simpa using hcomp'
        exact herr

/-! ## Entries of a route -/

/-- The entry of a route fits the policies stored: the policy is there, has the
stage, and its schema accepts its defaults merged with the entry's params. -/
def RoutePolicy.Attached (E : Env) (db : Tables) (entry : RoutePolicy) : Prop :=
  (∀ v, entry.params = some v → v.isObject = true) ∧
    ∃ row, db.selectPolicy entry.id entry.version = some row ∧
      entry.stage ∈ (Db.rowToPolicy E row).supportedStages ∧
      ∃ schema merged, E.compile (Db.rowToPolicy E row).configSchema = .ok schema ∧
        (∀ context, deepMergeDefaultWithParams (Db.rowToPolicy E row).defaultConfig entry.params context =
          .ok merged) ∧
        E.errors schema merged = []

/-- **An entry adds no detail exactly when it is attached.** -/
theorem policyDetails_nil {db : Tables} {entry : RoutePolicy} {context : String}
    (hp : ∀ v, entry.params = some v → v.isObject = true) :
    policyDetails E context entry ((db.selectPolicy entry.id entry.version).map (Db.rowToPolicy E)) = [] ↔
      entry.Attached E db := by
  unfold policyDetails RoutePolicy.Attached
  cases hrow : db.selectPolicy entry.id entry.version with
  | none => simp
  | some row =>
    simp only [Option.map_some, Option.some.injEq, exists_eq_left', List.any_beq', Bool.not_eq_eq_eq_not,
      Bool.not_true, List.contains_eq_mem, decide_eq_false_iff_not]
    -- the early continues of the loop, one after the other
    by_cases hs : entry.stage ∈ (Db.rowToPolicy E row).supportedStages
    · rw [if_neg (not_not.2 hs)]
      cases hc : compileSchema E (Db.rowToPolicy E row).configSchema context with
      | error err =>
        obtain ⟨rest, hdetails⟩ := compileSchema_error hc
        simp only [hdetails, reduceCtorEq, false_iff]
        intro h
        obtain ⟨-, -, schema, merged, hcomp, -⟩ := h
        rw [compileSchema_ok.2 hcomp] at hc
        exact absurd hc (by simp)
      | ok schema =>
        have hcomp := compileSchema_ok.1 hc
        cases hm : deepMergeDefaultWithParams (Db.rowToPolicy E row).defaultConfig entry.params context with
        | error err =>
          obtain ⟨rest, hdetails⟩ := deepMerge_error hm
          simp only [hdetails, reduceCtorEq, false_iff]
          intro h
          obtain ⟨-, -, schema', merged, -, hmerge, -⟩ := h
          rw [hmerge context] at hm
          exact absurd hm (by simp)
        | ok merged =>
          simp only
          cases hv : validateAgainstSchema E schema merged (context ++ ".params") with
          | error err =>
            obtain ⟨herrors, hdetails⟩ := validateAgainstSchema_error hv
            simp only [hdetails, List.map_eq_nil_iff, herrors, false_iff]
            intro h
            obtain ⟨-, -, schema', merged', hcomp', hmerge, hval⟩ := h
            obtain rfl : schema = schema' := by rw [hcomp] at hcomp'; simpa using hcomp'
            obtain rfl : merged = merged' := by rw [hmerge context] at hm; simpa using hm.symm
            exact herrors hval
          | ok u =>
            simp only [true_iff]
            have hval : E.errors schema merged = [] := validateAgainstSchema_ok.1 hv
            exact ⟨hp, hs, schema, merged, hcomp, fun context' => deepMerge_ok hm, hval⟩
    · rw [if_pos hs]
      simp [hs]

/-- The entry's policy is read: params that are not an object are blamed before. -/
def RoutePolicy.isRead (entry : RoutePolicy) : Bool := !entry.params.any fun v => !v.isObject

theorem RoutePolicy.isRead_iff {entry : RoutePolicy} :
    entry.isRead = true ↔ ∀ v, entry.params = some v → v.isObject = true := by
  rw [isRead, Bool.not_eq_true', ← Bool.not_eq_true, params_any, not_not]

/-- The number of policies that the checks of the entries read. -/
def readCount (entries : List RoutePolicy) : ℕ := entries.countP RoutePolicy.isRead

/-- The details of the entry at `index`. -/
def entryDetails (E : Env) (db : Tables) (index : ℕ) (entry : RoutePolicy) : List String :=
  let context := "route.policies[" ++ toString index ++ "]"
  if entry.isRead then
    policyDetails E context entry ((db.selectPolicy entry.id entry.version).map (Db.rowToPolicy E))
  else [context ++ ".params must be a JSON object"]

theorem entryDetails_nil {db : Tables} {index : ℕ} {entry : RoutePolicy} :
    entryDetails E db index entry = [] ↔ entry.Attached E db := by
  unfold entryDetails
  by_cases hr : entry.isRead = true
  · rw [if_pos hr]
    exact policyDetails_nil (RoutePolicy.isRead_iff.1 hr)
  · rw [if_neg hr]
    refine iff_of_false (List.cons_ne_nil _ _) ?_
    intro ha
    exact hr (RoutePolicy.isRead_iff.2 ha.1)

/-- The details of the entries from `index` on. -/
def detailsOf (E : Env) (db : Tables) (index : ℕ) (entries : List RoutePolicy) : List String :=
  (entries.zipIdx index).flatMap fun x => entryDetails E db x.2 x.1

theorem detailsOf_cons (db : Tables) (index : ℕ) (entry : RoutePolicy) (entries : List RoutePolicy) :
    detailsOf E db index (entry :: entries) =
      entryDetails E db index entry ++ detailsOf E db (index + 1) entries := by
  rw [detailsOf, List.zipIdx_cons, List.flatMap_cons]
  rfl

theorem detailsOf_nil {db : Tables} {i : ℕ} {entries : List RoutePolicy} :
    detailsOf E db i entries = [] ↔ ∀ entry ∈ entries, entry.Attached E db := by
  induction entries generalizing i with
  | nil => simp [detailsOf]
  | cons entry entries ih =>
    rw [detailsOf_cons, List.append_eq_nil_iff, entryDetails_nil, ih, List.forall_mem_cons]

theorem readCount_le (entries : List RoutePolicy) : readCount entries ≤ entries.length :=
  List.countP_le_length

/-- Attached entries are all read. -/
theorem readCount_attached {db : Tables} {entries : List RoutePolicy}
    (h : ∀ entry ∈ entries, entry.Attached E db) : readCount entries = entries.length := by
  rw [readCount, List.countP_eq_length]
  intro entry hentry
  exact RoutePolicy.isRead_iff.2 (h entry hentry).1

end Yali
