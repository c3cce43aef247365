import Mathlib.Data.List.Forall2
import Yali.Proof.Checks
import Yali.Proof.Codec
import Yali.Proof.Init

/-!
# Migration keeps every policy

A database file of the legacy program goes through interrupted and complete runs of
`init` and through inserts of both programs. `Carries` is what holds, at every point,
of a row and the policy it was registered as: the columns that are there have the
policy's texts, except that `default_config_json` may still wait for the backfill.
Every statement keeps it (`Holds.execInit`, `History.next_holds`).

* `Carries.backfill`: the backfill gives a row its policy's default config.
* `migration_preserves`: a complete `init` at the end, and `list_policies` returns
  what was registered.
* `init_init`: another `init` changes nothing.
-/

namespace Yali

open Conc

/-! ## Histories -/

/-- What happens to a database file. -/
inductive DbEvent
  | initUpTo (n : ℕ)
  | init
  | insertPolicy (policy : PolicySpec)
  | legacyInsert (policy : LegacyPolicySpec)

/-- A file and the policies registered in it, in the order of their inserts. -/
structure History where
  file : DbFile
  registered : List PolicySpec

/-- The legacy config is `null` or an object. -/
def LegacyPolicySpec.Plain (policy : LegacyPolicySpec) : Prop :=
  policy.config.doc = .null ∨ policy.config.isObject = true

/-- The policy that a legacy registration stands for. -/
def LegacyPolicySpec.upgraded (policy : LegacyPolicySpec) : PolicySpec where
  id := policy.id
  version := policy.version
  wasmUri := policy.wasmUri
  sha256 := policy.sha256
  supportedStages := defaultSupportedStages
  configSchema := defaultConfigSchema
  defaultConfig :=
    match policy.config.doc with
    | .null => .emptyObject
    | _ => policy.config

/-- The inserts are of policies that the programs accept. -/
def DbEvent.Valid (E : Env) : DbEvent → Prop
  | .insertPolicy policy => validatePolicySpec E policy = .ok ()
  | .legacyInsert policy => policy.Plain
  | _ => True

namespace History

variable (E : Env)

/-- The file of a legacy program with these policies. -/
def legacy (policies : List LegacyPolicySpec) (routes : Option (List RouteRow)) : History :=
  ⟨⟨some ⟨false, false, false, policies.map (legacyRow E)⟩, routes⟩,
    policies.map LegacyPolicySpec.upgraded⟩

/-- A policy is registered if its insert succeeds. -/
def register (h : History) (policy : PolicySpec) : Except SqlxError Unit × DbFile → History
  | (.ok (), f) => ⟨f, h.registered ++ [policy]⟩
  | (.error _, f) => ⟨f, h.registered⟩

def next (h : History) : DbEvent → History
  | .initUpTo n => { h with file := h.file.initUpTo n }
  | .init => { h with file := h.file.init.2 }
  | .insertPolicy policy => h.register policy (h.file.insertPolicy E policy)
  | .legacyInsert policy => h.register policy.upgraded (h.file.legacyInsert E policy)

def run (h : History) (es : List DbEvent) : History := es.foldl (next E) h

end History

/-! ## The texts of the schema -/

variable {E : Env}

theorem policyRow_stages (hC : E.Compact) {policy : PolicySpec}
    (h : policy.supportedStages = defaultSupportedStages) :
    (Db.policyRow E policy).supportedStagesJson = Column.supportedStages.default := by
  have ht : E.toString policy.supportedStages = some Column.supportedStages.default := by
    rw [h]; exact hC.stages
  unfold Db.policyRow
  rw [ht]
  rfl

theorem policyRow_schema (hC : E.Compact) {policy : PolicySpec}
    (h : policy.configSchema = defaultConfigSchema) :
    (Db.policyRow E policy).configSchemaJson = Column.configSchema.default := by
  have ht : E.toString policy.configSchema = some Column.configSchema.default := by
    rw [h]; exact hC.schema
  unfold Db.policyRow
  rw [ht]
  rfl

theorem policyRow_emptyObject (hC : E.Compact) {policy : PolicySpec}
    (h : policy.defaultConfig = .emptyObject) :
    (Db.policyRow E policy).defaultConfigJson = Column.defaultConfig.default := by
  have ht : E.toString policy.defaultConfig = some Column.defaultConfig.default := by
    rw [h]; exact hC.emptyObject
  unfold Db.policyRow
  rw [ht]
  rfl

/-- The text of an object is none that the backfill looks for, but perhaps `{}`. -/
theorem object_text (hE : E.Lawful) (hC : E.Compact) {v : Value} (hv : v.isObject = true) :
    ∃ s, E.toString v = some s ∧ s ∉ ["null", ""] := by
  obtain ⟨s, hs, hread⟩ := hE.roundTrip v.doc
  refine ⟨s, hs, ?_⟩
  intro hmem
  rcases List.mem_cons.1 hmem with rfl | hmem
  · obtain ⟨s', hs', hread'⟩ := hE.roundTrip .null
    obtain rfl : "null" = s' := by rw [hC.null] at hs'; exact Option.some.inj hs'
    have hnull : v.doc = .null := by rw [hread] at hread'; exact Option.some.inj hread'
    unfold Value.isObject at hv
    rw [hnull] at hv
    exact absurd hv Bool.false_ne_true
  · obtain rfl : s = "" := List.mem_singleton.1 hmem
    exact hC.nonempty v.doc hs

theorem policyRow_default (hE : E.Lawful) (hC : E.Compact) {policy : PolicySpec}
    (h : policy.defaultConfig.isObject = true) :
    (Db.policyRow E policy).defaultConfigJson ∉ ["null", ""] := by
  obtain ⟨s, hs, hne⟩ := object_text hE hC h
  unfold Db.policyRow
  rw [hs]
  exact hne

/-! ## A row and its policy -/

/-- What holds of a row of the table `t` registered as `policy`: `config_json` has the
default config, or `null` for the empty object; each of the later columns has the
policy's text if it is there, and the default config perhaps `{}` yet. -/
structure Carries (E : Env) (t : PoliciesTable) (row : PolicyRow) (policy : PolicySpec) : Prop where
  id : row.id = policy.id
  version : row.version = policy.version
  wasmUri : row.wasmUri = policy.wasmUri
  sha256 : row.sha256 = policy.sha256
  object : policy.defaultConfig.isObject = true
  config : row.configJson = (Db.policyRow E policy).defaultConfigJson ∨
    row.configJson = "null" ∧ policy.defaultConfig = .emptyObject
  stages : t.supportedStages = true →
    row.supportedStagesJson = (Db.policyRow E policy).supportedStagesJson
  noStages : t.supportedStages = false → policy.supportedStages = defaultSupportedStages
  schema : t.configSchema = true → row.configSchemaJson = (Db.policyRow E policy).configSchemaJson
  noSchema : t.configSchema = false → policy.configSchema = defaultConfigSchema
  default : t.defaultConfig = true →
    row.defaultConfigJson = (Db.policyRow E policy).defaultConfigJson ∨
      row.defaultConfigJson = Column.defaultConfig.default

/-- Only the columns of the table matter. -/
theorem Carries.columns {t t' : PoliciesTable} {row : PolicyRow} {policy : PolicySpec}
    (h : Carries E t row policy) (hst : t'.supportedStages = t.supportedStages)
    (hsc : t'.configSchema = t.configSchema) (hd : t'.defaultConfig = t.defaultConfig) :
    Carries E t' row policy := by
  obtain ⟨supportedStages, configSchema, defaultConfig, rows⟩ := t'
  subst hst hsc hd
  exact ⟨h.id, h.version, h.wasmUri, h.sha256, h.object, h.config, h.stages, h.noStages, h.schema,
    h.noSchema, h.default⟩

/-- The rows of a table carry the policies registered. -/
def PoliciesTable.Carried (E : Env) (t : PoliciesTable) (registered : List PolicySpec) : Prop :=
  List.Forall₂ (Carries E t) t.rows registered

open PoliciesTable

variable {t : PoliciesTable} {registered : List PolicySpec}

/-- **The backfill gives a row its policy's default config**, and keeps the rest. -/
theorem Carries.backfill (hE : E.Lawful) (hC : E.Compact) {row : PolicyRow} {policy : PolicySpec}
    (h : Carries E t row policy) (hcol : t.defaultConfig = true) :
    (backfillRow row).defaultConfigJson = (Db.policyRow E policy).defaultConfigJson ∧
      Carries E t (backfillRow row) policy := by
  have htext := policyRow_default hE hC h.object
  have hdef : (backfillRow row).defaultConfigJson = (Db.policyRow E policy).defaultConfigJson := by
    unfold backfillRow
    rcases h.config with hc | ⟨hc, hempty⟩
    · split
      · exact hc
      · rename_i hcond
        rw [hc] at hcond
        rcases h.default hcol with hd | hd
        · exact hd
        · -- a row that waits is not passed over
          rw [hd] at hcond
          exact absurd ⟨List.mem_cons_self, htext⟩ hcond
    · -- a row without a config is passed over
      have hcond : ¬ (row.defaultConfigJson ∈ ["\x7b\x7d", "null", ""] ∧
          row.configJson ∉ ["null", ""]) := by
        intro hcond
        rw [hc] at hcond
        exact hcond.2 List.mem_cons_self
      rw [if_neg hcond, policyRow_emptyObject hC hempty]
      rcases h.default hcol with hd | hd
      · rw [hd, policyRow_emptyObject hC hempty]
      · exact hd
  -- the backfill writes no other column
  refine ⟨hdef, ?_⟩
  obtain ⟨hid, hver, hwasm, hsha, hobj, hconf, hst, hnst, hsc, hnsc, -⟩ := h
  unfold backfillRow at hdef ⊢
  split
  · rename_i hcond
    rw [if_pos hcond] at hdef
    exact ⟨hid, hver, hwasm, hsha, hobj, hconf, hst, hnst, hsc, hnsc, fun _ => Or.inl hdef⟩
  · rename_i hcond
    rw [if_neg hcond] at hdef
    exact ⟨hid, hver, hwasm, hsha, hobj, hconf, hst, hnst, hsc, hnsc, fun _ => Or.inl hdef⟩

/-- A row with every column and its default config is read as its policy. -/
theorem Carries.read (hE : E.Lawful) {row : PolicyRow} {policy : PolicySpec}
    (h : Carries E t row policy) (hst : t.supportedStages = true) (hsc : t.configSchema = true)
    (hd : row.defaultConfigJson = (Db.policyRow E policy).defaultConfigJson) :
    Db.rowToPolicy E row = policy := by
  refine Eq.trans ?_ (rowToPolicy_policyRow hE policy)
  unfold Db.rowToPolicy
  rw [h.id, h.version, h.wasmUri, h.sha256, h.stages hst, h.schema hsc, hd]
  rfl

/-! ## Statements on the table -/

/-- A column that is added has the policies' texts: those registered before have the
declared defaults. -/
theorem PoliciesTable.Carried.addColumn (hC : E.Compact) (h : t.Carried E registered) {c : Column}
    (hc : t.has c = false) : (t.addColumn c).Carried E registered := by
  cases c with
  | supportedStages =>
    refine List.forall₂_map_left_iff.2 (h.imp fun row policy hrow => ?_)
    obtain ⟨hid, hver, hwasm, hsha, hobj, hconf, -, hnst, hsch, hnsc, hd⟩ := hrow
    have htext : (Db.policyRow E policy).supportedStagesJson = Column.supportedStages.default :=
      policyRow_stages hC (hnst hc)
    exact ⟨hid, hver, hwasm, hsha, hobj, hconf, fun _ => htext.symm,
      fun hf => absurd hf.symm Bool.false_ne_true, hsch, hnsc, hd⟩
  | configSchema =>
    refine List.forall₂_map_left_iff.2 (h.imp fun row policy hrow => ?_)
    obtain ⟨hid, hver, hwasm, hsha, hobj, hconf, hst, hnst, -, hnsc, hd⟩ := hrow
    have htext : (Db.policyRow E policy).configSchemaJson = Column.configSchema.default :=
      policyRow_schema hC (hnsc hc)
    exact ⟨hid, hver, hwasm, hsha, hobj, hconf, hst, hnst, fun _ => htext.symm,
      fun hf => absurd hf.symm Bool.false_ne_true, hd⟩
  | defaultConfig =>
    refine List.forall₂_map_left_iff.2 (h.imp fun row policy hrow => ?_)
    obtain ⟨hid, hver, hwasm, hsha, hobj, hconf, hst, hnst, hsch, hnsc, -⟩ := hrow
    exact ⟨hid, hver, hwasm, hsha, hobj, hconf, hst, hnst, hsch, hnsc, fun _ => Or.inr rfl⟩

theorem PoliciesTable.Carried.ensure (hC : E.Compact) (h : t.Carried E registered) (c : Column) :
    (t.ensure c).Carried E registered := by
  unfold PoliciesTable.ensure
  cases hc : t.has c with
  | true => rw [if_pos rfl]; exact h
  | false => rw [if_neg Bool.false_ne_true]; exact h.addColumn hC hc

theorem PoliciesTable.Carried.backfill (hE : E.Lawful) (hC : E.Compact) (h : t.Carried E registered)
    (hcol : t.defaultConfig = true) : t.backfill.Carried E registered := by
  refine List.forall₂_map_left_iff.2 (h.imp fun row policy hrow => ?_)
  have hback : Carries E t (backfillRow row) policy := (hrow.backfill hE hC hcol).2
  exact hback.columns rfl rfl rfl

/-- An insert carries one policy more, if it succeeds. -/
theorem PoliciesTable.Carried.insert (h : t.Carried E registered) {row : PolicyRow} {policy : PolicySpec}
    (hrow : Carries E t row policy) :
    (t.insert row).1 = .ok () ∧ (t.insert row).2.Carried E (registered ++ [policy]) ∨
      (∃ e, (t.insert row).1 = .error e) ∧ (t.insert row).2 = t := by
  unfold PoliciesTable.insert
  split
  · exact Or.inr ⟨⟨_, rfl⟩, rfl⟩
  · have happ : List.Forall₂ (Carries E t) (t.rows ++ [row]) (registered ++ [policy]) :=
      List.rel_append h (.cons hrow .nil)
    exact Or.inl ⟨rfl, happ.imp fun _ _ h => h.columns rfl rfl rfl⟩

/-- All the later columns are there. -/
theorem missing_none (h : t.missing = none) :
    t.supportedStages = true ∧ t.configSchema = true ∧ t.defaultConfig = true := by
  obtain ⟨a, b, d, rows⟩ := t
  cases a <;> cases b <;> cases d <;> simp [missing, has] at h ⊢

theorem ensure_of_has {c : Column} (h : t.has c = true) : t.ensure c = t := if_pos h

/-- **After a complete migration the table reads as what was registered.** -/
theorem PoliciesTable.Carried.migrate (hE : E.Lawful) (hC : E.Compact) (h : t.Carried E registered) :
    t.migrate.Carried E registered ∧ t.migrate.rows.map (Db.rowToPolicy E) = registered := by
  obtain ⟨hst, hsc, hd⟩ := missing_none t.migrate_missing
  unfold PoliciesTable.migrate at hst hsc hd ⊢
  have hens := ((h.ensure hC .supportedStages).ensure hC .configSchema).ensure hC .defaultConfig
  generalize ((t.ensure .supportedStages).ensure .configSchema).ensure .defaultConfig = t' at *
  have hback : t'.backfill.Carried E registered := hens.backfill hE hC hd
  refine ⟨hback, ?_⟩
  have hread : List.Forall₂ (fun row policy => Db.rowToPolicy E (backfillRow row) = policy)
      t'.rows registered := hens.imp fun row policy hrow => by
    obtain ⟨hdef, hcarries⟩ := hrow.backfill hE hC hd
    exact hcarries.read hE hst hsc hdef
  have heq := List.forall₂_map_left_iff.2 (List.forall₂_map_left_iff.2 hread)
  rwa [List.forall₂_eq_eq_eq] at heq

/-! ## Running `init` again -/

theorem backfillRow_backfillRow (r : PolicyRow) : backfillRow (backfillRow r) = backfillRow r := by
  by_cases h : r.defaultConfigJson ∈ ["\x7b\x7d", "null", ""] ∧ r.configJson ∉ ["null", ""]
  · -- copied once, it is copied again as it is
    have hr : backfillRow r = { r with defaultConfigJson := r.configJson } := if_pos h
    rw [hr]
    unfold backfillRow
    split <;> rfl
  · have hr : backfillRow r = r := if_neg h
    rw [hr, hr]

theorem migrate_migrate (t : PoliciesTable) : t.migrate.migrate = t.migrate := by
  obtain ⟨hst, hsc, hd⟩ := missing_none t.migrate_missing
  have hens : ((t.migrate.ensure .supportedStages).ensure .configSchema).ensure .defaultConfig =
      t.migrate := by
    rw [ensure_of_has (c := .supportedStages) hst, ensure_of_has (c := .configSchema) hsc,
      ensure_of_has (c := .defaultConfig) hd]
  have hback : t.migrate.backfill = t.migrate := by
    unfold PoliciesTable.migrate PoliciesTable.backfill
    simp only [List.map_map]
    congr 1
    exact List.map_congr_left fun r _ => backfillRow_backfillRow r
  calc t.migrate.migrate
      = (((t.migrate.ensure .supportedStages).ensure .configSchema).ensure .defaultConfig).backfill := rfl
    _ = t.migrate := by rw [hens, hback]

/-- **`init` on a file it has left changes nothing.** -/
theorem init_init (f : DbFile) : f.init.2.init = (.ok (), f.init.2) := by
  rw [init_run f, init_run]
  simp only [Option.getD_some, migrate_migrate]

/-! ## Along a history -/

/-- The file has a table of policies, which carries those registered. -/
def Holds (E : Env) (f : DbFile) (registered : List PolicySpec) : Prop :=
  ∃ t, f.policies = some t ∧ t.Carried E registered

/-- **Every statement of `init` keeps it.** -/
theorem Holds.execInit (hE : E.Lawful) (hC : E.Compact) {f : DbFile} (h : Holds E f registered)
    (o : InitOp) : Holds E (execInit () o f).2 registered := by
  obtain ⟨t, hf, ht⟩ := h
  cases o with
  | createPolicies =>
    -- the table is there already
    exact ⟨t, by simp only [Yali.execInit, hf, Option.getD_some], ht⟩
  | tableInfo => exact ⟨t, hf, ht⟩
  | createRoutes => exact ⟨t, hf, ht⟩
  | addColumn c =>
    simp only [Yali.execInit, DbFile.onPolicies, hf]
    cases hc : t.has c with
    | true => exact ⟨t, rfl, ht⟩
    | false => exact ⟨t.addColumn c, rfl, ht.addColumn hC hc⟩
  | backfill =>
    -- without the column the statement fails
    simp only [Yali.execInit, DbFile.onPolicies, hf]
    cases hcol : t.defaultConfig with
    | true => exact ⟨t.backfill, rfl, ht.backfill hE hC hcol⟩
    | false => exact ⟨t, rfl, ht⟩

/-- The row of a legacy insert. -/
theorem legacyRow_carries (hE : E.Lawful) (hC : E.Compact) {policy : LegacyPolicySpec}
    (h : policy.Plain) : Carries E t (legacyRow E policy) policy.upgraded where
  id := rfl
  version := rfl
  wasmUri := rfl
  sha256 := rfl
  object := by
    unfold LegacyPolicySpec.upgraded
    rcases h with hnull | hobj
    · simp only [hnull]; rfl
    · split
      · rfl
      · exact hobj
  config := by
    rcases h with hnull | hobj
    · right
      unfold legacyRow LegacyPolicySpec.upgraded
      have ht : E.toString policy.config = some "null" := by
        unfold Env.toString
        rw [show Serde.ser policy.config = Json.null from hnull]
        exact hC.null
      simp only [ht, hnull, Option.getD_some, and_self]
    · left
      have hup : policy.upgraded.defaultConfig = policy.config := by
        unfold LegacyPolicySpec.upgraded
        split
        · rename_i hnull
          unfold Value.isObject at hobj
          rw [hnull] at hobj
          exact absurd hobj Bool.false_ne_true
        · rfl
      obtain ⟨s, hs, -⟩ := object_text hE hC hobj
      unfold legacyRow Db.policyRow
      rw [hup, hs]
      rfl
  stages _ := (policyRow_stages hC rfl).symm
  noStages _ := rfl
  schema _ := (policyRow_schema hC rfl).symm
  noSchema _ := rfl
  default _ := Or.inr rfl

/-- The row of a new insert, which every column must be there for. -/
theorem policyRow_carries {policy : PolicySpec} (h : validatePolicySpec E policy = .ok ())
    (hm : t.missing = none) : Carries E t (Db.policyRow E policy) policy := by
  obtain ⟨hst, hsc, -⟩ := missing_none hm
  obtain ⟨-, hobj, -⟩ := validatePolicySpec_ok.1 h
  have hnst : t.supportedStages = false → policy.supportedStages = defaultSupportedStages :=
    fun hf => absurd (hf.symm.trans hst) Bool.false_ne_true
  have hnsc : t.configSchema = false → policy.configSchema = defaultConfigSchema :=
    fun hf => absurd (hf.symm.trans hsc) Bool.false_ne_true
  exact ⟨rfl, rfl, rfl, rfl, hobj, Or.inl rfl, fun _ => rfl, hnst, fun _ => rfl, hnsc,
    fun _ => Or.inl rfl⟩

/-- An insert into the table. -/
theorem History.register_holds {h : History} (hf : h.file.policies = some t)
    (ht : t.Carried E h.registered) {row : PolicyRow} {policy : PolicySpec}
    (hrow : Carries E t row policy) :
    Holds E (h.register policy (h.file.onPolicies fun t => t.insert row)).file
      (h.register policy (h.file.onPolicies fun t => t.insert row)).registered := by
  unfold DbFile.onPolicies
  rw [hf]
  simp only
  rcases ht.insert hrow with ⟨hok, hcarried⟩ | ⟨⟨e, he⟩, hsame⟩
  · rw [hok]
    exact ⟨_, rfl, hcarried⟩
  · rw [he, hsame]
    exact ⟨t, rfl, ht⟩

/-- **Every event keeps it.** -/
theorem History.next_holds (hE : E.Lawful) (hC : E.Compact) {h : History}
    (hh : Holds E h.file h.registered) {e : DbEvent} (he : e.Valid E) :
    Holds E (h.next E e).file (h.next E e).registered := by
  obtain ⟨t, hf, ht⟩ := hh
  cases e with
  | initUpTo n =>
    have hstep : ∀ (c : Unit) (o : InitOp) (f : DbFile), Holds E f h.registered →
        Holds E (execInit c o f).2 h.registered := fun _ o f hf => hf.execInit hE hC o
    exact Prog.runUpTo_inv execInit (J := fun f => Holds E f h.registered) hstep init (fun _ => ())
      n h.file ⟨t, hf, ht⟩
  | init =>
    refine ⟨t.migrate, ?_, (ht.migrate hE hC).1⟩
    simp only [History.next, init_run, hf, Option.getD_some]
  | legacyInsert policy => exact History.register_holds hf ht (legacyRow_carries hE hC he)
  | insertPolicy policy =>
    cases hm : t.missing with
    | some c =>
      -- the statement names a column that is not there
      refine ⟨t, ?_, ?_⟩
      · simp only [History.next, DbFile.insertPolicy, DbFile.onPolicies, hf, hm, History.register]
      · simp only [History.next, DbFile.insertPolicy, DbFile.onPolicies, hf, hm, History.register]
        exact ht
    | none =>
      have heq : h.next E (.insertPolicy policy) =
          h.register policy (h.file.onPolicies fun t => t.insert (Db.policyRow E policy)) := by
        simp only [History.next, DbFile.insertPolicy, DbFile.onPolicies, hf, hm]
      rw [heq]
      exact History.register_holds hf ht (policyRow_carries he hm)

theorem History.run_holds (hE : E.Lawful) (hC : E.Compact) {h : History}
    (hh : Holds E h.file h.registered) {es : List DbEvent} (hes : ∀ e ∈ es, e.Valid E) :
    Holds E (h.run E es).file (h.run E es).registered := by
  induction es generalizing h with
  | nil => exact hh
  | cons e es ih =>
    have hnext := History.next_holds hE hC hh (hes e List.mem_cons_self)
    exact ih hnext fun e' he' => hes e' (List.mem_cons_of_mem _ he')

theorem History.legacy_holds (hE : E.Lawful) (hC : E.Compact) {policies : List LegacyPolicySpec}
    (hp : ∀ policy ∈ policies, policy.Plain) (routes : Option (List RouteRow)) :
    Holds E (History.legacy E policies routes).file (History.legacy E policies routes).registered := by
  refine ⟨_, rfl, List.forall₂_map_left_iff.2 (List.forall₂_map_right_iff.2 ?_)⟩
  -- each row is registered as its own policy
  rw [List.forall₂_same]
  intro policy hmem
  exact legacyRow_carries hE hC (hp policy hmem)

/-- The rows in the order of `list_policies` are read in the order of the policies. -/
theorem selectPolicies_read {db : Tables} (h : db.policies.map (Db.rowToPolicy E) = registered) :
    db.selectPolicies.map (Db.rowToPolicy E) =
      registered.insertionSort fun a b => a.id < b.id ∨ a.id = b.id ∧ a.version ≤ b.version := by
  subst h
  exact List.map_insertionSort _ _ _ _ fun a _ b _ => Iff.rfl

/-- **Migration preserves every policy.** A legacy file, then any sequence of
interrupted and complete `init`s and of inserts by both programs: a complete `init`
succeeds, `list_policies` then returns the policies registered, a legacy one as
upgraded, and one more `init` changes nothing. -/
theorem migration_preserves (hE : E.Lawful) (hC : E.Compact) (policies : List LegacyPolicySpec)
    (hp : ∀ policy ∈ policies, policy.Plain) (routes : Option (List RouteRow)) (es : List DbEvent)
    (hes : ∀ e ∈ es, e.Valid E) (cs : ConfigState) :
    let h := (History.legacy E policies routes).run E es
    ∃ db, h.file.init.1 = .ok () ∧ h.file.init.2.tables = some db ∧
      ((Db.listPolicies E).run exec noFault ⟨db, cs⟩).1 =
        .ok (h.registered.insertionSort fun a b => a.id < b.id ∨ a.id = b.id ∧ a.version ≤ b.version) ∧
      h.file.init.2.init = (.ok (), h.file.init.2) := by
  intro h
  obtain ⟨t, hf, ht⟩ := History.run_holds hE hC (History.legacy_holds hE hC hp routes) hes
  refine ⟨h.file.migrated, by rw [init_run], init_tables h.file, ?_, init_init h.file⟩
  have hread : h.file.migrated.policies.map (Db.rowToPolicy E) = h.registered := by
    unfold DbFile.migrated
    rw [hf]
    exact (ht.migrate hE hC).2
  rw [← selectPolicies_read hread]
  rfl

namespace Sample

/-- A legacy policy with a config, and one without. -/
def headers : LegacyPolicySpec :=
  ⟨"headers", "1", "oci://headers", "abc", ⟨.obj [("add", .bool true)], .obj (by simp) (by simpa using .bool true)⟩⟩

def tracing : LegacyPolicySpec := ⟨"tracing", "1", "oci://tracing", "def", ⟨.null, .null⟩⟩

def limits : PolicySpec where
  id := "limits"
  version := "2"
  wasmUri := "oci://limits"
  sha256 := "fed"
  supportedStages := ["pre_route"]
  configSchema := defaultConfigSchema
  defaultConfig := .emptyObject

/-- The first `init` stops after its second `ALTER TABLE`; a legacy program inserts in
between. -/
def upgrade : List DbEvent := [.initUpTo 5, .legacyInsert tracing, .init, .insertPolicy limits]

theorem limits_valid : validatePolicySpec .plain limits = .ok () :=
  validatePolicySpec_ok.2 ⟨by decide, rfl, by decide, limits.configSchema, rfl, rfl⟩

theorem upgrade_valid : ∀ e ∈ upgrade, e.Valid .plain := by
  simp only [upgrade, List.mem_cons, List.not_mem_nil, or_false, forall_eq_or_imp, forall_eq]
  exact ⟨trivial, Or.inl rfl, trivial, limits_valid⟩

end Sample

theorem migration_preserves_upgrade :
    (∀ policy ∈ [Sample.headers], policy.Plain) ∧ (∀ e ∈ Sample.upgrade, e.Valid .plain) ∧
      let h := (History.legacy .plain [Sample.headers] none).run .plain Sample.upgrade
      h.registered = [Sample.headers.upgraded, Sample.tracing.upgraded, Sample.limits] ∧
        ∃ db, h.file.init.1 = .ok () ∧ h.file.init.2.tables = some db ∧
          ((Db.listPolicies .plain).run exec noFault ⟨db, .new⟩).1 =
            .ok (h.registered.insertionSort fun a b => a.id < b.id ∨ a.id = b.id ∧ a.version ≤ b.version) ∧
          h.file.init.2.init = (.ok (), h.file.init.2) := by
  have hp : ∀ policy ∈ [Sample.headers], policy.Plain := by
    intro policy hmem
    obtain rfl := List.mem_singleton.1 hmem
    exact Or.inr rfl
  exact ⟨hp, Sample.upgrade_valid, rfl, migration_preserves Env.plain_lawful Env.plain_compact
    [Sample.headers] hp none Sample.upgrade Sample.upgrade_valid .new⟩

end Yali
