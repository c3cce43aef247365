import Yali.Order.Keyed
import Yali.Proof.Migration
import Yali.Proof.Register

/-!
# Which migrated policies can be used

A row that the legacy program has inserted is read after a migration as its policy
upgraded (`legacyRow_read`), whatever its config. Registration and the checks of a
route ask for a default config that is an object, and the backfill copies every config
but `null`: the policies that can be used are those whose config was `null` or an
object (`migrated_usable_iff`).
-/

namespace Yali

open Conc PoliciesTable

variable {E : Env}

/-! ## Legacy files -/

/-- The row is as the legacy program has inserted it, or backfilled since. -/
def LegacyRow (E : Env) (row : PolicyRow) (policy : LegacyPolicySpec) : Prop :=
  row = legacyRow E policy ∨ row = backfillRow (legacyRow E policy)

/-- The rows of `policies` are those of legacy inserts, under the primary key. -/
structure LegacyFile (E : Env) (f : DbFile) (policies : List LegacyPolicySpec) : Prop where
  rows : List.Forall₂ (LegacyRow E) (f.policies.getD .empty).rows policies
  keys : (policies.map fun policy => (policy.id, policy.version)).Nodup

/-- A later column that is added has what it had. -/
theorem LegacyRow.addColumn {row : PolicyRow} {policy : LegacyPolicySpec} (h : LegacyRow E row policy) :
    LegacyRow E { row with supportedStagesJson := Column.supportedStages.default } policy ∧
      LegacyRow E { row with configSchemaJson := Column.configSchema.default } policy ∧
      LegacyRow E { row with defaultConfigJson := Column.defaultConfig.default } policy := by
  rcases h with rfl | rfl
  · exact ⟨Or.inl rfl, Or.inl rfl, Or.inl rfl⟩
  · unfold backfillRow LegacyRow backfillRow
    split
    · exact ⟨Or.inr rfl, Or.inr rfl, Or.inl rfl⟩
    · exact ⟨Or.inl rfl, Or.inl rfl, Or.inl rfl⟩

theorem legacy_ensure {t : PoliciesTable} {policies : List LegacyPolicySpec}
    (h : List.Forall₂ (LegacyRow E) t.rows policies) (c : Column) :
    List.Forall₂ (LegacyRow E) (t.ensure c).rows policies := by
  unfold PoliciesTable.ensure
  split
  · exact h
  · cases c with
    | supportedStages => exact List.forall₂_map_left_iff.2 (h.imp fun _ _ hrow => hrow.addColumn.1)
    | configSchema => exact List.forall₂_map_left_iff.2 (h.imp fun _ _ hrow => hrow.addColumn.2.1)
    | defaultConfig => exact List.forall₂_map_left_iff.2 (h.imp fun _ _ hrow => hrow.addColumn.2.2)

/-- **After a migration every legacy row is backfilled.** -/
theorem legacy_migrate {t : PoliciesTable} {policies : List LegacyPolicySpec}
    (h : List.Forall₂ (LegacyRow E) t.rows policies) :
    t.migrate.rows = policies.map fun policy => backfillRow (legacyRow E policy) := by
  have hens := legacy_ensure (legacy_ensure (legacy_ensure h .supportedStages) .configSchema) .defaultConfig
  have hback : List.Forall₂ (fun row policy => backfillRow row = backfillRow (legacyRow E policy))
      (((t.ensure .supportedStages).ensure .configSchema).ensure .defaultConfig).rows policies := by
    refine hens.imp ?_
    intro row policy hrow
    rcases hrow with rfl | rfl
    · rfl
    · exact backfillRow_backfillRow _
  have heq := List.forall₂_map_left_iff.2 (List.forall₂_map_right_iff.2 hback)
  rwa [List.forall₂_eq_eq_eq] at heq

/-! ## Reading a legacy row -/

/-- A declared default is read as the default of its field. -/
theorem read_default (hE : E.Lawful) {α : Type} [Serde α] [LawfulSerde α] {a : α} {s : String}
    (h : E.toString a = some s) : E.fromStr s = some a := by
  have hread := hE.read (LawfulSerde.de_ser a) ""
  rwa [h] at hread

/-- **A backfilled legacy row is read as its policy upgraded**, whatever its config. -/
theorem legacyRow_read (hE : E.Lawful) (hC : E.Compact) (policy : LegacyPolicySpec) :
    Db.rowToPolicy E (backfillRow (legacyRow E policy)) = policy.upgraded := by
  have hstages : E.fromStr Column.supportedStages.default = some defaultSupportedStages :=
    read_default hE hC.stages
  have hschema : E.fromStr Column.configSchema.default = some defaultConfigSchema :=
    read_default hE hC.schema
  have hempty : E.fromStr Column.defaultConfig.default = some Value.emptyObject :=
    read_default hE hC.emptyObject
  obtain ⟨s, hs, -⟩ := hE.roundTrip policy.config.doc
  have hs : E.toString policy.config = some s := hs
  have hread : E.fromStr s = some policy.config := read_default hE hs
  have hne : s ≠ "" := by
    intro hs0
    rw [hs0] at hs
    exact hC.nonempty _ hs
  unfold backfillRow legacyRow
  simp only [hs, Option.getD_some]
  by_cases hnull : s = "null"
  · -- `null` is passed over
    have hdoc : policy.config.doc = .null := by
      have hv : E.fromStr s = some (⟨.null, .null⟩ : Value) := by
        rw [hnull]
        exact read_default hE hC.null
      rw [hread] at hv
      exact congrArg Value.doc (Option.some.inj hv)
    rw [if_neg (by simp [hnull])]
    unfold Db.rowToPolicy LegacyPolicySpec.upgraded
    simp only [hstages, hschema, hempty, hdoc, Option.getD_some]
  · have hdoc : policy.config.doc ≠ .null := by
      intro hdoc
      have ht : E.toString policy.config = some "null" := by
        unfold Env.toString
        rw [show Serde.ser policy.config = Json.null from hdoc]
        exact hC.null
      rw [hs] at ht
      exact hnull (Option.some.inj ht)
    rw [if_pos (by simp [hnull, hne, Column.default])]
    unfold Db.rowToPolicy LegacyPolicySpec.upgraded
    simp only [hstages, hschema, hread, Option.getD_some]

/-- Its default config is an object exactly when the config was `null` or an object. -/
theorem upgraded_isObject {policy : LegacyPolicySpec} :
    policy.upgraded.defaultConfig.isObject = true ↔ policy.Plain := by
  unfold LegacyPolicySpec.upgraded LegacyPolicySpec.Plain
  split
  · rename_i hdoc
    exact iff_of_true rfl (Or.inl hdoc)
  · rename_i hdoc
    constructor
    · exact Or.inr
    · intro h
      rcases h with h | h
      · exact absurd h hdoc
      · exact h

/-! ## Policies that can be used -/

/-- The schema that a legacy row gets compiles, and accepts the objects. -/
structure Env.TypeObject (E : Env) : Prop where
  compiles : ∃ schema, E.compile defaultConfigSchema = .ok schema ∧
    ∀ v, E.errors schema v = [] ↔ v.isObject = true

/-- What registration enforces, of policies that are listed: default configs are objects
that satisfy their schemas, and routes may leave them as they are. -/
structure Usable (E : Env) (s : AppState) (policies : List PolicySpec) : Prop where
  object : ∀ policy ∈ policies, policy.defaultConfig.isObject = true
  schema : ∀ policy ∈ policies, ∃ schema, E.compile policy.configSchema = .ok schema ∧
    E.errors schema policy.defaultConfig = []
  attach : ∀ route : RouteSpec, (∀ entry ∈ route.policies, entry.Defaults (· ∈ policies)) →
    ((validateRoutePolicies E route).run exec noFault s).1 = .ok ()

/-- After a complete `init` the policies that `list_policies` returns can be used. -/
def MigratesUsable (E : Env) (f : DbFile) (cs : ConfigState) : Prop :=
  f.init.1 = .ok () ∧ ∃ db policies, f.init.2.tables = some db ∧
    ((Db.listPolicies E).run exec noFault ⟨db, cs⟩).1 = .ok policies ∧ Usable E ⟨db, cs⟩ policies

/-- The rows of a legacy file once it is migrated. -/
theorem LegacyFile.migrated_rows {f : DbFile} {policies : List LegacyPolicySpec}
    (h : LegacyFile E f policies) :
    f.migrated.policies = policies.map fun policy => backfillRow (legacyRow E policy) :=
  legacy_migrate h.rows

/-- What is listed of a legacy file once it is migrated. -/
theorem LegacyFile.listed (hE : E.Lawful) (hC : E.Compact) {f : DbFile}
    {policies : List LegacyPolicySpec} (h : LegacyFile E f policies) (cs : ConfigState) :
    ((Db.listPolicies E).run exec noFault ⟨f.migrated, cs⟩).1 =
      .ok ((policies.map LegacyPolicySpec.upgraded).insertionSort
        fun a b => a.id < b.id ∨ a.id = b.id ∧ a.version ≤ b.version) := by
  have hread : f.migrated.policies.map (Db.rowToPolicy E) = policies.map LegacyPolicySpec.upgraded := by
    rw [h.migrated_rows, List.map_map]
    exact List.map_congr_left fun policy _ => legacyRow_read hE hC policy
  rw [← selectPolicies_read hread]
  rfl

/-- A row is found by the key of its policy. -/
theorem LegacyFile.select {db : Tables} {policies : List LegacyPolicySpec}
    (hrows : db.policies = policies.map fun policy => backfillRow (legacyRow E policy))
    (hkeys : (policies.map fun policy => (policy.id, policy.version)).Nodup) {policy : LegacyPolicySpec}
    (hmem : policy ∈ policies) :
    db.selectPolicy policy.id policy.version = some (backfillRow (legacyRow E policy)) := by
  have hkey : ∀ policy : LegacyPolicySpec, (fun row : PolicyRow => (row.id, row.version))
      (backfillRow (legacyRow E policy)) = (policy.id, policy.version) := by
    intro policy
    unfold backfillRow
    split <;> rfl
  have hnodup : (db.policies.map fun row => (row.id, row.version)).Nodup := by
    rw [hrows, List.map_map]
    convert hkeys using 2
    exact funext hkey
  have hfind := (Keyed.find_key hnodup (k := (policy.id, policy.version))).2
    ⟨hrows ▸ List.mem_map_of_mem hmem, hkey policy⟩
  unfold Tables.selectPolicy
  simpa only [Prod.mk.injEq] using hfind

/-- The entries that leave usable migrated policies as they are pass their checks. -/
theorem LegacyFile.attached (hE : E.Lawful) (hC : E.Compact) {f : DbFile}
    {policies : List LegacyPolicySpec} (h : LegacyFile E f policies)
    (hobj : ∀ legacy ∈ policies, legacy.upgraded.defaultConfig.isObject = true)
    (hschema : ∀ legacy ∈ policies, ∃ schema, E.compile legacy.upgraded.configSchema = .ok schema ∧
      E.errors schema legacy.upgraded.defaultConfig = []) {entry : RoutePolicy}
    (hentry : entry.Defaults fun policy => ∃ legacy ∈ policies, legacy.upgraded = policy) :
    entry.Attached E f.migrated := by
  obtain ⟨-, ⟨legacy, hmem, rfl⟩, hid, hversion, hstage, hparams⟩ := hentry
  have hrow := LegacyFile.select h.migrated_rows h.keys hmem
  rw [show legacy.id = entry.id from hid, show legacy.version = entry.version from hversion] at hrow
  exact attached_defaults hrow (legacyRow_read hE hC legacy) (hobj legacy hmem) (hschema legacy hmem)
    hstage hparams

/-- **The policies of a migrated legacy file can be used exactly when every legacy config
was `null` or an object.** -/
theorem migrated_usable_iff (hE : E.Lawful) (hC : E.Compact) (hS : E.TypeObject) (f : DbFile)
    (policies : List LegacyPolicySpec) (h : LegacyFile E f policies) (cs : ConfigState) :
    MigratesUsable E f cs ↔ ∀ policy ∈ policies, policy.Plain := by
  have hlist := h.listed hE hC cs
  have hsort : ∀ policy, policy ∈ (policies.map LegacyPolicySpec.upgraded).insertionSort
      (fun a b => a.id < b.id ∨ a.id = b.id ∧ a.version ≤ b.version) ↔
        ∃ legacy ∈ policies, legacy.upgraded = policy := by
    intro policy
    rw [(List.perm_insertionSort _ _).mem_iff, List.mem_map]
  constructor
  · intro hm policy hmem
    obtain ⟨-, db, listed, hdb, hl, husable⟩ := hm
    rw [init_tables] at hdb
    obtain rfl : f.migrated = db := Option.some.inj hdb
    rw [hlist] at hl
    obtain rfl : _ = listed := Except.ok.inj hl
    exact upgraded_isObject.1 (husable.object _ ((hsort _).2 ⟨policy, hmem, rfl⟩))
  · intro hplain
    obtain ⟨schema, hcompile, herrors⟩ := hS.compiles
    have hobj : ∀ legacy ∈ policies, legacy.upgraded.defaultConfig.isObject = true :=
      fun legacy hmem => upgraded_isObject.2 (hplain legacy hmem)
    have hschema : ∀ legacy ∈ policies, ∃ schema, E.compile legacy.upgraded.configSchema = .ok schema ∧
        E.errors schema legacy.upgraded.defaultConfig = [] :=
      fun legacy hmem => ⟨schema, hcompile, (herrors _).2 (hobj legacy hmem)⟩
    refine ⟨by rw [init_run], f.migrated, _, init_tables f, hlist, ?_, ?_, ?_⟩
    · intro policy hp
      obtain ⟨legacy, hmem, rfl⟩ := (hsort policy).1 hp
      exact hobj legacy hmem
    · intro policy hp
      obtain ⟨legacy, hmem, rfl⟩ := (hsort policy).1 hp
      exact hschema legacy hmem
    · intro route hroute
      have hatt : ∀ entry ∈ route.policies, entry.Attached E f.migrated := by
        intro entry hentry
        obtain ⟨policy, hp, hrest⟩ := hroute entry hentry
        exact h.attached hE hC hobj hschema ⟨policy, (hsort policy).1 hp, hrest⟩
      exact validateRoutePolicies_pass hatt fun _ _ => rfl

theorem Env.plain_typeObject : Env.plain.TypeObject := by
  refine ⟨defaultConfigSchema, rfl, ?_⟩
  intro v
  change (if v.isObject then [] else _) = [] ↔ _
  split
  · rename_i hv
    exact iff_of_true rfl hv
  · rename_i hv
    exact iff_of_false (List.cons_ne_nil _ _) hv

namespace Sample

/-- A legacy policy whose config is a number. -/
def numeric : LegacyPolicySpec := ⟨"sampling", "1", "oci://sampling", "abc", ⟨.num (.posInt 5), .num _⟩⟩

/-- The file of a legacy program with these policies. -/
def legacyFile (policies : List LegacyPolicySpec) : DbFile :=
  ⟨some ⟨false, false, false, policies.map (legacyRow .plain)⟩, none⟩

theorem legacyFile_one (policy : LegacyPolicySpec) : LegacyFile .plain (legacyFile [policy]) [policy] where
  rows := .cons (Or.inl rfl) .nil
  keys := List.nodup_singleton _

end Sample

theorem migrated_usable_iff_headers :
    LegacyFile .plain (Sample.legacyFile [Sample.headers]) [Sample.headers] ∧
      MigratesUsable .plain (Sample.legacyFile [Sample.headers]) .new := by
  have hfile := Sample.legacyFile_one Sample.headers
  refine ⟨hfile, (migrated_usable_iff Env.plain_lawful Env.plain_compact Env.plain_typeObject
    _ _ hfile .new).2 ?_⟩
  intro policy hmem
  obtain rfl := List.mem_singleton.1 hmem
  exact Or.inr rfl

/-- The number is copied to the default config, which is no object. -/
theorem numeric_unusable :
    LegacyFile .plain (Sample.legacyFile [Sample.numeric]) [Sample.numeric] ∧
      ¬ MigratesUsable .plain (Sample.legacyFile [Sample.numeric]) .new := by
  have hfile := Sample.legacyFile_one Sample.numeric
  refine ⟨hfile, ?_⟩
  intro h
  obtain ⟨-, db, listed, hdb, hl, husable⟩ := h
  rw [init_tables] at hdb
  obtain rfl : _ = db := Option.some.inj hdb
  rw [hfile.listed Env.plain_lawful Env.plain_compact .new] at hl
  obtain rfl : [Sample.numeric.upgraded] = listed := Except.ok.inj hl
  exact absurd (husable.object _ (List.mem_singleton_self _)) (by decide)

end Yali
