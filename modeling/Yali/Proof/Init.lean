import Yali.Spec.Init

/-!
# A complete migration

`init` run to its end succeeds on every file: it makes the missing tables, adds the
missing columns of `policies` and backfills (`init_run`).
-/

namespace Yali

open Conc

namespace PoliciesTable

/-- The column is added if it is not there. -/
def ensure (c : Column) (t : PoliciesTable) : PoliciesTable := if t.has c then t else t.addColumn c

/-- The table once every column is there and the legacy configs are copied. -/
def migrate (t : PoliciesTable) : PoliciesTable :=
  (((t.ensure .supportedStages).ensure .configSchema).ensure .defaultConfig).backfill

/-- The table of a new file. -/
def empty : PoliciesTable := ⟨true, true, true, []⟩

theorem columns_any (t : PoliciesTable) (c : Column) : (t.columns.any (· == c.name)) = t.has c := by
  obtain ⟨a, b, d, rows⟩ := t
  cases c <;> cases a <;> cases b <;> cases d <;> rfl

theorem has_ensure (t : PoliciesTable) (c c' : Column) :
    (t.ensure c).has c' = (t.has c' || decide (c = c')) := by
  obtain ⟨a, b, d, rows⟩ := t
  cases c <;> cases c' <;> cases a <;> cases b <;> cases d <;> rfl

end PoliciesTable

theorem PoliciesTable.migrate_missing (t : PoliciesTable) : t.migrate.missing = none := by
  obtain ⟨a, b, d, rows⟩ := t
  cases a <;> cases b <;> cases d <;> rfl

/-- A file whose table `policies` is `t`. -/
def DbFile.withPolicies (f : DbFile) (t : PoliciesTable) : DbFile := { f with policies := some t }

/-- The choices of a run without interruption. -/
def uninterrupted : ℕ → Unit := fun _ => ()

theorem columnExists_run (f : DbFile) (t : PoliciesTable) (c : Column) :
    (columnExists c.name).run execInit uninterrupted (f.withPolicies t) =
      (.ok (t.has c), f.withPolicies t, uninterrupted) := by
  rw [← t.columns_any]
  rfl

theorem ensureColumn_run (f : DbFile) (t : PoliciesTable) (c : Column) :
    (ensureColumn c).run execInit uninterrupted (f.withPolicies t) =
      (.ok (), f.withPolicies (t.ensure c), uninterrupted) := by
  unfold ensureColumn PoliciesTable.ensure
  simp only [Prog.bind_eq, Prog.run_bind, columnExists_run]
  cases h : t.has c with
  | true => rfl
  | false =>
    simp only [Bool.not_false, if_true, Prog.run_op, execInit, DbFile.withPolicies, DbFile.onPolicies, h,
      Bool.false_eq_true, if_false]
    rfl

theorem backfill_run (f : DbFile) (t : PoliciesTable) (h : t.defaultConfig = true) :
    (Prog.op .backfill .ofExcept : InitProg Unit).run execInit uninterrupted (f.withPolicies t) =
      (.ok (), f.withPolicies t.backfill, uninterrupted) := by
  simp only [Prog.run_op, execInit, DbFile.withPolicies, DbFile.onPolicies, h, if_true]
  rfl

theorem migratePoliciesTable_run (f : DbFile) (t : PoliciesTable) :
    migratePoliciesTable.run execInit uninterrupted (f.withPolicies t) =
      (.ok (), f.withPolicies t.migrate, uninterrupted) := by
  unfold migratePoliciesTable PoliciesTable.migrate
  -- the backfill finds its column
  have h : (((t.ensure .supportedStages).ensure .configSchema).ensure .defaultConfig).defaultConfig =
      true := by
    have hhas := PoliciesTable.has_ensure ((t.ensure .supportedStages).ensure .configSchema)
      .defaultConfig .defaultConfig
    rw [decide_eq_true rfl, Bool.or_true] at hhas
    exact hhas
  simp only [Prog.bind_eq, Prog.run_bind, ensureColumn_run, backfill_run _ _ h]

/-- **`init` succeeds on every file**, and this is the file it leaves. -/
theorem init_run (f : DbFile) :
    f.init = (.ok (), ⟨some (f.policies.getD .empty).migrate, some (f.routes.getD [])⟩) := by
  have hcreate : (Prog.op .createPolicies .ofExcept : InitProg Unit).run execInit uninterrupted f =
      (.ok (), f.withPolicies (f.policies.getD .empty), uninterrupted) := rfl
  have hrun : Yali.init.run execInit uninterrupted f =
      (.ok (), ⟨some (f.policies.getD .empty).migrate, some (f.routes.getD [])⟩, uninterrupted) := by
    unfold Yali.init
    simp only [Prog.bind_eq, Prog.run_bind, hcreate, migratePoliciesTable_run]
    rfl
  change (let r := Yali.init.run execInit uninterrupted f; (r.1, r.2.1)) = _
  rw [hrun]

/-- The tables of a file once `init` has run. -/
def DbFile.migrated (f : DbFile) : Tables :=
  ⟨(f.policies.getD .empty).migrate.rows, f.routes.getD []⟩

theorem init_tables (f : DbFile) : f.init.2.tables = some f.migrated := by
  rw [init_run]
  simp only [DbFile.tables, PoliciesTable.migrate_missing, Option.isNone_none, if_true]
  rfl

end Yali
