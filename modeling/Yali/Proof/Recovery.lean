import Yali.Proof.Linear
import Yali.Proof.Migration
import Yali.Proof.Startup

/-!
# Restarts and crashes

A control plane lives many lives over one database file: a process is killed during
`init`, or it comes up, serves requests concurrently and is killed at some event. Every
statement is on disk once it is run; the programs in flight are lost, and so is the
channel.

A file that such lives leave is `Intact`: every statement of `init` leaves its tables as
they are (`Intact.execInit`, `Intact.init`), so a process comes up over it with the tables of
the one before (`Intact.build`). With the linearization of each life this gives one
serial order of the requests of all lives (`restarts_durable`).
-/

namespace Yali

open Conc

variable {E : Env}

/-! ## Lives -/

/-- A process killed after `n` statements of `init`, or one that serves requests and is
killed after the events `es`. -/
inductive Life
  | interrupted (n : ℕ)
  | served (es : List Event)

namespace DbFile

/-- The file a life leaves. -/
def live (E : Env) (f : DbFile) : Life → DbFile
  | .interrupted n => f.initUpTo n
  | .served es =>
    match buildStateAndListener E f with
    | some s => .of (Gateway.run (.idle (.start s)) es).st.cp.pool
    | none => f.init.2

/-- The file after the lives. -/
def lives (E : Env) (f : DbFile) (ls : List Life) : DbFile := ls.foldl (live E) f

theorem lives_concat (f : DbFile) (ls : List Life) (l : Life) :
    lives E f (ls ++ [l]) = live E (lives E f ls) l := List.foldl_concat ..

/-- The tables of the file, one that is missing being empty. -/
def contents (f : DbFile) : Tables := ⟨(f.policies.getD .empty).rows, f.routes.getD []⟩

/-- No column is missing from a table that is there, and the contents are sound. -/
structure Intact (E : Env) (f : DbFile) : Prop where
  complete : ∀ t, f.policies = some t → t.missing = none
  sound : Sound E f.contents

end DbFile

/-! ## `init` on an intact file -/

/-- The backfill has nothing to copy into the row of a registered policy. -/
theorem backfillRow_policyRow (policy : PolicySpec) :
    PoliciesTable.backfillRow (Db.policyRow E policy) = Db.policyRow E policy := by
  unfold PoliciesTable.backfillRow
  split
  · rfl
  · rfl

theorem PoliciesTable.backfill_checked {t : PoliciesTable} (h : ∀ row ∈ t.rows, Checked E row) :
    t.backfill = t := by
  have hrow : ∀ row ∈ t.rows, backfillRow row = id row := by
    intro row hrow
    obtain ⟨policy, rfl, -⟩ := h row hrow
    exact backfillRow_policyRow policy
  unfold PoliciesTable.backfill
  rw [List.map_congr_left hrow, List.map_id]

theorem PoliciesTable.has_of_missing {t : PoliciesTable} (h : t.missing = none) (c : Column) :
    t.has c = true := by
  obtain ⟨hst, hsc, hd⟩ := missing_none h
  cases c with
  | supportedStages => exact hst
  | configSchema => exact hsc
  | defaultConfig => exact hd

theorem PoliciesTable.migrate_checked {t : PoliciesTable} (hm : t.missing = none)
    (h : ∀ row ∈ t.rows, Checked E row) : t.migrate = t := by
  unfold PoliciesTable.migrate
  rw [ensure_of_has (has_of_missing hm .supportedStages), ensure_of_has (has_of_missing hm .configSchema),
    ensure_of_has (has_of_missing hm .defaultConfig), backfill_checked h]

namespace DbFile

theorem Intact.new : Intact E ⟨none, none⟩ where
  complete := by simp
  sound := ⟨fun row hrow => absurd hrow List.not_mem_nil, fun row hrow => absurd hrow List.not_mem_nil⟩

theorem Intact.of {db : Tables} (h : Sound E db) : Intact E (.of db) where
  complete := by
    intro t ht
    obtain rfl : _ = t := Option.some.inj ht
    rfl
  sound := h

theorem Intact.getD {f : DbFile} (h : Intact E f) : (f.policies.getD .empty).missing = none := by
  cases hp : f.policies with
  | none => rfl
  | some t => exact h.complete t hp

/-- **A statement of `init` keeps an intact file**, with its contents. -/
theorem Intact.execInit {f : DbFile} (h : Intact E f) (o : InitOp) :
    Intact E (execInit () o f).2 ∧ (execInit () o f).2.contents = f.contents := by
  cases o with
  | createPolicies =>
    refine ⟨⟨?_, h.sound⟩, rfl⟩
    intro t ht
    obtain rfl : _ = t := Option.some.inj ht
    exact h.getD
  | tableInfo => exact ⟨h, rfl⟩
  | addColumn c =>
    cases hp : f.policies with
    | none => simpa only [Yali.execInit, onPolicies, hp] using ⟨h, trivial⟩
    | some t =>
      -- the column is there, so the statement fails
      have hhas := PoliciesTable.has_of_missing (h.complete t hp) c
      have hsame : (Yali.execInit () (.addColumn c) f).2 = f := by
        simp only [Yali.execInit, onPolicies, hp, hhas, if_true]
        rw [← hp]
      rw [hsame]
      exact ⟨h, rfl⟩
  | backfill =>
    cases hp : f.policies with
    | none => simpa only [Yali.execInit, onPolicies, hp] using ⟨h, trivial⟩
    | some t =>
      have hrows : ∀ row ∈ t.rows, Checked E row := by
        have hpol := h.sound.policy
        simp only [contents, hp, Option.getD_some] at hpol
        exact hpol
      have hsame : (Yali.execInit () .backfill f).2 = f := by
        obtain ⟨-, -, hd⟩ := missing_none (h.complete t hp)
        simp only [Yali.execInit, onPolicies, hp, hd, if_true, PoliciesTable.backfill_checked hrows]
        rw [← hp]
      rw [hsame]
      exact ⟨h, rfl⟩
  | createRoutes => exact ⟨⟨h.complete, h.sound⟩, rfl⟩

theorem Intact.migrated {f : DbFile} (h : Intact E f) : f.migrated = f.contents := by
  unfold DbFile.migrated contents
  rw [PoliciesTable.migrate_checked h.getD h.sound.policy]

/-- **A process comes up over an intact file**, with its contents. -/
theorem Intact.build {f : DbFile} (h : Intact E f) :
    buildStateAndListener E f = some ⟨f.contents, ⟨1, .new ⟨0, []⟩⟩⟩ := by
  rw [build_eq, h.migrated]

theorem Intact.init {f : DbFile} (h : Intact E f) (n : ℕ) :
    Intact E (f.initUpTo n) ∧ (f.initUpTo n).contents = f.contents := by
  have hstep : ∀ (c : Unit) (o : InitOp) (f' : DbFile), Intact E f' ∧ f'.contents = f.contents →
      Intact E (Yali.execInit c o f').2 ∧ (Yali.execInit c o f').2.contents = f.contents := by
    rintro ⟨⟩ o f' ⟨h', heq⟩
    obtain ⟨hint, hsame⟩ := h'.execInit o
    exact ⟨hint, hsame.trans heq⟩
  exact Prog.runUpTo_inv _ hstep Yali.init _ n f ⟨h, rfl⟩

end DbFile

/-! ## Many lives -/

/-- The process that comes up after the lives, over the file that was new to the first. -/
def processAfter (E : Env) (ls : List Life) : Option AppState :=
  buildStateAndListener E (DbFile.lives E ⟨none, none⟩ ls)

/-- Request `t` of life `i` is `calls i t`. -/
def ServesLives (E : Env) (calls : ℕ → ℕ → Call) (ls : List Life) : Prop :=
  ∀ i es s, ls[i]? = some (.served es) → processAfter E (ls.take i) = some s →
    ServesCalls E (calls i) (.start s) es

/-- `order` is a serial order of the requests of all lives, `(i, t)` being request `t` of
life `i`: served one at a time over empty tables, they leave the tables that the next
process finds. Each request answered without a failing statement is in it, with the same
status and, on success, the same reply. Those of an earlier life come first. -/
structure DurableOrder (E : Env) (calls : ℕ → ℕ → Call) (ls : List Life) (order : List (ℕ × ℕ)) :
    Prop where
  nodup : order.Nodup
  started : ∀ p ∈ order, p.1 < ls.length
  lives : order.Pairwise fun p q => p.1 ≤ q.1
  tables : ∀ s, processAfter E ls = some s →
    (serveCalls E ⟨⟨[], []⟩, .new⟩ (order.map fun p => calls p.1 p.2)).pool = s.pool
  answers : ∀ i es s t r, ls[i]? = some (.served es) → processAfter E (ls.take i) = some s →
    (Gateway.run (.idle (.start s)) es).result t = some r → (∀ e, .step t (some e) ∉ es) →
    ∃ before after, order = before ++ (i, t) :: after ∧
      outcome (serveCall E (calls i t)
        (serveCalls E ⟨⟨[], []⟩, .new⟩ (before.map fun p => calls p.1 p.2))).1 = outcome r

namespace DurableOrder

variable {calls : ℕ → ℕ → Call} {ls : List Life} {order : List (ℕ × ℕ)}

theorem new : DurableOrder E calls [] [] where
  nodup := List.nodup_nil
  started p hp := absurd hp List.not_mem_nil
  lives := List.Pairwise.nil
  tables s hs := by
    obtain ⟨hpool, -⟩ := build_some hs
    rw [hpool]
    rfl
  answers i es s t r hi := absurd hi (by simp)

/-- What is answered in the lives before the last. -/
theorem answers_before (h : DurableOrder E calls ls order) (l : Life) (more : List (ℕ × ℕ)) {i : ℕ}
    (hi : i < ls.length) {es : List Event} {s : AppState} {t : ℕ} {r : Except ApiError Reply}
    (hl : (ls ++ [l])[i]? = some (.served es)) (hs : processAfter E ((ls ++ [l]).take i) = some s)
    (hr : (Gateway.run (.idle (.start s)) es).result t = some r) (hclean : ∀ e, .step t (some e) ∉ es) :
    ∃ before after, order ++ more = before ++ (i, t) :: after ∧
      outcome (serveCall E (calls i t)
        (serveCalls E ⟨⟨[], []⟩, .new⟩ (before.map fun p => calls p.1 p.2))).1 = outcome r := by
  rw [List.getElem?_append_left hi] at hl
  rw [List.take_append_of_le_length hi.le] at hs
  obtain ⟨before, after, rfl, hout⟩ := h.answers i es s t r hl hs hr hclean
  exact ⟨before, after ++ more, by simp, hout⟩

/-- A process killed while it starts. -/
theorem interrupted (h : DurableOrder E calls ls order) (hf : (DbFile.lives E ⟨none, none⟩ ls).Intact E)
    (n : ℕ) : DurableOrder E calls (ls ++ [.interrupted n]) order where
  nodup := h.nodup
  started p hp := by
    rw [List.length_append]
    exact Nat.lt_add_right _ (h.started p hp)
  lives := h.lives
  tables s hs := by
    obtain ⟨hint, hsame⟩ := hf.init n
    unfold processAfter at hs
    rw [DbFile.lives_concat, DbFile.live, hint.build, hsame] at hs
    obtain rfl := Option.some.inj hs
    exact h.tables _ hf.build
  answers i es s t r hl hs hr hclean := by
    have hi : i < ls.length := by
      by_contra hge
      rw [List.getElem?_append_right (Nat.not_lt.1 hge), List.getElem?_singleton] at hl
      split at hl <;> exact absurd hl (by simp)
    have hbefore := h.answers_before (.interrupted n) [] hi hl hs hr hclean
    rwa [List.append_nil] at hbefore

/-- A process that comes up, serves requests and is killed. -/
theorem served (h : DurableOrder E calls ls order) {s : AppState} (hs : processAfter E ls = some s)
    {es : List Event} {hist : List (Entry (Except Status Reply))} {stage : ℕ → Conc.Stage (Except Status Reply)}
    (hsteps : Steps E (calls ls.length) (.start s) es es.length hist stage)
    (hsound : Sound E (Gateway.run (.idle (.start s)) es).st.cp.pool) :
    DurableOrder E calls (ls ++ [.served es])
      (order ++ (hist.map Entry.task).map fun t => (ls.length, t)) where
  nodup := by
    rw [List.nodup_append]
    refine ⟨h.nodup, hsteps.nodup.map fun _ _ heq => (Prod.mk.inj heq).2, ?_⟩
    -- the lives before are others
    rintro p hp _ hq rfl
    obtain ⟨t, -, rfl⟩ := List.mem_map.1 hq
    exact absurd (h.started _ hp) (lt_irrefl _)
  started p hp := by
    rw [List.length_append, List.length_singleton, Nat.lt_succ_iff]
    rcases List.mem_append.1 hp with hp | hp
    · exact (h.started p hp).le
    · obtain ⟨t, -, rfl⟩ := List.mem_map.1 hp
      exact le_rfl
  lives := by
    rw [List.pairwise_append]
    refine ⟨h.lives, ?_, ?_⟩
    · exact List.pairwise_map.2 (List.pairwise_of_forall fun _ _ => le_rfl)
    · intro p hp q hq
      obtain ⟨t, -, rfl⟩ := List.mem_map.1 hq
      exact (h.started p hp).le
  tables s' hs' := by
    unfold processAfter at hs hs'
    rw [DbFile.lives_concat, DbFile.live, hs] at hs'
    rw [(DbFile.Intact.of hsound).build] at hs'
    obtain rfl := Option.some.inj hs'
    -- the life starts from the tables that the lives before leave
    rw [List.map_append, serveCalls_append, List.map_map]
    exact Steps.tables hsteps (h.tables s hs)
  answers i es' s' t r hl hs' hr hclean := by
    by_cases hi : i < ls.length
    · exact h.answers_before _ _ hi hl hs' hr hclean
    · -- the last life: its requests come after those of the others
      rw [List.getElem?_append_right (Nat.not_lt.1 hi), List.getElem?_singleton] at hl
      split at hl
      · rename_i hzero
        obtain rfl : i = ls.length := le_antisymm (Nat.sub_eq_zero_iff_le.1 hzero) (Nat.not_lt.1 hi)
        obtain rfl : es = es' := by simpa using hl
        rw [List.take_left] at hs'
        obtain rfl : s = s' := Option.some.inj (hs.symm.trans hs')
        obtain ⟨before, after, heq, hout⟩ := Steps.answer hsteps hr hclean
        refine ⟨order ++ before.map fun t => (ls.length, t), after.map fun t => (ls.length, t), ?_, ?_⟩
        · rw [heq, List.map_append, List.map_cons, List.append_assoc]
        · rw [List.map_append, serveCalls_append, List.map_map]
          exact hout _ (h.tables s hs)
      · exact absurd hl (by simp)

end DurableOrder

theorem ServesLives.before {calls : ℕ → ℕ → Call} {ls : List Life} {l : Life} (h : ServesLives E calls (ls ++ [l])) :
    ServesLives E calls ls := by
  intro i es s hl hs
  have hi : i < ls.length := (List.getElem?_eq_some_iff.1 hl).1
  refine h i es s ?_ ?_
  · rw [List.getElem?_append_left hi, hl]
  · rw [List.take_append_of_le_length hi.le, hs]

theorem ServesLives.last {calls : ℕ → ℕ → Call} {ls : List Life} {es : List Event} {s : AppState}
    (h : ServesLives E calls (ls ++ [.served es])) (hs : processAfter E ls = some s) :
    ServesCalls E (calls ls.length) (.start s) es :=
  h ls.length es s (by simp) (by rw [List.take_left, hs])

/-- The file stays intact, and every life adds to the order. -/
theorem lives_durable {calls : ℕ → ℕ → Call} {ls : List Life} (h : ServesLives E calls ls) :
    (DbFile.lives E ⟨none, none⟩ ls).Intact E ∧ ∃ order, DurableOrder E calls ls order := by
  induction ls using List.reverseRecOn with
  | nil => exact ⟨.new, [], .new⟩
  | append_singleton ls l ih =>
    obtain ⟨hf, order, horder⟩ := ih h.before
    rw [DbFile.lives_concat]
    cases l with
    | interrupted n => exact ⟨(hf.init n).1, order, horder.interrupted hf n⟩
    | served es =>
      obtain ⟨s, hs, hpool⟩ : ∃ s, processAfter E ls = some s ∧ Sound E s.pool :=
        ⟨_, hf.build, hf.sound⟩
      have hserves := h.last hs
      have hsound : Sound E (Gateway.run (.idle (.start s)) es).st.cp.pool :=
        (calls_kept sound_kept hpool es hserves.routed).inv
      obtain ⟨hist, stage, hsteps⟩ := steps_run hserves
      refine ⟨?_, _, horder.served hs hsteps hsound⟩
      unfold processAfter at hs
      rw [DbFile.live, hs]
      exact .of hsound

/-- **What the admissible writes keep** is true of the tables of every life. -/
theorem lives_kept {calls : ℕ → ℕ → Call} {ls : List Life} (h : ServesLives E calls ls) {J : Tables → Prop}
    (h0 : J ⟨[], []⟩) (hkeep : ∀ (req : Request) db, J db → req.Admissible E db → J (req.written E db)) :
    ∃ s, processAfter E ls = some s ∧ Sound E s.pool ∧ J s.pool := by
  obtain ⟨hf, order, horder⟩ := lives_durable h
  refine ⟨_, hf.build, hf.sound, ?_⟩
  rw [← horder.tables _ hf.build]
  exact serveCalls_kept (fun req _ => hkeep req) h0

/-- **What was answered survives every crash.** Over a file that was new to the first of
them, any number of processes start, are killed during `init` or serve requests
concurrently and are killed at any event. The next process comes up, over sound tables,
and the requests of all lives have a serial order that leaves these tables. -/
theorem restarts_durable (calls : ℕ → ℕ → Call) (ls : List Life) (h : ServesLives E calls ls) :
    ∃ s order, processAfter E ls = some s ∧ Sound E s.pool ∧ DurableOrder E calls ls order := by
  obtain ⟨hf, order, horder⟩ := lives_durable h
  exact ⟨_, order, hf.build, hf.sound, horder⟩

namespace Sample

/-- A route is created and the client is answered; then the process is killed with the deletion
of the route in flight. -/
def killed : List Event :=
  [.start (router .plain (raced 0)), .start (router .plain (raced 1)), .step 0 none, .step 0 none,
    .step 0 none, .step 0 none]

/-- The processes before and after it are killed while they start. -/
def crashes : List Life := [.interrupted 3, .served killed, .interrupted 2]

theorem crashes_serve : ServesLives .plain (fun _ => raced) crashes := by
  intro i es s hl _ n p hp
  have hes : es = killed := by
    match i with
    | 0 | 2 => exact absurd hl (by simp [crashes])
    | 1 => simpa [crashes] using hl.symm
    | i + 3 => exact absurd hl (by simp [crashes])
  rw [hes] at hp
  match n with
  | 0 | 1 =>
    obtain rfl : _ = p := by simpa [killed] using hp
    rw [hes]
    rfl
  | 2 | 3 | 4 | 5 => exact absurd hp (by simp [killed])
  | n + 6 => exact absurd hp (by simp [killed])

end Sample

/-- The route that was answered is there when the next process comes up. -/
theorem restarts_durable_crashes :
    ServesLives .plain (fun _ => Sample.raced) Sample.crashes ∧
      ∃ s order, processAfter .plain Sample.crashes = some s ∧ Sound .plain s.pool ∧
        DurableOrder .plain (fun _ => Sample.raced) Sample.crashes order ∧ (1, 0) ∈ order ∧
        s.pool.routes.map RouteRow.id = ["users"] := by
  obtain ⟨s, order, hs, hsound, horder⟩ := restarts_durable _ _ Sample.crashes_serve
  refine ⟨Sample.crashes_serve, s, order, hs, hsound, horder, ?_, ?_⟩
  · obtain ⟨before, after, heq, -⟩ := horder.answers 1 Sample.killed ⟨⟨[], []⟩, ⟨1, .new ⟨0, []⟩⟩⟩ 0
      (.ok (.routeCreated Sample.users)) rfl rfl rfl (by simp [Sample.killed])
    rw [heq]
    exact List.mem_append_right _ List.mem_cons_self
  · have hpool : (processAfter .plain Sample.crashes).map (fun s => s.pool.routes.map RouteRow.id) =
        some ["users"] := rfl
    rw [hs] at hpool
    exact Option.some.inj hpool

end Yali
