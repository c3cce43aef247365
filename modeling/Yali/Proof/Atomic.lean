import Yali.Proof.Codec
import Yali.Proof.Publish

/-!
# Failed requests

A request answers with an error after its write exactly when the read of the
publication fails: nothing takes the write back, and the snapshot held is the one from
before. `serve_atomic` says this is the only way a failed request leaves a trace.

A write that takes effect is a trace of its own (`Request.Commits`): an `UPDATE` to the
values stored moves `updated_at`, which the rows here do not have.
-/

namespace Yali

open Conc

variable {E : Env}

/-! ## Writes that take effect -/

/-- Run on its own, the request makes a write that takes effect. -/
def Request.Commits (E : Env) (faults : ℕ → Option SqlxError) (req : Request) (s : AppState) : Prop :=
  (handle E req).Does exec Op.Wrote faults s

/-- The steps around the write take no effect. -/
theorem check_quiet (req : Request) (c : ℕ → Option SqlxError) (s : AppState) :
    ¬ (req.check E).Does exec Op.Wrote c s := by
  have hread : ∀ (o : Op) (r : o.Res), o.isPolicyRead = true → ¬ o.Wrote r := by
    intro o r ho
    cases o <;> first | exact id | exact absurd ho Bool.false_ne_true
  have hfollows : (req.check E).Follows (fun (_ : Unit) o r _ => ¬ o.Wrote r) (fun _ m => m = ())
      (fun _ => True) () := check_follows hread trivial req
  exact hfollows.not_does (fun _ _ _ _ h => h) c s

theorem publishAndReply_quiet (reply : Reply) (c : ℕ → Option SqlxError) (s : AppState) :
    ¬ (publishAndReply E reply).Does exec Op.Wrote c s := by
  have hfollows : (publishAndReply E reply).Follows (fun (_ : Unit) o r _ => ¬ o.Wrote r)
      (fun _ _ => True) (fun _ => True) () := by
    intro r
    refine ⟨(), id, ?_⟩
    cases r with
    | error e => trivial
    | ok rows => exact fun _ => ⟨(), id, fun _ => ⟨(), id, trivial⟩⟩
  exact hfollows.not_does (fun _ _ _ _ h => h) c s

theorem write_commits (req : Request) (c : ℕ → Option SqlxError) (s : AppState) :
    (req.write E).Does exec Op.Wrote c s ↔ ((req.write E).run exec c s).1 = .ok () := by
  rw [Request.write_run]
  simp only [answer_ok, Request.write, Prog.Does]
  refine or_iff_left ?_
  cases req.answer E (exec (c 0) (req.writeOp E) s).1 <;> exact id

/-- The checks and the write commit exactly when they end well. -/
theorem change_commits (req : Request) (c : ℕ → Option SqlxError) (s : AppState) :
    (req.change E).Does exec Op.Wrote c s ↔ ((req.change E).run exec c s).1 = .ok () := by
  rw [Request.change_eq, Prog.does_bind, or_iff_right (check_quiet req c s), Prog.run_bind]
  rcases (req.check E).run exec c s with ⟨_ | u, s', c'⟩
  · simp
  · exact write_commits req c' s'

/-- **A request commits** exactly when it is admissible and no statement up to its write
fails. -/
theorem commits_iff {faults : ℕ → Option SqlxError} {req : Request} {s : AppState} :
    req.Commits E faults s ↔ req.Admissible E s.pool ∧ ∀ i ≤ req.reads, faults i = none := by
  have hc := req.change_run (E := E) faults s
  have hrest : req.Commits E faults s ↔ (req.change E).Does exec Op.Wrote faults s := by
    unfold Request.Commits
    rw [handle_eq, Prog.does_bind]
    refine or_iff_left ?_
    rcases (req.change E).run exec faults s with ⟨_ | u, s', c'⟩
    · exact id
    · exact publishAndReply_quiet req.reply c' s'
  rw [hrest, change_commits]
  generalize (req.change E).run exec faults s = q at hc
  cases hc with
  | written h hf => simpa using ⟨h, hf⟩
  | refused h err c' he => simpa using fun h' => not_and.1 h h'

/-! ## The law -/

/-- A request leaves no trace unless it succeeds: with an error no write has taken effect,
and the tables and the snapshot held are as before; with a success the snapshot held has
the routes stored. -/
def Atomic (E : Env) (faults : ℕ → Option SqlxError) (req : Request) (s : AppState) : Prop :=
  match serve E faults req s with
  | (.error _, s') => ¬ req.Commits E faults s ∧ s'.pool = s.pool ∧
      s'.configState.tx.value = s.configState.tx.value
  | (.ok _, s') => s'.configState.tx.value.routes = (s'.pool.specs E).map routeToProto

/-- The snapshot held once routes are published to a subscriber. -/
theorem publish_value {s : AppState} (hs : s.configState.tx.receivers ≠ 0) (routes : List RouteSpec) :
    (s.publish routes).configState.tx.value = ⟨s.configState.version + 1, routes.map routeToProto⟩ :=
  Channel.send_value hs

/-- **A request is atomic unless it is written and the read of the publication fails.** -/
theorem serve_atomic (E : Env) (faults : ℕ → Option SqlxError) (req : Request) (s : AppState)
    (hs : s.configState.tx.receivers ≠ 0) :
    Atomic E faults req s ↔
      ¬ (req.Admissible E s.pool ∧ (∀ i ≤ req.reads, faults i = none) ∧ faults (req.reads + 1) ≠ none) := by
  have hc := serve_cases (E := E) faults req s
  unfold Atomic
  rw [commits_iff]
  generalize serve E faults req s = r at hc
  cases hc with
  | refused h err he =>
    -- nothing was written
    constructor
    · intro _ hbad
      obtain ⟨hadm, hf, -⟩ := hbad
      exact h ⟨hadm, hf⟩
    · exact fun _ => ⟨h, rfl, rfl⟩
  | unpublished h hf hu err =>
    -- the write stays, the snapshot held is the old one
    constructor
    · intro hatomic _
      obtain ⟨hno, -⟩ := hatomic
      exact hno ⟨h, hf⟩
    · intro hno
      exact absurd ⟨h, hf, hu⟩ hno
  | published h hf hu =>
    constructor
    · intro _ hbad
      obtain ⟨-, -, hu'⟩ := hbad
      exact hu' hu
    · intro _
      have hv := publish_value (s := { s with pool := req.written E s.pool }) hs
        ((req.written E s.pool).specs E)
      exact congrArg Proto.Snapshot.routes hv

namespace Sample

/-- An empty store with one subscriber. -/
def subscribed : AppState := ⟨⟨[], []⟩, ⟨0, ⟨⟨0, []⟩, [], 1⟩⟩⟩

/-- The second operation fails: for `users`, the read of the publication. -/
def readFails : ℕ → Option SqlxError
  | 1 => some (.other "database is locked")
  | _ => none

end Sample

/-- With no failing statement the route is stored and the snapshot held has it; with the read
of the publication failing it is not atomic. -/
theorem serve_atomic_users :
    Sample.subscribed.configState.tx.receivers ≠ 0 ∧
      Atomic Env.plain noFault (.createRoute Sample.users) Sample.subscribed ∧
      (serve Env.plain noFault (.createRoute Sample.users) Sample.subscribed).2.configState.tx.value.routes =
        [routeToProto Sample.users] ∧
      ¬ Atomic Env.plain Sample.readFails (.createRoute Sample.users) Sample.subscribed := by
  have hs : Sample.subscribed.configState.tx.receivers ≠ 0 := by decide
  have hadm : (Request.createRoute Sample.users).Admissible Env.plain Sample.subscribed.pool :=
    ⟨by simp [Sample.users], by simp [Sample.subscribed]⟩
  have hatomic : Atomic Env.plain noFault (.createRoute Sample.users) Sample.subscribed := by
    refine (serve_atomic Env.plain noFault (.createRoute Sample.users) Sample.subscribed hs).2 ?_
    intro h
    exact h.2.2 rfl
  refine ⟨hs, hatomic, ?_, ?_⟩
  · have hread : Db.rowToRoute Env.plain (Db.routeRow Env.plain Sample.users) = Sample.users :=
      rowToRoute_routeRow Env.plain_lawful (by simp [Sample.users])
    have hvalue : (serve Env.plain noFault (.createRoute Sample.users)
        Sample.subscribed).2.configState.tx.value.routes =
          [routeToProto (Db.rowToRoute Env.plain (Db.routeRow Env.plain Sample.users))] := hatomic
    rw [hvalue, hread]
  · intro h
    refine (serve_atomic Env.plain Sample.readFails (.createRoute Sample.users) Sample.subscribed hs).1 h
      ⟨hadm, ?_, by decide⟩
    intro i hi
    obtain rfl : i = 0 := Nat.le_zero.1 hi
    rfl

/-- The created route is stored, the answer is a 500. -/
theorem createRoute_leaves_row :
    status (serve Env.plain Sample.readFails (.createRoute Sample.users) Sample.subscribed).1 =
        .internalServerError ∧
      (serve Env.plain Sample.readFails (.createRoute Sample.users) Sample.subscribed).2.pool.routes.length = 1 ∧
      ¬ Atomic Env.plain Sample.readFails (.createRoute Sample.users) Sample.subscribed := by
  have hlen : (serve Env.plain Sample.readFails (.createRoute Sample.users)
      Sample.subscribed).2.pool.routes.length = 1 := rfl
  refine ⟨rfl, hlen, ?_⟩
  intro h
  obtain ⟨-, hpool, -⟩ := h
  exact absurd ((congrArg (fun db : Tables => db.routes.length) hpool).symm.trans hlen) (by decide)

end Yali
