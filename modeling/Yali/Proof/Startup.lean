import Yali.Proof.Codec
import Yali.Proof.Init
import Yali.Proof.Serve

/-!
# What a new subscriber is sent first

A control plane starts, serves requests one at a time, loses and gains subscribers
and is restarted. A new subscriber is sent the value held (`firstSnapshot_eq`), which
`send` changes only while somebody listens. So the first snapshot has the stored
routes as long as no process starts over a non-empty table and no request changes
the routes unheard (`fresh_iff_heard`).
-/

namespace Yali

open Conc

variable (E : Env)

/-! ## The life of a control plane -/

/-- What happens to a control plane between two calls of `subscribe`. -/
inductive CpEvent
  | request (req : Request)
  | connect
  | disconnect
  | restart

/-- The channel of a process is replaced. -/
def AppState.setTx (s : AppState) (tx : Channel Proto.Snapshot) : AppState :=
  { s with configState := { s.configState with tx := tx } }

/-- A restarted process finds the file its predecessor left. -/
def cpNext (s : AppState) : CpEvent → AppState
  | .request req => (serve E noFault req s).2
  | .connect => s.setTx (subscribe s.configState.tx).2
  | .disconnect => s.setTx s.configState.tx.unsubscribe
  | .restart => (buildStateAndListener E (.of s.pool)).getD s

def cpRun (s : AppState) (es : List CpEvent) : AppState := es.foldl (cpNext E) s

/-- What a call of `subscribe` sends first: the call runs to its end and its stream
is polled. -/
def firstSnapshot (tx : Channel Proto.Snapshot) : Option Proto.Snapshot :=
  let (sub, tx') := subscribe tx
  match (sub.advance tx').advance tx' with
  | .streaming stream => (stream.poll tx').map Prod.fst
  | _ => none

theorem firstSnapshot_eq (tx : Channel Proto.Snapshot) : firstSnapshot tx = some tx.value := rfl

/-- A client that subscribes now is first sent the routes that `list_routes` returns now. -/
def Fresh (s : AppState) : Prop :=
  ∃ snapshot, firstSnapshot s.configState.tx = some snapshot ∧
    snapshot.routes = (s.pool.specs E).map routeToProto

/-- The change of the routes by an event reaches the channel: a request changes the
routes only while a subscriber is connected, a process starts only over an empty table. -/
def Heard (s : AppState) : CpEvent → Prop
  | .request req => s.configState.tx.receivers = 0 → req.Admissible E s.pool →
      (req.written E s.pool).protoRoutes E = s.pool.protoRoutes E
  | .restart => s.pool.routes = []
  | _ => True

/-- Every event of the run is heard. -/
def AllHeard (s : AppState) : List CpEvent → Prop
  | [] => True
  | e :: es => Heard E s e ∧ AllHeard (cpNext E s e) es

variable {E}

/-! ## Starting -/

/-- **A process comes up holding the empty snapshot**, whatever is stored. -/
theorem build_eq (f : DbFile) :
    buildStateAndListener E f = some ⟨f.migrated, ⟨1, .new ⟨0, []⟩⟩⟩ := by
  have hi : f.init = (.ok (), f.init.2) := by rw [init_run]
  unfold buildStateAndListener
  rw [hi]
  simp only [init_tables, publishFromDb_run, noFault]
  rfl

theorem build_some {f : DbFile} {s : AppState} (h : buildStateAndListener E f = some s) :
    s.pool = f.migrated ∧ s.configState.tx = .new ⟨0, []⟩ := by
  obtain rfl := Option.some.inj ((build_eq f).symm.trans h)
  exact ⟨rfl, rfl⟩

/-! ## One event -/

theorem fresh_iff {s : AppState} : Fresh E s ↔ s.configState.tx.value.routes = s.pool.protoRoutes E := by
  unfold Fresh
  simp only [firstSnapshot_eq, Option.some.injEq, exists_eq_left']
  exact Iff.rfl

theorem of_migrated_routes (db : Tables) : (DbFile.of db).migrated.routes = db.routes := rfl

/-- **One event**: the next subscriber is up to date exactly when the event is heard. -/
theorem fresh_next {s : AppState} (e : CpEvent) (h : Fresh E s) : Fresh E (cpNext E s e) ↔ Heard E s e := by
  have hval := fresh_iff.1 h
  rw [fresh_iff]
  cases e with
  | connect => exact iff_of_true hval trivial
  | disconnect => exact iff_of_true hval trivial
  | request req =>
    have hc := serve_cases (E := E) noFault req s
    simp only [cpNext, Heard]
    generalize serve E noFault req s = r at hc
    cases hc with
    | refused hno err he =>
      refine iff_of_true hval ?_
      intro _ hadm
      exact absurd ⟨hadm, fun _ _ => rfl⟩ hno
    | unpublished hadm hf hu err => exact absurd rfl hu
    | published hadm hf hu =>
      by_cases hr : s.configState.tx.receivers = 0
      · -- nobody listens: the value held stays the old one
        simp only [AppState.publish, Channel.send_of_none hr, hval]
        constructor
        · intro heq _ _
          exact heq.symm
        · intro hall
          exact (hall hr hadm).symm
      · -- somebody listens: the value held is what was just listed
        refine iff_of_true ?_ fun h0 => absurd h0 hr
        simp only [AppState.publish, Channel.send_value hr]
        rfl
  | restart =>
    have hnext : cpNext E s .restart = ⟨(DbFile.of s.pool).migrated, ⟨1, .new ⟨0, []⟩⟩⟩ := by
      unfold cpNext
      rw [build_eq]
      rfl
    -- the first publication finds nobody: the value held is the empty snapshot
    rw [hnext]
    simp only [Heard]
    rw [protoRoutes_congr (of_migrated_routes s.pool), ← protoRoutes_nil (E := E)]
    exact eq_comm

/-! ## Runs -/

theorem fresh_run {es : List CpEvent} {s : AppState} (h : Fresh E s) :
    (∀ n, Fresh E (cpRun E s (es.take n))) ↔ AllHeard E s es := by
  induction es generalizing s with
  | nil => simpa [cpRun, AllHeard] using h
  | cons e es ih =>
    constructor
    · intro hall
      have h1 : Fresh E (cpNext E s e) := hall 1
      have hheard : Heard E s e := (fresh_next e h).1 h1
      have hrest : AllHeard E (cpNext E s e) es := (ih h1).1 fun n => hall (n + 1)
      exact ⟨hheard, hrest⟩
    · rintro ⟨hheard, hrest⟩ n
      have h1 := (fresh_next e h).2 hheard
      cases n with
      | zero => exact h
      | succ n => exact (ih h1).2 hrest n

/-- **When every new subscriber starts from the stored configuration**: a process comes up
over any file, and this is so exactly in the runs where none starts over stored routes and
no request changes the routes while nobody is connected. -/
theorem fresh_iff_heard (f : DbFile) (es : List CpEvent) :
    ∃ s, buildStateAndListener E f = some s ∧
      ((∀ n, Fresh E (cpRun E s (es.take n))) ↔ f.routes.getD [] = [] ∧ AllHeard E s es) := by
  refine ⟨_, build_eq f, ?_⟩
  have hstart : Fresh E ⟨f.migrated, ⟨1, .new ⟨0, []⟩⟩⟩ ↔ f.routes.getD [] = [] := by
    have hr : f.migrated.routes = f.routes.getD [] := rfl
    rw [fresh_iff, ← hr, ← protoRoutes_nil (E := E)]
    exact eq_comm
  constructor
  · intro hall
    have h0 := hall 0
    exact ⟨hstart.1 h0, (fresh_run h0).1 hall⟩
  · intro h
    obtain ⟨hnil, hheard⟩ := h
    exact (fresh_run (hstart.2 hnil)).2 hheard

namespace Sample

/-- Routes are created and removed while somebody is connected. In between the subscribers
change; a request that is refused and a restart find the table empty or nothing to change. -/
def subscribers : List CpEvent :=
  [.connect, .request (.createRoute users), .connect, .disconnect, .request (.createRoute orders),
    .request (.deleteRoute "users"), .disconnect, .request (.createRoute orders), .connect,
    .request (.deleteRoute "orders"), .disconnect, .restart, .connect, .request (.createRoute users)]

/-- A file with one stored route. -/
def oneRoute : DbFile := ⟨none, some [Db.routeRow Env.plain users]⟩

end Sample

/-- In such a run every subscriber is up to date, also between the changes. -/
theorem fresh_iff_heard_subscribers :
    ∃ s, buildStateAndListener Env.plain ⟨none, none⟩ = some s ∧
      (∀ n, Fresh Env.plain (cpRun Env.plain s (Sample.subscribers.take n))) ∧
      (cpRun Env.plain s (Sample.subscribers.take 5)).pool.routes.length = 2 := by
  obtain ⟨s, hs, hiff⟩ := fresh_iff_heard (E := .plain) ⟨none, none⟩ Sample.subscribers
  refine ⟨s, hs, hiff.2 ⟨rfl, ?_⟩, ?_⟩
  · obtain rfl : ⟨⟨[], []⟩, ⟨1, .new ⟨0, []⟩⟩⟩ = s := Option.some.inj hs
    -- somebody is connected at every creation and deletion but one, which is refused
    refine ⟨trivial, fun h => absurd h (by decide), trivial, trivial, fun h => absurd h (by decide),
      fun h => absurd h (by decide), trivial, ?_, trivial, fun h => absurd h (by decide), trivial, rfl,
      trivial, fun h => absurd h (by decide), trivial⟩
    intro _ hadm
    exact absurd rfl (hadm.2 (Db.routeRow .plain Sample.orders) List.mem_cons_self)
  · obtain rfl : ⟨⟨[], []⟩, ⟨1, .new ⟨0, []⟩⟩⟩ = s := Option.some.inj hs
    rfl

/-- The control plane starts over one stored route and sends its first subscriber none. -/
theorem restart_sends_nothing :
    ∃ s snapshot, buildStateAndListener Env.plain Sample.oneRoute = some s ∧ s.pool.routes.length = 1 ∧
      firstSnapshot s.configState.tx = some snapshot ∧ snapshot.routes = [] ∧ ¬ Fresh Env.plain s := by
  refine ⟨⟨Sample.oneRoute.migrated, ⟨1, .new ⟨0, []⟩⟩⟩, ⟨0, []⟩, rfl, rfl, rfl, rfl, ?_⟩
  intro h
  obtain ⟨snapshot, hs, heq⟩ := h
  obtain rfl : (⟨0, []⟩ : Proto.Snapshot) = snapshot := Option.some.inj hs
  have hnil := specs_nil.1 (List.map_eq_nil_iff.1 heq.symm)
  exact absurd hnil (by simp [Sample.oneRoute, DbFile.migrated])

end Yali
