import Mathlib.Data.Nat.SuccPred
import Mathlib.Order.SuccPred.Archimedean
import Yali.Proof.Snapshots

/-!
# Concurrent changes

A publication reads the routes and sends them in two steps, and the channel keeps what is
sent last. So what it holds in the end is what the last to send has read (`sent_read`), and
the changes of a run converge exactly when that read is not out of date (`converges_iff`):
every route that is written after it is left, by the last of these writes, as it was read
(`LeftAs`). A read after which no write takes effect never is (`leftAs_of_unwritten`).

* `staged_run`: what a request has written, read and sent, by its mode.
* `row_last`: what a route is after the last of its writes.
-/

namespace Yali

open Conc

variable (E : Env)

/-! ## The runs -/

/-- Requests are started and take their steps, no statement fails and no request is
dropped; somebody is subscribed. -/
def Serving (g : Gateway) (e : Event) : Prop :=
  g.st.tx.receivers ≠ 0 ∧
    match e with
    | .start p => ∃ req, p = handle E req
    | .step _ fault => fault = none
    | .stop _ => False
    | .ext _ => True

/-- Every event of the run is served. -/
def Served (g : Gateway) (es : List Event) : Prop :=
  ∀ n (h : n < es.length), Serving E (g.wAt es n) es[n]

/-- Event `n` is a write of route `id` that takes effect and leaves the row, or none. -/
def RewroteAt (g : Gateway) (es : List Event) (n : ℕ) (id : String) (left : Option RouteRow) : Prop :=
  ∃ t c o k, es[n]? = some (.step t c) ∧ (g.wAt es n).task t = some (.op o k) ∧
    o.Wrote (World.exec c o (g.wAt es n).st).1 ∧ o.rewrites = some (id, left)

/-- Request `t` sends at event `n`, and nobody later. -/
def LastSend (g : Gateway) (es : List Event) (n t : ℕ) : Prop :=
  (∃ snapshot, SentAt g es n t snapshot) ∧ ∀ m u snapshot, n < m → ¬ SentAt g es m u snapshot

/-- What subscribers see of a row. -/
def rowToProto (row : RouteRow) : Proto.Route := routeToProto (Db.rowToRoute E row)

/-- Every route that is written from event `n` on is left, by the last of these writes, as it
was at `n`, so far as subscribers see. -/
def LeftAs (g : Gateway) (es : List Event) (n : ℕ) : Prop :=
  ∀ m id left, n ≤ m → RewroteAt g es m id left → (∀ m' left', m < m' → ¬ RewroteAt g es m' id left') →
    left.map (rowToProto E) = ((g.wAt es n).st.cp.pool.selectRoute id).map (rowToProto E)

variable {E}

/-- Of the events of a kind that a run has, one is the last. -/
theorem exists_last {P : ℕ → Prop} {N : ℕ} (hN : ∀ m, P m → m < N) (h : ∃ m, P m) :
    ∃ m, P m ∧ ∀ m', m < m' → ¬ P m' := by
  have hbdd : BddAbove {m | P m} := ⟨N, fun m hm => (hN m hm).le⟩
  obtain ⟨m, hm, hmax⟩ := hbdd.exists_isGreatest_of_nonempty h
  exact ⟨m, hm, fun m' hlt hm' => absurd (hmax hm') (Nat.not_le.2 hlt)⟩

/-! ## The rows -/

section Rows

variable {g : Gateway} {es : List Event}

/-- **What an event does to the row of a route.** -/
theorem row_succ (g : Gateway) (es : List Event) {n : ℕ} (hn : n < es.length) (id : String) :
    (∃ left, RewroteAt g es n id left ∧ (g.wAt es (n + 1)).st.cp.pool.selectRoute id = left) ∨
      (∀ left, ¬ RewroteAt g es n id left) ∧
        (g.wAt es (n + 1)).st.cp.pool.selectRoute id = (g.wAt es n).st.cp.pool.selectRoute id := by
  have hget : es[n]? = some es[n] := List.getElem?_eq_getElem hn
  have hnext := Gateway.wAt_succ g es hn
  -- an event that is no operation of a request
  have hidle : (∀ t c o k, es[n] = .step t c → (g.wAt es n).task t ≠ some (.op o k)) →
      ∀ left, ¬ RewroteAt g es n id left := by
    rintro hno left ⟨t, c, o, k, he, ht, -⟩
    exact hno t c o k (Option.some.inj (hget.symm.trans he)) ht
  cases he : es[n] with
  | start p =>
    rw [he] at hnext hidle
    exact Or.inr ⟨hidle nofun, by rw [hnext]; rfl⟩
  | stop t =>
    rw [he] at hnext hidle
    exact Or.inr ⟨hidle nofun, by rw [hnext]; rfl⟩
  | ext a =>
    rw [he] at hnext hidle
    refine Or.inr ⟨hidle nofun, ?_⟩
    rw [hnext]
    exact congrArg (fun db => Tables.selectRoute db id) (act_pool _ a)
  | step t c =>
    rw [he] at hnext hidle hget
    rcases Gateway.step_cases (g.wAt es n) t c with ⟨o, k, ht, hst⟩ | ⟨hno, hst⟩
    · -- the operation is the one that the request has next
      have hop : ∀ left, RewroteAt g es n id left →
          o.Wrote (World.exec c o (g.wAt es n).st).1 ∧ o.rewrites = some (id, left) := by
        rintro left ⟨t', c', o', k', he', ht', hw, hr⟩
        obtain ⟨rfl, rfl⟩ : t = t' ∧ c = c' := by simpa using hget.symm.trans he'
        rw [ht] at ht'
        cases ht'
        exact ⟨hw, hr⟩
      rw [hnext, hst]
      by_cases hw : o.Wrote (World.exec c o (g.wAt es n).st).1
      · cases hr : o.rewrites with
        | none =>
          refine Or.inr ⟨fun left h => absurd (hr.symm.trans (hop left h).2) (by simp), ?_⟩
          unfold Tables.selectRoute
          rw [exec_routes_same hr]
        | some write =>
          obtain ⟨id', left⟩ := write
          have hrow := exec_selectRoute hr hw id
          by_cases hid : id = id'
          · rw [if_pos hid] at hrow
            exact Or.inl ⟨left, ⟨t, c, o, k, hget, ht, hw, by rw [hid]; exact hr⟩, hrow⟩
          · rw [if_neg hid] at hrow
            refine Or.inr ⟨fun left' h => hid ?_, hrow⟩
            exact (Prod.mk.inj (Option.some.inj (hr.symm.trans (hop left' h).2))).1.symm
      · exact Or.inr ⟨fun left h => hw (hop left h).1,
          congrArg (fun db => Tables.selectRoute db id) (exec_unwritten hw)⟩
    · rw [hst] at hnext
      refine Or.inr ⟨hidle ?_, by rw [hnext]⟩
      rintro t' c' o k ⟨⟩
      exact hno o k

theorem RewroteAt.lt {n : ℕ} {id : String} {left : Option RouteRow} (h : RewroteAt g es n id left) :
    n < es.length := by
  obtain ⟨t, c, o, k, he, -⟩ := h
  exact (List.getElem?_eq_some_iff.1 he).1

/-- A write of a route is one that takes effect. -/
theorem RewroteAt.wrote {n : ℕ} {id : String} {left : Option RouteRow} (h : RewroteAt g es n id left) :
    ∃ t, WroteAt g es n t := by
  obtain ⟨t, c, o, k, he, ht, hw, -⟩ := h
  exact ⟨t, c, o, k, he, ht, hw⟩

/-- **A route that is not written stays.** -/
theorem row_still {m : ℕ} {id : String} (hno : ∀ n left, m ≤ n → ¬ RewroteAt g es n id left) {n : ℕ}
    (hmn : m ≤ n) :
    (g.wAt es n).st.cp.pool.selectRoute id = (g.wAt es m).st.cp.pool.selectRoute id := by
  refine Pool.wAt_rel World.exec (fun a w => World.act w a)
    (R := fun w w' : World => w'.cp.pool.selectRoute id = w.cp.pool.selectRoute id) (fun _ => rfl)
    (fun _ _ _ h h' => h'.trans h) (fun n hn hlt => ?_) hmn
  rcases row_succ g es hlt id with ⟨left, hw, -⟩ | ⟨-, hsame⟩
  · exact absurd hw (hno n left hn)
  · exact hsame

/-- **The last write of a route** is what is left of it. -/
theorem row_last {m : ℕ} {id : String} {left : Option RouteRow} (h : RewroteAt g es m id left)
    (hlast : ∀ m' left', m < m' → ¬ RewroteAt g es m' id left') :
    (g.run es).st.cp.pool.selectRoute id = left := by
  have hstill := row_still (m := m + 1) (fun n left' hn => hlast n left' hn) (Nat.succ_le_of_lt h.lt)
  rw [Gateway.wAt_length] at hstill
  rw [hstill]
  rcases row_succ g es h.lt id with ⟨left', hw, hrow⟩ | ⟨hno, -⟩
  · obtain ⟨t, c, o, k, he, ht, -, hr⟩ := h
    obtain ⟨t', c', o', k', he', ht', -, hr'⟩ := hw
    obtain ⟨rfl, rfl⟩ : t = t' ∧ c = c' := by simpa using he.symm.trans he'
    rw [ht] at ht'
    cases ht'
    rw [hrow]
    exact (Prod.mk.inj (Option.some.inj (hr'.symm.trans hr))).2
  · exact absurd h (hno left)

theorem nodup_run (es : List Event) (h : (g.st.cp.pool.routes.map RouteRow.id).Nodup) :
    ((g.run es).st.cp.pool.routes.map RouteRow.id).Nodup := by
  refine Pool.run_inv (J := fun g : Gateway => (g.st.cp.pool.routes.map RouteRow.id).Nodup) ?_ es h
  intro g e h
  cases e with
  | start p => exact h
  | stop t => exact h
  | ext a =>
    change ((g.st.act a).cp.pool.routes.map RouteRow.id).Nodup
    rwa [act_pool]
  | step t c =>
    rcases Pool.step_cases World.exec (fun a w => World.act w a) g t c with ⟨o, k, -, hn⟩ | ⟨-, hn⟩
    · rw [hn]
      exact exec_nodup c o h
    · rwa [hn]

/-- Subscribers see the same of two tables exactly when they see the same of every route. -/
theorem protoRoutes_iff {db db' : Tables} (hdb : (db.routes.map RouteRow.id).Nodup)
    (hdb' : (db'.routes.map RouteRow.id).Nodup) :
    db.protoRoutes E = db'.protoRoutes E ↔
      ∀ id, (db.selectRoute id).map (rowToProto E) = (db'.selectRoute id).map (rowToProto E) := by
  have hkey : ∀ row, (rowToProto E row).id = row.id := fun _ => rfl
  have hproto : ∀ db : Tables, db.protoRoutes E = db.selectRoutes.map (rowToProto E) := fun db => List.map_map
  have hperm : ∀ db : Tables, (db.protoRoutes E).Perm (db.routes.map (rowToProto E)) := by
    intro db
    rw [hproto]
    exact (List.perm_insertionSort _ db.routes).map _
  constructor
  · intro h id
    have halike : Keyed.ReadAlike (rowToProto E) db.routes db'.routes :=
      (hperm db).symm.trans (h ▸ hperm db')
    exact halike.find hkey hdb id
  · intro h
    rw [hproto, hproto]
    exact (Keyed.ReadAlike.of_find hkey hdb hdb' h).sort hkey hdb

/-- **A read is not out of date** in the end exactly when the routes written after it are left
as they were. -/
theorem leftAs_iff (hg : (g.st.cp.pool.routes.map RouteRow.id).Nodup) {n : ℕ} (hn : n ≤ es.length) :
    (g.wAt es n).st.cp.pool.protoRoutes E = (g.run es).st.cp.pool.protoRoutes E ↔ LeftAs E g es n := by
  have hkeys : ((g.wAt es n).st.cp.pool.routes.map RouteRow.id).Nodup := nodup_run (es.take n) hg
  rw [protoRoutes_iff hkeys (nodup_run es hg)]
  constructor
  · intro h m id left _ hw hlast
    rw [h id, row_last hw hlast]
  · intro h id
    by_cases hany : ∃ m, n ≤ m ∧ ∃ left, RewroteAt g es m id left
    · -- the last of the writes decides
      obtain ⟨m, ⟨hnm, left, hw⟩, hmax⟩ := exists_last (fun m hm => hm.2.choose_spec.lt) hany
      have hlast : ∀ m' left', m < m' → ¬ RewroteAt g es m' id left' :=
        fun m' left' hm' hw' => hmax m' hm' ⟨hnm.trans hm'.le, left', hw'⟩
      rw [row_last hw hlast]
      exact (h m id left hnm hw hlast).symm
    · have hno : ∀ m left, n ≤ m → ¬ RewroteAt g es m id left :=
        fun m left hm hw => hany ⟨m, hm, left, hw⟩
      have hstill := row_still hno hn
      rw [Gateway.wAt_length] at hstill
      rw [hstill]

/-- A read after which no write takes effect is not out of date. -/
theorem leftAs_of_unwritten {n : ℕ} (h : ∀ m u, n ≤ m → ¬ WroteAt g es m u) : LeftAs E g es n := by
  intro m id left hm hw
  obtain ⟨u, hwrote⟩ := hw.wrote
  exact absurd hwrote (h m u hm)

end Rows

/-! ## The stages of a request -/

/-- Request `t` has read the routes once among the first `n` events, and carries those stored
then. -/
def ReadOnce (E : Env) (g : Gateway) (es : List Event) (n t : ℕ) (routes : List Proto.Route) : Prop :=
  ∃ r < n, ReadAt g es r t ∧ StoredAt E g es r routes ∧ ∀ a < n, ReadAt g es a t → a = r

/-- What the mode of request `t` says of the first `n` events, if none of its statements
fails. -/
def Staged (E : Env) (g : Gateway) (es : List Event) (n t : ℕ) : Mode → Prop
  | .working => ∀ a < n, ¬ WroteAt g es a t ∧ ¬ ReadAt g es a t
  | .owes => ∀ a < n, ¬ ReadAt g es a t
  | .carries routes => ReadOnce E g es n t routes
  | .sends snapshot => ReadOnce E g es n t snapshot.routes
  | .finished => (∃ a < n, WroteAt g es a t) → ∃ b snapshot, SentAt g es b t snapshot

section Stages

variable {g : Gateway} {es : List Event} {n t : ℕ}

theorem ReadOnce.succ {routes : List Proto.Route} (h : ReadOnce E g es n t routes) (hno : ¬ ReadAt g es n t) :
    ReadOnce E g es (n + 1) t routes := by
  obtain ⟨r, hr, hread, hstored, honly⟩ := h
  refine ⟨r, Nat.lt_succ_of_lt hr, hread, hstored, ?_⟩
  intro a ha haread
  rcases Nat.lt_succ_iff_lt_or_eq.1 ha with ha | rfl
  · exact honly a ha haread
  · exact absurd haread hno

/-- An event at which the request neither writes nor reads. -/
theorem Staged.succ {m : Mode} (h : Staged E g es n t m) (hwrote : ¬ WroteAt g es n t)
    (hread : ¬ ReadAt g es n t) : Staged E g es (n + 1) t m := by
  cases m with
  | working =>
    intro a ha
    rcases Nat.lt_succ_iff_lt_or_eq.1 ha with ha | rfl
    · exact h a ha
    · exact ⟨hwrote, hread⟩
  | owes =>
    intro a ha
    rcases Nat.lt_succ_iff_lt_or_eq.1 ha with ha | rfl
    · exact h a ha
    · exact hread
  | carries routes => exact ReadOnce.succ h hread
  | sends snapshot => exact ReadOnce.succ h hread
  | finished =>
    rintro ⟨a, ha, hw⟩
    rcases Nat.lt_succ_iff_lt_or_eq.1 ha with ha | rfl
    · exact h ⟨a, ha, hw⟩
    · exact absurd hw hwrote

/-- **An operation of the request** takes it from stage to stage. -/
theorem Staged.step {m m' : Mode} (h : Staged E g es n t m) {o : Op} {k : o.Res → Handler}
    (he : es[n]? = some (.step t none)) (ht : (g.wAt es n).task t = some (.op o k))
    (hphase : Phase E m o (World.exec none o (g.wAt es n).st).1 m') : Staged E g es (n + 1) t m' := by
  have hread : o ≠ .selectRoutes → ¬ ReadAt g es n t := by
    rintro ho ⟨c, k', -, ht'⟩
    rw [ht] at ht'
    cases ht'
    exact ho rfl
  have hwrote : ¬ o.Wrote (World.exec none o (g.wAt es n).st).1 → ¬ WroteAt g es n t := by
    rintro ho ⟨c, o', k', he', ht', hw⟩
    obtain rfl : none = c := by simpa using he.symm.trans he'
    rw [ht] at ht'
    cases ht'
    exact ho hw
  generalize hres : (World.exec none o (g.wAt es n).st).1 = r at hphase hwrote
  cases hphase with
  | read ho r =>
    refine Staged.succ (m := .working) h (hwrote ?_) (hread ?_)
    · cases o <;> first | exact id | exact absurd ho Bool.false_ne_true
    · rintro rfl
      exact absurd ho Bool.false_ne_true
  | wrote hw r hwr =>
    have hno : ¬ ReadAt g es n t := by
      refine hread ?_
      rintro rfl
      exact absurd hw Bool.false_ne_true
    intro a ha
    rcases Nat.lt_succ_iff_lt_or_eq.1 ha with ha | rfl
    · exact (h a ha).2
    · exact hno
  | refused hw r hno =>
    rintro ⟨a, ha, hwa⟩
    rcases Nat.lt_succ_iff_lt_or_eq.1 ha with ha | rfl
    · exact absurd hwa (h a ha).1
    · exact absurd hwa (hwrote hno)
  | listed rows =>
    -- what is read is what is stored
    obtain rfl : (g.wAt es n).st.cp.pool.selectRoutes = rows := Except.ok.inj hres
    refine ⟨n, Nat.lt_succ_self n, ⟨none, k, he, ht⟩, rfl, ?_⟩
    intro a ha haread
    rcases Nat.lt_succ_iff_lt_or_eq.1 ha with ha | rfl
    · exact absurd haread (h a ha)
    · rfl
  | unlisted e => exact absurd hres (by simp [World.exec, exec, statement])
  | counted routes version => exact ReadOnce.succ h (hread (by simp))
  | sent snapshot =>
    intro _
    obtain ⟨hn, hget⟩ := List.getElem?_eq_some_iff.1 he
    refine ⟨n, snapshot, ⟨none, k, he, ht⟩, ?_⟩
    rw [Gateway.wAt_succ g es hn, hget, Gateway.next_step ht]
    rfl

end Stages

section Runs

variable {w : World} {es : List Event}

/-- What is served at an event of the run. -/
theorem Served.event (hs : Served E (.idle w) es) {n : ℕ} {e : Event} (he : es[n]? = some e) :
    Serving E (Gateway.wAt (.idle w) es n) e := by
  obtain ⟨hn, rfl⟩ := List.getElem?_eq_some_iff.1 he
  exact hs n hn

/-- **Along a run** every request has done what its mode says. -/
theorem staged_run (hs : Served E (.idle w) es) {n : ℕ} (hn : n ≤ es.length) :
    ∃ mode : ℕ → Mode, Pool.Tagged (Phase E) Replied Failed (Gateway.wAt (.idle w) es n) mode ∧
      ∀ t < (Gateway.wAt (.idle w) es n).count, Staged E (.idle w) es n t (mode t) := by
  refine Pool.traced_run w (J := Staged E (.idle w) es) ?_ ?_ ?_ hn
  · intro n p he
    obtain ⟨-, req, rfl⟩ := hs.event he
    -- a request that starts has done nothing
    refine ⟨.working, handle_follows req, fun a ha => ⟨?_, ?_⟩⟩
    · rintro ⟨c, o, k, hea, ht, -⟩
      exact Pool.no_op_before_start (.idle w) he rfl ha hea _ _ ht
    · rintro ⟨c, k, hea, ht⟩
      exact Pool.no_op_before_start (.idle w) he rfl ha hea _ _ ht
  · intro n hn t m h hno
    refine h.succ ?_ ?_
    · rintro ⟨c, o, k, he, ht, -⟩
      obtain ⟨_, hget⟩ := List.getElem?_eq_some_iff.1 he
      exact hno (hget ▸ .step ht c)
    · rintro ⟨c, k, he, ht⟩
      obtain ⟨_, hget⟩ := List.getElem?_eq_some_iff.1 he
      exact hno (hget ▸ .step ht c)
  · intro n t c o k m m' he ht h hphase
    obtain ⟨-, rfl⟩ := hs.event he
    exact h.step he ht hphase

/-- **What is sent was read**, once, before. -/
theorem sent_read (hs : Served E (.idle w) es) {b t : ℕ} {snapshot : Proto.Snapshot}
    (h : SentAt (.idle w) es b t snapshot) : ReadOnce E (.idle w) es b t snapshot.routes := by
  obtain ⟨⟨c, k, he, ht⟩, -⟩ := h
  obtain ⟨hb, -⟩ := List.getElem?_eq_some_iff.1 he
  obtain ⟨mode, htag, hstaged⟩ := staged_run hs hb.le
  have hstage := hstaged t (htag.lt ht)
  rwa [Publishing.of_send (htag.task t _ ht)] at hstage

/-- **Whoever writes sends**: once no request is in flight, each whose write took effect has
sent. -/
theorem wrote_sent (hs : Served E (.idle w) es) (hq : (Gateway.run (.idle w) es).Quiet) {a t : ℕ}
    (h : WroteAt (.idle w) es a t) : ∃ b snapshot, SentAt (.idle w) es b t snapshot := by
  obtain ⟨c, o, k, he, ht, hw⟩ := id h
  obtain ⟨ha, -⟩ := List.getElem?_eq_some_iff.1 he
  obtain ⟨mode, htag, hstaged⟩ := staged_run hs le_rfl
  have hlt : t < (Gateway.wAt (.idle w) es es.length).count :=
    lt_of_lt_of_le (((Pool.Numbered.idle w).wAt es a).lt ht)
      (Pool.count_mono World.exec (fun a w => World.act w a) (.idle w) es ha.le le_rfl)
  have hstage := hstaged t hlt
  rw [Gateway.wAt_length] at htag hlt
  -- no request is dropped
  have hstop : ∀ u, .stop u ∉ es := by
    intro u hu
    obtain ⟨n, hn⟩ := List.getElem?_of_mem hu
    exact (hs.event hn).2
  have htask := Pool.task_ne_none (fun u hu => absurd hu (Nat.not_lt_zero u)) hstop t hlt
  obtain ⟨p, hp⟩ := Option.ne_none_iff_exists'.1 htask
  have hfollows := htag.task t p hp
  have hdone := hq t p hp
  have hended : mode t = .finished ∨ mode t = .working := by
    cases p with
    | ok reply => exact Or.inl hfollows
    | err e => exact hfollows
    | op o k => exact absurd hdone Bool.false_ne_true
  rcases hended with hmode | hmode
  · rw [hmode] at hstage
    exact hstage ⟨a, ha, h⟩
  · rw [hmode] at hstage
    exact absurd h (hstage a ha).1

/-- **What is sent last is held in the end.** -/
theorem value_last (hs : Served E (.idle w) es) {b t : ℕ} {snapshot : Proto.Snapshot}
    (h : SentAt (.idle w) es b t snapshot)
    (hlast : ∀ m u later, b < m → ¬ SentAt (.idle w) es m u later) :
    (Gateway.run (.idle w) es).st.tx.value = snapshot := by
  obtain ⟨⟨c, k, he, -⟩, htx⟩ := h
  obtain ⟨hb, -⟩ := List.getElem?_eq_some_iff.1 he
  obtain ⟨-, hvalue⟩ := stored_still (g := .idle w) hlast (Nat.succ_le_of_lt hb)
  rw [Gateway.wAt_length] at hvalue
  rw [hvalue, htx, Channel.send_value (hs.event he).1]

/-- **When concurrent changes converge.** Requests run in any order of their steps, somebody is
subscribed and no statement fails. Once no request is in flight, the snapshot held carries the
routes stored exactly when the request that sends last has read them at an event from which on
every route that is written is left as it was; or when nothing is sent, and it carries them at
the start. -/
theorem converges_iff (w : World) (hw : (w.cp.pool.routes.map RouteRow.id).Nodup) (es : List Event)
    (hs : Served E (.idle w) es) (hq : (Gateway.run (.idle w) es).Quiet) :
    (Gateway.run (.idle w) es).st.tx.value.routes = (Gateway.run (.idle w) es).st.cp.pool.protoRoutes E ↔
      (∃ r b t, r < b ∧ ReadAt (.idle w) es r t ∧ LastSend (.idle w) es b t ∧ LeftAs E (.idle w) es r) ∨
        (∀ n t snapshot, ¬ SentAt (.idle w) es n t snapshot) ∧ w.tx.value.routes = w.cp.pool.protoRoutes E := by
  by_cases hany : ∃ b t snapshot, SentAt (.idle w) es b t snapshot
  · obtain ⟨b, ⟨t, snapshot, hsent⟩, hmax⟩ := exists_last (N := es.length) (by
      rintro m ⟨u, later, ⟨c, k, he, -⟩, -⟩
      exact (List.getElem?_eq_some_iff.1 he).1) hany
    have hlast : ∀ m u later, b < m → ¬ SentAt (.idle w) es m u later :=
      fun m u later hm hs => hmax m hm ⟨u, later, hs⟩
    obtain ⟨r, hr, hread, hstored, honly⟩ := sent_read hs hsent
    obtain ⟨hb, -⟩ := List.getElem?_eq_some_iff.1 hsent.1.choose_spec.choose_spec.1
    have hheld : (Gateway.run (.idle w) es).st.tx.value.routes =
        (Gateway.wAt (.idle w) es r).st.cp.pool.protoRoutes E := by
      rw [value_last hs hsent hlast]
      exact hstored
    rw [hheld, leftAs_iff hw (hr.le.trans hb.le)]
    constructor
    · intro h
      exact Or.inl ⟨r, b, t, hr, hread, ⟨⟨snapshot, hsent⟩, hlast⟩, h⟩
    · rintro (⟨r', b', t', hr', hread', ⟨⟨later, hlater⟩, hlast'⟩, h⟩ | ⟨hno, -⟩)
      · -- there is one last send, and its request has one read
        obtain rfl : b' = b := by
          rcases Nat.lt_trichotomy b' b with hlt | heq | hlt
          · exact absurd hsent (hlast' b t snapshot hlt)
          · exact heq
          · exact absurd hlater (hlast b' t' later hlt)
        obtain ⟨c, k, he, -⟩ := hsent.1
        obtain ⟨c', k', he', -⟩ := hlater.1
        obtain ⟨rfl, -⟩ : t = t' ∧ c = c' := by simpa using he.symm.trans he'
        obtain rfl : r' = r := honly r' hr' hread'
        exact h
      · exact absurd hsent (hno b t snapshot)
  · have hno : ∀ n t snapshot, ¬ SentAt (.idle w) es n t snapshot :=
      fun n t snapshot h => hany ⟨n, t, snapshot, h⟩
    -- nobody has written either
    have hroutes := routes_still (g := .idle w) (m := 0) (fun n u _ h => by
      obtain ⟨b, snapshot, hsent⟩ := wrote_sent hs hq h
      exact hno b u snapshot hsent) (Nat.zero_le es.length)
    obtain ⟨-, hvalue⟩ := stored_still (g := .idle w) (m := 0) (fun n u snapshot _ => hno n u snapshot)
      (Nat.zero_le es.length)
    rw [Gateway.wAt_length] at hroutes hvalue
    rw [hvalue, protoRoutes_congr hroutes]
    constructor
    · intro h
      exact Or.inr ⟨hno, h⟩
    · rintro (⟨r, b, t, -, -, ⟨⟨snapshot, hsent⟩, -⟩, -⟩ | ⟨-, h⟩)
      · exact absurd hsent (hno b t snapshot)
      · exact h

end Runs

namespace Sample

/-- One stored route, published to one subscriber. -/
def published : World :=
  .start ⟨⟨[], [Db.routeRow .plain users]⟩, ⟨1, ⟨⟨0, []⟩, [⟨1, [routeToProto users]⟩], 1⟩⟩⟩

/-- The route is updated and deleted at the same time. The update reads it before it is deleted,
and sends it in between; the deletion reads and sends last. -/
def renewed : List Event :=
  [.start (handle .plain (.updateRoute "users" users)), .start (handle .plain (.deleteRoute "users")),
    .step 0 none, .step 0 none, .step 1 none, .step 0 none, .step 1 none, .step 0 none, .step 1 none,
    .step 1 none]

/-- The same requests, and the update sends last. -/
def overtaken : List Event :=
  [.start (handle .plain (.updateRoute "users" users)), .start (handle .plain (.deleteRoute "users")),
    .step 0 none, .step 0 none, .step 1 none, .step 1 none, .step 1 none, .step 1 none,
    .step 0 none, .step 0 none]

theorem renewed_served : Served .plain (.idle published) renewed := by
  intro n hn
  match n with
  | 0 => exact ⟨by decide, .updateRoute "users" users, rfl⟩
  | 1 => exact ⟨by decide, .deleteRoute "users", rfl⟩
  | 2 | 3 | 4 | 5 | 6 | 7 | 8 | 9 => exact ⟨by decide, rfl⟩
  | n + 10 => exact absurd hn (by simp [renewed])

theorem overtaken_served : Served .plain (.idle published) overtaken := by
  intro n hn
  match n with
  | 0 => exact ⟨by decide, .updateRoute "users" users, rfl⟩
  | 1 => exact ⟨by decide, .deleteRoute "users", rfl⟩
  | 2 | 3 | 4 | 5 | 6 | 7 | 8 | 9 => exact ⟨by decide, rfl⟩
  | n + 10 => exact absurd hn (by simp [overtaken])

/-- Two requests have ended, and there is no other. -/
theorem quiet_of_two {g : Gateway} (h0 : (g.task 0).all Prog.done = true) (h1 : (g.task 1).all Prog.done = true)
    (hnone : ∀ t, g.task (t + 2) = none) : g.Quiet := by
  rintro (_ | _ | t) p hp
  · rwa [hp] at h0
  · rwa [hp] at h1
  · exact absurd (hp.symm.trans (hnone t)) (by simp)

/-- No write takes effect once the deletion has read the routes. -/
theorem renewed_unwritten {n u : ℕ} (hn : 6 ≤ n) : ¬ WroteAt (.idle published) renewed n u := by
  rintro ⟨c, o, k, he, ht, hw⟩
  match n with
  | 6 | 7 | 8 | 9 =>
    obtain ⟨rfl, -⟩ := Conc.Event.step.inj (Option.some.inj he)
    cases ht
    exact hw
  | n + 10 => exact absurd he (by simp [renewed])

end Sample

/-- An outdated send is made up for by the one after it. -/
theorem converges_iff_renewed :
    Served .plain (.idle Sample.published) Sample.renewed ∧
      (Gateway.run (.idle Sample.published) Sample.renewed).Quiet ∧
      (∃ r b t, r < b ∧ ReadAt (.idle Sample.published) Sample.renewed r t ∧
        LastSend (.idle Sample.published) Sample.renewed b t ∧
        LeftAs .plain (.idle Sample.published) Sample.renewed r) ∧
      (Gateway.run (.idle Sample.published) Sample.renewed).st.tx.value.routes =
        (Gateway.run (.idle Sample.published) Sample.renewed).st.cp.pool.protoRoutes .plain := by
  have hq : (Gateway.run (.idle Sample.published) Sample.renewed).Quiet :=
    Sample.quiet_of_two rfl rfl fun _ => rfl
  have hsent : ∃ snapshot, SentAt (.idle Sample.published) Sample.renewed 9 1 snapshot :=
    ⟨_, ⟨none, _, rfl, rfl⟩, rfl⟩
  have hlast : LastSend (.idle Sample.published) Sample.renewed 9 1 := by
    refine ⟨hsent, ?_⟩
    rintro m u later hm ⟨⟨c, k, he, -⟩, -⟩
    obtain ⟨hlt, -⟩ := List.getElem?_eq_some_iff.1 he
    exact absurd hlt (Nat.not_lt.2 hm)
  have hcond : ∃ r b t, r < b ∧ ReadAt (.idle Sample.published) Sample.renewed r t ∧
      LastSend (.idle Sample.published) Sample.renewed b t ∧
      LeftAs .plain (.idle Sample.published) Sample.renewed r :=
    ⟨6, 9, 1, by decide, ⟨none, _, rfl, rfl⟩, hlast, leftAs_of_unwritten fun n u hn => Sample.renewed_unwritten hn⟩
  exact ⟨Sample.renewed_served, hq, hcond,
    (converges_iff Sample.published (List.nodup_singleton _) _ Sample.renewed_served hq).2 (Or.inl hcond)⟩

/-- A deleted route stays in the snapshot held: the update that read it sends last. -/
theorem overtaken_keeps_deleted :
    Served .plain (.idle Sample.published) Sample.overtaken ∧
      (Gateway.run (.idle Sample.published) Sample.overtaken).Quiet ∧
      (Gateway.run (.idle Sample.published) Sample.overtaken).st.cp.pool.routes = [] ∧
      (Gateway.run (.idle Sample.published) Sample.overtaken).st.tx.value.routes.map Proto.Route.id =
        ["users"] ∧
      (Gateway.run (.idle Sample.published) Sample.overtaken).st.tx.value.routes ≠
        (Gateway.run (.idle Sample.published) Sample.overtaken).st.cp.pool.protoRoutes .plain := by
  have hq : (Gateway.run (.idle Sample.published) Sample.overtaken).Quiet :=
    Sample.quiet_of_two rfl rfl fun _ => rfl
  have hids : (Gateway.run (.idle Sample.published) Sample.overtaken).st.tx.value.routes.map
      Proto.Route.id = ["users"] := rfl
  refine ⟨Sample.overtaken_served, hq, rfl, hids, ?_⟩
  intro h
  have hnone : (Gateway.run (.idle Sample.published) Sample.overtaken).st.cp.pool.protoRoutes .plain = [] := rfl
  rw [h, hnone] at hids
  exact absurd hids (by simp)

end Yali
