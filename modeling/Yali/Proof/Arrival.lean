import Mathlib.Data.Finset.Card
import Yali.Proof.Fleet
import Yali.Proof.Progress

/-!
# The last change arrives

Publications may be lost and overtaken. A change that is the last to write and the last to
send makes up for all of them (`LastChange`): it reads the routes that stay, and sends them
while a data plane is connected.

* `Counted`: a receiver for every data plane that is connected, so that a send is stored.
* `Steady`: a data plane that has the snapshot held, and takes no other. It stays so, also
  over other connections (`steady_run`).
* `last_change_arrives`: after its turns a data plane has the routes that are stored.
* `traffic_settles`: the requests that come to its proxy from then on are answered by them.
-/

namespace Yali

open Conc Router

variable {E : Env}

/-! ## Receivers -/

/-- There is a receiver for every data plane that is connected. -/
def Counted (w : World) : Prop :=
  ∃ S : Finset ℕ, (∀ d, d ∈ S ↔ (w.dp d).connection.isSome = true) ∧ S.card ≤ w.tx.receivers

theorem Counted.start (cp : AppState) : Counted (.start cp) :=
  ⟨∅, fun d => by simp [World.start, DataPlane.new], Nat.zero_le _⟩

/-- A data plane that was connected and still is. -/
theorem Counted.setDp {w : World} (h : Counted w) {d : ℕ} {x : DataPlane}
    (hx : x.connection.isSome = (w.dp d).connection.isSome) : Counted (w.setDp d x) := by
  obtain ⟨S, hS, hcard⟩ := h
  refine ⟨S, ?_, hcard⟩
  intro d'
  rw [hS, setDp_connection]
  split
  · rename_i heq
    rw [heq, hx]
  · rfl

theorem Counted.act {w : World} (h : Counted w) (a : Action) : Counted (w.act a) := by
  cases a with
  | subscribe d =>
    simp only [World.act]
    split
    · exact h
    · rename_i hnone
      obtain ⟨S, hS, hcard⟩ := h
      have hd : d ∉ S := by
        rw [hS, hnone]
        simp
      refine ⟨insert d S, ?_, ?_⟩
      · intro d'
        rw [setDp_connection, Finset.mem_insert]
        split
        · rename_i heq
          simp [heq]
        · rename_i hne
          rw [or_iff_right hne, hS]
          rfl
      · rw [Finset.card_insert_of_notMem hd]
        exact Nat.succ_le_succ hcard
  | advance d =>
    simp only [World.act]
    split
    · rename_i c hc
      exact h.setDp (by rw [hc]; rfl)
    · exact h
  | poll d =>
    simp only [World.act]
    split
    · rename_i s sent taken hc
      split
      · exact h.setDp (by rw [hc]; rfl)
      · exact h
    · exact h
  | deliver d =>
    simp only [World.act]
    split
    · rename_i c hc
      split
      · exact h.setDp (by rw [hc]; rfl)
      · exact h
    · exact h
  | disconnect d =>
    simp only [World.act]
    split
    · rename_i c hc
      obtain ⟨S, hS, hcard⟩ := h
      have hd : d ∈ S := by
        rw [hS, hc]
        rfl
      refine ⟨S.erase d, ?_, ?_⟩
      · intro d'
        rw [setDp_connection, Finset.mem_erase]
        split
        · rename_i heq
          simp [heq]
        · rename_i hne
          rw [and_iff_right hne, hS]
          rfl
      · rw [Finset.card_erase_of_mem hd]
        exact Nat.sub_le_sub_right hcard 1
    · exact h

theorem Counted.next {g : Gateway} (h : Counted g.st) (e : Event) : Counted (g.next e).st := by
  cases e with
  | start p => exact h
  | stop t => exact h
  | ext a => exact h.act a
  | step t c =>
    rcases Gateway.step_cases g t c with ⟨o, k, -, hn⟩ | ⟨-, hn⟩
    · obtain ⟨S, hS, hcard⟩ := h
      rw [hn]
      refine ⟨S, hS, ?_⟩
      rcases exec_tx c o g.st with htx | ⟨a, htx⟩
      · rw [htx]
        exact hcard
      · rw [htx]
        unfold Channel.send
        split <;> exact hcard
    · rw [hn]
      exact h

/-- While a data plane is connected, a send is stored. -/
theorem receivers_of_conn (cp : AppState) (es : List Event) {n d : ℕ} {c : Connection}
    (hc : conn (.idle (.start cp)) es n d = some c) :
    (Gateway.wAt (.idle (.start cp)) es n).st.tx.receivers ≠ 0 := by
  have hcounted : Counted (Gateway.wAt (.idle (.start cp)) es n).st :=
    Pool.run_inv (J := fun g : Gateway => Counted g.st) (fun g e h => h.next e) _ (.start cp)
  obtain ⟨S, hS, hcard⟩ := hcounted
  have hd : d ∈ S := by
    rw [hS]
    exact Option.isSome_iff_exists.2 ⟨c, hc⟩
  have hpos := Finset.card_pos.2 ⟨d, hd⟩
  omega

/-! ## Data planes that stay as they are -/

/-- The sends of a prefix are sends of the run. -/
theorem SentAt.of_take {g : Gateway} {es : List Event} {m n u : ℕ} {snapshot : Proto.Snapshot}
    (h : SentAt g (es.take m) n u snapshot) : SentAt g es n u snapshot := by
  obtain ⟨⟨c, k, he, ht⟩, htx⟩ := h
  obtain ⟨hlt, -⟩ := List.getElem?_eq_some_iff.1 he
  have hnm : n < m := lt_of_lt_of_le hlt (List.length_take_le m es)
  rw [List.getElem?_take_of_lt hnm] at he
  rw [wAt_take g es hnm.le] at ht htx
  rw [wAt_take g es hnm] at htx
  exact ⟨⟨c, k, he, ht⟩, htx⟩

/-- What is on the wire, and what the stream has still to yield of an earlier read, is the
snapshot. -/
def Connection.Ahead (snapshot : Proto.Snapshot) (c : Connection) : Prop :=
  (∀ n item, c.taken ≤ n → c.sent[n]? = some item → item = snapshot) ∧
    match c.subscription with
    | .receiver _ => True
    | .cloned _ initial => initial = snapshot
    | .streaming s => ∀ item, s.initial = some item → item = snapshot

/-- Data plane `d` has the routes of the snapshot, and its connection brings no other. -/
structure Steady (snapshot : Proto.Snapshot) (d : ℕ) (w : World) : Prop where
  routes : (w.dp d).state.snapshot = snapshotToRoutes snapshot
  ahead : ∀ c, (w.dp d).connection = some c → c.Ahead snapshot

/-- Every move of a connection, and a new one, brings what the channel holds. -/
theorem Connection.Ahead.moves {tx : Channel Proto.Snapshot} {d : ℕ} {e : Event} {x y : Option Connection}
    (hx : ∀ c, x = some c → c.Ahead tx.value) (hm : Moves tx d e x y) :
    ∀ c, y = some c → c.Ahead tx.value := by
  cases hm with
  | subscribe seen =>
    rintro c ⟨⟩
    exact ⟨fun n item _ hitem => absurd hitem (by simp), trivial⟩
  | advance c =>
    obtain ⟨hwire, hsub⟩ := hx c rfl
    obtain ⟨sub, sent, taken⟩ := c
    rintro c' ⟨⟩
    refine ⟨hwire, ?_⟩
    cases sub with
    | receiver seen => rfl
    | cloned seen initial =>
      rintro item ⟨⟩
      exact hsub
    | streaming s => exact hsub
  | @poll s s' item sent taken hp =>
    obtain ⟨hwire, hinitial⟩ := hx _ rfl
    -- what is yielded is the clone made before, or read now
    have hyield : item = tx.value ∧ s'.initial = none := by
      rcases SubscribeStream.poll_some hp with ⟨hinit, rfl⟩ | ⟨-, -, rfl, rfl⟩
      · exact ⟨hinitial item hinit, rfl⟩
      · exact ⟨rfl, rfl⟩
    obtain ⟨rfl, hnone⟩ := hyield
    rintro c ⟨⟩
    refine ⟨?_, ?_⟩
    · intro n item hn hitem
      rcases Nat.lt_or_ge n sent.length with hlt | hge
      · rw [List.getElem?_append_left hlt] at hitem
        exact hwire n item hn hitem
      · have hmem := List.mem_of_getElem? ((List.getElem?_append_right hge).symm.trans hitem)
        exact List.mem_singleton.1 hmem
    · intro item hitem
      rw [hnone] at hitem
      exact absurd hitem (by simp)
  | deliver c =>
    obtain ⟨hwire, hsub⟩ := hx c rfl
    rintro c' ⟨⟩
    exact ⟨fun n item hn => hwire n item (Nat.le_of_succ_le hn), hsub⟩
  | disconnect c =>
    intro c' hc'
    exact absurd hc' (by simp)
  | rest e x h => exact hx

/-- A message that is delivered is the next on the wire. -/
theorem delivered_some {g : Gateway} {d : ℕ} {e : Event} {snapshot : Proto.Snapshot}
    (h : delivered g d e = some snapshot) :
    ∃ c, (g.st.dp d).connection = some c ∧ c.sent[c.taken]? = some snapshot := by
  unfold delivered at h
  split at h
  · split at h
    · exact Option.bind_eq_some_iff.1 h
    · exact absurd h (by simp)
  · exact absurd h (by simp)

/-- After the last milestone a data plane is steady. -/
theorem Reached.steady {w : World} {K d : ℕ} (h : Reached K d (4 + K) w) (hok : DpOk w) :
    Steady w.tx.value d w := by
  refine ⟨h.current hok, ?_⟩
  intro c hc
  obtain ⟨c', hc', hstage, howed⟩ := h
  obtain rfl : c = c' := Option.some.inj (hc.symm.trans hc')
  obtain ⟨s, hsub, hp, howe⟩ := Connection.stage_eq_four (le_trans (by omega) hstage)
  obtain ⟨sub, sent, taken⟩ := c
  obtain rfl : sub = .streaming s := hsub
  refine ⟨?_, ?_⟩
  · intro n item hn hitem
    obtain ⟨hlt, -⟩ : ∃ h : n < sent.length, sent[n] = item := List.getElem?_eq_some_iff.1 hitem
    simp only at howe hn
    omega
  · intro item hitem
    unfold SubscribeStream.poll at hp
    rw [hitem] at hp
    exact absurd hp (by simp)

section Run

variable {g : Gateway} {es : List Event} {d : ℕ} {snapshot : Proto.Snapshot}

/-- **Nothing moves a steady data plane** while the channel holds its snapshot. -/
theorem Steady.next {n : ℕ} (hn : n < es.length) (hvalue : (g.wAt es n).st.tx.value = snapshot)
    (h : Steady snapshot d (g.wAt es n).st) : Steady snapshot d (g.wAt es (n + 1)).st := by
  obtain ⟨hroutes, hahead⟩ := h
  refine ⟨?_, ?_⟩
  · have hstate := state_next (g.wAt es n) es[n] d
    rw [Gateway.wAt_succ g es hn, hstate]
    cases hdel : delivered (g.wAt es n) d es[n] with
    | none => exact hroutes
    | some item =>
      obtain ⟨c, hc, hitem⟩ := delivered_some hdel
      obtain rfl : item = snapshot := (hahead c hc).1 c.taken item le_rfl hitem
      rfl
  · subst hvalue
    exact Connection.Ahead.moves hahead (conn_next g es d hn)

theorem steady_run {m : ℕ} (hvalue : ∀ n, m ≤ n → (g.wAt es n).st.tx.value = snapshot)
    (h : Steady snapshot d (g.wAt es m).st) {n : ℕ} (hmn : m ≤ n) : Steady snapshot d (g.wAt es n).st := by
  have hkeep := Pool.wAt_rel World.exec (fun a w => World.act w a)
    (R := fun w w' : World => Steady snapshot d w → Steady snapshot d w') (fun _ h => h)
    (fun _ _ _ h h' hs => h' (h hs)) (fun n hn hlt => Steady.next (g := g) hlt (hvalue n hn)) hmn
  exact hkeep h

end Run

/-! ## The end of a run -/

/-- The change of request `t`, which sends at event `b`: no write takes effect after its
own, and nothing is sent later. -/
structure LastChange (g : Gateway) (es : List Event) (t b : ℕ) (snapshot : Proto.Snapshot) : Prop where
  sent : SentAt g es b t snapshot
  writes : ∀ a, WroteAt g es a t → ∀ n u, a < n → ¬ WroteAt g es n u
  sends : ∀ n u later, b < n → ¬ SentAt g es n u later

section Last

variable {cp : AppState} {es : List Event} {t b : ℕ} {snapshot : Proto.Snapshot}

/-- What is sent last are the routes that stay: it was read after the last write. -/
theorem LastChange.routes (h : LastChange (.idle (.start cp)) es t b snapshot)
    (hes : ∀ p, .start p ∈ es → ∃ call, p = router E call) :
    snapshotToRoutes snapshot =
      ⟨((Gateway.run (.idle (.start cp)) es).st.cp.pool.specs E).map install⟩ := by
  obtain ⟨⟨fault, k, he, ht⟩, -⟩ := h.sent
  obtain ⟨hb, -⟩ := List.getElem?_eq_some_iff.1 he
  obtain ⟨record, hrec⟩ := recorded_run (.start cp) hes hb.le
  obtain ⟨x, hx, -⟩ := hrec.tagged.task t _ ht ()
  obtain ⟨r, hr, hmode⟩ := sends_of_send hx
  obtain ⟨a, m, ham, hmb, hwrote, -, hroutes⟩ := (hrec.justified t r hr).sends snapshot hmode
  have hstill := routes_still (fun n u hmn => h.writes a hwrote n u (by omega)) (hmb.le.trans hb.le)
  rw [Gateway.wAt_length] at hstill
  rw [specs_congr hstill]
  obtain ⟨version, routes⟩ := snapshot
  obtain rfl : routes = _ := hroutes
  exact snapshotToRoutes_routeToProto version _

/-- A data plane that is connected at the send has the channel hold it to the end. -/
theorem LastChange.value (h : LastChange (.idle (.start cp)) es t b snapshot) {d₀ : ℕ} {c₀ : Connection}
    (hheard : conn (.idle (.start cp)) es b d₀ = some c₀) {n : ℕ} (hn : b < n) :
    (Gateway.wAt (.idle (.start cp)) es n).st.tx.value = snapshot := by
  obtain ⟨-, htx⟩ := h.sent
  obtain ⟨-, hvalue⟩ := stored_still (g := .idle (.start cp)) (fun n u later hbn => h.sends n u later hbn) hn
  rw [hvalue, htx, Channel.send_value (receivers_of_conn cp es hheard)]

/-- **From its turns on** a data plane has the last snapshot, whatever its later connections. -/
theorem LastChange.steady (h : LastChange (.idle (.start cp)) es t b snapshot) {d₀ : ℕ} {c₀ : Connection}
    (hheard : conn (.idle (.start cp)) es b d₀ = some c₀) {d k : ℕ} {c : Connection} (hbk : b < k)
    (hc : conn (.idle (.start cp)) es k d = some c) {m : ℕ} (hstay : .ext (.disconnect d) ∉ (es.take m).drop k)
    (hturns : (turns d (c.sent.length - c.taken + 2)).Sublist ((es.take m).drop k)) {n : ℕ} (hn : m ≤ n) :
    Steady snapshot d (Gateway.wAt (.idle (.start cp)) es n).st := by
  have hkm : k < m := by
    have hlen := hturns.length_le
    rw [List.length_drop, List.length_take] at hlen
    have hpos : 0 < (turns d (c.sent.length - c.taken + 2)).length := by simp [turns]
    omega
  -- the run up to moment `m`
  have hconn : conn (.idle (.start cp)) (es.take m) k d = some c := by
    unfold conn
    rw [wAt_take _ es hkm.le]
    exact hc
  have hsends : ∀ n u later, k ≤ n → ¬ SentAt (.idle (.start cp)) (es.take m) n u later :=
    fun n u later hkn hs => h.sends n u later (lt_of_lt_of_le hbk hkn) hs.of_take
  have hquiet : ∀ n, k ≤ n → (Gateway.wAt (.idle (.start cp)) (es.take m) n).st.tx.stored =
      (Gateway.wAt (.idle (.start cp)) (es.take m) k).st.tx.stored := fun n hn => (stored_still hsends hn).1
  have hsteady := (turns_reached hconn hquiet hstay hturns).steady (dpOk_run cp (es.take m))
  have hvalue : (Gateway.run (.idle (.start cp)) (es.take m)).st.tx.value = snapshot :=
    h.value hheard (hbk.trans hkm)
  rw [hvalue] at hsteady
  exact steady_run (fun n hmn => h.value hheard (by omega)) hsteady hn

end Last

/-- **The last change arrives.** Whatever was lost or overtaken before: no write takes effect
after that of request `t`, and nothing is sent after event `b`, at which `t` sends while some
data plane is connected. Then every data plane that is connected at a later moment, and stays
so until it has had its turns, has exactly the routes that are stored from then on, whatever
happens to its connections. -/
theorem last_change_arrives (cp : AppState) (es : List Event)
    (hes : ∀ p, .start p ∈ es → ∃ call, p = router E call) (t b : ℕ) (snapshot : Proto.Snapshot)
    (h : LastChange (.idle (.start cp)) es t b snapshot) (d₀ : ℕ) (c₀ : Connection)
    (hheard : conn (.idle (.start cp)) es b d₀ = some c₀) (d k : ℕ) (c : Connection) (hbk : b < k)
    (hc : conn (.idle (.start cp)) es k d = some c) (m : ℕ) (hstay : .ext (.disconnect d) ∉ (es.take m).drop k)
    (hturns : (turns d (c.sent.length - c.taken + 2)).Sublist ((es.take m).drop k)) :
    ∀ n, m ≤ n → ((Gateway.wAt (.idle (.start cp)) es n).st.dp d).state.snapshot =
      ⟨((Gateway.run (.idle (.start cp)) es).st.cp.pool.specs E).map install⟩ := by
  intro n hn
  have hsteady := h.steady hheard hbk hc hstay hturns hn
  exact hsteady.routes.trans (h.routes hes)

namespace Sample

/-- A data plane connects, a route is created, and the data plane has its turns. -/
def arrival : List Event := .ext (.subscribe 0) :: creation ++ turns 0 2

def empty : Gateway := .idle (.start ⟨⟨[], []⟩, .new⟩)

/-- The operation at an event of the creation. -/
theorem arrival_op {n u : ℕ} {c : Option SqlxError} {o : Op} {k : o.Res → Handler}
    (he : arrival[n]? = some (.step u c)) (ht : (empty.wAt arrival n).task u = some (.op o k)) :
    (n = 2 ∧ o.isWrite = true) ∨ (n = 3 ∧ o = .selectRoutes) ∨ (n = 4 ∧ o = .fetchAdd) ∨
      (n = 5 ∧ ∃ snapshot, o = .send snapshot) := by
  match n with
  | 0 | 1 | 6 | 7 | 8 | 9 | 10 | 11 => exact absurd he (by simp [arrival, creation, turns])
  | 2 =>
    obtain ⟨rfl, -⟩ : 0 = u ∧ none = c := by simpa [arrival, creation] using he
    cases ht
    exact Or.inl ⟨rfl, rfl⟩
  | 3 =>
    obtain ⟨rfl, -⟩ : 0 = u ∧ none = c := by simpa [arrival, creation] using he
    cases ht
    exact Or.inr (Or.inl ⟨rfl, rfl⟩)
  | 4 =>
    obtain ⟨rfl, -⟩ : 0 = u ∧ none = c := by simpa [arrival, creation] using he
    cases ht
    exact Or.inr (Or.inr (Or.inl ⟨rfl, rfl⟩))
  | 5 =>
    obtain ⟨rfl, -⟩ : 0 = u ∧ none = c := by simpa [arrival, creation] using he
    cases ht
    exact Or.inr (Or.inr (Or.inr ⟨rfl, _, rfl⟩))
  | n + 12 => exact absurd he (by simp [arrival, creation, turns])

/-- The creation is the last change: its write is the only one, and its send. -/
theorem arrival_last : ∃ snapshot, LastChange empty arrival 0 5 snapshot := by
  have hsent : ∃ snapshot, SentAt empty arrival 5 0 snapshot := ⟨_, ⟨none, _, rfl, rfl⟩, rfl⟩
  have hwrote : ∀ {n u : ℕ}, WroteAt empty arrival n u → n = 2 := by
    rintro n u ⟨c, o, k, he, ht, hw⟩
    rcases arrival_op he ht with ⟨hn, -⟩ | ⟨-, rfl⟩ | ⟨-, rfl⟩ | ⟨-, later, rfl⟩
    · exact hn
    all_goals exact absurd hw id
  obtain ⟨snapshot, hsent⟩ := hsent
  refine ⟨snapshot, hsent, ?_, ?_⟩
  · intro a ha n u han hn
    have hfirst : a = 2 := hwrote ha
    have hsecond : n = 2 := hwrote hn
    omega
  · rintro n u later hn ⟨⟨c, k, he, ht⟩, -⟩
    rcases arrival_op he ht with ⟨hn, -⟩ | ⟨hn, -⟩ | ⟨hn, -⟩ | ⟨hn, -⟩ <;> omega

theorem arrival_starts : ∀ p, .start p ∈ arrival → ∃ call, p = router .plain call := by
  intro p hp
  refine creation_starts p ?_
  simpa [arrival, turns] using hp

theorem arrival_specs : (empty.run arrival).st.cp.pool.specs .plain = [users] := by
  have hspecs : (empty.run arrival).st.cp.pool.specs .plain = [Db.rowToRoute .plain (Db.routeRow .plain users)] := rfl
  rw [hspecs, rowToRoute_routeRow Env.plain_lawful (by simp [users])]

theorem arrival_stays : .ext (.disconnect 0) ∉ (arrival.take 12).drop 6 := by
  simp [arrival, creation, turns]

end Sample

theorem last_change_arrives_users :
    ∃ snapshot, LastChange Sample.empty Sample.arrival 0 5 snapshot ∧
      (Sample.empty.run Sample.arrival).st.cp.pool.specs .plain = [Sample.users] ∧
      ∀ n, 12 ≤ n → ((Sample.empty.wAt Sample.arrival n).st.dp 0).state.snapshot =
        ⟨((Sample.empty.run Sample.arrival).st.cp.pool.specs .plain).map install⟩ := by
  obtain ⟨snapshot, hlast⟩ := Sample.arrival_last
  exact ⟨snapshot, hlast, Sample.arrival_specs, last_change_arrives _ _ Sample.arrival_starts 0 5 snapshot hlast 0
    ⟨.receiver 0, [], 0⟩ rfl 0 6 ⟨.receiver 0, [], 0⟩ (by decide) rfl 12 Sample.arrival_stays
    (List.Sublist.refl _)⟩

/-! ## The traffic -/

/-- The events of the control plane among the first ones are its first ones. -/
theorem gatewayEvents_take (es : List FleetEvent) (m : ℕ) :
    gatewayEvents (es.take m) = (gatewayEvents es).take (gatewayEvents (es.take m)).length := by
  have hsplit : gatewayEvents es = gatewayEvents (es.take m) ++ gatewayEvents (es.drop m) := by
    unfold gatewayEvents
    rw [← List.filterMap_append, List.take_append_drop]
  rw [hsplit, List.take_left]

theorem Fleet.gateway_wAt (w : ℕ) (f : Fleet) (es : List FleetEvent) (m : ℕ) :
    (f.wAt w es m).gateway = f.gateway.wAt (gatewayEvents es) (gatewayEvents (es.take m)).length := by
  have hrun : (f.wAt w es m).gateway = f.gateway.run (gatewayEvents (es.take m)) := gateway_run f (es.take m)
  rw [hrun]
  exact congrArg f.gateway.run (gatewayEvents_take es m)

/-- **The traffic settles.** Of the last change as above, in a run with proxied requests: from
the moment `m` on at which data plane `d` has had its turns, every request that comes to its
proxy is answered as the stored routes admit, whatever is still on its way from before. -/
theorem traffic_settles (cp : AppState) (es : List FleetEvent)
    (hes : ∀ p, .gateway (.start p) ∈ es → ∃ call, p = router E call) (t b : ℕ) (snapshot : Proto.Snapshot)
    (h : LastChange (.idle (.start cp)) (gatewayEvents es) t b snapshot) (d₀ : ℕ) (c₀ : Connection)
    (hheard : conn (.idle (.start cp)) (gatewayEvents es) b d₀ = some c₀) (d k : ℕ) (c : Connection)
    (hbk : b < k) (hc : conn (.idle (.start cp)) (gatewayEvents es) k d = some c) (m : ℕ)
    (hstay : .ext (.disconnect d) ∉ (gatewayEvents (es.take m)).drop k)
    (hturns : (turns d (c.sent.length - c.taken + 2)).Sublist ((gatewayEvents (es.take m)).drop k))
    (parse : String → Option Url) (w : ℕ) :
    ∀ (n : ℕ) (hn : n < es.length) (u : ℕ) (r : Except String HttpPeer),
      ((Fleet.start cp).wAt w es n).answer parse w es[n] = some (d, u, r) →
      (∀ m' < m, ∀ path method host, es[m']? ≠ some (.accept d u path method host)) →
      ∃ m' path method host, CameAt es m' n d u path method host ∧
        Admits parse ((Gateway.run (.idle (.start cp)) (gatewayEvents es)).st.cp.pool.specs E) path method host r := by
  have hstarts : ∀ p, .start p ∈ gatewayEvents es → ∃ call, p = router E call := by
    have htake := gatewayEvents_starts hes es.length
    rwa [List.take_length] at htake
  intro n hn u r hanswer hnew
  obtain ⟨m', hm', path, method, host, hcame, hadmits⟩ := answered cp parse w es hn hanswer
  refine ⟨m', path, method, host, hcame, hadmits _ ?_⟩
  -- the request came when the data plane was steady
  have hmm : m ≤ m' := by
    by_contra hlt
    exact hnew m' (Nat.not_le.1 hlt) path method host hcame.accept
  have hlen : (gatewayEvents (es.take m)).length ≤ (gatewayEvents (es.take m')).length :=
    ((List.take_sublist_take_left hmm).filterMap _).length_le
  rw [gatewayEvents_take] at hstay hturns
  have hsteady := h.steady hheard hbk hc hstay hturns hlen
  rw [Fleet.gateway_wAt]
  exact hsteady.routes.trans (h.routes hstarts)

namespace Sample

/-- A request after the arrival. -/
def traffic : List FleetEvent := arrival.map .gateway ++ [.accept 0 0 "/users" "GET" none, .select 0 0]

def fleet (n : ℕ) : Fleet := (Fleet.start ⟨⟨[], []⟩, .new⟩).wAt 64 traffic n

/-- The route was applied twice; the request gets a clone of the second. -/
theorem traffic_answered : ∃ r, (fleet 13).answer localhost 64 traffic[13] = some (0, 0, r) := by
  have hmatch : ∃ route, ((fleet 12).proxies 0).routes = [route, route] ∧
      matchRoute ((fleet 12).proxies 0).state.snapshot "/users" "GET" none = some route := ⟨_, rfl, rfl⟩
  obtain ⟨route, hroutes, hmatch⟩ := hmatch
  have hoffset : ((fleet 12).proxies 0).offset = 1 := rfl
  have hindex : ((fleet 12).proxies 0).matchIndex "/users" "GET" none = some 1 := by
    unfold Proxy.matchIndex
    rw [hmatch, Option.bind_some, hoffset]
    simp only [Proxy.state, State.new, hroutes, hoffset, List.drop_succ_cons, List.drop_zero]
    simp [List.idxOf?_cons]
  have hclone : ((fleet 13).proxies 0).clones 0 = some 1 := hindex
  have hroutes : ((fleet 13).proxies 0).routes = [route, route] := hroutes
  have hanswer : (fleet 13).answer localhost 64 traffic[13] =
      (((fleet 13).proxies 0).answer localhost 64 (.select 0)).map fun r => (0, 0, r) := rfl
  rw [hanswer]
  simp only [Proxy.answer, hclone, Option.bind_some, hroutes]
  exact ⟨_, rfl⟩

end Sample

theorem traffic_settles_users :
    ∃ r, (Sample.fleet 13).answer Sample.localhost 64 Sample.traffic[13] = some (0, 0, r) ∧
      ∃ m path method host, CameAt Sample.traffic m 13 0 0 path method host ∧
        Admits Sample.localhost ((Sample.empty.run Sample.arrival).st.cp.pool.specs .plain) path method host r := by
  obtain ⟨snapshot, hlast⟩ := Sample.arrival_last
  have hevents : gatewayEvents Sample.traffic = Sample.arrival := rfl
  have hstarts : ∀ p, .gateway (.start p) ∈ Sample.traffic → ∃ call, p = router .plain call := by
    intro p hp
    refine Sample.arrival_starts p ?_
    simpa [Sample.traffic] using hp
  rw [← hevents] at hlast
  have hadmits := traffic_settles _ Sample.traffic hstarts 0 5 snapshot hlast 0 ⟨.receiver 0, [], 0⟩ rfl 0 6
    ⟨.receiver 0, [], 0⟩ (by decide) rfl 12 Sample.arrival_stays (List.Sublist.refl _) Sample.localhost 64
  obtain ⟨r, hr⟩ := Sample.traffic_answered
  refine ⟨r, hr, hadmits 13 (by decide) 0 r hr ?_⟩
  -- the request did not come before
  intro m hm path method host
  match m with
  | 0 | 1 | 2 | 3 | 4 | 5 | 6 | 7 | 8 | 9 | 10 | 11 => simp [Sample.traffic, Sample.arrival, Sample.creation, turns]
  | m + 12 => omega

end Yali
