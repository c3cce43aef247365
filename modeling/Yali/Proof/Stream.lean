import Yali.Proof.Codec
import Yali.Spec.Execution

/-!
# From the channel to the data plane

`Linked` is what holds of a connection at every point: what its stream has yielded
was read from the channel in order, and once the `WatchStream` has been polled, the
last item is the value held at the version it has seen. `Applied` is what holds of a
data plane: it has the routes of the last snapshot it took. Every event keeps both
(`DpOk.next`), and a drained subscriber has the current snapshot (`drained_current`).
-/

namespace Yali

open Conc

/-! ## The invariant -/

/-- The server's side of a connection and the items yielded so far. -/
def Linked (tx : Channel Proto.Snapshot) (c : Connection) : Prop :=
  match c.subscription with
  | .receiver _ => c.sent = []
  | .cloned _ initial => c.sent = [] ∧ ∃ hi, tx.Upto [initial] hi
  | .streaming s =>
    (∃ hi, tx.Upto (c.sent ++ s.initial.toList) hi) ∧
      (s.initial ≠ none → s.updates.first = true) ∧
      (s.updates.first = false →
        s.updates.seen ≤ tx.version ∧ c.sent.getLast? = some (tx.past s.updates.seen))

/-- The data plane has applied the last snapshot it took, of this connection if it
took any of it. -/
structure Applied (d : DataPlane) : Prop where
  state : d.state.snapshot = (d.last.map snapshotToRoutes).getD .empty
  taken : ∀ c, d.connection = some c → c.taken ≤ c.sent.length ∧
    ∀ n, c.taken = n + 1 → d.last = c.sent[n]?

/-- Both, of every data plane. -/
def DpOk (w : World) : Prop :=
  ∀ d, Applied (w.dp d) ∧ ∀ c, (w.dp d).connection = some c → Linked w.tx c

/-! ## Operations of the control plane -/

theorem Linked.send {tx : Channel Proto.Snapshot} {c : Connection} (h : Linked tx c) (a : Proto.Snapshot) :
    Linked (tx.send a) c := by
  unfold Linked at *
  split at h
  · exact h
  · obtain ⟨hs, hi, hu⟩ := h
    exact ⟨hs, hi, hu.send a⟩
  · obtain ⟨⟨hi, hu⟩, hfirst, hlast⟩ := h
    refine ⟨⟨hi, hu.send a⟩, hfirst, ?_⟩
    intro hf
    obtain ⟨hv, hl⟩ := hlast hf
    refine ⟨le_trans hv (Channel.send_version_le a tx), ?_⟩
    rw [hl, Channel.past_send a tx hv]

/-- The number of receivers does not matter. -/
theorem Linked.receivers {tx : Channel Proto.Snapshot} {c : Connection} (h : Linked tx c) (n : ℕ) :
    Linked { tx with receivers := n } c := h

/-- An operation sends on the channel or leaves it. -/
theorem exec_tx (c : Option SqlxError) (o : Op) (w : World) :
    (World.exec c o w).2.tx = w.tx ∨ ∃ a, (World.exec c o w).2.tx = w.tx.send a := by
  cases o with
  | send a => exact Or.inr ⟨a, rfl⟩
  | fetchAdd => exact Or.inl rfl
  | _ => cases c <;> exact Or.inl rfl

theorem DpOk.exec {w : World} (h : DpOk w) (c : Option SqlxError) (o : Op) :
    DpOk (World.exec c o w).2 := by
  intro d
  obtain ⟨happ, hlink⟩ := h d
  refine ⟨happ, ?_⟩
  intro conn hconn
  have hl := hlink conn hconn
  rcases exec_tx c o w with ht | ⟨a, ht⟩
  · rw [ht]; exact hl
  · rw [ht]; exact hl.send a

/-! ## Steps of a connection -/

theorem Linked.advance {tx : Channel Proto.Snapshot} {c : Connection} (h : Linked tx c) :
    Linked tx { c with subscription := c.subscription.advance tx } := by
  obtain ⟨sub, sent, taken⟩ := c
  cases sub with
  | receiver seen =>
    exact ⟨h, _, (Channel.Upto.nil (Nat.zero_le _)).read⟩
  | cloned seen initial =>
    obtain ⟨rfl, hi, hu⟩ := h
    refine ⟨⟨hi, hu⟩, fun _ => rfl, ?_⟩
    intro hf
    have htf : true = false := hf
    exact absurd htf (by decide)
  | streaming s => exact h

/-- What a poll yields: the initial value, or the value held. -/
theorem SubscribeStream.poll_some {tx : Channel Proto.Snapshot} {s s' : SubscribeStream}
    {item : Proto.Snapshot} (h : s.poll tx = some (item, s')) :
    s.initial = some item ∧ s' = ⟨none, s.updates⟩ ∨
      s.initial = none ∧ (s.updates.first = true ∨ s.updates.seen ≠ tx.version) ∧ item = tx.value ∧
        s' = ⟨none, ⟨false, tx.version⟩⟩ := by
  obtain ⟨initial, updates⟩ := s
  cases initial with
  | some snapshot =>
    simp only [poll, Option.some.injEq, Prod.mk.injEq] at h
    obtain ⟨rfl, rfl⟩ := h
    exact Or.inl ⟨rfl, rfl⟩
  | none =>
    obtain ⟨⟨a, ws⟩, hpoll, heq⟩ := Option.map_eq_some_iff.1 h
    simp only [Prod.mk.injEq] at heq
    obtain ⟨rfl, rfl⟩ := heq
    obtain ⟨hcond, rfl, rfl⟩ := WatchStream.poll_some hpoll
    exact Or.inr ⟨rfl, hcond, rfl, rfl⟩

/-- **A poll** yields what comes next in the channel's order. -/
theorem Linked.poll {tx : Channel Proto.Snapshot} {s s' : SubscribeStream} {sent : List Proto.Snapshot}
    {taken : ℕ} {item : Proto.Snapshot} (h : Linked tx ⟨.streaming s, sent, taken⟩)
    (hp : s.poll tx = some (item, s')) : Linked tx ⟨.streaming s', sent ++ [item], taken⟩ := by
  obtain ⟨⟨hi, hu⟩, hfirst, hlast⟩ := h
  obtain ⟨initial, updates⟩ := s
  rcases SubscribeStream.poll_some hp with ⟨hinit, rfl⟩ | ⟨hinit, -, rfl, rfl⟩
  · -- the initial value, which the connection holds already
    obtain rfl : initial = some item := hinit
    have hu' : tx.Upto ((sent ++ [item]) ++ []) hi := by simpa using hu
    refine ⟨⟨hi, hu'⟩, fun hne => absurd rfl hne, ?_⟩
    intro hf
    have htrue : updates.first = true := hfirst (by simp)
    have hfalse : updates.first = false := hf
    exact absurd (htrue.symm.trans hfalse) (by decide)
  · -- the value held now
    obtain rfl : initial = none := hinit
    have hu' : tx.Upto sent hi := by simpa using hu
    have hread : tx.Upto ((sent ++ [tx.value]) ++ []) tx.version := by simpa using hu'.read
    refine ⟨⟨tx.version, hread⟩, fun hne => absurd rfl hne, ?_⟩
    intro _
    refine ⟨le_rfl, ?_⟩
    rw [Channel.past_version]
    simp

/-- What a stream yielded is ordered as the values held were. -/
theorem Linked.pairwise {tx : Channel Proto.Snapshot} {c : Connection} (h : Linked tx c)
    {r : Proto.Snapshot → Proto.Snapshot → Prop}
    (hr : ∀ m n, m ≤ n → n ≤ tx.version → r (tx.past m) (tx.past n)) : c.sent.Pairwise r := by
  unfold Linked at h
  split at h
  · rw [h]; exact List.Pairwise.nil
  · rw [h.1]; exact List.Pairwise.nil
  · obtain ⟨⟨hi, hu⟩, -, -⟩ := h
    exact (List.pairwise_append.1 (hu.pairwise hr)).1

/-- A stream with nothing to yield has yielded the value held last. -/
theorem Linked.drained {tx : Channel Proto.Snapshot} {s : SubscribeStream} {sent : List Proto.Snapshot}
    {taken : ℕ} (h : Linked tx ⟨.streaming s, sent, taken⟩) (hp : s.poll tx = none) :
    sent.getLast? = some tx.value := by
  obtain ⟨-, -, hlast⟩ := h
  obtain ⟨initial, updates⟩ := s
  cases initial with
  | some snapshot => exact absurd hp (by simp [SubscribeStream.poll])
  | none =>
    have hnone : updates.poll tx = none := by simpa [SubscribeStream.poll] using hp
    obtain rfl := WatchStream.poll_none hnone
    obtain ⟨-, hl⟩ := hlast rfl
    rw [hl, Channel.past_version]

/-! ## Every event -/

/-- Items sent later leave what was taken where it stood. -/
theorem Applied.yielded {x : DataPlane} {sub sub' : Subscription} {sent : List Proto.Snapshot} {taken : ℕ}
    (h : Applied x) (hc : x.connection = some ⟨sub, sent, taken⟩) (item : Proto.Snapshot) :
    Applied { x with connection := some ⟨sub', sent ++ [item], taken⟩ } := by
  obtain ⟨hst, htk⟩ := h
  obtain ⟨hle, hlast⟩ := htk _ hc
  refine ⟨hst, ?_⟩
  rintro c ⟨⟩
  refine ⟨?_, ?_⟩
  · rw [List.length_append]
    exact Nat.le_succ_of_le hle
  · intro n hn
    have hn : taken = n + 1 := hn
    have hlt : n < sent.length := by
      have hle : taken ≤ sent.length := hle
      omega
    rw [List.getElem?_append_left hlt]
    exact hlast n hn

/-- The message taken is applied at once. -/
theorem Applied.receive (x : DataPlane) {c : Connection} {item : Proto.Snapshot}
    (hitem : c.sent[c.taken]? = some item) :
    Applied { x.receive item with connection := some { c with taken := c.taken + 1 } } := by
  refine ⟨rfl, ?_⟩
  rintro c' ⟨⟩
  obtain ⟨hlt, -⟩ := List.getElem?_eq_some_iff.1 hitem
  refine ⟨hlt, ?_⟩
  intro n hn
  obtain rfl : c.taken = n := by simpa using hn
  exact hitem.symm

/-- A change of one data plane. -/
theorem DpOk.setDp {w : World} (h : DpOk w) {d : ℕ} {x : DataPlane} {tx : Channel Proto.Snapshot}
    (hkeep : ∀ c, Linked w.tx c → Linked tx c) (happ : Applied x)
    (hlink : ∀ c, x.connection = some c → Linked tx c) : DpOk ((w.setTx tx).setDp d x) := by
  intro d'
  by_cases hd : d' = d
  · subst hd
    simp only [World.setDp, Function.update_self]
    exact ⟨happ, hlink⟩
  · simp only [World.setDp, Function.update_of_ne hd]
    obtain ⟨happ', hlink'⟩ := h d'
    exact ⟨happ', fun c hc => hkeep c (hlink' c hc)⟩

theorem setTx_self (w : World) : w.setTx w.tx = w := rfl

theorem DpOk.act {w : World} (h : DpOk w) (a : Action) : DpOk (w.act a) := by
  cases a with
  | subscribe d =>
    simp only [World.act]
    split
    · exact h
    · obtain ⟨⟨hst, -⟩, -⟩ := h d
      refine h.setDp (fun c hc => hc.receivers _) ⟨hst, ?_⟩ ?_
      · rintro c ⟨⟩
        exact ⟨le_rfl, fun n hn => absurd hn (by simp)⟩
      · rintro c ⟨⟩
        exact rfl
  | advance d =>
    simp only [World.act]
    split
    · rename_i c hc
      obtain ⟨⟨hst, htk⟩, hlink⟩ := h d
      rw [← setTx_self w]
      refine h.setDp (fun c hc => hc) ⟨hst, ?_⟩ ?_
      · rintro c' ⟨⟩
        exact htk c hc
      · rintro c' ⟨⟩
        exact (hlink c hc).advance
    · exact h
  | poll d =>
    simp only [World.act]
    split
    · rename_i s sent taken hc
      split
      · rename_i item s' hp
        obtain ⟨happ, hlink⟩ := h d
        rw [← setTx_self w]
        refine h.setDp (fun c hc => hc) (happ.yielded hc item) ?_
        rintro c' ⟨⟩
        exact (hlink _ hc).poll hp
      · exact h
    · exact h
  | deliver d =>
    simp only [World.act]
    split
    · rename_i c hc
      split
      · rename_i item hitem
        obtain ⟨-, hlink⟩ := h d
        rw [← setTx_self w]
        refine h.setDp (fun c hc => hc) (.receive _ hitem) ?_
        rintro c' ⟨⟩
        exact hlink c hc
      · exact h
    · exact h
  | disconnect d =>
    simp only [World.act]
    split
    · -- the routes applied stay in use
      obtain ⟨⟨hst, -⟩, -⟩ := h d
      refine h.setDp (fun c hc => hc.receivers _) ⟨hst, ?_⟩ ?_
      · rintro c ⟨⟩
      · rintro c ⟨⟩
    · exact h

/-- **Every event keeps it**: whatever the requests in flight are. -/
theorem DpOk.next {g : Gateway} (h : DpOk g.st) (e : Event) : DpOk (g.next e).st := by
  cases e with
  | start p => exact h
  | stop t => exact h
  | ext a => exact h.act a
  | step t c =>
    rcases Gateway.step_cases g t c with ⟨o, k, -, hn⟩ | ⟨-, hn⟩
    · rw [hn]
      exact h.exec c o
    · rw [hn]
      exact h

theorem dpOk_start (cp : AppState) : DpOk (.start cp) := by
  intro d
  -- nobody is connected
  have hnone : ∀ c, ((World.start cp).dp d).connection ≠ some c := by
    intro c
    simp [World.start, DataPlane.new]
  exact ⟨⟨rfl, fun c hc => absurd hc (hnone c)⟩, fun c hc => absurd hc (hnone c)⟩

theorem dpOk_run (cp : AppState) (es : List Event) : DpOk (Gateway.run (.idle (.start cp)) es).st :=
  Pool.run_inv (J := fun g : Gateway => DpOk g.st) (fun _ e h => h.next e) es (dpOk_start cp)

/-! ## No update is lost -/

/-- **A drained subscriber has the current snapshot.** After any interleaving of
requests, subscriptions, deliveries and disconnections: a data plane always has the
routes of the last snapshot it took, and if it is connected, its stream has nothing
left to yield and it has taken all that was sent, these are the routes of the
snapshot held. -/
theorem drained_current (cp : AppState) (es : List Event) (d : ℕ) :
    ((Gateway.run (.idle (.start cp)) es).st.dp d).state.snapshot =
        ((((Gateway.run (.idle (.start cp)) es).st.dp d).last).map snapshotToRoutes).getD .empty ∧
      ∀ s sent taken, ((Gateway.run (.idle (.start cp)) es).st.dp d).connection =
          some ⟨.streaming s, sent, taken⟩ →
        s.poll (Gateway.run (.idle (.start cp)) es).st.tx = none → taken = sent.length →
        ((Gateway.run (.idle (.start cp)) es).st.dp d).state.snapshot =
          snapshotToRoutes (Gateway.run (.idle (.start cp)) es).st.tx.value := by
  have h := dpOk_run cp es
  generalize (Gateway.run (.idle (.start cp)) es).st = w at h
  obtain ⟨⟨hst, htk⟩, hlink⟩ := h d
  refine ⟨hst, ?_⟩
  rintro s sent taken hc hp rfl
  -- the last item yielded is the value held, and it was taken
  have hlast := (hlink _ hc).drained hp
  obtain ⟨-, htaken⟩ := htk _ hc
  obtain ⟨n, hn⟩ : ∃ n, sent.length = n + 1 := by
    refine Nat.exists_eq_succ_of_ne_zero ?_
    intro h0
    rw [List.length_eq_zero_iff.1 h0] at hlast
    exact absurd hlast (by simp)
  have hitem : (w.dp d).last = some w.tx.value := by
    rw [htaken n hn, ← hlast, List.getLast?_eq_getElem?, hn]
    rfl
  rw [hst, hitem]
  rfl

namespace Sample

/-- Routes are created while data plane 0 subscribes: one before the clone, one before the
first poll. -/
def joining : List Event :=
  [.start (handle .plain (.createRoute users)), .start (handle .plain (.createRoute orders)),
    .ext (.subscribe 0), .step 0 none, .step 0 none, .step 0 none, .step 0 none, .ext (.advance 0),
    .ext (.advance 0), .step 1 none, .step 1 none, .step 1 none, .step 1 none, .ext (.poll 0),
    .ext (.deliver 0), .ext (.disconnect 0)]

/-- It connects again, while a route is deleted. -/
def rejoining : List Event :=
  joining ++ [.start (handle .plain (.deleteRoute "users")), .ext (.subscribe 0), .ext (.advance 0),
    .step 2 none, .step 2 none, .step 2 none, .step 2 none, .ext (.advance 0), .ext (.poll 0),
    .ext (.deliver 0), .ext (.poll 0), .ext (.deliver 0)]

end Sample

/-- A data plane that keeps its route while it is disconnected, and then catches up. -/
theorem drained_current_rejoining :
    let before := (Gateway.run (.idle (.start ⟨⟨[], []⟩, .new⟩)) Sample.joining).st
    let w := (Gateway.run (.idle (.start ⟨⟨[], []⟩, .new⟩)) Sample.rejoining).st
    (before.dp 0).connection = none ∧
      (before.dp 0).state.snapshot.routes.map Router.Route.id = ["users"] ∧
      (before.dp 0).state.snapshot = ((before.dp 0).last.map snapshotToRoutes).getD .empty ∧
      w.tx.stored.length = 3 ∧ (w.dp 0).state.snapshot.routes.map Router.Route.id = ["orders"] ∧
      (w.dp 0).state.snapshot = snapshotToRoutes w.tx.value :=
  ⟨rfl, rfl, (drained_current ⟨⟨[], []⟩, .new⟩ Sample.joining 0).1, rfl, rfl,
    (drained_current ⟨⟨[], []⟩, .new⟩ Sample.rejoining 0).2 _ _ _ rfl rfl rfl⟩

end Yali
