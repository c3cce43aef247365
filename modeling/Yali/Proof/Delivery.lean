import Yali.Proof.Version

/-!
# What a subscription yields

`subscribe` clones the value held and chains to it the `WatchStream` of the receiver,
whose first poll yields the value held then. A version is yielded twice exactly when
nothing was stored between the clone and that poll (`delivered_once_iff`).

* `Moves`: what an event does to the connection of a data plane (`conn_next`).
* `Resumed`: what the stream has yielded, from the value cloned on; every event of the
  connection keeps it (`resumed_run`).
* `fresh_publications`: the versions stored are distinct, whatever the order of the
  publications.
-/

namespace Yali

open Conc

/-! ## The property -/

/-- The connection of data plane `d` after `n` events. -/
def conn (g : Gateway) (es : List Event) (n d : ℕ) : Option Connection :=
  ((g.wAt es n).st.dp d).connection

/-- At no point has a stream yielded a version twice. -/
def DeliveredOnce (g : Gateway) (es : List Event) : Prop :=
  ∀ d n c, n ≤ es.length → conn g es n d = some c → (c.sent.map Proto.Snapshot.version).Nodup

/-- Each snapshot stored has a fresh version. -/
def FreshVersions (g : Gateway) (es : List Event) : Prop :=
  (((g.run es).st.tx.init :: (g.run es).st.tx.stored).map Proto.Snapshot.version).Nodup

/-- Event `m` clones the initial value of the connection that `d` still has after
`n` events. -/
structure Opened (g : Gateway) (es : List Event) (m n d : ℕ) : Prop where
  lt : m < n
  clones : es[m]? = some (.ext (.advance d)) ∧
    ∃ seen sent taken, conn g es m d = some ⟨.receiver seen, sent, taken⟩
  stays : ∀ k, m < k → k < n → es[k]? ≠ some (.ext (.disconnect d))

/-- Event `n` is the first poll of the `WatchStream` of `d`'s connection. -/
def FirstPollAt (g : Gateway) (es : List Event) (n d : ℕ) : Prop :=
  es[n]? = some (.ext (.poll d)) ∧
    ∃ seen sent taken, conn g es n d = some ⟨.streaming ⟨none, ⟨true, seen⟩⟩, sent, taken⟩

/-- Between the clone of an initial value and the first poll of the `WatchStream`
chained to it a snapshot is stored. -/
def StoresBetween (g : Gateway) (es : List Event) : Prop :=
  ∀ d m n, Opened g es m n d → FirstPollAt g es n d → ∃ k t s, m < k ∧ k < n ∧ StoresAt g es k t s

/-! ## The connection of a data plane -/

/-- What an event does to the connection of `d`, over the channel `tx`. -/
inductive Moves (tx : Channel Proto.Snapshot) (d : ℕ) :
    Event → Option Connection → Option Connection → Prop
  | subscribe (seen : ℕ) : Moves tx d (.ext (.subscribe d)) none (some ⟨.receiver seen, [], 0⟩)
  | advance (c : Connection) : Moves tx d (.ext (.advance d)) (some c)
      (some { c with subscription := c.subscription.advance tx })
  | poll {s s' : SubscribeStream} {item : Proto.Snapshot} (sent : List Proto.Snapshot) (taken : ℕ)
      (h : s.poll tx = some (item, s')) : Moves tx d (.ext (.poll d))
      (some ⟨.streaming s, sent, taken⟩) (some ⟨.streaming s', sent ++ [item], taken⟩)
  | deliver (c : Connection) : Moves tx d (.ext (.deliver d)) (some c)
      (some { c with taken := c.taken + 1 })
  | disconnect (c : Connection) : Moves tx d (.ext (.disconnect d)) (some c) none
  | rest (e : Event) (x : Option Connection) (h : x = none ∨ e ≠ .ext (.disconnect d)) : Moves tx d e x x

theorem setDp_connection (w : World) (d d' : ℕ) (x : DataPlane) :
    ((w.setDp d x).dp d').connection = if d' = d then x.connection else (w.dp d').connection := by
  simp only [World.setDp, Function.update_apply]
  split <;> rfl

/-- A change of data plane `d'` is no event of the others. -/
theorem Moves.setDp {tx : Channel Proto.Snapshot} {w : World} {d d' : ℕ} {e : Event} {x : DataPlane}
    (hself : Moves tx d' e (w.dp d').connection x.connection)
    (hother : d ≠ d' → e ≠ .ext (.disconnect d)) :
    Moves tx d e (w.dp d).connection ((w.setDp d' x).dp d).connection := by
  rw [setDp_connection]
  by_cases hd : d = d'
  · subst hd
    rw [if_pos rfl]
    exact hself
  · rw [if_neg hd]
    exact .rest _ _ (Or.inr (hother hd))

theorem act_moves (w : World) (a : Action) (d : ℕ) :
    Moves w.tx d (.ext a) (w.dp d).connection ((w.act a).dp d).connection := by
  cases a with
  | subscribe d' =>
    simp only [World.act]
    split
    · exact .rest _ _ (Or.inr (by simp))
    · rename_i hnone
      refine Moves.setDp (w := w) ?_ (fun _ => by simp)
      rw [hnone]
      exact .subscribe _
  | advance d' =>
    simp only [World.act]
    split
    · rename_i c hc
      refine Moves.setDp ?_ (fun _ => by simp)
      rw [hc]
      exact .advance c
    · exact .rest _ _ (Or.inr (by simp))
  | poll d' =>
    simp only [World.act]
    split
    · rename_i s sent taken hc
      split
      · rename_i item s' hp
        refine Moves.setDp ?_ (fun _ => by simp)
        rw [hc]
        exact .poll sent taken hp
      · exact .rest _ _ (Or.inr (by simp))
    · exact .rest _ _ (Or.inr (by simp))
  | deliver d' =>
    simp only [World.act]
    split
    · rename_i c hc
      split
      · refine Moves.setDp ?_ (fun _ => by simp)
        rw [hc]
        exact .deliver c
      · exact .rest _ _ (Or.inr (by simp))
    · exact .rest _ _ (Or.inr (by simp))
  | disconnect d' =>
    -- a disconnection of `d` is one of `d'` only if they are the same
    have hne : d ≠ d' → (Conc.Event.ext (.disconnect d') : Event) ≠ .ext (.disconnect d) := by
      intro hd h
      injection h with h
      injection h with h
      exact hd h.symm
    simp only [World.act]
    split
    · rename_i c hc
      refine Moves.setDp (w := w) ?_ hne
      rw [hc]
      exact .disconnect c
    · rename_i hnone
      by_cases hd : d = d'
      · subst hd
        exact .rest _ _ (Or.inl hnone)
      · exact .rest _ _ (Or.inr (hne hd))

/-- **What an event does to a connection.** -/
theorem conn_next (g : Gateway) (es : List Event) (d : ℕ) {n : ℕ} (hn : n < es.length) :
    Moves (g.wAt es n).st.tx d es[n] (conn g es n d) (conn g es (n + 1) d) := by
  unfold conn
  rw [Gateway.wAt_succ g es hn]
  cases he : es[n] with
  | start p => exact .rest _ _ (Or.inr (by simp))
  | stop t => exact .rest _ _ (Or.inr (by simp))
  | ext a => exact act_moves _ a d
  | step t c =>
    rcases Gateway.step_cases (g.wAt es n) t c with ⟨o, k, -, hnext⟩ | ⟨-, hnext⟩
    · rw [hnext]
      exact .rest _ _ (Or.inr (by simp))
    · rw [hnext]
      exact .rest _ _ (Or.inr (by simp))

/-- A connection past its first step cloned its initial value at some event. -/
theorem opened_of_conn {cp : AppState} {es : List Event} {d : ℕ} {c : Connection} {n : ℕ}
    (hn : n ≤ es.length) (hc : conn (.idle (.start cp)) es n d = some c)
    (hsub : ∀ seen, c.subscription ≠ .receiver seen) :
    ∃ m, Opened (.idle (.start cp)) es m n d := by
  induction n generalizing c with
  | zero =>
    -- nobody is connected at the start
    exact absurd hc (by simp [conn, Gateway.wAt_zero, Pool.idle, World.start, DataPlane.new])
  | succ n ih =>
    have hget : es[n]? = some es[n] := List.getElem?_eq_getElem hn
    have hmoves := conn_next (.idle (.start cp)) es d hn
    rw [hc] at hmoves
    -- a connection that was past its first step before
    have hkeep : ∀ c', conn (.idle (.start cp)) es n d = some c' →
        (∀ seen, c'.subscription ≠ .receiver seen) → es[n] ≠ .ext (.disconnect d) →
        ∃ m, Opened (.idle (.start cp)) es m (n + 1) d := by
      intro c' hc' hsub' hne
      obtain ⟨m, hm⟩ := ih (Nat.le_of_succ_le hn) hc' hsub'
      refine ⟨m, Nat.lt_succ_of_lt hm.lt, hm.clones, ?_⟩
      intro k hmk hkn
      rcases Nat.lt_or_eq_of_le (Nat.le_of_lt_succ hkn) with hlt | rfl
      · exact hm.stays k hmk hlt
      · rw [hget]
        simpa using hne
    generalize hbefore : conn (.idle (.start cp)) es n d = x at hmoves
    generalize he : es[n] = e at hmoves
    cases hmoves with
    | subscribe seen => exact absurd rfl (hsub seen)
    | advance c₀ =>
      cases hs : c₀.subscription with
      | receiver seen =>
        obtain ⟨sub, sent, taken⟩ := c₀
        obtain rfl : sub = .receiver seen := hs
        rw [he] at hget
        refine ⟨n, Nat.lt_succ_self n, ⟨hget, seen, sent, taken, hbefore⟩, ?_⟩
        intro k hnk hkn
        omega
      | cloned seen initial => exact hkeep c₀ hbefore (by simp [hs]) (by simp [he])
      | streaming s => exact hkeep c₀ hbefore (by simp [hs]) (by simp [he])
    | poll sent taken hp => exact hkeep _ hbefore (by simp) (by simp [he])
    | deliver c₀ => exact hkeep c₀ hbefore hsub (by simp [he])
    | rest e x h =>
      rcases h with h | h
      · exact absurd h (by simp)
      · exact hkeep c hbefore hsub (by rw [he]; exact h)

/-! ## What a stream has yielded -/

/-- A connection whose initial value was cloned at version `v` of the channel: it holds
the value or has yielded it, and what its `WatchStream` yielded was held since. -/
def Resumed (tx : Channel Proto.Snapshot) (v : ℕ) (c : Connection) : Prop :=
  v ≤ tx.version ∧
    match c.subscription with
    | .receiver _ => False
    | .cloned _ initial => c.sent = [] ∧ initial = tx.past v
    | .streaming s =>
      (s.updates.first = true → c.sent ++ s.initial.toList = [tx.past v]) ∧
        (s.updates.first = false → s.initial = none ∧ tx.Upto c.sent s.updates.seen)

theorem Resumed.send {tx : Channel Proto.Snapshot} {v : ℕ} {c : Connection} (h : Resumed tx v c)
    (a : Proto.Snapshot) : Resumed (tx.send a) v c := by
  obtain ⟨hv, h⟩ := h
  refine ⟨le_trans hv (Channel.send_version_le a tx), ?_⟩
  rw [Channel.past_send a tx hv]
  split at h
  · exact h
  · exact h
  · obtain ⟨hfirst, hlater⟩ := h
    refine ⟨hfirst, ?_⟩
    intro hf
    obtain ⟨hnone, hu⟩ := hlater hf
    exact ⟨hnone, hu.send a⟩

/-- The clone. -/
theorem Resumed.clone (tx : Channel Proto.Snapshot) (seen taken : ℕ) :
    Resumed tx tx.version ⟨.cloned seen tx.value, [], taken⟩ :=
  ⟨le_rfl, rfl, (Channel.past_version tx).symm⟩

theorem Resumed.advance {tx : Channel Proto.Snapshot} {v : ℕ} {c : Connection} (h : Resumed tx v c) :
    Resumed tx v { c with subscription := c.subscription.advance tx } := by
  obtain ⟨sub, sent, taken⟩ := c
  obtain ⟨hv, h⟩ := h
  cases sub with
  | receiver seen => exact h.elim
  | cloned seen initial =>
    obtain ⟨rfl, rfl⟩ := h
    refine ⟨hv, fun _ => rfl, ?_⟩
    intro hf
    have htf : true = false := hf
    exact absurd htf (by decide)
  | streaming s => exact ⟨hv, h⟩

/-- A poll that finds the initial value yields it alone; one that finds a new value
has yielded only older ones before. -/
theorem Resumed.poll {tx : Channel Proto.Snapshot} {v : ℕ} {s s' : SubscribeStream}
    {sent : List Proto.Snapshot} {taken : ℕ} {item : Proto.Snapshot}
    (h : Resumed tx v ⟨.streaming s, sent, taken⟩) (hp : s.poll tx = some (item, s')) :
    Resumed tx v ⟨.streaming s', sent ++ [item], taken⟩ := by
  obtain ⟨hv, hfirst, hlater⟩ := h
  obtain ⟨initial, updates⟩ := s
  refine ⟨hv, ?_⟩
  rcases SubscribeStream.poll_some hp with ⟨hinit, rfl⟩ | ⟨hinit, -, rfl, rfl⟩
  · obtain rfl : initial = some item := hinit
    refine ⟨fun hf => ?_, fun hf => ?_⟩
    · have hsent := hfirst hf
      simpa using hsent
    · obtain ⟨hnone, -⟩ := hlater hf
      exact absurd hnone (by simp)
  · obtain rfl : initial = none := hinit
    refine ⟨fun hf => absurd hf (by simp), fun _ => ⟨rfl, ?_⟩⟩
    -- what was read before, up to the version seen or to the clone
    cases hf : updates.first with
    | false =>
      obtain ⟨-, hu⟩ := hlater hf
      exact hu.read
    | true =>
      have hsent : sent = [tx.past v] := by simpa using hfirst hf
      rw [hsent]
      exact ((Channel.Upto.nil (Nat.zero_le _)).snoc (Nat.zero_le v) hv).read

/-- An event of the connection that does not end it. -/
theorem Resumed.moves {tx : Channel Proto.Snapshot} {v d : ℕ} {e : Event} {c : Connection}
    {x : Option Connection} (h : Resumed tx v c) (hm : Moves tx d e (some c) x)
    (hne : e ≠ .ext (.disconnect d)) : ∃ c', x = some c' ∧ Resumed tx v c' := by
  cases hm with
  | advance c => exact ⟨_, rfl, h.advance⟩
  | poll sent taken hp => exact ⟨_, rfl, h.poll hp⟩
  | deliver c => exact ⟨_, rfl, h⟩
  | disconnect c => exact absurd rfl hne
  | rest e x hx => exact ⟨c, rfl, h⟩

/-- An event that sends, or does not touch what is stored. -/
theorem tx_next (g : Gateway) (es : List Event) {n : ℕ} (hn : n < es.length) :
    (∃ a, (g.wAt es (n + 1)).st.tx = (g.wAt es n).st.tx.send a) ∨
      ∃ r, (g.wAt es (n + 1)).st.tx = { (g.wAt es n).st.tx with receivers := r } := by
  rw [Gateway.wAt_succ g es hn]
  cases es[n] with
  | start p => exact Or.inr ⟨_, rfl⟩
  | stop t => exact Or.inr ⟨_, rfl⟩
  | ext a => exact Or.inr (act_tx _ a)
  | step t c =>
    rcases Gateway.step_cases (g.wAt es n) t c with ⟨o, k, -, hnext⟩ | ⟨-, hnext⟩
    · rw [hnext]
      rcases exec_tx c o (g.wAt es n).st with htx | htx
      · exact Or.inr ⟨_, htx⟩
      · exact Or.inl htx
    · rw [hnext]
      exact Or.inr ⟨_, rfl⟩

theorem Resumed.next {g : Gateway} {es : List Event} {n v : ℕ} {c : Connection} (hn : n < es.length)
    (h : Resumed (g.wAt es n).st.tx v c) : Resumed (g.wAt es (n + 1)).st.tx v c := by
  rcases tx_next g es hn with ⟨a, htx⟩ | ⟨r, htx⟩
  · rw [htx]
    exact h.send a
  · rw [htx]
    exact h

theorem conn_advance {g : Gateway} {es : List Event} {n d : ℕ} {c : Connection}
    (he : es[n]? = some (.ext (.advance d))) (hc : conn g es n d = some c) :
    conn g es (n + 1) d =
      some { c with subscription := c.subscription.advance (g.wAt es n).st.tx } := by
  obtain ⟨hn, hget⟩ := List.getElem?_eq_some_iff.1 he
  unfold conn at *
  rw [Gateway.wAt_succ g es hn, hget]
  simp only [Gateway.next, Pool.next, World.act, hc, setDp_connection, if_pos]

theorem conn_poll {g : Gateway} {es : List Event} {n d taken : ℕ} {s s' : SubscribeStream}
    {sent : List Proto.Snapshot} {item : Proto.Snapshot} (he : es[n]? = some (.ext (.poll d)))
    (hc : conn g es n d = some ⟨.streaming s, sent, taken⟩)
    (hp : s.poll (g.wAt es n).st.tx = some (item, s')) :
    conn g es (n + 1) d = some ⟨.streaming s', sent ++ [item], taken⟩ := by
  obtain ⟨hn, hget⟩ := List.getElem?_eq_some_iff.1 he
  unfold conn at *
  rw [Gateway.wAt_succ g es hn, hget]
  simp only [Gateway.next, Pool.next, World.act, hc, hp, setDp_connection, if_pos]

/-- **From the clone on**, as long as the connection stays. -/
theorem resumed_run {cp : AppState} {es : List Event} {m n d : ℕ}
    (h : Opened (.idle (.start cp)) es m n d) (hn : n ≤ es.length) :
    ∃ c, conn (.idle (.start cp)) es n d = some c ∧
      Resumed (Gateway.wAt (.idle (.start cp)) es n).st.tx
        (Gateway.wAt (.idle (.start cp)) es m).st.tx.version c := by
  -- on the events since the clone
  obtain ⟨hlt, ⟨he, seen, sent, taken, hc⟩, hstays⟩ := h
  induction n, hlt using Nat.le_induction with
  | base =>
    have hsent : sent = [] := by
      have hok := dpOk_run cp (es.take m) d
      exact hok.2 _ hc
    subst hsent
    exact ⟨_, conn_advance he hc, (Resumed.clone _ seen taken).next hn⟩
  | succ n hmn ih =>
    obtain ⟨c, hconn, hres⟩ := ih (Nat.le_of_succ_le hn) fun k hmk hkn =>
      hstays k hmk (Nat.lt_succ_of_lt hkn)
    have hne : es[n] ≠ .ext (.disconnect d) := by
      have hno := hstays n hmn (Nat.lt_succ_self n)
      rw [List.getElem?_eq_getElem hn] at hno
      simpa using hno
    have hmoves := conn_next (.idle (.start cp)) es d hn
    rw [hconn] at hmoves
    obtain ⟨c', hc', hres'⟩ := hres.moves hmoves hne
    exact ⟨c', hc', hres'.next hn⟩

/-! ## What is stored in between -/

theorem stored_grows (g : Gateway) (es : List Event) {m n : ℕ} (hmn : m ≤ n) (hn : n ≤ es.length) :
    (g.wAt es n).st.tx.init = (g.wAt es m).st.tx.init ∧
      (g.wAt es m).st.tx.stored <+: (g.wAt es n).st.tx.stored := by
  induction n, hmn using Nat.le_induction with
  | base => exact ⟨rfl, List.prefix_rfl⟩
  | succ n hmn ih =>
    obtain ⟨hinit, hpre⟩ := ih (Nat.le_of_succ_le hn)
    obtain ⟨hinit', hstored⟩ := stored_succ g es hn
    refine ⟨hinit'.trans hinit, ?_⟩
    rcases hstored with ⟨t, s, -, heq⟩ | heq
    · rw [heq]
      exact hpre.trans (List.prefix_append _ _)
    · rw [heq]
      exact hpre

/-- The channel moves on between two points exactly when a snapshot is stored there. -/
theorem version_lt_iff (g : Gateway) (es : List Event) {m n : ℕ} (hmn : m ≤ n) (hn : n ≤ es.length) :
    (g.wAt es m).st.tx.version < (g.wAt es n).st.tx.version ↔
      ∃ k t s, m ≤ k ∧ k < n ∧ StoresAt g es k t s := by
  constructor
  · intro hlt
    induction n, hmn using Nat.le_induction with
    | base => exact absurd hlt (lt_irrefl _)
    | succ n hmn ih =>
      rcases (stored_succ g es hn).2 with ⟨t, s, hst, -⟩ | heq
      · exact ⟨n, t, s, hmn, Nat.lt_succ_self n, hst⟩
      · have hsame : (g.wAt es (n + 1)).st.tx.version = (g.wAt es n).st.tx.version :=
          congrArg List.length heq
        rw [hsame] at hlt
        obtain ⟨k, t, s, hmk, hkn, hst⟩ := ih (Nat.le_of_succ_le hn) hlt
        exact ⟨k, t, s, hmk, Nat.lt_succ_of_lt hkn, hst⟩
  · intro h
    obtain ⟨k, t, s, hmk, hkn, hst⟩ := h
    have hbefore := (stored_grows g es hmk (by omega)).2.length_le
    have hafter := (stored_grows g es (m := k + 1) hkn hn).2.length_le
    have hlen := congrArg List.length hst.stored
    rw [List.length_append, List.length_singleton] at hlen
    unfold Channel.version
    omega

/-- At every point of the run. -/
theorem FreshVersions.take {g : Gateway} {es : List Event} (h : FreshVersions g es) {n : ℕ}
    (hn : n ≤ es.length) :
    (((g.wAt es n).st.tx.init :: (g.wAt es n).st.tx.stored).map Proto.Snapshot.version).Nodup := by
  obtain ⟨hinit, hpre⟩ := stored_grows g es hn le_rfl
  unfold FreshVersions at h
  rw [← Gateway.wAt_length, hinit] at h
  have hsub := (hpre.sublist.cons_cons (g.wAt es n).st.tx.init).map Proto.Snapshot.version
  exact h.sublist hsub

/-! ## No version twice -/

/-- A value new to the stream: the channel has moved on since the last one. -/
theorem Resumed.older {tx : Channel Proto.Snapshot} {v : ℕ} {s s' : SubscribeStream}
    {sent : List Proto.Snapshot} {taken : ℕ} {item : Proto.Snapshot}
    (h : Resumed tx v ⟨.streaming s, sent, taken⟩) (hp : s.poll tx = some (item, s'))
    (hfirst : s.initial = none → s.updates.first = true → v < tx.version) :
    sent = [] ∨ item = tx.value ∧ ∃ hi, hi < tx.version ∧ tx.Upto sent hi := by
  obtain ⟨hv, hclone, hlater⟩ := h
  obtain ⟨initial, updates⟩ := s
  rcases SubscribeStream.poll_some hp with ⟨hinit, -⟩ | ⟨hinit, hcond, hitem, -⟩
  · left
    obtain rfl : initial = some item := hinit
    cases hf : updates.first with
    | true =>
      have hsent : sent ++ [item] = [] ++ [tx.past v] := hclone hf
      exact (List.append_inj' hsent rfl).1
    | false => exact absurd (hlater hf).1 (by simp)
  · right
    obtain rfl : initial = none := hinit
    refine ⟨hitem, ?_⟩
    cases hf : updates.first with
    | true =>
      have hsent : sent = [tx.past v] := by simpa using hclone hf
      rw [hsent]
      exact ⟨v, hfirst rfl hf, (Channel.Upto.nil (Nat.zero_le _)).snoc (Nat.zero_le v) hv⟩
    | false =>
      obtain ⟨-, hu⟩ := hlater hf
      -- it yields because the version it has seen is not the channel's
      have hne : updates.seen ≠ tx.version := by simpa [hf] using hcond
      exact ⟨updates.seen, lt_of_le_of_ne hu.1 hne, hu⟩

section Once

variable {cp : AppState} {es : List Event}

/-- **A poll yields a version that the stream has not yielded.** -/
theorem poll_fresh (hfresh : FreshVersions (.idle (.start cp)) es)
    (hstores : StoresBetween (.idle (.start cp)) es) {n d taken : ℕ} (hn : n < es.length)
    {s s' : SubscribeStream} {sent : List Proto.Snapshot} {item : Proto.Snapshot}
    (he : es[n] = .ext (.poll d))
    (hc : conn (.idle (.start cp)) es n d = some ⟨.streaming s, sent, taken⟩)
    (hp : s.poll (Gateway.wAt (.idle (.start cp)) es n).st.tx = some (item, s')) :
    item.version ∉ sent.map Proto.Snapshot.version := by
  obtain ⟨m, hopen⟩ := opened_of_conn hn.le hc (by simp)
  obtain ⟨c, hc', hres⟩ := resumed_run hopen hn.le
  obtain rfl : c = ⟨.streaming s, sent, taken⟩ := Option.some.inj (hc'.symm.trans hc)
  -- at the first poll of the `WatchStream` something was stored since the clone
  have hfirst : s.initial = none → s.updates.first = true →
      (Gateway.wAt (.idle (.start cp)) es m).st.tx.version <
        (Gateway.wAt (.idle (.start cp)) es n).st.tx.version := by
    intro hinit hf
    obtain ⟨initial, first, seen⟩ := s
    obtain rfl : initial = none := hinit
    obtain rfl : first = true := hf
    have hget : es[n]? = some (.ext (.poll d)) := by rw [List.getElem?_eq_getElem hn, he]
    obtain ⟨k, t, s, hmk, hkn, hst⟩ := hstores d m n hopen ⟨hget, seen, sent, taken, hc⟩
    exact (version_lt_iff _ es hopen.lt.le hn.le).2 ⟨k, t, s, hmk.le, hkn, hst⟩
  rcases hres.older hp hfirst with hsent | ⟨hitem, hi, hlt, hu⟩
  · simp [hsent]
  · rw [hitem]
    exact hu.not_mem hlt (hfresh.take hn.le)

/-- A first poll at the version of the clone yields the initial value again. -/
theorem first_poll_again {m n d : ℕ} (hopen : Opened (.idle (.start cp)) es m n d)
    (hpoll : FirstPollAt (.idle (.start cp)) es n d)
    (hv : (Gateway.wAt (.idle (.start cp)) es m).st.tx.version =
      (Gateway.wAt (.idle (.start cp)) es n).st.tx.version) :
    ∃ c snapshot, conn (.idle (.start cp)) es (n + 1) d = some c ∧ c.sent = [snapshot, snapshot] := by
  obtain ⟨he, seen, sent, taken, hc⟩ := hpoll
  obtain ⟨hn, -⟩ := List.getElem?_eq_some_iff.1 he
  obtain ⟨c, hc', hres⟩ := resumed_run hopen hn.le
  obtain rfl : c = ⟨.streaming ⟨none, ⟨true, seen⟩⟩, sent, taken⟩ := Option.some.inj (hc'.symm.trans hc)
  obtain ⟨-, hfirst, -⟩ := hres
  have hsent : sent ++ [] = [_] := hfirst rfl
  rw [List.append_nil, hv, Channel.past_version] at hsent
  exact ⟨_, _, conn_poll he hc rfl, by rw [hsent]; rfl⟩

/-- **Along the run no version is yielded twice.** -/
theorem sent_nodup (hfresh : FreshVersions (.idle (.start cp)) es)
    (hstores : StoresBetween (.idle (.start cp)) es) {n d : ℕ} {c : Connection} (hn : n ≤ es.length)
    (hc : conn (.idle (.start cp)) es n d = some c) : (c.sent.map Proto.Snapshot.version).Nodup := by
  induction n generalizing c with
  | zero => exact absurd hc (by simp [conn, Gateway.wAt_zero, Pool.idle, World.start, DataPlane.new])
  | succ n ih =>
    have hmoves := conn_next (.idle (.start cp)) es d hn
    rw [hc] at hmoves
    generalize hbefore : conn (.idle (.start cp)) es n d = x at hmoves
    generalize he : es[n] = e at hmoves
    have hkeep : ∀ c', x = some c' → (c'.sent.map Proto.Snapshot.version).Nodup := by
      intro c' hx
      exact ih (Nat.le_of_succ_le hn) (hbefore.trans hx)
    cases hmoves with
    | subscribe seen => exact List.nodup_nil
    | advance c₀ => exact hkeep c₀ rfl
    | poll sent taken hp =>
      have hsent := hkeep _ rfl
      have hnew := poll_fresh hfresh hstores hn he hbefore hp
      rw [List.map_append, List.map_singleton]
      exact List.nodup_append_comm.1 (List.nodup_cons.2 ⟨hnew, hsent⟩)
    | deliver c₀ => exact hkeep c₀ rfl
    | rest e x hx => exact hkeep c rfl

/-- Where nothing is stored between the clone and the first poll, a version is yielded
twice. -/
theorem stores_of_once (h : DeliveredOnce (.idle (.start cp)) es) :
    StoresBetween (.idle (.start cp)) es := by
  intro d m n hopen hpoll
  have hn : n < es.length := (List.getElem?_eq_some_iff.1 hpoll.1).1
  by_contra hno
  have hsame : ¬ (Gateway.wAt (.idle (.start cp)) es m).st.tx.version <
      (Gateway.wAt (.idle (.start cp)) es n).st.tx.version := by
    rw [version_lt_iff _ es hopen.lt.le hn.le]
    intro hst
    obtain ⟨k, t, s, hmk, hkn, hst⟩ := hst
    rcases Nat.lt_or_eq_of_le hmk with hlt | rfl
    · exact hno ⟨k, t, s, hlt, hkn, hst⟩
    · -- the clone itself stores nothing
      obtain ⟨c, j, he, -, -⟩ := hst
      rw [hopen.clones.1] at he
      exact absurd he (by simp)
  have hle := (stored_grows (.idle (.start cp)) es hopen.lt.le hn.le).2.length_le
  have hv : (Gateway.wAt (.idle (.start cp)) es m).st.tx.version =
      (Gateway.wAt (.idle (.start cp)) es n).st.tx.version :=
    Nat.le_antisymm hle (Nat.le_of_not_lt hsame)
  obtain ⟨c, snapshot, hc, hsent⟩ := first_poll_again hopen hpoll hv
  have hnodup := h d (n + 1) c hn hc
  rw [hsent] at hnodup
  exact absurd hnodup (by simp)

end Once

/-- **No version is delivered twice exactly when between the clone of each initial
value and the first poll of its `WatchStream` a snapshot is stored**: any requests and
publications, any subscriptions, in any order. -/
theorem delivered_once_iff (cp : AppState) (es : List Event)
    (hfresh : FreshVersions (.idle (.start cp)) es) :
    DeliveredOnce (.idle (.start cp)) es ↔ StoresBetween (.idle (.start cp)) es := by
  constructor
  · exact stores_of_once
  · intro hstores d n c hn hc
    exact sent_nodup hfresh hstores hn hc

/-- A publication between the clone and the polls: the stream yields 0 and 1. -/
def Sample.interposed : List Event :=
  [.ext (.subscribe 0), .ext (.advance 0), .start (publishAndReply .plain .noContent), .step 0 none,
    .step 0 none, .step 0 none, .ext (.advance 0), .ext (.poll 0), .ext (.poll 0)]

theorem Sample.interposed_stores : StoresBetween (.idle (.start ⟨⟨[], []⟩, .new⟩)) interposed := by
  rintro d m n ⟨-, ⟨hclone, seen, sent, taken, hconn⟩, -⟩ ⟨hpoll, -⟩
  -- the clone is event 1, and the polls come last
  have hm : m = 1 := by
    match m with
    | 0 | 2 | 3 | 4 | 5 | 7 | 8 => exact absurd hclone (by simp [interposed])
    | 1 => rfl
    | 6 =>
      obtain rfl : 0 = d := by simpa [interposed] using hclone
      have hcloned : conn (.idle (.start ⟨⟨[], []⟩, .new⟩)) interposed 6 0 =
        some ⟨.cloned 0 ⟨0, []⟩, [], 0⟩ := rfl
      exact absurd (hcloned.symm.trans hconn) (by simp)
    | m + 9 => exact absurd hclone (by simp [interposed])
  have hn : 5 < n := by
    match n with
    | 0 | 1 | 2 | 3 | 4 | 5 => exact absurd hpoll (by simp [interposed])
    | n + 6 => omega
  exact ⟨5, 0, ⟨1, []⟩, by omega, hn, none, _, rfl, rfl, by decide⟩

theorem delivered_once_iff_interposed :
    StoresBetween (.idle (.start ⟨⟨[], []⟩, .new⟩)) Sample.interposed ∧
      DeliveredOnce (.idle (.start ⟨⟨[], []⟩, .new⟩)) Sample.interposed :=
  ⟨Sample.interposed_stores, (delivered_once_iff ⟨⟨[], []⟩, .new⟩ Sample.interposed
    (by unfold FreshVersions; decide)).2 Sample.interposed_stores⟩

/-- A data plane subscribes after a publication and polls its stream. -/
def Sample.late : List Event :=
  [.ext (.subscribe 1), .start (publishAndReply .plain .noContent), .step 0 none, .step 0 none,
    .step 0 none, .ext (.subscribe 0), .ext (.advance 0), .ext (.advance 0), .ext (.poll 0),
    .ext (.poll 0)]

/-- It gets version 1 twice. -/
theorem late_subscriber_twice :
    FreshVersions (.idle (.start ⟨⟨[], []⟩, .new⟩)) Sample.late ∧
      ¬ DeliveredOnce (.idle (.start ⟨⟨[], []⟩, .new⟩)) Sample.late := by
  constructor
  · unfold FreshVersions
    decide
  · intro h
    have hnodup := h 0 10 ⟨.streaming ⟨none, ⟨false, 1⟩⟩, [⟨1, []⟩, ⟨1, []⟩], 0⟩ (by decide) rfl
    exact absurd hnodup (by decide)

/-! ## Publications -/

section Publications

variable {E : Env}

/-- Nothing is left of a program that has sent. -/
theorem Publishing.sent {snapshot : Proto.Snapshot} {k : Unit → Handler} {m : Mode}
    (h : Publishing E (.op (.send snapshot) k) m) (o : Op) (j : o.Res → Handler) : k () ≠ .op o j := by
  obtain rfl := h.of_send
  obtain ⟨m', hm', hk⟩ := h ()
  cases hm' with
  | sent snapshot =>
    intro heq
    rw [heq] at hk
    -- the protocol has no operation after the send
    obtain ⟨m'', hm'', -⟩ := hk (World.exec none o (.start ⟨⟨[], []⟩, .new⟩)).1
    cases hm''

variable {pool : Tables} {es : List Event}

/-- A program stores one snapshot. -/
theorem stores_once (hes : ∀ p, .start p ∈ es → Publisher E p) {m n t : ℕ} {s s' : Proto.Snapshot}
    (hm : StoresAt (.launched pool) es m t s) (hn : StoresAt (.launched pool) es n t s') : n ≤ m := by
  by_contra hlt
  have hmn : m + 1 ≤ n := by omega
  have hmlen : m < es.length := hm.lt
  have hnlen : n < es.length := hn.lt
  -- after the first send the program has no operation left
  have hafter : t < (Gateway.wAt (.launched pool) es (m + 1)).count ∧
      ∀ o j, (Gateway.wAt (.launched pool) es (m + 1)).task t ≠ some (.op o j) := by
    obtain ⟨c, k, he, ht, -⟩ := hm
    obtain ⟨hlt', hget⟩ := List.getElem?_eq_some_iff.1 he
    obtain ⟨mode, htag, -⟩ : ∃ mode : ℕ → Mode,
        Pool.Tagged (Phase E) Replied Failed ((Gateway.launched pool).wAt es m) mode ∧ _ :=
      issued_run hes hmlen.le
    rw [Gateway.wAt_succ _ es hmlen, hget, Gateway.next_step ht]
    refine ⟨htag.lt ht, ?_⟩
    intro o j hj
    simp only [Function.update_self] at hj
    exact Publishing.sent (htag.task t _ ht) o j (Option.some.inj hj)
  obtain ⟨c, k, -, ht, -⟩ := hn
  exact Pool.no_op_mono hmn hnlen.le hafter.1 hafter.2 _ k ht

/-- **The versions stored are distinct**, one publication at a time or not, short of
2 ^ 64 events. -/
theorem fresh_publications (hes : ∀ p, .start p ∈ es → Publisher E p) (hlen : es.length < 2 ^ 64) :
    FreshVersions (.launched pool) es := by
  have hrun : ∀ n, n ≤ es.length → (((Gateway.wAt (.launched pool) es n).st.tx.init ::
      (Gateway.wAt (.launched pool) es n).st.tx.stored).map Proto.Snapshot.version).Nodup := by
    intro n hn
    induction n with
    | zero => exact List.nodup_singleton _
    | succ n ih =>
      have hih := ih (Nat.le_of_succ_le hn)
      obtain ⟨hinit, ⟨t, s, hst, heq⟩ | heq⟩ := stored_succ (.launched pool) es hn
      · obtain ⟨a, ha, hva⟩ := hst.version hes
        rw [hinit, heq, ← List.cons_append, List.map_append, List.map_singleton]
        refine List.nodup_append_comm.1 (List.nodup_cons.2 ⟨?_, hih⟩)
        intro hmem
        obtain ⟨s', hs', hv⟩ := List.mem_map.1 hmem
        have hsame : number (.launched pool) es a = s'.version.toNat := by rw [← hva, hv]
        rcases List.mem_cons.1 hs' with rfl | hs'
        · -- the first value has version 0, a publication at least 1
          rw [number_eq hlen ha.lt, init_version pool es (Nat.le_of_succ_le hn)] at hsame
          exact absurd hsame (Nat.succ_ne_zero _)
        · obtain ⟨m, u, hmn, hstm⟩ := stored_at rfl (Nat.le_of_succ_le hn) hs'
          obtain ⟨b, hb, hvb⟩ := hstm.version hes
          rw [hvb] at hsame
          have hab : a ≤ b := (number_le_iff hlen ha hb).1 hsame.le
          have hba : b ≤ a := (number_le_iff hlen hb ha).1 hsame.ge
          obtain rfl : a = b := Nat.le_antisymm hab hba
          -- one number, one program
          obtain ⟨c, k, he, -⟩ := ha
          obtain ⟨c', k', he', -⟩ := hb
          rw [he] at he'
          obtain ⟨rfl, -⟩ : t = u ∧ c = c' := by simpa using he'
          have hle := stores_once hes hstm hst
          omega
      · rw [hinit, heq]
        exact hih
  have hend := hrun es.length le_rfl
  rwa [Gateway.wAt_length] at hend

end Publications

end Yali
