import Yali.Conc.Bounded
import Yali.Proof.Delivery

/-!
# A connected data plane catches up

When nothing more is published, a connected data plane needs a bounded number of its own
turns to have the routes of the snapshot held, whatever the other data planes and the
requests in flight do: two steps of `subscribe`, two polls, and a delivery for each item
that was or will be on the wire.

* `Connection.stage`, `Connection.owed`: how far the stream has come and how many items
  are still to be taken. No event undoes either (`Reached.next`).
* `catches_up`: after its turns the data plane is up to date.
-/

namespace Yali

open Conc

/-! ## Progress of a connection -/

namespace Connection

/-- Receiver, value cloned, streaming, initial value yielded, nothing left to yield. -/
def stage (tx : Channel Proto.Snapshot) (c : Connection) : ℕ :=
  match c.subscription with
  | .receiver _ => 0
  | .cloned _ _ => 1
  | .streaming s => if s.initial.isSome then 2 else if (s.updates.poll tx).isSome then 3 else 4

/-- The items on the wire, and those that the stream will yield. -/
def owed (tx : Channel Proto.Snapshot) (c : Connection) : ℕ :=
  c.sent.length - c.taken +
    match c.subscription with
    | .streaming s => s.initial.toList.length + (s.updates.poll tx).toList.length
    | _ => 2

variable {tx : Channel Proto.Snapshot}

theorem owed_le (c : Connection) : c.owed tx ≤ c.sent.length - c.taken + 2 := by
  obtain ⟨sub, sent, taken⟩ := c
  unfold owed
  cases sub with
  | receiver seen => exact le_rfl
  | cloned seen initial => exact le_rfl
  | streaming s =>
    have hinitial : s.initial.toList.length ≤ 1 := by cases s.initial <;> simp
    have hupdates : (s.updates.poll tx).toList.length ≤ 1 := by cases s.updates.poll tx <;> simp
    simp only
    omega

/-- A step of `subscribe`. -/
theorem advance_progress (c : Connection) (tx : Channel Proto.Snapshot) :
    min (c.stage tx + 1) 2 ≤ ({ c with subscription := c.subscription.advance tx } : Connection).stage tx ∧
      c.stage tx ≤ ({ c with subscription := c.subscription.advance tx } : Connection).stage tx ∧
      ({ c with subscription := c.subscription.advance tx } : Connection).owed tx ≤ c.owed tx := by
  obtain ⟨sub, sent, taken⟩ := c
  cases sub with
  | receiver seen => exact ⟨by simp [stage, Subscription.advance], by simp [stage, Subscription.advance], le_rfl⟩
  | cloned seen initial =>
    refine ⟨by simp [stage, Subscription.advance], by simp [stage, Subscription.advance], ?_⟩
    simp [owed, Subscription.advance, WatchStream.new, WatchStream.poll]
  | streaming s =>
    refine ⟨?_, le_rfl, le_rfl⟩
    simp only [stage, Subscription.advance]
    split
    · omega
    · split <;> omega

/-- An item yielded. -/
theorem poll_progress {s s' : SubscribeStream} {item : Proto.Snapshot} (sent : List Proto.Snapshot) (taken : ℕ)
    (h : s.poll tx = some (item, s')) :
    (⟨.streaming s, sent, taken⟩ : Connection).stage tx + 1 ≤
        (⟨.streaming s', sent ++ [item], taken⟩ : Connection).stage tx ∧
      (⟨.streaming s', sent ++ [item], taken⟩ : Connection).owed tx ≤
        (⟨.streaming s, sent, taken⟩ : Connection).owed tx := by
  obtain ⟨initial, updates⟩ := s
  rcases SubscribeStream.poll_some h with ⟨hi, rfl⟩ | ⟨hi, hpending, -, rfl⟩
  · -- the initial value
    obtain rfl : initial = some item := hi
    refine ⟨?_, ?_⟩
    · simp only [stage, Option.isSome_some, Option.isSome_none, if_true, Bool.false_eq_true, if_false]
      split <;> omega
    · simp only [owed, List.length_append, List.length_singleton, Option.toList_some, Option.toList_none,
        List.length_nil]
      omega
  · -- the value held, after which there is nothing more
    obtain rfl : initial = none := hi
    have hsome : updates.poll tx = some (tx.value, ⟨false, tx.version⟩) := by
      unfold WatchStream.poll
      rw [if_pos (by simpa using hpending)]
    have hnone : (⟨false, tx.version⟩ : WatchStream).poll tx = none := by simp [WatchStream.poll]
    refine ⟨?_, ?_⟩
    · simp [stage, hsome, hnone]
    · simp only [owed, hsome, hnone, List.length_append, List.length_singleton, Option.toList_some,
        Option.toList_none, List.length_nil]
      omega

/-- The last stage: there is nothing left to yield. -/
theorem stage_eq_four {c : Connection} (h : 4 ≤ c.stage tx) :
    ∃ s, c.subscription = .streaming s ∧ s.poll tx = none ∧ c.owed tx = c.sent.length - c.taken := by
  obtain ⟨sub, sent, taken⟩ := c
  cases sub with
  | receiver seen => exact absurd h (by simp [stage])
  | cloned seen initial => exact absurd h (by simp [stage])
  | streaming s =>
    obtain ⟨initial, updates⟩ := s
    cases initial with
    | some snapshot => exact absurd h (by simp [stage])
    | none =>
      cases hp : updates.poll tx with
      | some r => exact absurd h (by simp [stage, hp])
      | none => exact ⟨_, rfl, by simp [SubscribeStream.poll, hp], by simp [owed, hp]⟩

theorem stage_of_poll_none {s : SubscribeStream} (sent : List Proto.Snapshot) (taken : ℕ)
    (h : s.poll tx = none) : (⟨.streaming s, sent, taken⟩ : Connection).stage tx = 4 := by
  obtain ⟨initial, updates⟩ := s
  cases initial with
  | some snapshot => exact absurd h (by simp [SubscribeStream.poll])
  | none =>
    have hp : updates.poll tx = none := by simpa [SubscribeStream.poll] using h
    simp [stage, hp]

end Connection

/-! ## Milestones -/

/-- The turns of data plane `d`. -/
def turn (d : ℕ) : ℕ → Event
  | 0 | 1 => .ext (.advance d)
  | 2 | 3 => .ext (.poll d)
  | _ => .ext (.deliver d)

/-- Two steps of `subscribe`, two polls and `k` deliveries. -/
def turns (d k : ℕ) : List Event :=
  [.ext (.advance d), .ext (.advance d), .ext (.poll d), .ext (.poll d)] ++
    List.replicate k (.ext (.deliver d))

theorem turns_eq (d k : ℕ) : turns d k = (List.range' 0 (4 + k)).map (turn d) := by
  have hdeliver : (List.range' 4 k).map (turn d) = List.replicate k (.ext (.deliver d)) := by
    rw [List.eq_replicate_iff]
    refine ⟨by simp, ?_⟩
    intro e he
    obtain ⟨j, hj, rfl⟩ := List.mem_map.1 he
    rw [List.mem_range'_1] at hj
    match j, hj with
    | j + 4, _ => rfl
  rw [← List.range'_append_1, List.map_append, Nat.zero_add, hdeliver]
  rfl

theorem turn_ne (d j : ℕ) : turn d j ≠ .ext (.disconnect d) := by
  match j with
  | 0 | 1 | 2 | 3 => simp [turn]
  | j + 4 => simp [turn]

/-- After `j` turns, at most `K` items having been owed. -/
def Reached (K d j : ℕ) (w : World) : Prop :=
  ∃ c, (w.dp d).connection = some c ∧ min j 4 ≤ c.stage w.tx ∧ c.owed w.tx ≤ K - (j - 4)

/-- A move undoes nothing. -/
theorem moves_progress {tx : Channel Proto.Snapshot} {d : ℕ} {e : Event} {c : Connection}
    {x : Option Connection} (hm : Moves tx d e (some c) x) (hne : e ≠ .ext (.disconnect d)) :
    ∃ c', x = some c' ∧ c.stage tx ≤ c'.stage tx ∧ c'.owed tx ≤ c.owed tx := by
  cases hm with
  | advance c =>
    obtain ⟨-, hstage, howed⟩ := c.advance_progress tx
    exact ⟨_, rfl, hstage, howed⟩
  | poll sent taken hp =>
    obtain ⟨hstage, howed⟩ := Connection.poll_progress sent taken hp
    exact ⟨_, rfl, (Nat.le_succ _).trans hstage, howed⟩
  | deliver c =>
    refine ⟨_, rfl, le_rfl, ?_⟩
    simp only [Connection.owed]
    omega
  | disconnect c => exact absurd rfl hne
  | rest e x hx => exact ⟨c, rfl, le_rfl, le_rfl⟩

section Run

variable {g : Gateway} {es : List Event} {d K : ℕ}

/-- The channel when nothing is stored on it. -/
theorem tx_quiet {n : ℕ} (hn : n < es.length)
    (hquiet : (g.wAt es (n + 1)).st.tx.stored = (g.wAt es n).st.tx.stored) :
    ∃ r, (g.wAt es (n + 1)).st.tx = { (g.wAt es n).st.tx with receivers := r } := by
  rcases tx_next g es hn with ⟨a, htx⟩ | htx
  · by_cases hr : (g.wAt es n).st.tx.receivers = 0
    · refine ⟨(g.wAt es n).st.tx.receivers, ?_⟩
      rw [htx, Channel.send_of_none hr]
    · rw [htx, Channel.send_of_some hr] at hquiet
      exact absurd hquiet (by simp)
  · exact htx

theorem Reached.keep {j : ℕ} {w w' : World} (h : Reached K d j w) {c c' : Connection}
    (hc : (w.dp d).connection = some c) (hc' : (w'.dp d).connection = some c')
    (htx : ∃ r, w'.tx = { w.tx with receivers := r }) (hstage : c.stage w.tx ≤ c'.stage w.tx)
    (howed : c'.owed w.tx ≤ c.owed w.tx) : Reached K d j w' := by
  obtain ⟨c₀, hc₀, hs, ho⟩ := h
  obtain rfl : c = c₀ := Option.some.inj (hc.symm.trans hc₀)
  obtain ⟨r, hr⟩ := htx
  refine ⟨c', hc', ?_, ?_⟩
  · rw [hr]
    exact hs.trans hstage
  · rw [hr]
    exact howed.trans ho

/-- **No event undoes a turn.** -/
theorem Reached.next {j n : ℕ} (hn : n < es.length) (hne : es[n] ≠ .ext (.disconnect d))
    (hquiet : (g.wAt es (n + 1)).st.tx.stored = (g.wAt es n).st.tx.stored)
    (h : Reached K d j (g.wAt es n).st) : Reached K d j (g.wAt es (n + 1)).st := by
  obtain ⟨c, hc, -⟩ := id h
  have hm := conn_next g es d hn
  have hc' : conn g es n d = some c := hc
  rw [hc'] at hm
  obtain ⟨c', hc'', hstage, howed⟩ := moves_progress hm hne
  exact h.keep hc hc'' (tx_quiet hn hquiet) hstage howed

theorem conn_deliver {n : ℕ} {c : Connection} (he : es[n]? = some (.ext (.deliver d)))
    (hc : conn g es n d = some c) (hlt : c.taken < c.sent.length) :
    conn g es (n + 1) d = some { c with taken := c.taken + 1 } := by
  obtain ⟨hn, hget⟩ := List.getElem?_eq_some_iff.1 he
  unfold conn at *
  rw [Gateway.wAt_succ g es hn, hget]
  simp only [Gateway.next, Pool.next, World.act, hc, List.getElem?_eq_getElem hlt, setDp_connection, if_pos]

/-- **A turn of the data plane** reaches the next milestone. -/
theorem Reached.turn {j n : ℕ} (he : es[n]? = some (turn d j))
    (hquiet : (g.wAt es (n + 1)).st.tx.stored = (g.wAt es n).st.tx.stored)
    (h : Reached K d j (g.wAt es n).st) : Reached K d (j + 1) (g.wAt es (n + 1)).st := by
  obtain ⟨hn, hget⟩ := List.getElem?_eq_some_iff.1 he
  obtain ⟨c, hc, hstage, howed⟩ := h
  have hc' : conn g es n d = some c := hc
  obtain ⟨r, hr⟩ := tx_quiet hn hquiet
  have hreach : ∀ c', conn g es (n + 1) d = some c' → min (j + 1) 4 ≤ c'.stage (g.wAt es n).st.tx →
      c'.owed (g.wAt es n).st.tx ≤ K - (j + 1 - 4) → Reached K d (j + 1) (g.wAt es (n + 1)).st := by
    intro c' hconn hs ho
    refine ⟨c', hconn, ?_, ?_⟩
    · rw [hr]
      exact hs
    · rw [hr]
      exact ho
  have hstep : ∃ c', conn g es (n + 1) d = some c' ∧
      c.stage (g.wAt es n).st.tx ≤ c'.stage (g.wAt es n).st.tx ∧
      c'.owed (g.wAt es n).st.tx ≤ c.owed (g.wAt es n).st.tx := by
    have hm := conn_next g es d hn
    rw [hc', hget] at hm
    exact moves_progress hm (turn_ne d j)
  rcases Nat.lt_or_ge j 2 with hj | hj
  · -- a step of `subscribe`
    have hturn : Yali.turn d j = .ext (.advance d) := by
      match j with
      | 0 | 1 => rfl
    rw [hturn] at he
    obtain ⟨hup, -, hless⟩ := c.advance_progress (g.wAt es n).st.tx
    exact hreach _ (conn_advance he hc') (by omega) (by omega)
  rcases Nat.lt_or_ge j 4 with hj' | hj'
  · -- a poll of the stream
    have hturn : Yali.turn d j = .ext (.poll d) := by
      match j with
      | 2 | 3 => rfl
    rw [hturn] at he
    obtain ⟨sub, sent, taken⟩ := c
    cases sub with
    | receiver seen => exact absurd hstage (by simp only [Connection.stage]; omega)
    | cloned seen initial => exact absurd hstage (by simp only [Connection.stage]; omega)
    | streaming s =>
      cases hp : s.poll (g.wAt es n).st.tx with
      | some r =>
        obtain ⟨hup, hless⟩ := Connection.poll_progress sent taken hp
        exact hreach _ (conn_poll he hc' hp) (by omega) (by omega)
      | none =>
        -- the last stage is reached already
        have hfour := Connection.stage_of_poll_none sent taken hp
        obtain ⟨c', hconn, hup, hless⟩ := hstep
        exact hreach c' hconn (by omega) (by omega)
  · -- a delivery
    have hturn : Yali.turn d j = .ext (.deliver d) := by
      match j with
      | j + 4 => rfl
    rw [hturn] at he
    have hfour : 4 ≤ c.stage (g.wAt es n).st.tx := by omega
    obtain ⟨-, -, -, howe⟩ := Connection.stage_eq_four hfour
    rcases Nat.lt_or_ge c.taken c.sent.length with hlt | hge
    · have hfour' : 4 ≤ ({ c with taken := c.taken + 1 } : Connection).stage (g.wAt es n).st.tx := hfour
      obtain ⟨-, -, -, howe'⟩ := Connection.stage_eq_four hfour'
      refine hreach _ (conn_deliver he hc' hlt) (by omega) ?_
      simp only at howe'
      omega
    · -- nothing is on the wire
      obtain ⟨c', hconn, hup, hless⟩ := hstep
      exact hreach c' hconn (by omega) (by omega)

end Run

/-! ## Catching up -/

/-- A data plane that has taken all that its stream has to yield has the routes of the
snapshot held. -/
theorem DpOk.current {w : World} (h : DpOk w) {d : ℕ} {c : Connection} (hc : (w.dp d).connection = some c)
    {s : SubscribeStream} (hsub : c.subscription = .streaming s) (hp : s.poll w.tx = none)
    (hall : c.sent.length ≤ c.taken) : (w.dp d).state.snapshot = snapshotToRoutes w.tx.value := by
  obtain ⟨⟨hstate, htaken⟩, hlinked⟩ := h d
  obtain ⟨sub, sent, taken⟩ := c
  obtain rfl : sub = .streaming s := hsub
  have hlast := (hlinked _ hc).drained hp
  obtain ⟨hle, htook⟩ := htaken _ hc
  obtain rfl : taken = sent.length := le_antisymm hle hall
  -- the last item yielded is the value held
  have hne : sent ≠ [] := by
    rintro rfl
    exact absurd hlast (by simp)
  have hlen : sent.length = sent.length - 1 + 1 := (Nat.succ_pred_eq_of_pos (List.length_pos_of_ne_nil hne)).symm
  rw [hstate, htook _ hlen, ← List.getLast?_eq_getElem?, hlast]
  rfl

/-- After the last milestone nothing is owed. -/
theorem Reached.current {w : World} {K d : ℕ} (h : Reached K d (4 + K) w) (hok : DpOk w) :
    (w.dp d).state.snapshot = snapshotToRoutes w.tx.value := by
  obtain ⟨c, hc, hstage, howed⟩ := h
  obtain ⟨s, hsub, hp, howe⟩ := Connection.stage_eq_four (le_trans (by omega) hstage)
  exact hok.current hc hsub hp (by omega)

/-- The turns reach the last milestone. -/
theorem turns_reached {g : Gateway} {es : List Event} {m d : ℕ} {c : Connection} (hc : conn g es m d = some c)
    (hquiet : ∀ n, m ≤ n → (g.wAt es n).st.tx.stored = (g.wAt es m).st.tx.stored)
    (hstay : .ext (.disconnect d) ∉ es.drop m)
    (hturns : (turns d (c.sent.length - c.taken + 2)).Sublist (es.drop m)) :
    Reached (c.sent.length - c.taken + 2) d (4 + (c.sent.length - c.taken + 2)) (g.run es).st := by
  have hstart : Reached (c.sent.length - c.taken + 2) d 0 (g.wAt es m).st :=
    ⟨c, hc, Nat.zero_le _, c.owed_le⟩
  have hstill : ∀ n, (g.wAt es (m + n + 1)).st.tx.stored = (g.wAt es (m + n)).st.tx.stored := fun n =>
    (hquiet (m + n + 1) (by omega)).trans (hquiet (m + n) (by omega)).symm
  have hlast : Reached (c.sent.length - c.taken + 2) d (0 + (4 + (c.sent.length - c.taken + 2)))
      (g.wAt es (m + (es.drop m).length)).st := by
    refine milestones (s := fun n => (g.wAt es (m + n)).st) ?_ ?_ (turns_eq d _ ▸ hturns) hstart
    · intro n hn j h
      rw [List.length_drop] at hn
      have hlt : m + n < es.length := by omega
      refine Reached.next (n := m + n) hlt ?_ (hstill n) h
      intro he
      exact hstay (List.mem_of_getElem? (by rw [List.getElem?_drop, List.getElem?_eq_getElem hlt, he]))
    · intro n j he h
      rw [List.getElem?_drop] at he
      exact Reached.turn he (hstill n) h
  have hm : m ≤ es.length := by
    by_contra hlt
    rw [List.drop_of_length_le (Nat.le_of_lt (Nat.not_le.1 hlt))] at hturns
    exact absurd (List.sublist_nil.1 hturns) (by simp [turns])
  rwa [List.length_drop, Nat.add_sub_cancel' hm, Gateway.wAt_length, Nat.zero_add] at hlast

/-- **A connected data plane catches up.** After any run, from a moment on nothing is stored
on the channel and data plane `d` stays connected. If the events since then have its turns
in order, with as many deliveries as items are on the wire, and two more, then it has the
routes of the snapshot held, whatever else happens in between. -/
theorem catches_up (cp : AppState) (es : List Event) (m d : ℕ) (c : Connection)
    (hc : conn (.idle (.start cp)) es m d = some c)
    (hquiet : ∀ n, m ≤ n → (Gateway.wAt (.idle (.start cp)) es n).st.tx.stored =
      (Gateway.wAt (.idle (.start cp)) es m).st.tx.stored)
    (hstay : .ext (.disconnect d) ∉ es.drop m)
    (hturns : (turns d (c.sent.length - c.taken + 2)).Sublist (es.drop m)) :
    ((Gateway.run (.idle (.start cp)) es).st.dp d).state.snapshot =
      snapshotToRoutes (Gateway.run (.idle (.start cp)) es).st.tx.value :=
  (turns_reached hc hquiet hstay hturns).current (dpOk_run cp es)

namespace Sample

/-- A route is published while the first item of data plane 0 is on the wire; then it has its
turns. -/
def waiting : List Event :=
  [.start (handle .plain (.createRoute users)), .ext (.subscribe 0), .ext (.advance 0), .ext (.advance 0),
    .ext (.poll 0), .step 0 none, .step 0 none, .step 0 none, .step 0 none] ++ turns 0 3

def waitingAt (n : ℕ) : Gateway := Gateway.wAt (.idle (.start ⟨⟨[], []⟩, .new⟩)) waiting n

/-- Nothing is published after the route. -/
theorem waiting_quiet {n : ℕ} (hn : 9 ≤ n) : (waitingAt n).st.tx.stored = (waitingAt 9).st.tx.stored := by
  match n with
  | 0 | 1 | 2 | 3 | 4 | 5 | 6 | 7 | 8 => exact absurd hn (by decide)
  | 9 | 10 | 11 | 12 | 13 | 14 | 15 | 16 => rfl
  | n + 17 =>
    have hall : waiting.take (n + 17) = waiting := List.take_of_length_le (by simp [waiting, turns])
    unfold waitingAt Gateway.wAt Pool.wAt
    rw [hall]
    rfl

end Sample

/-- The data plane has nothing when its turns begin, and then the route. -/
theorem catches_up_waiting :
    (∃ c, conn (.idle (.start ⟨⟨[], []⟩, .new⟩)) Sample.waiting 9 0 = some c ∧ c.taken < c.sent.length) ∧
      ((Sample.waitingAt 9).st.dp 0).state.snapshot = .empty ∧
      ((Gateway.run (.idle (.start ⟨⟨[], []⟩, .new⟩)) Sample.waiting).st.dp 0).state.snapshot =
        snapshotToRoutes (Gateway.run (.idle (.start ⟨⟨[], []⟩, .new⟩)) Sample.waiting).st.tx.value ∧
      ((Gateway.run (.idle (.start ⟨⟨[], []⟩, .new⟩)) Sample.waiting).st.dp 0).state.snapshot.routes.map
        Router.Route.id = ["users"] := by
  obtain ⟨c, hc, hsent, htaken⟩ : ∃ c, conn (.idle (.start ⟨⟨[], []⟩, .new⟩)) Sample.waiting 9 0 = some c ∧
      c.sent.length = 1 ∧ c.taken = 0 := ⟨_, rfl, rfl, rfl⟩
  have hstay : .ext (.disconnect 0) ∉ Sample.waiting.drop 9 := by simp [Sample.waiting, turns]
  have hturns : (turns 0 (c.sent.length - c.taken + 2)).Sublist (Sample.waiting.drop 9) := by
    rw [hsent, htaken]
    exact List.Sublist.refl _
  exact ⟨⟨c, hc, by omega⟩, rfl,
    catches_up _ Sample.waiting 9 0 c hc (fun n hn => Sample.waiting_quiet hn) hstay hturns, rfl⟩

end Yali
