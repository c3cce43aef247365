import Yali.Proof.Rotation

/-!
# Round robin

The only shared state that a selection touches is the counter, in one `fetch_add`; so the
requests that ask clones of one route are served in the order of these, and which clone
of the route a request holds does not matter. Until the counter wraps for the first time
the `i`-th selection takes position `i` modulo the number of upstreams
(`asked_counters`), hence the requests are shared out evenly (`round_robin_balanced`).
-/

namespace Yali

open Conc Router

namespace Proxy

variable {w : ℕ} {p : Proxy}

/-- **A request that holds a clone of a route with upstreams gets one of them.** -/
theorem select_chooses {t a : ℕ} {r : Route} (ht : p.clones t = some a) (hr : p.routes[a]? = some r)
    (hne : r.upstreams ≠ []) :
    ∃ c : Choice, (p.next w (.select t)).2 = some c ∧ c.address = a ∧
      c.position < r.upstreams.length ∧ r.upstreams[c.position]? = some c.upstream := by
  have hclone : ((p.clones t).bind fun address => p.routes[address]?.map (address, ·)) = some (a, r) := by
    rw [ht, Option.bind_some, hr, Option.map_some]
  rcases selectUpstream_cases w r with ⟨hempty, -⟩ | ⟨u, hu, hsel⟩
  · exact absurd hempty hne
  · refine ⟨⟨a, r, u⟩, ?_, rfl, ?_, hu⟩
    · simp only [next, hclone, hsel]
      rfl
    · exact Nat.mod_lt _ (List.length_pos_iff.2 hne)

/-- The counters of selections in a row: consecutive numbers, as long as the counter has
not wrapped. -/
theorem asked_counters (h : p.Usize w) (es : List ProxyEvent) {a i n : ℕ} (hzero : p.counter a = 0)
    (hlen : i + n ≤ (p.asked w es a).length) (hle : i + n ≤ 2 ^ w) :
    (((p.asked w es a).drop i).take n).map (fun c => c.route.rrIndex) = List.range' i n := by
  obtain ⟨k, hk⟩ := choices_at h es a
  rw [hzero] at hk
  have hcount : (p.asked w es a).length = k := by
    rw [← length_draws (2 ^ w) 0 k, ← hk, List.length_map]
  have hslice := draws_slice (m := 2 ^ w) (c := 0) (hcount ▸ hlen) (by rwa [Nat.zero_add])
  rw [List.map_take, List.map_drop, hk, hslice, Nat.zero_add]

/-- How often they chose a position. -/
theorem asked_countP (h : p.Usize w) (es : List ProxyEvent) {a i n : ℕ} {r : Route}
    (hzero : p.counter a = 0) (hr : (p.run w es).routes[a]? = some r)
    (hlen : i + n ≤ (p.asked w es a).length) (hle : i + n ≤ 2 ^ w) (q : ℕ) :
    (((p.asked w es a).drop i).take n).countP (fun c => c.position = q) =
      (List.range' i n).countP fun v => v % r.upstreams.length = q := by
  rw [← asked_counters h es hzero hlen hle, List.countP_map]
  refine List.countP_congr ?_
  intro c hc
  -- the clone asked has the upstreams of the route
  have hmem : c ∈ p.asked w es a := List.mem_of_mem_drop (List.mem_of_mem_take hc)
  obtain ⟨hchoice, haddr⟩ := List.mem_filter.1 hmem
  have haddr : c.address = a := by simpa using haddr
  obtain ⟨r', hr', hsame, -⟩ := choices_same es hchoice
  obtain rfl : r = r' := by
    rw [haddr, hr] at hr'
    exact Option.some.inj hr'
  have hups : c.route.upstreams = r.upstreams := hsame.2.2.2.2
  unfold Choice.position
  rw [hups]
  rfl

/-- The counters of new routes, and of those yet to be made. -/
theorem counter_new {state : State} (h : ∀ r ∈ state.snapshot.routes, r.rrIndex = 0) (a : ℕ) :
    (Proxy.new state).counter a = 0 := by
  unfold counter
  cases hget : (Proxy.new state).routes[a]? with
  | none => rfl
  | some r => exact h r (List.mem_of_getElem? hget)

end Proxy

/-- **Round robin is balanced** over all requests that share a route, from its creation
on. In any run, every request that asks its clone of the route at `a` gets an upstream;
of the first `k ≤ 2 ^ w` selections each position has `k / n`, rounded down or up; and any
`n` in a row choose each position once. -/
theorem round_robin_balanced (w : ℕ) (state : State) (hnew : ∀ r ∈ state.snapshot.routes, r.rrIndex = 0)
    (es : List ProxyEvent) (a : ℕ) (r : Route) (hr : ((Proxy.new state).run w es).routes[a]? = some r)
    (hne : r.upstreams ≠ []) :
    (∀ t, ((Proxy.new state).run w es).clones t = some a →
        ∃ c : Choice, (((Proxy.new state).run w es).next w (.select t)).2 = some c ∧ c.address = a ∧
          c.position < r.upstreams.length ∧ r.upstreams[c.position]? = some c.upstream) ∧
      (∀ k, k ≤ ((Proxy.new state).asked w es a).length → k ≤ 2 ^ w → ∀ q < r.upstreams.length,
        (((Proxy.new state).asked w es a).take k).countP (fun c => c.position = q) =
            k / r.upstreams.length ∨
          (((Proxy.new state).asked w es a).take k).countP (fun c => c.position = q) =
            k ⌈/⌉ r.upstreams.length) ∧
      ∀ i, i + r.upstreams.length ≤ ((Proxy.new state).asked w es a).length →
        i + r.upstreams.length ≤ 2 ^ w → ∀ q < r.upstreams.length,
          ((((Proxy.new state).asked w es a).drop i).take r.upstreams.length).countP
            (fun c => c.position = q) = 1 := by
  have husize : (Proxy.new state).Usize w := by
    intro r hmem
    rw [hnew r hmem]
    exact Nat.two_pow_pos w
  have hzero : (Proxy.new state).counter a = 0 := Proxy.counter_new hnew a
  refine ⟨fun t ht => Proxy.select_chooses ht hr hne, ?_, ?_⟩
  · intro k hlen hle q hq
    have hcount := Proxy.asked_countP husize es (i := 0) (n := k) hzero hr (by rwa [Nat.zero_add])
      (by rwa [Nat.zero_add]) q
    rw [List.drop_zero] at hcount
    rw [hcount]
    exact countP_range'_share 0 k hq
  · intro i hlen hle q hq
    rw [Proxy.asked_countP husize es hzero hr hlen hle q]
    exact countP_range'_self i hq

namespace Sample

/-- Two requests hold clones at once, the later one asks first; a third follows. -/
def interleaved : List ProxyEvent :=
  [.apply pair, .accept 0 "/" "GET" none, .accept 1 "/" "GET" none, .select 1, .select 0,
    .accept 2 "/" "GET" none]

end Sample

theorem round_robin_balanced_pair :
    (∃ c : Choice, (((Proxy.new (.new .empty)).run 64 Sample.interleaved).next 64 (.select 2)).2 = some c ∧
        c.position < 2) ∧
      (((Proxy.new (.new .empty)).asked 64 Sample.interleaved 0).take 2).countP
        (fun c => c.position = 1) = 1 := by
  have hr : ((Proxy.new (.new .empty)).run 64 Sample.interleaved).routes[0]? =
      some { Sample.pairRoute with rrIndex := 2 } := by decide
  have h := round_robin_balanced 64 (.new .empty) (by decide) Sample.interleaved 0 _ hr (by decide)
  obtain ⟨c, hc, -, hlt, -⟩ := h.1 2 (by decide)
  exact ⟨⟨c, hc, hlt⟩, h.2.2 0 (by decide) (by decide) 1 (by decide)⟩

end Yali
