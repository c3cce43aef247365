import Yali.Conc.Rotation
import Yali.Proof.Routing
import Yali.Proof.Stream
import Yali.Spec.Proxy

/-!
# Rotation over the upstreams

A route's counter is drawn from by all requests that cloned the route, in any order
(`choices_at`), and a snapshot applied makes all its routes anew: the next upstream of
each is its first one. So over a run the numbers of times the upstreams of a route were
chosen differ by at most the number of times the route was made, and the wraps of its
counters (`rotation_restarts`).

* `next_cases`: what an event does to the routes.
* `state_run`: the routes in use are those of the last snapshot applied, but for their
  counters; they are the routes of a data plane of the gateway (`state_dataPlane`).
* `choices_same`: the route of a choice is still there at the end, but for its counter.
-/

namespace Yali

open Conc Router

/-! ## Counting choices -/

/-- The same id, match and upstreams; the counters may differ. -/
def Same (r r' : Route) : Prop :=
  r.id = r'.id ∧ r.pathPrefix = r'.pathPrefix ∧ r.methods = r'.methods ∧ r.host = r'.host ∧
    r.upstreams = r'.upstreams

instance (r r' : Route) : Decidable (Same r r') := inferInstanceAs (Decidable (_ ∧ _))

/-- The position of the upstream chosen. -/
def Choice.position (c : Choice) : ℕ := c.route.rrIndex % c.route.upstreams.length

/-- How often position `a` of route `R` was chosen. -/
def picks (R : Route) (a : ℕ) (cs : List Choice) : ℕ :=
  cs.countP fun c => Same c.route R ∧ c.position = a

/-- How often a counter of `R` started again from 0. -/
def wraps (w : ℕ) (R : Route) (cs : List Choice) : ℕ :=
  cs.countP fun c => Same c.route R ∧ c.route.rrIndex + 1 = 2 ^ w

/-- How often `R` is among the routes. -/
def copies (R : Route) (routes : List Route) : ℕ := routes.countP fun r => Same r R

/-- The snapshots applied. -/
def applied : List ProxyEvent → List Proto.Snapshot
  | [] => []
  | .apply snapshot :: es => snapshot :: applied es
  | _ :: es => applied es

/-- How often `R` was made: before the run, and by each snapshot applied. -/
def made (R : Route) (p : Proxy) (es : List ProxyEvent) : ℕ :=
  copies R p.routes + ((applied es).map fun snapshot => copies R (snapshotToRoutes snapshot).routes).sum

/-- The counters fit a `usize`. -/
def Proxy.Usize (w : ℕ) (p : Proxy) : Prop := ∀ r ∈ p.routes, r.rrIndex < 2 ^ w

/-- The route as `Route::new` makes it. -/
def Router.Route.anew (r : Route) : Route := { r with rrIndex := 0 }

theorem applied_cons {e : ProxyEvent} (h : ∀ snapshot, e ≠ .apply snapshot) (es : List ProxyEvent) :
    applied (e :: es) = applied es := by
  cases e with
  | apply snapshot => exact absurd rfl (h snapshot)
  | accept t path method host => rfl
  | select t => rfl

theorem Same.refl (r : Route) : Same r r := ⟨rfl, rfl, rfl, rfl, rfl⟩

theorem Same.trans {r r' r'' : Route} (h : Same r r') (h' : Same r' r'') : Same r r'' := by
  obtain ⟨h₁, h₂, h₃, h₄, h₅⟩ := h
  obtain ⟨h₁', h₂', h₃', h₄', h₅'⟩ := h'
  exact ⟨h₁.trans h₁', h₂.trans h₂', h₃.trans h₃', h₄.trans h₄', h₅.trans h₅'⟩

theorem Same.symm {r r' : Route} (h : Same r r') : Same r' r := by
  obtain ⟨h₁, h₂, h₃, h₄, h₅⟩ := h
  exact ⟨h₁.symm, h₂.symm, h₃.symm, h₄.symm, h₅.symm⟩

/-! ## Operations -/

theorem selectUpstream_cases (w : ℕ) (route : Route) :
    route.upstreams = [] ∧ selectUpstream w route = (none, route) ∨
      ∃ u, route.upstreams[route.rrIndex % route.upstreams.length]? = some u ∧
        selectUpstream w route = (some u, { route with rrIndex := (route.rrIndex + 1) % 2 ^ w }) := by
  unfold selectUpstream
  split
  · rename_i hempty
    exact Or.inl ⟨by simpa using hempty, rfl⟩
  · rename_i hne
    right
    have hpos : 0 < route.upstreams.length := by
      rw [List.length_pos_iff]
      intro h
      exact hne (by rw [h]; rfl)
    have hlt : route.rrIndex % route.upstreams.length < route.upstreams.length := Nat.mod_lt _ hpos
    rw [List.getElem?_eq_getElem hlt]
    exact ⟨_, rfl, rfl⟩

/-- A snapshot applied has all its counters at 0. -/
theorem snapshotToRoutes_rrIndex {snapshot : Proto.Snapshot} {r : Route}
    (h : r ∈ (snapshotToRoutes snapshot).routes) : r.rrIndex = 0 := by
  obtain ⟨route, -, rfl⟩ := List.mem_map.1 h
  rfl

namespace Proxy

variable {w : ℕ} {p : Proxy}

/-- After a snapshot is applied its routes are in use. -/
theorem state_apply (w : ℕ) (p : Proxy) (snapshot : Proto.Snapshot) :
    (p.next w (.apply snapshot)).1.state = p.state.update (snapshotToRoutes snapshot) := by
  simp [next, state, State.update, State.new]

/-- **A clone is the route that matches**, and one that matches is cloned. -/
theorem matchIndex_eq (p : Proxy) (path method : String) (host : Option String) :
    matchRoute p.state.snapshot path method host =
      (p.matchIndex path method host).bind fun address => p.routes[address]? := by
  unfold matchIndex
  cases hm : matchRoute p.state.snapshot path method host with
  | none => rfl
  | some route =>
    have hmem : route ∈ p.routes.drop p.offset := by
      rw [matchRoute_eq] at hm
      exact (Best.scan_some isBetter_of hm).1
    cases hi : (p.routes.drop p.offset).idxOf? route with
    | none => exact absurd hmem (List.idxOf?_eq_none_iff.1 hi)
    | some i =>
      obtain ⟨hlt, heq, -⟩ := List.findIdx?_eq_some_iff_getElem.1 hi
      have hroute : (p.routes.drop p.offset)[i] = route := by simpa using heq
      have hget : p.routes[p.offset + i]? = some route := by
        rw [← List.getElem?_drop, List.getElem?_eq_getElem hlt, hroute]
      have hstate : p.state.snapshot.routes.idxOf? route = some i := hi
      rw [Option.bind_some, hstate, Option.map_some, Option.bind_some, hget]

/-- **What an event does to the routes**: it adds those of a snapshot, leaves all as
they are, or advances the counter of one. -/
theorem next_cases (w : ℕ) (p : Proxy) (e : ProxyEvent) :
    (∃ snapshot, e = .apply snapshot ∧ (p.next w e).2 = none ∧
        (p.next w e).1.routes = p.routes ++ (snapshotToRoutes snapshot).routes) ∨
      ((∀ snapshot, e ≠ .apply snapshot) ∧ (p.next w e).2 = none ∧ (p.next w e).1.routes = p.routes) ∨
      ∃ c : Choice, (∀ snapshot, e ≠ .apply snapshot) ∧ (p.next w e).2 = some c ∧
        p.routes[c.address]? = some c.route ∧
        c.route.upstreams[c.position]? = some c.upstream ∧
        (p.next w e).1.routes =
          p.routes.set c.address { c.route with rrIndex := (c.route.rrIndex + 1) % 2 ^ w } := by
  cases e with
  | apply snapshot => exact Or.inl ⟨snapshot, rfl, rfl, rfl⟩
  | accept t path method host =>
    refine Or.inr (Or.inl ⟨by simp, ?_⟩)
    simp only [next]
    split <;> exact ⟨rfl, rfl⟩
  | select t =>
    simp only [next]
    split
    · exact Or.inr (Or.inl ⟨by simp, rfl, rfl⟩)
    · rename_i address route hget
      obtain ⟨a, -, ha⟩ := Option.bind_eq_some_iff.1 hget
      obtain ⟨r, hr, heq⟩ := Option.map_eq_some_iff.1 ha
      obtain ⟨rfl, rfl⟩ : a = address ∧ r = route := by simpa using heq
      rcases selectUpstream_cases w r with ⟨-, hsel⟩ | ⟨u, hu, hsel⟩
      · -- a route without upstreams is left as it is
        refine Or.inr (Or.inl ⟨by simp, ?_⟩)
        rw [hsel]
        refine ⟨rfl, ?_⟩
        obtain ⟨hlt, rfl⟩ := List.getElem?_eq_some_iff.1 hr
        exact List.set_getElem_self hlt
      · refine Or.inr (Or.inr ⟨⟨a, r, u⟩, by simp, ?_⟩)
        rw [hsel]
        exact ⟨rfl, hr, hu, rfl⟩

theorem Usize.next (h : p.Usize w) (e : ProxyEvent) : (p.next w e).1.Usize w := by
  have hpos : 0 < 2 ^ w := Nat.two_pow_pos w
  unfold Usize
  intro r hr
  rcases next_cases w p e with ⟨snapshot, -, -, hroutes⟩ | ⟨-, -, hroutes⟩ | ⟨c, -, -, -, -, hroutes⟩
  · rw [hroutes, List.mem_append] at hr
    rcases hr with hr | hr
    · exact h r hr
    · rw [snapshotToRoutes_rrIndex hr]
      exact hpos
  · rw [hroutes] at hr
    exact h r hr
  · rw [hroutes] at hr
    rcases List.mem_or_eq_of_mem_set hr with hr | rfl
    · exact h r hr
    · exact Nat.mod_lt _ hpos

/-! ## The routes stay -/

/-- An event keeps a route where it is, but for its counter. -/
theorem routes_next {a : ℕ} {r : Route} (h : p.routes[a]? = some r) (e : ProxyEvent) :
    ∃ r', (p.next w e).1.routes[a]? = some r' ∧ Same r r' := by
  obtain ⟨hlt, hget⟩ := List.getElem?_eq_some_iff.1 h
  rcases next_cases w p e with ⟨snapshot, -, -, hroutes⟩ | ⟨-, -, hroutes⟩ | ⟨c, -, -, hc, -, hroutes⟩
  · rw [hroutes, List.getElem?_append_left hlt]
    exact ⟨r, h, .refl r⟩
  · rw [hroutes]
    exact ⟨r, h, .refl r⟩
  · rw [hroutes]
    by_cases ha : c.address = a
    · subst ha
      obtain rfl : c.route = r := Option.some.inj (hc.symm.trans h)
      exact ⟨_, List.getElem?_set_self hlt, .refl _⟩
    · rw [List.getElem?_set_ne ha]
      exact ⟨r, h, .refl r⟩

theorem routes_run {a : ℕ} {r : Route} (h : p.routes[a]? = some r) (es : List ProxyEvent) :
    ∃ r', (p.run w es).routes[a]? = some r' ∧ Same r r' := by
  induction es generalizing p r with
  | nil => exact ⟨r, h, .refl r⟩
  | cons e es ih =>
    obtain ⟨r₁, h₁, hs₁⟩ := routes_next (w := w) h e
    obtain ⟨r₂, h₂, hs₂⟩ := ih h₁
    exact ⟨r₂, h₂, hs₁.trans hs₂⟩

theorem offset_next {e : ProxyEvent} (h : ∀ snapshot, e ≠ .apply snapshot) :
    (p.next w e).1.offset = p.offset := by
  cases e with
  | apply snapshot => exact absurd rfl (h snapshot)
  | accept t path method host =>
    simp only [next]
    split <;> rfl
  | select t =>
    simp only [next]
    split <;> rfl

/-- A request leaves the routes in use as they are, but for a counter. -/
theorem anew_next {e : ProxyEvent} (h : ∀ snapshot, e ≠ .apply snapshot) :
    (p.next w e).1.state.snapshot.routes.map Route.anew = p.state.snapshot.routes.map Route.anew := by
  have hroutes : (p.next w e).1.routes.map Route.anew = p.routes.map Route.anew := by
    rcases next_cases w p e with ⟨s, hs, -, -⟩ | ⟨-, -, hroutes⟩ | ⟨c, -, -, hget, -, hroutes⟩
    · exact absurd hs (h s)
    · rw [hroutes]
    · obtain ⟨hlt, hroute⟩ := List.getElem?_eq_some_iff.1 hget
      rw [hroutes, List.map_set]
      have hlt' : c.address < (p.routes.map Route.anew).length := by rwa [List.length_map]
      have hsame : (p.routes.map Route.anew)[c.address] = c.route.anew := by
        rw [List.getElem_map, hroute]
      exact hsame ▸ List.set_getElem_self hlt'
  have hdrop := congrArg (List.drop p.offset) hroutes
  rw [← List.map_drop, ← List.map_drop] at hdrop
  have hstate : (p.next w e).1.state.snapshot.routes = (p.next w e).1.routes.drop p.offset := by
    rw [← offset_next (w := w) h]
    rfl
  rw [hstate]
  exact hdrop

theorem snapshotToRoutes_anew (snapshot : Proto.Snapshot) :
    (snapshotToRoutes snapshot).routes.map Route.anew = (snapshotToRoutes snapshot).routes := by
  conv_rhs => rw [← List.map_id (snapshotToRoutes snapshot).routes]
  refine List.map_congr_left ?_
  intro r hr
  unfold Route.anew
  rw [← snapshotToRoutes_rrIndex hr]
  rfl

/-- **The routes in use** are those of the last snapshot applied, but for their
counters. -/
theorem state_run (es : List ProxyEvent) :
    (p.run w es).state.snapshot.routes.map Route.anew =
      ((applied es).getLast?.map fun s => (snapshotToRoutes s).routes).getD
        (p.state.snapshot.routes.map Route.anew) := by
  induction es generalizing p with
  | nil => rfl
  | cons e es ih =>
    have hrun : p.run w (e :: es) = (p.next w e).1.run w es := rfl
    rw [hrun, ih]
    by_cases he : ∃ snapshot, e = .apply snapshot
    · obtain ⟨snapshot, rfl⟩ := he
      have hstate : (p.next w (.apply snapshot)).1.state.snapshot = snapshotToRoutes snapshot := by
        rw [state_apply]
        rfl
      rw [hstate, snapshotToRoutes_anew, applied, List.getLast?_cons]
      cases (applied es).getLast? <;> rfl
    · have hno : ∀ snapshot, e ≠ .apply snapshot := fun snapshot h => he ⟨snapshot, h⟩
      rw [anew_next hno, applied_cons hno]

/-- So a proxy that has applied what a data plane of the gateway took has its routes. -/
theorem state_dataPlane {d : DataPlane} (h : Applied d) {es : List ProxyEvent}
    (hlast : (applied es).getLast? = d.last) :
    ((Proxy.new (.new .empty)).run w es).state.snapshot.routes.map Route.anew =
      d.state.snapshot.routes := by
  rw [state_run, hlast, h.state]
  cases d.last <;> rfl

/-- **The route of a choice is there at the end**, and the choice is one of its
upstreams. -/
theorem choices_same (es : List ProxyEvent) {c : Choice} (hc : c ∈ p.choices w es) :
    ∃ r, (p.run w es).routes[c.address]? = some r ∧ Same c.route r ∧
      r.upstreams[c.position]? = some c.upstream := by
  induction es generalizing p with
  | nil => exact absurd hc (by simp [choices])
  | cons e es ih =>
    rcases List.mem_append.1 hc with hc | hc
    · rcases next_cases w p e with ⟨s, -, hnone, -⟩ | ⟨-, hnone, -⟩ | ⟨c', -, hsome, hget, hup, -⟩
      · rw [hnone] at hc
        exact absurd hc (by simp)
      · rw [hnone] at hc
        exact absurd hc (by simp)
      · rw [hsome] at hc
        obtain rfl : c = c' := by simpa using hc
        obtain ⟨r, hr, hsame⟩ := routes_run (w := w) hget (e :: es)
        have hups : c.route.upstreams = r.upstreams := hsame.2.2.2.2
        exact ⟨r, hr, hsame, by rw [← hups]; exact hup⟩
    · exact ih hc

/-! ## One counter -/

/-- The selections made on clones of the route at an address, in order. -/
def asked (w : ℕ) (p : Proxy) (es : List ProxyEvent) (a : ℕ) : List Choice :=
  (p.choices w es).filter fun c => c.address = a

/-- The counter at an address; a route yet to be made starts at 0. -/
def counter (p : Proxy) (a : ℕ) : ℕ := ((p.routes[a]?).map Route.rrIndex).getD 0

theorem Usize.counter_lt (h : p.Usize w) (a : ℕ) : p.counter a < 2 ^ w := by
  unfold counter
  cases hget : p.routes[a]? with
  | none => exact Nat.two_pow_pos w
  | some r => exact h r (List.mem_of_getElem? hget)

/-- Routes made later do not touch a counter. -/
theorem counter_append {p' : Proxy} {snapshot : Proto.Snapshot}
    (h : p'.routes = p.routes ++ (snapshotToRoutes snapshot).routes) (a : ℕ) :
    p'.counter a = p.counter a := by
  unfold counter
  rw [h]
  by_cases ha : a < p.routes.length
  · rw [List.getElem?_append_left ha]
  · rw [List.getElem?_append_right (by omega), List.getElem?_eq_none (by omega : p.routes.length ≤ a)]
    cases hget : (snapshotToRoutes snapshot).routes[a - p.routes.length]? with
    | none => rfl
    | some r => exact snapshotToRoutes_rrIndex (List.mem_of_getElem? hget)

/-- **The choices at an address draw from its counter**, whatever else goes on. -/
theorem choices_at (h : p.Usize w) (es : List ProxyEvent) (a : ℕ) :
    ∃ k, (p.asked w es a).map (fun c => c.route.rrIndex) = draws (2 ^ w) (p.counter a) k := by
  unfold asked
  induction es generalizing p with
  | nil => exact ⟨0, rfl⟩
  | cons e es ih =>
    obtain ⟨k, hk⟩ := ih (h.next e)
    unfold choices
    rcases next_cases w p e with ⟨s, -, hnone, hroutes⟩ | ⟨-, hnone, hroutes⟩ |
      ⟨c, -, hsome, hget, -, hroutes⟩
    · rw [hnone]
      rw [counter_append hroutes] at hk
      exact ⟨k, hk⟩
    · rw [hnone]
      have hsame : (p.next w e).1.counter a = p.counter a := by
        unfold counter
        rw [hroutes]
      rw [hsame] at hk
      exact ⟨k, hk⟩
    · rw [hsome, Option.toList_some, List.singleton_append, List.filter_cons]
      obtain ⟨hlt, -⟩ := List.getElem?_eq_some_iff.1 hget
      by_cases ha : c.address = a
      · -- a draw at this address
        have hnow : p.counter a = c.route.rrIndex := by
          unfold counter
          rw [← ha, hget]
          rfl
        have hnext : (p.next w e).1.counter a = (c.route.rrIndex + 1) % 2 ^ w := by
          unfold counter
          rw [hroutes, ← ha, List.getElem?_set_self hlt]
          rfl
        rw [if_pos (by simpa using ha), List.map_cons, hk, hnow, hnext]
        exact ⟨k + 1, rfl⟩
      · have hsame : (p.next w e).1.counter a = p.counter a := by
          unfold counter
          rw [hroutes, List.getElem?_set_ne ha]
        rw [if_neg (by simpa using ha), hk, hsame]
        exact ⟨k, rfl⟩

/-! ## All counters of a route -/

/-- A property of the choices of `R` that depends on the counter, counted at one address:
by the draws from it, if the route there is `R`. -/
theorem countP_at (h : p.Usize w) (es : List ProxyEvent) (R : Route) (a : ℕ) :
    ∃ k, ∀ (P : Choice → Bool) (f : ℕ → Bool),
      (∀ c, P c = true ↔ Same c.route R ∧ f c.route.rrIndex = true) →
      (p.asked w es a).countP P =
        if ((p.run w es).routes[a]?).any (fun r => Same r R) then
          (draws (2 ^ w) (p.counter a) k).countP f else 0 := by
  obtain ⟨k, hk⟩ := choices_at h es a
  refine ⟨k, ?_⟩
  intro P f hP
  -- the route of a choice here is the one that stands here
  have hsame : ∀ c ∈ p.asked w es a,
      (Same c.route R ↔ ((p.run w es).routes[a]?).any (fun r => Same r R) = true) := by
    intro c hc
    obtain ⟨hmem, haddr⟩ := List.mem_filter.1 hc
    have haddr : c.address = a := by simpa using haddr
    obtain ⟨r, hr, hs, -⟩ := choices_same es hmem
    rw [← haddr, hr, Option.any_some, decide_eq_true_eq]
    constructor
    · intro hR
      exact hs.symm.trans hR
    · intro hR
      exact hs.trans hR
  split
  · rename_i hR
    rw [← hk, List.countP_map]
    refine List.countP_congr ?_
    intro c hc
    rw [hP c]
    simp [(hsame c hc).2 hR]
  · rename_i hR
    rw [List.countP_eq_zero]
    intro c hc hcR
    exact hR ((hsame c hc).1 ((hP c).1 hcR).1)

/-! ## Routes made -/

theorem copies_set {R : Route} {routes : List Route} {a : ℕ} {r : Route} (hget : routes[a]? = some r)
    (n : ℕ) : copies R (routes.set a { r with rrIndex := n }) = copies R routes := by
  obtain ⟨hlt, hroute⟩ := List.getElem?_eq_some_iff.1 hget
  have hsame : Same { r with rrIndex := n } R ↔ Same r R := Iff.rfl
  unfold copies
  rw [List.countP_set hlt, hroute]
  by_cases hR : Same r R
  · have hpos : 0 < routes.countP fun r => Same r R := by
      rw [List.countP_pos_iff]
      exact ⟨r, List.mem_of_getElem? hget, by simpa using hR⟩
    simp only [hsame, hR, decide_true, if_true]
    omega
  · simp only [hsame, hR, decide_false, Bool.false_eq_true, if_false]
    omega

/-- At the end of a run a route is there as often as it was made. -/
theorem copies_run (R : Route) (es : List ProxyEvent) :
    copies R (p.run w es).routes = made R p es := by
  unfold made
  induction es generalizing p with
  | nil => simp [run, applied]
  | cons e es ih =>
    have hrun : p.run w (e :: es) = (p.next w e).1.run w es := rfl
    rw [hrun, ih]
    rcases next_cases w p e with ⟨s, rfl, -, hroutes⟩ | ⟨hno, -, hroutes⟩ |
      ⟨c, hno, -, hget, -, hroutes⟩
    · rw [hroutes, applied, List.map_cons, List.sum_cons, ← Nat.add_assoc]
      unfold copies
      rw [List.countP_append]
    · rw [hroutes, applied_cons hno]
    · rw [hroutes, copies_set hget, applied_cons hno]

/-- **Over a run**, two positions of a route differ by at most the number of times it was
made and the wraps of its counters. -/
theorem picks_le (h : p.Usize w) (es : List ProxyEvent) (R : Route) {a b : ℕ}
    (ha : a < R.upstreams.length) (hb : b < R.upstreams.length) :
    picks R a (p.choices w es) ≤
      picks R b (p.choices w es) + wraps w R (p.choices w es) + made R p es := by
  have hlt : ∀ c ∈ p.choices w es, c.address < (p.run w es).routes.length := by
    intro c hc
    obtain ⟨r, hr, -, -⟩ := choices_same es hc
    exact (List.getElem?_eq_some_iff.1 hr).1
  have hpos : ∀ q (c : Choice), (decide (Same c.route R ∧ c.position = q)) = true ↔
      Same c.route R ∧ decide (c.route.rrIndex % R.upstreams.length = q) = true := by
    intro q c
    rw [decide_eq_true_eq, decide_eq_true_eq]
    refine and_congr_right fun hs => ?_
    unfold Choice.position
    rw [hs.2.2.2.2]
  have hwrap : ∀ c : Choice, (decide (Same c.route R ∧ c.route.rrIndex + 1 = 2 ^ w)) = true ↔
      Same c.route R ∧ decide (c.route.rrIndex + 1 = 2 ^ w) = true := by
    intro c
    rw [decide_eq_true_eq, decide_eq_true_eq]
  -- one address at a time
  have hat : ∀ x ∈ Finset.range (p.run w es).routes.length,
      (p.asked w es x).countP (fun c => Same c.route R ∧ c.position = a) ≤
        (p.asked w es x).countP (fun c => Same c.route R ∧ c.position = b) +
          (p.asked w es x).countP (fun c => Same c.route R ∧ c.route.rrIndex + 1 = 2 ^ w) +
          if ((p.run w es).routes[x]?).any (fun r => Same r R) then 1 else 0 := by
    intro x _
    obtain ⟨k, hk⟩ := countP_at h es R x
    rw [hk _ (fun v => v % R.upstreams.length = a) (hpos a),
      hk _ (fun v => v % R.upstreams.length = b) (hpos b), hk _ (fun v => v + 1 = 2 ^ w) hwrap]
    split
    · exact countP_draws_le ha hb k (h.counter_lt x)
    · exact le_refl 0
  rw [← copies_run (w := w)]
  unfold picks wraps copies
  rw [countP_eq_sum _ Choice.address _ hlt, countP_eq_sum _ Choice.address _ hlt,
    countP_eq_sum _ Choice.address _ hlt, countP_eq_sum_range, ← Finset.sum_add_distrib,
    ← Finset.sum_add_distrib]
  exact Finset.sum_le_sum hat

end Proxy

/-! ## Applying a snapshot -/

/-- A route with its counter at `n` gives the upstream at that position. -/
theorem selectUpstream_fst (w : ℕ) {r R : Route} (h : Same r R) :
    (selectUpstream w r).1 = R.upstreams[r.rrIndex % R.upstreams.length]? := by
  rw [← h.2.2.2.2]
  rcases selectUpstream_cases w r with ⟨hempty, hsel⟩ | ⟨u, hu, hsel⟩
  · rw [hsel, hempty]
    rfl
  · rw [hsel, hu]

/-- **Applying a snapshot starts the rotation of its routes over.** The next upstream of
a route that the snapshot leaves unchanged is its first one, whatever was chosen before;
so it is the same as without the snapshot exactly when the counter stood at the first
upstream or its like. Over any run, two positions of a route are chosen equally often up
to the number of times the route was made and its counters wrapped. -/
theorem rotation_restarts (w : ℕ) (R : Route) :
    (∀ (state : State) (snapshot : Proto.Snapshot), ∀ r ∈ state.snapshot.routes, Same r R →
      ∀ r' ∈ (state.update (snapshotToRoutes snapshot)).snapshot.routes, Same r' R →
        (selectUpstream w r').1 = R.upstreams[0]? ∧
          ((selectUpstream w r').1 = (selectUpstream w r).1 ↔
            R.upstreams[r.rrIndex % R.upstreams.length]? = R.upstreams[0]?)) ∧
      ∀ p : Proxy, p.Usize w → ∀ es a b, a < R.upstreams.length → b < R.upstreams.length →
        picks R a (p.choices w es) ≤
          picks R b (p.choices w es) + wraps w R (p.choices w es) + made R p es := by
  refine ⟨?_, fun p hw es a b ha hb => p.picks_le hw es R ha hb⟩
  intro state snapshot r _ hr r' hmem hr'
  have hzero : r'.rrIndex = 0 := snapshotToRoutes_rrIndex hmem
  have hfirst : (selectUpstream w r').1 = R.upstreams[0]? := by
    rw [selectUpstream_fst w hr', hzero, Nat.zero_mod]
  refine ⟨hfirst, ?_⟩
  rw [hfirst, selectUpstream_fst w hr]
  exact eq_comm

namespace Sample

/-- A route over two upstreams. -/
def pair : Proto.Snapshot := ⟨1, [⟨"pair", some ⟨"/", [], ""⟩, [⟨"a", 0, 0⟩, ⟨"b", 0, 0⟩], "", []⟩]⟩

def pairRoute : Route := .new "pair" (some "/") [] none [⟨"a"⟩, ⟨"b"⟩]

/-- The snapshot is applied and one request served. -/
def turn : List ProxyEvent := [.apply pair, .accept 0 "/" "GET" none, .select 0]

end Sample

theorem rotation_restarts_pair :
    (selectUpstream 64 Sample.pairRoute).1 = some ⟨"a"⟩ ∧
      picks Sample.pairRoute 0 ((Proxy.new (.new .empty)).choices 64 (Sample.turn ++ Sample.turn)) ≤
        picks Sample.pairRoute 1 ((Proxy.new (.new .empty)).choices 64 (Sample.turn ++ Sample.turn)) +
          wraps 64 Sample.pairRoute ((Proxy.new (.new .empty)).choices 64 (Sample.turn ++ Sample.turn)) +
          made Sample.pairRoute (.new (.new .empty)) (Sample.turn ++ Sample.turn) :=
  ⟨((rotation_restarts 64 Sample.pairRoute).1 (.new ⟨[Sample.pairRoute]⟩) Sample.pair
      { Sample.pairRoute with rrIndex := 0 } (by decide) (by decide) Sample.pairRoute (by decide)
      (by decide)).1,
    (rotation_restarts 64 Sample.pairRoute).2 (.new (.new .empty))
      (by unfold Proxy.Usize; decide) (Sample.turn ++ Sample.turn) 0 1 (by decide) (by decide)⟩

/-- The same snapshot again: a route whose next upstream was the second one gives the
first, and of two requests both get it. -/
theorem reapplied_starts_over :
    (¬ ∀ (state : State) (snapshot : Proto.Snapshot), ∀ r ∈ state.snapshot.routes,
      ∀ r' ∈ (state.update (snapshotToRoutes snapshot)).snapshot.routes, Same r' r →
        (selectUpstream 64 r').1 = (selectUpstream 64 r).1) ∧
      picks Sample.pairRoute 0
        ((Proxy.new (.new .empty)).choices 64 (Sample.turn ++ Sample.turn)) = 2 ∧
      picks Sample.pairRoute 1
        ((Proxy.new (.new .empty)).choices 64 (Sample.turn ++ Sample.turn)) = 0 := by
  refine ⟨?_, by decide, by decide⟩
  intro h
  have hsame := h (.new ⟨[(selectUpstream 64 Sample.pairRoute).2]⟩) Sample.pair
    (selectUpstream 64 Sample.pairRoute).2 (by decide) Sample.pairRoute (by decide) (by decide)
  exact absurd hsame (by decide)

/-! ## The bound is met -/

theorem Proxy.choices_append (w : ℕ) (p : Proxy) (es fs : List ProxyEvent) :
    p.choices w (es ++ fs) = p.choices w es ++ (p.run w es).choices w fs := by
  induction es generalizing p with
  | nil => rfl
  | cons e es ih =>
    rw [List.cons_append, choices, choices, ih, List.append_assoc]
    rfl

theorem applied_append (es fs : List ProxyEvent) : applied (es ++ fs) = applied es ++ applied fs := by
  induction es with
  | nil => rfl
  | cons e es ih =>
    by_cases he : ∃ snapshot, e = .apply snapshot
    · obtain ⟨snapshot, rfl⟩ := he
      rw [List.cons_append, applied, applied, ih, List.cons_append]
    · have hno : ∀ snapshot, e ≠ .apply snapshot := fun snapshot h => he ⟨snapshot, h⟩
      rw [List.cons_append, applied_cons hno, applied_cons hno, ih]

/-- A turn, whatever came before. -/
theorem Sample.turn_next (w : ℕ) {p : Proxy} (hp : p.clones 0 = none) :
    p.choices w Sample.turn = [⟨p.routes.length, Sample.pairRoute, ⟨"a"⟩⟩] ∧
      (p.run w Sample.turn).clones 0 = none := by
  have happly : p.next w (.apply Sample.pair) =
      ({ p with routes := p.routes ++ [Sample.pairRoute], offset := p.routes.length }, none) := rfl
  have hindex : (p.next w (.apply Sample.pair)).1.matchIndex "/" "GET" none = some p.routes.length := by
    have hmatch : matchRoute ⟨[Sample.pairRoute]⟩ "/" "GET" none = some Sample.pairRoute := by decide
    rw [happly]
    simp [Proxy.matchIndex, Proxy.state, State.new, hmatch]
  have haccept : (p.next w (.apply Sample.pair)).1.next w (.accept 0 "/" "GET" none) =
      (⟨p.routes ++ [Sample.pairRoute], p.routes.length,
        Function.update p.clones 0 (some p.routes.length)⟩, none) := by
    rw [← hindex, happly]
    simp only [Proxy.next, hp]
  simp only [Sample.turn, Proxy.choices, Proxy.run, List.foldl_cons, List.foldl_nil, haccept]
  rw [happly]
  simp [Proxy.next, selectUpstream, Sample.pairRoute, Route.new]

/-- **The bound is met**: as many turns as one likes go to the first of two upstreams. -/
theorem rotation_bound_met (w k : ℕ) :
    let es := (List.replicate k Sample.turn).flatten
    let cs := (Proxy.new (.new .empty)).choices w es
    picks Sample.pairRoute 0 cs = k ∧ picks Sample.pairRoute 1 cs = 0 ∧
      made Sample.pairRoute (.new (.new .empty)) es = k := by
  have hturns : ∀ p : Proxy, p.clones 0 = none →
      picks Sample.pairRoute 0 (p.choices w (List.replicate k Sample.turn).flatten) = k ∧
        picks Sample.pairRoute 1 (p.choices w (List.replicate k Sample.turn).flatten) = 0 ∧
        made Sample.pairRoute p (List.replicate k Sample.turn).flatten =
          copies Sample.pairRoute p.routes + k := by
    induction k with
    | zero => exact fun p _ => ⟨rfl, rfl, rfl⟩
    | succ k ih =>
      intro p hp
      obtain ⟨hchoices, hclones⟩ := Sample.turn_next w hp
      obtain ⟨hfirst, hsecond, hmade⟩ := ih _ hclones
      rw [List.replicate_succ, List.flatten_cons, Proxy.choices_append, hchoices]
      unfold picks made at *
      refine ⟨?_, ?_, ?_⟩
      · rw [List.countP_append, hfirst, Nat.add_comm]
        rfl
      · rw [List.countP_append, hsecond]
        rfl
      · have hone : copies Sample.pairRoute (snapshotToRoutes Sample.pair).routes = 1 := by decide
        have hturn : applied Sample.turn = [Sample.pair] := rfl
        have hrest := Nat.add_left_cancel hmade
        rw [applied_append, hturn, List.map_append, List.sum_append, hrest, List.map_singleton,
          List.sum_singleton, hone, Nat.add_comm 1 k]
  obtain ⟨hfirst, hsecond, hmade⟩ := hturns (.new (.new .empty)) rfl
  exact ⟨hfirst, hsecond, by rw [hmade]; exact Nat.zero_add k⟩

end Yali
