import Mathlib.Data.Int.CardIntervalMod
import Mathlib.Algebra.BigOperators.Intervals
import Mathlib.Algebra.Order.Floor.Div
import Mathlib.Algebra.Order.BigOperators.Group.Finset

/-!
# Drawing from a counter in turn

Many take numbers from one counter, which starts again from 0 at `m`; who takes `v` is
served at place `v % n`.

* `countP_range'`: as long as the counter does not wrap, every place is served `k / n`
  times by `k` draws, or once more (`countP_range'_share`), and by any `n` once.
* `draws_slice`: so it is for any draws in a row before the first wrap.
* `countP_draws_le`: two places differ by at most one more than the number of wraps.
* `countP_eq_sum`: a log of draws from several counters, one counter at a time.
-/

namespace Yali.Conc

/-- The numbers taken by `k` draws from a counter that stands at `c` and wraps at `m`. -/
def draws (m c : ℕ) : ℕ → List ℕ
  | 0 => []
  | k + 1 => c :: draws m ((c + 1) % m) k

theorem draws_add (m : ℕ) {c : ℕ} (hc : c < m) (a b : ℕ) :
    draws m c (a + b) = draws m c a ++ draws m ((c + a) % m) b := by
  induction a generalizing c with
  | zero => rw [Nat.zero_add, Nat.add_zero, Nat.mod_eq_of_lt hc]; rfl
  | succ a ih =>
    have hnext : (c + 1) % m < m := Nat.mod_lt _ (by omega)
    have hsum : ((c + 1) % m + a) % m = (c + (a + 1)) % m := by
      rw [Nat.mod_add_mod, Nat.add_right_comm, Nat.add_assoc]
    rw [Nat.add_right_comm, draws, ih hnext, hsum]
    rfl

/-- Without a wrap the numbers are consecutive. -/
theorem draws_of_le {m c k : ℕ} (h : c + k ≤ m) : draws m c k = List.range' c k := by
  induction k generalizing c with
  | zero => rfl
  | succ k ih =>
    rw [draws, List.range'_succ]
    cases k with
    | zero => rfl
    | succ k => rw [Nat.mod_eq_of_lt (by omega), ih (by omega)]

theorem length_draws (m c k : ℕ) : (draws m c k).length = k := by
  induction k generalizing c with
  | zero => rfl
  | succ k ih => rw [draws, List.length_cons, ih]

theorem take_draws (m c : ℕ) {j k : ℕ} (h : j ≤ k) : (draws m c k).take j = draws m c j := by
  induction j generalizing c k with
  | zero => rfl
  | succ j ih =>
    obtain ⟨k, rfl⟩ : ∃ k', k = k' + 1 := ⟨k - 1, by omega⟩
    rw [draws, draws, List.take_succ_cons, ih _ (by omega)]

/-- **Draws in a row** before the first wrap take consecutive numbers. -/
theorem draws_slice {m c i n k : ℕ} (hk : i + n ≤ k) (hm : c + (i + n) ≤ m) :
    ((draws m c k).drop i).take n = List.range' (c + i) n := by
  have hdrop : ((draws m c k).take (i + n)).drop i = ((draws m c k).drop i).take n := by
    rw [List.drop_take, Nat.add_sub_cancel_left]
  rw [← hdrop, take_draws m c hk, draws_of_le hm, List.drop_range', Nat.mul_one,
    Nat.add_sub_cancel_left]

/-- **Consecutive numbers serve the places evenly.** -/
theorem countP_range' (c k : ℕ) {n p : ℕ} (hp : p < n) :
    (List.range' c k).countP (fun v => v % n = p) =
      k / n + if (p + (n - c % n)) % n < k % n then 1 else 0 := by
  have hn : 0 < n := by omega
  have hcn : c % n < n := Nat.mod_lt c hn
  -- the draws at place `p` are those with one residue
  have hiff : ∀ j, (c + j) % n = p ↔ j ≡ p + (n - c % n) [MOD n] := by
    intro j
    have hshift : (p + (n - c % n)) + c ≡ p [MOD n] := by
      have hc : c ≡ c % n [MOD n] := (Nat.mod_modEq c n).symm
      calc (p + (n - c % n)) + c ≡ (p + (n - c % n)) + c % n [MOD n] := hc.add_left _
        _ = p + n := by omega
        _ ≡ p [MOD n] := Nat.add_modEq_right
    have hmod : (c + j) % n = p ↔ c + j ≡ p [MOD n] := by
      unfold Nat.ModEq
      rw [Nat.mod_eq_of_lt hp]
    rw [hmod]
    constructor
    · intro h
      refine Nat.ModEq.add_right_cancel' c ?_
      rw [Nat.add_comm j c]
      exact h.trans hshift.symm
    · intro h
      rw [Nat.add_comm c j]
      exact (h.add_right c).trans hshift
  rw [← Nat.count_modEq_card k hn, List.range'_eq_map_range, List.countP_map, Nat.count]
  refine List.countP_congr ?_
  intro j _
  simp only [Function.comp_apply, decide_eq_true_eq]
  exact hiff j

/-- Every place has its share of the draws, up to rounding. -/
theorem countP_range'_share (c k : ℕ) {n p : ℕ} (hp : p < n) :
    (List.range' c k).countP (fun v => v % n = p) = k / n ∨
      (List.range' c k).countP (fun v => v % n = p) = k ⌈/⌉ n := by
  rw [countP_range' c k hp]
  split
  · -- a place is served once more only if the draws do not come out even
    rename_i hlt
    right
    have hdiv : n * (k / n) + k % n = k := Nat.div_add_mod k n
    have hmod : k % n < n := Nat.mod_lt k (by omega)
    rw [Nat.ceilDiv_eq_add_pred_div]
    symm
    apply Nat.div_eq_of_lt_le
    · rw [Nat.mul_comm, Nat.mul_succ]
      omega
    · rw [Nat.mul_comm, Nat.mul_succ, Nat.mul_succ]
      omega
  · exact Or.inl rfl

/-- As many draws as there are places serve each place once. -/
theorem countP_range'_self (c : ℕ) {n p : ℕ} (hp : p < n) :
    (List.range' c n).countP (fun v => v % n = p) = 1 := by
  rw [countP_range' c n hp, Nat.mod_self, if_neg (Nat.not_lt_zero _), Nat.div_self (by omega)]

theorem countP_range'_le (c k : ℕ) {n p q : ℕ} (hp : p < n) (hq : q < n) :
    (List.range' c k).countP (fun v => v % n = p) ≤
      (List.range' c k).countP (fun v => v % n = q) + 1 := by
  rw [countP_range' c k hp, countP_range' c k hq]
  split <;> split <;> omega

/-- **Two places differ by at most one more than the number of wraps.** -/
theorem countP_draws_le {m n p q : ℕ} (hp : p < n) (hq : q < n) (k : ℕ) {c : ℕ} (hc : c < m) :
    (draws m c k).countP (fun v => v % n = p) ≤
      (draws m c k).countP (fun v => v % n = q) + (draws m c k).countP (fun v => v + 1 = m) + 1 := by
  -- on the draws, from one wrap to the next
  induction k using Nat.strong_induction_on generalizing c with
  | _ k ih =>
    by_cases hle : c + k ≤ m
    · rw [draws_of_le hle]
      have hdiff := countP_range'_le c k hp hq
      omega
    · obtain ⟨b, rfl⟩ : ∃ b, k = (m - c) + b := ⟨k - (m - c), by omega⟩
      have hwrap : (c + (m - c)) % m = 0 := by rw [Nat.add_sub_cancel' hc.le, Nat.mod_self]
      have hfirst : draws m c (m - c) = List.range' c (m - c) := draws_of_le (by omega)
      have hdiff := countP_range'_le c (m - c) hp hq
      have hrest := ih b (by omega) (c := 0) (by omega)
      have hlast : 0 < (List.range' c (m - c)).countP fun v => v + 1 = m := by
        rw [List.countP_pos_iff]
        refine ⟨m - 1, ?_, ?_⟩
        · rw [List.mem_range'_1]
          omega
        · simp only [decide_eq_true_eq]
          omega
      rw [draws_add m hc, hwrap, hfirst]
      simp only [List.countP_append]
      omega

/-! ## Several counters -/

variable {α : Type}

/-- A log, split by keys. -/
theorem countP_eq_sum (l : List α) (key : α → ℕ) (P : α → Bool) {L : ℕ} (h : ∀ x ∈ l, key x < L) :
    l.countP P = ∑ a ∈ Finset.range L, (l.filter fun x => key x = a).countP P := by
  induction l with
  | nil => simp
  | cons x l ih =>
    have hih := ih fun y hy => h y (List.mem_cons_of_mem x hy)
    have hcons : ∀ a, ((x :: l).filter fun y => key y = a).countP P =
        (l.filter fun y => key y = a).countP P + if key x = a then (if P x then 1 else 0) else 0 := by
      intro a
      rw [List.filter_cons]
      split
      · rename_i hx
        have hkey : key x = a := by simpa using hx
        rw [List.countP_cons, if_pos hkey]
      · rename_i hx
        rw [if_neg (by simpa using hx), Nat.add_zero]
    have hmem : key x ∈ Finset.range L := Finset.mem_range.2 (h x List.mem_cons_self)
    rw [Finset.sum_congr rfl fun a _ => hcons a, Finset.sum_add_distrib, Finset.sum_ite_eq, if_pos hmem,
      ← hih, List.countP_cons]

/-- A list, split by positions. -/
theorem countP_eq_sum_range (l : List α) (P : α → Bool) :
    l.countP P = ∑ a ∈ Finset.range l.length, if (l[a]?).any P then 1 else 0 := by
  induction l with
  | nil => simp
  | cons x l ih =>
    rw [List.length_cons, Finset.sum_range_succ', List.countP_cons, ih]
    simp

end Yali.Conc
