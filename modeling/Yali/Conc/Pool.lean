import Mathlib.Logic.Function.Basic
import Yali.Conc.Prog

/-!
# Programs in flight on one state

A `Pool` is a shared state and the programs started so far, numbered in the order
of their start. An event starts a program, makes one program perform its next
operation, drops a program where it stands, or is an action of the surroundings
on the state. Any order of events is a run; an event that is not enabled leaves
the pool as it is.

* `run_inv`: what every event preserves holds after every run.
* `run_safe`: a pool of `Safe` programs keeps the invariant; each of its events stays
  within the guarantee (`AllSafe.next_rel`).
* `Tagged`: every program in flight follows a protocol from the mode of its tag;
  a start and a step move one tag (`Tagged.start`, `Tagged.step`).
-/

namespace Yali.Conc

variable {Op : Type} {Res : Op → Type} {ε α σ χ A : Type}

structure Pool (Op : Type) (Res : Op → Type) (ε α σ : Type) where
  st : σ
  count : ℕ
  task : ℕ → Option (Prog Op Res ε α)

/-- An event; `c` is the environment's choice at the operation. -/
inductive Event (Op : Type) (Res : Op → Type) (ε α χ A : Type)
  | start (p : Prog Op Res ε α)
  | step (t : ℕ) (c : χ)
  | stop (t : ℕ)
  | ext (a : A)

namespace Pool

/-- No program yet. -/
def idle (s : σ) : Pool Op Res ε α σ := ⟨s, 0, fun _ => none⟩

/-- No operation is left in any program. -/
def Quiet (w : Pool Op Res ε α σ) : Prop := ∀ t p, w.task t = some p → p.done = true

variable (exec : χ → (o : Op) → σ → Res o × σ) (act : A → σ → σ)

def next (w : Pool Op Res ε α σ) : Event Op Res ε α χ A → Pool Op Res ε α σ
  | .start p => { w with count := w.count + 1, task := Function.update w.task w.count (some p) }
  | .step t c =>
    match w.task t with
    | some (.op o k) =>
      { w with
        st := (exec c o w.st).2
        task := Function.update w.task t (some (k (exec c o w.st).1)) }
    | _ => w
  | .stop t => { w with task := Function.update w.task t none }
  | .ext a => { w with st := act a w.st }

def run (w : Pool Op Res ε α σ) (es : List (Event Op Res ε α χ A)) : Pool Op Res ε α σ :=
  es.foldl (next exec act) w

/-- The pool after the first `n` events. -/
def wAt (w : Pool Op Res ε α σ) (es : List (Event Op Res ε α χ A)) (n : ℕ) : Pool Op Res ε α σ :=
  run exec act w (es.take n)

theorem next_step {w : Pool Op Res ε α σ} {t : ℕ} {c : χ} {o : Op} {k : Res o → Prog Op Res ε α}
    (h : w.task t = some (.op o k)) :
    next exec act w (.step t c) =
      { w with
        st := (exec c o w.st).2
        task := Function.update w.task t (some (k (exec c o w.st).1)) } := by
  simp only [next, h]

/-- **What a step does**: the next operation of a program in flight, or nothing. -/
theorem step_cases (w : Pool Op Res ε α σ) (t : ℕ) (c : χ) :
    (∃ o k, w.task t = some (.op o k) ∧
      next exec act w (.step t c) =
        { w with
          st := (exec c o w.st).2
          task := Function.update w.task t (some (k (exec c o w.st).1)) }) ∨
    (∀ o k, w.task t ≠ some (.op o k)) ∧ next exec act w (.step t c) = w := by
  cases h : w.task t with
  | none => right; simp [next, h]
  | some p =>
    cases p with
    | op o k => left; exact ⟨o, k, rfl, next_step exec act h⟩
    | ok a => right; simp [next, h]
    | err e => right; simp [next, h]

variable {exec act}

/-- A program with no operation left has none later. -/
theorem no_op_next {w : Pool Op Res ε α σ} {t : ℕ} (ht : t < w.count)
    (h : ∀ o k, w.task t ≠ some (.op o k)) (e : Event Op Res ε α χ A) :
    t < (next exec act w e).count ∧ ∀ o k, (next exec act w e).task t ≠ some (.op o k) := by
  cases e with
  | start p =>
    refine ⟨Nat.lt_succ_of_lt ht, ?_⟩
    intro o k
    simp only [next, Function.update_of_ne (Nat.ne_of_lt ht)]
    exact h o k
  | step u c =>
    rcases step_cases exec act w u c with ⟨o, k, hu, hn⟩ | ⟨-, hn⟩
    · have hne : t ≠ u := by
        rintro rfl
        exact h o k hu
      rw [hn]
      refine ⟨ht, ?_⟩
      intro o k
      simp only [Function.update_of_ne hne]
      exact h o k
    · rw [hn]
      exact ⟨ht, h⟩
  | stop u =>
    refine ⟨ht, ?_⟩
    intro o k
    simp only [next, Function.update_apply]
    split
    · simp
    · exact h o k
  | ext a => exact ⟨ht, h⟩

@[simp] theorem run_nil (w : Pool Op Res ε α σ) :
    run exec act w ([] : List (Event Op Res ε α χ A)) = w := rfl

@[simp] theorem run_cons (w : Pool Op Res ε α σ) (e : Event Op Res ε α χ A)
    (es : List (Event Op Res ε α χ A)) :
    run exec act w (e :: es) = run exec act (next exec act w e) es := rfl

theorem run_append (w : Pool Op Res ε α σ) (es fs : List (Event Op Res ε α χ A)) :
    run exec act w (es ++ fs) = run exec act (run exec act w es) fs := by
  simp only [run, List.foldl_append]

theorem wAt_zero (w : Pool Op Res ε α σ) (es : List (Event Op Res ε α χ A)) :
    wAt exec act w es 0 = w := rfl

theorem wAt_succ (w : Pool Op Res ε α σ) (es : List (Event Op Res ε α χ A)) {n : ℕ}
    (h : n < es.length) : wAt exec act w es (n + 1) = next exec act (wAt exec act w es n) es[n] := by
  unfold wAt
  rw [List.take_add_one, List.getElem?_eq_getElem h, Option.toList_some, run_append]
  rfl

theorem wAt_length (w : Pool Op Res ε α σ) (es : List (Event Op Res ε α χ A)) :
    wAt exec act w es es.length = run exec act w es := by
  unfold wAt; rw [List.take_length]

/-- **Every event preserves it, so every run does.** -/
theorem run_inv {J : Pool Op Res ε α σ → Prop}
    (h : ∀ w (e : Event Op Res ε α χ A), J w → J (next exec act w e)) {w : Pool Op Res ε α σ}
    (es : List (Event Op Res ε α χ A)) (hw : J w) : J (run exec act w es) := by
  induction es generalizing w with
  | nil => exact hw
  | cons e es ih => exact ih (h w e hw)

/-! ## Safe programs -/

section Safe

variable {I : σ → Prop} {R : σ → σ → Prop} {Q : α → σ → Prop}

/-- The invariant holds and every program started is safe. -/
structure AllSafe (exec : χ → (o : Op) → σ → Res o × σ) (I : σ → Prop) (R : σ → σ → Prop)
    (Q : α → σ → Prop) (w : Pool Op Res ε α σ) : Prop where
  inv : I w.st
  task : ∀ t p, w.task t = some p → p.Safe exec I R Q w.st

variable (hR : ∀ a b c, R a b → R b c → R a c) (hQ : ∀ a s s', R s s' → Q a s → Q a s')
include hR hQ

theorem AllSafe.next (hrefl : ∀ s, R s s) {w : Pool Op Res ε α σ} (h : AllSafe exec I R Q w)
    (e : Event Op Res ε α χ A) (hstart : ∀ p, e = .start p → ∀ s, I s → p.Safe exec I R Q s)
    (hext : ∀ a s, e = .ext a → I s → I (act a s) ∧ R s (act a s)) :
    AllSafe exec I R Q (Pool.next exec act w e) := by
  cases e with
  | start p =>
    refine ⟨h.inv, ?_⟩
    intro t q hq
    simp only [Pool.next, Function.update_apply] at hq
    split at hq
    · obtain rfl : p = q := by simpa using hq
      exact hstart p rfl _ h.inv
    · exact h.task t q hq
  | step t c =>
    -- the program goes on safe, the others are stable under its step
    rcases step_cases exec act w t c with ⟨o, k, ht, hn⟩ | ⟨-, hn⟩
    · rw [hn]
      obtain ⟨hI, hRs, hk⟩ := h.task t _ ht w.st (hrefl _) h.inv c
      refine ⟨hI, ?_⟩
      intro u q hq
      simp only [Function.update_apply] at hq
      split at hq
      · obtain rfl : k _ = q := by simpa using hq
        exact hk
      · exact (h.task u q hq).stable hR hQ hRs
    · rw [hn]; exact h
  | stop t =>
    refine ⟨h.inv, ?_⟩
    intro u q hq
    simp only [Pool.next, Function.update_apply] at hq
    split at hq
    · exact absurd hq (by simp)
    · exact h.task u q hq
  | ext a =>
    obtain ⟨hI, hRs⟩ := hext a w.st rfl h.inv
    exact ⟨hI, fun t q hq => (h.task t q hq).stable hR hQ hRs⟩

omit hR hQ in
/-- **An event of a pool of safe programs stays within `R`.** -/
theorem AllSafe.next_rel (hrefl : ∀ s, R s s) {w : Pool Op Res ε α σ} (h : AllSafe exec I R Q w)
    (e : Event Op Res ε α χ A) (hext : ∀ a s, e = .ext a → I s → R s (act a s)) :
    R w.st (Pool.next exec act w e).st := by
  cases e with
  | start p => exact hrefl _
  | step t c =>
    rcases step_cases exec act w t c with ⟨o, k, ht, hn⟩ | ⟨-, hn⟩
    · rw [hn]
      obtain ⟨-, hRs, -⟩ := h.task t _ ht w.st (hrefl _) h.inv c
      exact hRs
    · rw [hn]
      exact hrefl _
  | stop t => exact hrefl _
  | ext a => exact hext a w.st rfl h.inv

/-- **A pool of safe programs keeps the invariant**, in any order of events. -/
theorem run_safe (hrefl : ∀ s, R s s) {w : Pool Op Res ε α σ} {es : List (Event Op Res ε α χ A)}
    (hstart : ∀ p, .start p ∈ es → ∀ s, I s → p.Safe exec I R Q s)
    (hext : ∀ a s, .ext a ∈ es → I s → I (act a s) ∧ R s (act a s)) (h : AllSafe exec I R Q w) :
    AllSafe exec I R Q (run exec act w es) := by
  induction es generalizing w with
  | nil => exact h
  | cons e es ih =>
    have hnext : AllSafe exec I R Q (Pool.next exec act w e) := by
      refine h.next hR hQ hrefl e ?_ ?_
      · rintro p rfl
        exact hstart p List.mem_cons_self
      · rintro a s rfl
        exact hext a s List.mem_cons_self
    exact ih (fun p hp => hstart p (List.mem_cons_of_mem _ hp))
      (fun a s ha => hext a s (List.mem_cons_of_mem _ ha)) hnext

end Safe

/-! ## Programs that follow a protocol -/

section Protocol

variable {M : Type} {δ : M → (o : Op) → Res o → M → Prop} {Q : α → M → Prop} {X : M → Prop}

/-- Every program in flight follows the protocol from the mode of its tag; numbers
not yet given have no program. -/
structure Tagged (δ : M → (o : Op) → Res o → M → Prop) (Q : α → M → Prop) (X : M → Prop)
    (w : Pool Op Res ε α σ) (tag : ℕ → M) : Prop where
  task : ∀ t p, w.task t = some p → p.Follows δ Q X (tag t)
  fresh : ∀ t, w.count ≤ t → w.task t = none

theorem Tagged.idle (s : σ) (tag : ℕ → M) :
    Tagged δ Q X (Pool.idle s : Pool Op Res ε α σ) tag :=
  ⟨fun t p hp => absurd hp (by simp [Pool.idle]), fun _ _ => rfl⟩

/-- A program in flight has its number. -/
theorem Tagged.lt {w : Pool Op Res ε α σ} {tag : ℕ → M} (h : Tagged δ Q X w tag) {t : ℕ}
    {p : Prog Op Res ε α} (ht : w.task t = some p) : t < w.count := by
  by_contra hge
  rw [h.fresh t (by omega)] at ht
  exact absurd ht (by simp)

theorem Tagged.start {w : Pool Op Res ε α σ} {tag : ℕ → M} (h : Tagged δ Q X w tag)
    {p : Prog Op Res ε α} {m : M} (hp : p.Follows δ Q X m) :
    Tagged δ Q X (next exec act w (.start p)) (Function.update tag w.count m) where
  task t q hq := by
    simp only [next, Function.update_apply] at hq ⊢
    split at hq
    · obtain rfl : p = q := by simpa using hq
      rename_i ht
      rw [if_pos ht]
      exact hp
    · rename_i ht
      rw [if_neg ht]
      exact h.task t q hq
  fresh t ht := by
    have hlt : w.count < t := ht
    simp only [next, Function.update_apply, if_neg (Nat.ne_of_gt hlt)]
    exact h.fresh t (Nat.le_of_lt hlt)

theorem Tagged.stop {w : Pool Op Res ε α σ} {tag : ℕ → M} (h : Tagged δ Q X w tag) (t : ℕ) :
    Tagged δ Q X (next exec act w (.stop t)) tag where
  task u q hq := by
    simp only [next, Function.update_apply] at hq
    split at hq
    · exact absurd hq (by simp)
    · exact h.task u q hq
  fresh u hu := by
    simp only [next, Function.update_apply]
    split
    · rfl
    · exact h.fresh u hu

/-- **A step moves the tag of its program along the protocol.** -/
theorem Tagged.step {w : Pool Op Res ε α σ} {tag : ℕ → M} (h : Tagged δ Q X w tag) {t : ℕ} {o : Op}
    {k : Res o → Prog Op Res ε α} (ht : w.task t = some (.op o k)) (c : χ) :
    ∃ m', δ (tag t) o (exec c o w.st).1 m' ∧
      (k (exec c o w.st).1).Follows δ Q X m' ∧
      Tagged δ Q X (next exec act w (.step t c)) (Function.update tag t m') := by
  obtain ⟨m', hm', hk⟩ := h.task t _ ht (exec c o w.st).1
  refine ⟨m', hm', hk, ?_, ?_⟩
  · rw [next_step exec act ht]
    intro u q hq
    simp only [Function.update_apply] at hq ⊢
    split at hq
    · obtain rfl : k _ = q := by simpa using hq
      rename_i hu
      rw [if_pos hu]
      exact hk
    · rename_i hu
      rw [if_neg hu]
      exact h.task u q hq
  · rw [next_step exec act ht]
    intro u hu
    have hne : u ≠ t := by
      rintro rfl
      rw [h.fresh u hu] at ht
      exact absurd ht (by simp)
    simp only [Function.update_apply, if_neg hne]
    exact h.fresh u hu

end Protocol

end Pool

end Yali.Conc
