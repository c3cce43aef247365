import Mathlib.Data.Nat.Notation

/-!
# Programs of atomic operations

A `Prog` is a finite tree of atomic operations on a shared state that ends in a
result or an error. The state, what an operation does to it (`exec`) and the
choices the environment makes at each operation (a failure, say) are parameters.

* `Prog.run`: a program run on its own, from its first operation to its end;
  `Prog.visits`: the operations it performs; `Prog.Does`: what one of them does.
* `Prog.Safe`: rely and guarantee. Whatever the others do within `R` before each
  operation, the operation keeps `I` and stays within `R` itself.
* `Prog.Follows`: every path of the program follows a protocol, given as a
  relation between modes.
-/

namespace Yali.Conc

/-- A program over operations `Op`, operation `o` answering with a `Res o`. -/
inductive Prog (Op : Type) (Res : Op → Type) (ε α : Type)
  | ok (a : α)
  | err (e : ε)
  | op (o : Op) (k : Res o → Prog Op Res ε α)

namespace Prog

variable {Op : Type} {Res : Op → Type} {ε ε' α β γ : Type}

/-! ## Sequencing -/

def bind : Prog Op Res ε α → (α → Prog Op Res ε β) → Prog Op Res ε β
  | ok a, f => f a
  | err e, _ => err e
  | op o k, f => op o fun r => (k r).bind f

/-- `Result::map_err`. -/
def mapErr (f : ε → ε') : Prog Op Res ε α → Prog Op Res ε' α
  | ok a => ok a
  | err e => err (f e)
  | op o k => op o fun r => (k r).mapErr f

/-- A result that is at hand. -/
def ofExcept : Except ε α → Prog Op Res ε α
  | .ok a => ok a
  | .error e => err e

/-- No operation is left. -/
def done : Prog Op Res ε α → Bool
  | op _ _ => false
  | _ => true

instance : Monad (Prog Op Res ε) where
  pure := ok
  bind := bind

@[simp] theorem pure_eq (a : α) : (pure a : Prog Op Res ε α) = ok a := rfl

@[simp] theorem bind_eq (p : Prog Op Res ε α) (f : α → Prog Op Res ε β) : (p >>= f) = p.bind f := rfl

@[simp] theorem ok_bind (a : α) (f : α → Prog Op Res ε β) : (ok a).bind f = f a := rfl

@[simp] theorem err_bind (e : ε) (f : α → Prog Op Res ε β) : (err e).bind f = err e := rfl

@[simp] theorem op_bind (o : Op) (k : Res o → Prog Op Res ε α) (f : α → Prog Op Res ε β) :
    (op o k).bind f = op o fun r => (k r).bind f := rfl

theorem bind_assoc (p : Prog Op Res ε α) (f : α → Prog Op Res ε β) (g : β → Prog Op Res ε γ) :
    (p.bind f).bind g = p.bind fun a => (f a).bind g := by
  induction p with
  | ok a => rfl
  | err e => rfl
  | op o k ih => simp only [op_bind, ih]

@[simp] theorem mapErr_ok (f : ε → ε') (a : α) : (ok a : Prog Op Res ε α).mapErr f = ok a := rfl

@[simp] theorem mapErr_err (f : ε → ε') (e : ε) : (err e : Prog Op Res ε α).mapErr f = err (f e) := rfl

@[simp] theorem mapErr_op (f : ε → ε') (o : Op) (k : Res o → Prog Op Res ε α) :
    (op o k).mapErr f = op o fun r => (k r).mapErr f := rfl

section Exec

variable {σ χ : Type} (exec : χ → (o : Op) → σ → Res o × σ)

/-! ## Running alone -/

/-- The run of a program on its own, `c n` being the environment's choice at its
`n`-th operation: the result, the final state and the choices not used. -/
def run : Prog Op Res ε α → (ℕ → χ) → σ → Except ε α × σ × (ℕ → χ)
  | ok a, c, s => (.ok a, s, c)
  | err e, c, s => (.error e, s, c)
  | op o k, c, s => (k (exec (c 0) o s).1).run (fun n => c (n + 1)) (exec (c 0) o s).2

@[simp] theorem run_ok (a : α) (c : ℕ → χ) (s : σ) :
    (ok a : Prog Op Res ε α).run exec c s = (.ok a, s, c) := rfl

@[simp] theorem run_err (e : ε) (c : ℕ → χ) (s : σ) :
    (err e : Prog Op Res ε α).run exec c s = (.error e, s, c) := rfl

theorem run_op (o : Op) (k : Res o → Prog Op Res ε α) (c : ℕ → χ) (s : σ) :
    (op o k).run exec c s =
      (k (exec (c 0) o s).1).run exec (fun n => c (n + 1)) (exec (c 0) o s).2 := rfl

/-- A sequence runs its first part and, from a result, its second. -/
theorem run_bind (p : Prog Op Res ε α) (f : α → Prog Op Res ε β) (c : ℕ → χ) (s : σ) :
    (p.bind f).run exec c s =
      match p.run exec c s with
      | (.ok a, s', c') => (f a).run exec c' s'
      | (.error e, s', c') => (.error e, s', c') := by
  induction p generalizing c s with
  | ok a => rfl
  | err e => rfl
  | op o k ih => simp only [op_bind, run_op, ih]

/-- Mapping the error changes the result alone. -/
theorem run_mapErr (g : ε → ε') (p : Prog Op Res ε α) (c : ℕ → χ) (s : σ) :
    (p.mapErr g).run exec c s =
      ((p.run exec c s).1.mapError g, (p.run exec c s).2) := by
  induction p generalizing c s with
  | ok a => rfl
  | err e => rfl
  | op o k ih => simp only [mapErr_op, run_op, ih]

/-- The operations of a run, each with the environment's choice. -/
def visits : Prog Op Res ε α → (ℕ → χ) → σ → List (Op × χ)
  | op o k, c, s =>
    (o, c 0) :: (k (exec (c 0) o s).1).visits (fun n => c (n + 1)) (exec (c 0) o s).2
  | _, _, _ => []

@[simp] theorem visits_ok (a : α) (c : ℕ → χ) (s : σ) :
    (ok a : Prog Op Res ε α).visits exec c s = [] := rfl

@[simp] theorem visits_err (e : ε) (c : ℕ → χ) (s : σ) :
    (err e : Prog Op Res ε α).visits exec c s = [] := rfl

theorem visits_op (o : Op) (k : Res o → Prog Op Res ε α) (c : ℕ → χ) (s : σ) :
    (op o k).visits exec c s =
      (o, c 0) :: (k (exec (c 0) o s).1).visits exec (fun n => c (n + 1)) (exec (c 0) o s).2 := rfl

/-- The operations of a sequence. -/
theorem visits_bind (p : Prog Op Res ε α) (f : α → Prog Op Res ε β) (c : ℕ → χ) (s : σ) :
    (p.bind f).visits exec c s = p.visits exec c s ++
      match p.run exec c s with
      | (.ok a, s', c') => (f a).visits exec c' s'
      | (.error _, _, _) => [] := by
  induction p generalizing c s with
  | ok a => rfl
  | err e => rfl
  | op o k ih => simp only [op_bind, visits_op, run_op, ih, List.cons_append]

theorem visits_mapErr (g : ε → ε') (p : Prog Op Res ε α) (c : ℕ → χ) (s : σ) :
    (p.mapErr g).visits exec c s = p.visits exec c s := by
  induction p generalizing c s with
  | ok a => rfl
  | err e => rfl
  | op o k ih => simp only [mapErr_op, visits_op, ih]

/-- Some operation of a run does what `P` says of it and of its answer. -/
def Does (P : (o : Op) → Res o → Prop) : Prog Op Res ε α → (ℕ → χ) → σ → Prop
  | op o k, c, s =>
    P o (exec (c 0) o s).1 ∨ (k (exec (c 0) o s).1).Does P (fun n => c (n + 1)) (exec (c 0) o s).2
  | _, _, _ => False

/-- A sequence does what one of its parts does. -/
theorem does_bind {P : (o : Op) → Res o → Prop} (p : Prog Op Res ε α) (f : α → Prog Op Res ε β)
    (c : ℕ → χ) (s : σ) :
    (p.bind f).Does exec P c s ↔ p.Does exec P c s ∨
      match p.run exec c s with
      | (.ok a, s', c') => (f a).Does exec P c' s'
      | (.error _, _, _) => False := by
  induction p generalizing c s with
  | ok a => simp [Does]
  | err e => simp [Does]
  | op o k ih => simp only [op_bind, Does, run_op, ih, or_assoc]

/-- The state after at most `n` operations. -/
def runUpTo : Prog Op Res ε α → (ℕ → χ) → ℕ → σ → σ
  | op o k, c, n + 1, s =>
    (k (exec (c 0) o s).1).runUpTo (fun n => c (n + 1)) n (exec (c 0) o s).2
  | _, _, _, s => s

/-- **What every operation keeps, an interrupted run keeps.** -/
theorem runUpTo_inv {J : σ → Prop} (h : ∀ c o s, J s → J (exec c o s).2) (p : Prog Op Res ε α)
    (c : ℕ → χ) (n : ℕ) (s : σ) (hs : J s) : J (p.runUpTo exec c n s) := by
  induction p generalizing c n s with
  | ok a => cases n <;> exact hs
  | err e => cases n <;> exact hs
  | op o k ih =>
    cases n with
    | zero => exact hs
    | succ n => exact ih _ _ n _ (h _ _ _ hs)

/-! ## Rely and guarantee -/

variable (I : σ → Prop) (R : σ → σ → Prop)

/-- Whatever the others do within `R` before each operation, the operation keeps
`I` and stays within `R`; a result satisfies `Q` when it is reached. -/
def Safe (Q : α → σ → Prop) : Prog Op Res ε α → σ → Prop
  | ok a, s => Q a s
  | err _, _ => True
  | op o k, s => ∀ s₁, R s s₁ → I s₁ → ∀ c, I (exec c o s₁).2 ∧ R s₁ (exec c o s₁).2 ∧
      (k (exec c o s₁).1).Safe Q (exec c o s₁).2

variable {exec I R}

/-- Steps of the others keep a program safe. -/
theorem Safe.stable (hR : ∀ a b c, R a b → R b c → R a c) {Q : α → σ → Prop}
    (hQ : ∀ a s s', R s s' → Q a s → Q a s') {p : Prog Op Res ε α} {s s' : σ} (hs : R s s')
    (h : p.Safe exec I R Q s) : p.Safe exec I R Q s' := by
  cases p with
  | ok a => exact hQ a s s' hs h
  | err e => trivial
  | op o k => exact fun s₁ h₁ => h s₁ (hR _ _ _ hs h₁)

/-- Sequencing: the second part is safe after every result of the first. -/
theorem Safe.bind {Q : α → σ → Prop} {Q' : β → σ → Prop} {p : Prog Op Res ε α}
    {f : α → Prog Op Res ε β} {s : σ} (hI : I s) (h : p.Safe exec I R Q s)
    (hf : ∀ a s', I s' → Q a s' → (f a).Safe exec I R Q' s') : (p.bind f).Safe exec I R Q' s := by
  induction p generalizing s with
  | ok a => exact hf a s hI h
  | err e => trivial
  | op o k ih =>
    intro s₁ h₁ hI₁ c
    obtain ⟨hI₂, hR₂, hk⟩ := h s₁ h₁ hI₁ c
    exact ⟨hI₂, hR₂, ih _ hI₂ hk⟩

theorem Safe.mapErr {Q : α → σ → Prop} {g : ε → ε'} {p : Prog Op Res ε α} {s : σ}
    (h : p.Safe exec I R Q s) : (p.mapErr g).Safe exec I R Q s := by
  induction p generalizing s with
  | ok a => exact h
  | err e => trivial
  | op o k ih =>
    intro s₁ h₁ hI₁ c
    obtain ⟨hI₂, hR₂, hk⟩ := h s₁ h₁ hI₁ c
    exact ⟨hI₂, hR₂, ih _ hk⟩

/-- A weaker postcondition. -/
theorem Safe.weaken {Q Q' : α → σ → Prop} {p : Prog Op Res ε α} {s : σ} (hI : I s)
    (h : p.Safe exec I R Q s) (hQ : ∀ a s', I s' → Q a s' → Q' a s') : p.Safe exec I R Q' s := by
  induction p generalizing s with
  | ok a => exact hQ a s hI h
  | err e => trivial
  | op o k ih =>
    intro s₁ h₁ hI₁ c
    obtain ⟨hI₂, hR₂, hk⟩ := h s₁ h₁ hI₁ c
    exact ⟨hI₂, hR₂, ih _ hI₂ hk⟩

/-- What the others keep, the program keeps with them. -/
theorem Safe.frame {F : σ → Prop} (hF : ∀ s s', R s s' → F s → F s') {Q : α → σ → Prop}
    {p : Prog Op Res ε α} {s : σ} (hs : F s) (h : p.Safe exec I R Q s) :
    p.Safe exec I R (fun a s' => Q a s' ∧ F s') s := by
  induction p generalizing s with
  | ok a => exact ⟨h, hs⟩
  | err e => trivial
  | op o k ih =>
    intro s₁ h₁ hI₁ c
    obtain ⟨hI₂, hR₂, hk⟩ := h s₁ h₁ hI₁ c
    exact ⟨hI₂, hR₂, ih _ (hF _ _ hR₂ (hF _ _ h₁ hs)) hk⟩

end Exec

/-! ## Protocols -/

section Protocol

variable {M : Type} (δ : M → (o : Op) → Res o → M → Prop)

/-- Every path of the program follows `δ` from mode `m`, and a result reached in
mode `m'` satisfies `Q m'`, an error `X m'`. -/
def Follows (Q : α → M → Prop) (X : M → Prop) : Prog Op Res ε α → M → Prop
  | ok a, m => Q a m
  | err _, m => X m
  | op o k, m => ∀ r, ∃ m', δ m o r m' ∧ (k r).Follows Q X m'

variable {δ}

/-- Sequencing: the second part follows the protocol from where the first ends. -/
theorem Follows.bind {Q : α → M → Prop} {Q' : β → M → Prop} {X : M → Prop} {p : Prog Op Res ε α}
    {f : α → Prog Op Res ε β} {m : M} (h : p.Follows δ Q X m)
    (hf : ∀ a m', Q a m' → (f a).Follows δ Q' X m') : (p.bind f).Follows δ Q' X m := by
  induction p generalizing m with
  | ok a => exact hf a m h
  | err e => exact h
  | op o k ih =>
    intro r
    obtain ⟨m', hm', hk⟩ := h r
    exact ⟨m', hm', ih r hk⟩

/-- What a protocol allows at no step, no run of the program does. -/
theorem Follows.not_does {σ χ : Type} {exec : χ → (o : Op) → σ → Res o × σ} {P : (o : Op) → Res o → Prop}
    (hP : ∀ m o r m', δ m o r m' → ¬ P o r) {Q : α → M → Prop} {X : M → Prop} {p : Prog Op Res ε α}
    {m : M} (h : p.Follows δ Q X m) (c : ℕ → χ) (s : σ) : ¬ p.Does exec P c s := by
  induction p generalizing m c s with
  | ok a => exact id
  | err e => exact id
  | op o k ih =>
    obtain ⟨m', hm', hk⟩ := h (exec (c 0) o s).1
    intro hdoes
    rcases hdoes with hdoes | hdoes
    · exact hP m o _ m' hm' hdoes
    · exact ih _ hk _ _ hdoes

theorem Follows.mapErr {Q : α → M → Prop} {X : M → Prop} {g : ε → ε'} {p : Prog Op Res ε α} {m : M}
    (h : p.Follows δ Q X m) : (p.mapErr g).Follows δ Q X m := by
  induction p generalizing m with
  | ok a => exact h
  | err e => exact h
  | op o k ih =>
    intro r
    obtain ⟨m', hm', hk⟩ := h r
    exact ⟨m', hm', ih r hk⟩

end Protocol

end Prog

end Yali.Conc
