import Yali.Conc.Ghost

/-!
# Programs that look at a part of what they read

A program is blind to a relation on the results of its operations if it goes on the same
way after related ones (`Prog.Blind`). Two pools of such programs, over states whose
operations answer with related results, go in lockstep: after the same events they have
the same programs in flight, and the same results (`lockstep_run`).
-/

namespace Yali.Conc

variable {Op : Type} {Res : Op → Type} {ε ε' α β σ χ A : Type} {D : (o : Op) → Res o → Res o → Prop}

namespace Prog

/-- After results that `D` relates the program goes on the same way. -/
def Blind (D : (o : Op) → Res o → Res o → Prop) : Prog Op Res ε α → Prop
  | op o k => ∀ r r', D o r r' → k r = k r' ∧ (k r).Blind D
  | _ => True

@[simp] theorem blind_ok (a : α) : (ok a : Prog Op Res ε α).Blind D := trivial

theorem blind_ofExcept (r : Except ε α) : (ofExcept r : Prog Op Res ε α).Blind D := by
  cases r <;> trivial

/-- Blind before and after is blind throughout. -/
theorem Blind.bind {p : Prog Op Res ε α} {f : α → Prog Op Res ε β} (h : p.Blind D)
    (hf : ∀ a, (f a).Blind D) : (p.bind f).Blind D := by
  induction p with
  | ok a => exact hf a
  | err e => trivial
  | op o k ih =>
    intro r r' hr
    obtain ⟨heq, hk⟩ := h r r' hr
    exact ⟨congrArg (fun p => p.bind f) heq, ih r hk⟩

theorem Blind.mapErr {g : ε → ε'} {p : Prog Op Res ε α} (h : p.Blind D) : (p.mapErr g).Blind D := by
  induction p with
  | ok a => trivial
  | err e => trivial
  | op o k ih =>
    intro r r' hr
    obtain ⟨heq, hk⟩ := h r r' hr
    exact ⟨congrArg (fun p => p.mapErr g) heq, ih r hk⟩

/-- One operation, and a result made of what the relation leaves of its answer. -/
theorem blind_op {o : Op} {f : Res o → Except ε α} (hf : ∀ r r', D o r r' → f r = f r') :
    (op o fun r => ofExcept (f r) : Prog Op Res ε α).Blind D := by
  intro r r' hr
  exact ⟨congrArg ofExcept (hf r r' hr), blind_ofExcept (f r)⟩

end Prog

namespace Pool

/-- The states are related, and the same blind programs are in flight. -/
structure Lockstep (D : (o : Op) → Res o → Res o → Prop) (S : σ → σ → Prop) (w w' : Pool Op Res ε α σ) :
    Prop where
  st : S w.st w'.st
  count : w.count = w'.count
  task : w.task = w'.task
  blind : ∀ t p, w.task t = some p → p.Blind D

variable {exec : χ → (o : Op) → σ → Res o × σ} {act : A → σ → σ} {S : σ → σ → Prop}
  {w w' : Pool Op Res ε α σ}

/-- Two pools that have just started. -/
theorem Lockstep.idle {s s' : σ} (h : S s s') :
    Lockstep D S (Pool.idle s : Pool Op Res ε α σ) (Pool.idle s') :=
  ⟨h, rfl, rfl, fun t p hp => absurd hp (by simp [Pool.idle])⟩

/-- What is answered is answered on both sides. -/
theorem Lockstep.result (h : Lockstep D S w w') (t : ℕ) : w.result t = w'.result t := by
  unfold Pool.result
  rw [h.task]

variable
  (hexec : ∀ c o s s', S s s' → D o (exec c o s).1 (exec c o s').1 ∧ S (exec c o s).2 (exec c o s').2)
  (hact : ∀ a s s', S s s' → S (act a s) (act a s'))
include hexec hact

/-- One event keeps the lockstep. -/
theorem Lockstep.next (h : Lockstep D S w w') (e : Event Op Res ε α χ A)
    (hstart : ∀ p, e = .start p → p.Blind D) :
    Lockstep D S (Pool.next exec act w e) (Pool.next exec act w' e) := by
  cases e with
  | start p =>
    refine ⟨h.st, congrArg Nat.succ h.count, ?_, ?_⟩
    · simp only [Pool.next, h.count, h.task]
    · intro t q hq
      simp only [Pool.next, Function.update_apply] at hq
      split at hq
      · obtain rfl : p = q := by simpa using hq
        exact hstart p rfl
      · exact h.blind t q hq
  | step t c =>
    rcases step_cases exec act w t c with ⟨o, k, ht, hn⟩ | ⟨hno, hn⟩
    · -- both programs make the same operation and go on the same way
      have ht' : w'.task t = some (.op o k) := h.task ▸ ht
      obtain ⟨hres, hst⟩ := hexec c o _ _ h.st
      obtain ⟨heq, hk⟩ := h.blind t _ ht _ _ hres
      rw [hn, next_step exec act ht']
      refine ⟨hst, h.count, ?_, ?_⟩
      · simp only [h.task, heq]
      · intro u q hq
        simp only [Function.update_apply] at hq
        split at hq
        · obtain rfl : k _ = q := by simpa using hq
          exact hk
        · exact h.blind u q hq
    · rcases step_cases exec act w' t c with ⟨o, k, ht', -⟩ | ⟨-, hn'⟩
      · exact absurd (h.task ▸ ht') (hno o k)
      · rw [hn, hn']
        exact h
  | stop t =>
    refine ⟨h.st, h.count, ?_, ?_⟩
    · simp only [Pool.next, h.task]
    · intro u q hq
      simp only [Pool.next, Function.update_apply] at hq
      split at hq
      · exact absurd hq (by simp)
      · exact h.blind u q hq
  | ext a => exact ⟨hact a _ _ h.st, h.count, h.task, h.blind⟩

/-- **Pools in lockstep stay so**, whatever the events. -/
theorem lockstep_run (h : Lockstep D S w w') {es : List (Event Op Res ε α χ A)}
    (hstart : ∀ p, .start p ∈ es → p.Blind D) :
    Lockstep D S (run exec act w es) (run exec act w' es) := by
  induction es generalizing w w' with
  | nil => exact h
  | cons e es ih =>
    refine ih (h.next hexec hact e ?_) fun p hp => hstart p (List.mem_cons_of_mem _ hp)
    rintro p rfl
    exact hstart p List.mem_cons_self

end Pool

end Yali.Conc
