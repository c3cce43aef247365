import Mathlib.Order.Nat
import Yali.Conc.Pool

/-!
# Ghost modes

A ghost mode goes along with a program and changes at its operations as a relation
allows that sees the state: what the program has done for its purpose so far. The
others move the state within `R` before each operation, as in `Prog.Safe`, whose
results go over to the end of the program (`Prog.Along.with_safe`).

* `Prog.Along`: the modes of one program.
* `Pool.Led`: every program in flight goes along with the mode of its number; what an
  event does to the modes is `Led.next`.
* `Prog.Follows.record`: a history variable beside the modes of a protocol;
  `Prog.Follows.optionally`: a protocol that only some programs keep to.
* `Pool.TaskEvent`: an event of one program, so one between its start and its end.
* `Pool.traced_run`: what the history of a run says of the modes of a protocol.
-/

namespace Yali.Conc

variable {Op : Type} {Res : Op → Type} {ε ε' α β σ χ A M : Type}

namespace Prog

/-- The result of a program that has ended. -/
def result : Prog Op Res ε α → Option (Except ε α)
  | ok a => some (.ok a)
  | err e => some (.error e)
  | op _ _ => none

/-- A variable that records the operations may be added to a protocol. -/
theorem Follows.record {δ : M → (o : Op) → Res o → M → Prop} {Q : α → M → Prop} {X : M → Prop}
    {p : Prog Op Res ε α} {m : M} {H : Type} (upd : H → (o : Op) → Res o → H) {h : H}
    (hp : p.Follows δ Q X m) :
    p.Follows (fun m o r m' => δ m.1 o r m'.1 ∧ m'.2 = upd m.2 o r) (fun a m => Q a m.1)
      (fun m => X m.1) (m, h) := by
  induction p generalizing m h with
  | ok a => exact hp
  | err e => exact hp
  | op o k ih =>
    intro r
    obtain ⟨m', hm', hk⟩ := hp r
    exact ⟨(m', upd h o r), ⟨hm', rfl⟩, ih r hk⟩

/-- Some programs keep to a protocol; the others have no mode, and only operations of `F`. -/
def Optionally (δ : M → (o : Op) → Res o → M → Prop) (F : Op → Prop) :
    Option M → (o : Op) → Res o → Option M → Prop
  | some m, o, r, some m' => δ m o r m'
  | none, o, _, none => F o
  | _, _, _, _ => False

theorem Follows.optionally {δ : M → (o : Op) → Res o → M → Prop} {F : Op → Prop} {Q : α → M → Prop}
    {X : M → Prop} {p : Prog Op Res ε α} {m : M} (hp : p.Follows δ Q X m) :
    p.Follows (Optionally δ F) (fun a x => ∀ m ∈ x, Q a m) (fun x => ∀ m ∈ x, X m) (some m) := by
  induction p generalizing m with
  | ok a =>
    rintro _ ⟨⟩
    exact hp
  | err e =>
    rintro _ ⟨⟩
    exact hp
  | op o k ih =>
    intro r
    obtain ⟨m', hm', hk⟩ := hp r
    exact ⟨some m', hm', ih r hk⟩

section Along

variable (exec : χ → (o : Op) → σ → Res o × σ) (I : σ → Prop) (R : σ → σ → Prop)
  (δ : M → χ → (o : Op) → σ → M → Prop)

/-- Each operation finds the state moved within `R` and takes the mode along `δ`; a
result is reached in a mode and a state that satisfy `Q`, an error `X`. -/
def Along (Q : α → M → σ → Prop) (X : ε → M → σ → Prop) : Prog Op Res ε α → M → σ → Prop
  | ok a, m, s => Q a m s
  | err e, m, s => X e m s
  | op o k, m, s => ∀ s₁, R s s₁ → I s₁ → ∀ c, ∃ m', δ m c o s₁ m' ∧
      (k (exec c o s₁).1).Along Q X m' (exec c o s₁).2

variable {exec I R δ}

theorem Along.bind {Q : α → M → σ → Prop} {Q' : β → M → σ → Prop} {X : ε → M → σ → Prop}
    {p : Prog Op Res ε α} {f : α → Prog Op Res ε β} {m : M} {s : σ}
    (h : p.Along exec I R δ Q X m s)
    (hf : ∀ a m' s', Q a m' s' → (f a).Along exec I R δ Q' X m' s') :
    (p.bind f).Along exec I R δ Q' X m s := by
  induction p generalizing m s with
  | ok a => exact hf a m s h
  | err e => exact h
  | op o k ih =>
    intro s₁ hR hI c
    obtain ⟨m', hm', hk⟩ := h s₁ hR hI c
    exact ⟨m', hm', ih _ hk⟩

theorem Along.mapErr {Q : α → M → σ → Prop} {X : ε → M → σ → Prop} {X' : ε' → M → σ → Prop}
    {g : ε → ε'} {p : Prog Op Res ε α} {m : M} {s : σ} (h : p.Along exec I R δ Q X m s)
    (hX : ∀ e m s, X e m s → X' (g e) m s) : (p.mapErr g).Along exec I R δ Q X' m s := by
  induction p generalizing m s with
  | ok a => exact h
  | err e => exact hX e m s h
  | op o k ih =>
    intro s₁ hR hI c
    obtain ⟨m', hm', hk⟩ := h s₁ hR hI c
    exact ⟨m', hm', ih _ hk⟩

theorem Along.weaken {Q Q' : α → M → σ → Prop} {X X' : ε → M → σ → Prop} {p : Prog Op Res ε α} {m : M}
    {s : σ} (h : p.Along exec I R δ Q X m s) (hQ : ∀ a m s, Q a m s → Q' a m s)
    (hX : ∀ e m s, X e m s → X' e m s) : p.Along exec I R δ Q' X' m s := by
  induction p generalizing m s with
  | ok a => exact hQ a m s h
  | err e => exact hX e m s h
  | op o k ih =>
    intro s₁ hR hI c
    obtain ⟨m', hm', hk⟩ := h s₁ hR hI c
    exact ⟨m', hm', ih _ hk⟩

/-- **What a safe program establishes**, it establishes with its modes. -/
theorem Along.with_safe {Q : α → M → σ → Prop} {X : ε → M → σ → Prop} {P : α → σ → Prop}
    {p : Prog Op Res ε α} {m : M} {s : σ} (h : p.Along exec I R δ Q X m s) (hI : I s)
    (hs : p.Safe exec I R P s) :
    p.Along exec I R δ (fun a m s => Q a m s ∧ I s ∧ P a s) X m s := by
  induction p generalizing m s with
  | ok a => exact ⟨h, hI, hs⟩
  | err e => exact h
  | op o k ih =>
    intro s₁ hR hI₁ c
    obtain ⟨m', hm', hk⟩ := h s₁ hR hI₁ c
    obtain ⟨hI₂, -, hk₂⟩ := hs s₁ hR hI₁ c
    exact ⟨m', hm', ih _ hk hI₂ hk₂⟩

/-- Steps of the others leave a program along its mode. -/
theorem Along.stable (hR : ∀ a b c, R a b → R b c → R a c) {Q : α → M → σ → Prop}
    {X : ε → M → σ → Prop} (hQ : ∀ a m s s', R s s' → Q a m s → Q a m s')
    (hX : ∀ e m s s', R s s' → X e m s → X e m s') {p : Prog Op Res ε α} {m : M} {s s' : σ}
    (hs : R s s') (h : p.Along exec I R δ Q X m s) : p.Along exec I R δ Q X m s' := by
  cases p with
  | ok a => exact hQ a m s s' hs h
  | err e => exact hX e m s s' hs h
  | op o k => exact fun s₁ h₁ => h s₁ (hR _ _ _ hs h₁)

end Along

end Prog

namespace Pool

variable {exec : χ → (o : Op) → σ → Res o × σ} {act : A → σ → σ}

/-! ## The life of a program -/

/-- The result of program `t`, once it has ended. -/
def result (w : Pool Op Res ε α σ) (t : ℕ) : Option (Except ε α) := (w.task t).bind Prog.result

/-- Event `e` is the start of program `t`, or the next operation of it. -/
inductive TaskEvent (w : Pool Op Res ε α σ) (t : ℕ) : Event Op Res ε α χ A → Prop
  | start (p : Prog Op Res ε α) (h : t = w.count) : TaskEvent w t (.start p)
  | step {o : Op} {k : Res o → Prog Op Res ε α} (h : w.task t = some (.op o k)) (c : χ) :
    TaskEvent w t (.step t c)

/-- Numbers not yet given have no program. -/
def Numbered (w : Pool Op Res ε α σ) : Prop := ∀ t, w.count ≤ t → w.task t = none

theorem Numbered.idle (s : σ) : (Pool.idle s : Pool Op Res ε α σ).Numbered := fun _ _ => rfl

theorem Numbered.lt {w : Pool Op Res ε α σ} (h : w.Numbered) {t : ℕ} {p : Prog Op Res ε α}
    (ht : w.task t = some p) : t < w.count := by
  by_contra hge
  rw [h t (by omega)] at ht
  exact absurd ht (by simp)

theorem Numbered.next {w : Pool Op Res ε α σ} (h : w.Numbered) (e : Event Op Res ε α χ A) :
    (Pool.next exec act w e).Numbered := by
  cases e with
  | start p =>
    intro t ht
    have hlt : w.count < t := ht
    simp only [Pool.next, Function.update_apply, if_neg (Nat.ne_of_gt hlt)]
    exact h t (Nat.le_of_lt hlt)
  | step u c =>
    rcases step_cases exec act w u c with ⟨o, k, hu, hn⟩ | ⟨-, hn⟩
    · rw [hn]
      intro t ht
      have hne : t ≠ u := by
        rintro rfl
        exact absurd (h.lt hu) (Nat.not_lt.2 ht)
      simp only [Function.update_of_ne hne]
      exact h t ht
    · rw [hn]
      exact h
  | stop u =>
    intro t ht
    simp only [Pool.next, Function.update_apply]
    split
    · rfl
    · exact h t ht
  | ext a => exact h

theorem Numbered.wAt {w : Pool Op Res ε α σ} (h : w.Numbered) (es : List (Event Op Res ε α χ A))
    (n : ℕ) : (Pool.wAt exec act w es n).Numbered :=
  run_inv (fun _ e hw => hw.next e) _ h

variable (exec act)

theorem count_next (w : Pool Op Res ε α σ) (e : Event Op Res ε α χ A) :
    w.count ≤ (next exec act w e).count := by
  cases e with
  | start p => exact Nat.le_succ _
  | step t c =>
    rcases step_cases exec act w t c with ⟨o, k, -, hn⟩ | ⟨-, hn⟩
    · rw [hn]
    · rw [hn]
  | stop t => exact le_rfl
  | ext a => exact le_rfl

theorem count_mono (w : Pool Op Res ε α σ) (es : List (Event Op Res ε α χ A)) {n m : ℕ} (h : n ≤ m)
    (hm : m ≤ es.length) : (wAt exec act w es n).count ≤ (wAt exec act w es m).count := by
  induction m, h using Nat.le_induction with
  | base => exact le_rfl
  | succ m hnm ih =>
    rw [wAt_succ w es hm]
    exact le_trans (ih (Nat.le_of_succ_le hm)) (count_next exec act _ _)

/-- What every event does to the state from a moment on, the run does. -/
theorem wAt_rel {R : σ → σ → Prop} (hrefl : ∀ s, R s s) (hR : ∀ a b c, R a b → R b c → R a c)
    {w : Pool Op Res ε α σ} {es : List (Event Op Res ε α χ A)} {m : ℕ}
    (h : ∀ n, m ≤ n → n < es.length → R (wAt exec act w es n).st (wAt exec act w es (n + 1)).st) {n : ℕ}
    (hmn : m ≤ n) : R (wAt exec act w es m).st (wAt exec act w es n).st := by
  induction n, hmn using Nat.le_induction with
  | base => exact hrefl _
  | succ n hmn ih =>
    by_cases hn : n < es.length
    · exact hR _ _ _ ih (h n hmn hn)
    · have hsame : wAt exec act w es (n + 1) = wAt exec act w es n := by
        unfold wAt
        rw [List.take_of_length_le (by omega), List.take_of_length_le (by omega)]
      rw [hsame]
      exact ih

variable {exec act}

/-- A program without an operation left has none at any later point. -/
theorem no_op_mono {w : Pool Op Res ε α σ} {es : List (Event Op Res ε α χ A)} {n m t : ℕ} (h : n ≤ m)
    (hm : m ≤ es.length) (ht : t < (wAt exec act w es n).count)
    (hno : ∀ o k, (wAt exec act w es n).task t ≠ some (.op o k)) :
    ∀ o k, (wAt exec act w es m).task t ≠ some (.op o k) := by
  have hboth : t < (wAt exec act w es m).count ∧ ∀ o k, (wAt exec act w es m).task t ≠ some (.op o k) := by
    induction m, h using Nat.le_induction with
    | base => exact ⟨ht, hno⟩
    | succ m hnm ih =>
      obtain ⟨hlt, hop⟩ := ih (Nat.le_of_succ_le hm)
      rw [wAt_succ w es hm]
      exact no_op_next hlt hop _
  exact hboth.2

/-- **A program that has ended has no event any more.** -/
theorem TaskEvent.lt_end {w : Pool Op Res ε α σ} (hw : w.Numbered) {es : List (Event Op Res ε α χ A)}
    {n m t : ℕ} {r : Except ε α} (hn : n < es.length)
    (h : TaskEvent (wAt exec act w es n) t es[n]) (hr : (wAt exec act w es m).result t = some r) :
    n < m := by
  by_contra hmn
  obtain ⟨p, hp, hres⟩ := Option.bind_eq_some_iff.1 hr
  have hlt : t < (wAt exec act w es m).count := (hw.wAt es m).lt hp
  have hno : ∀ o k, (wAt exec act w es m).task t ≠ some (.op o k) := by
    intro o k hop
    obtain rfl : p = .op o k := Option.some.inj (hp.symm.trans hop)
    exact absurd hres (by simp [Prog.result])
  generalize es[n] = e at h
  cases h with
  | start p ht =>
    have hle := count_mono exec act w es (Nat.not_lt.1 hmn) hn.le
    omega
  | step hop c => exact no_op_mono (Nat.not_lt.1 hmn) hn.le hlt hno _ _ hop

/-- **A program that has not started has had no event.** -/
theorem TaskEvent.start_le {w : Pool Op Res ε α σ} (hw : w.Numbered)
    {es : List (Event Op Res ε α χ A)} {n m t : ℕ} (hn : n < es.length) (hm : m ≤ es.length)
    (h : TaskEvent (wAt exec act w es n) t es[n]) (ht : (wAt exec act w es m).count ≤ t) : m ≤ n := by
  by_contra hmn
  have hle := count_mono exec act w es (Nat.succ_le_of_lt (Nat.not_le.1 hmn)) hm
  rw [wAt_succ w es hn] at hle
  generalize es[n] = e at h hle
  cases h with
  | start p heq =>
    have hsucc : (next exec act (wAt exec act w es n) (.start p)).count =
        (wAt exec act w es n).count + 1 := rfl
    omega
  | step hop c =>
    have hlt := (hw.wAt es n).lt hop
    have hcount := count_next exec act (wAt exec act w es n) (.step t c)
    omega

/-- A program has no operation before it is started. -/
theorem no_op_before_start {w : Pool Op Res ε α σ} (hw : w.Numbered) {es : List (Event Op Res ε α χ A)}
    {n a t : ℕ} {p : Prog Op Res ε α} {c : χ} (hn : es[n]? = some (.start p))
    (ht : t = (wAt exec act w es n).count) (han : a < n + 1) (ha : es[a]? = some (.step t c)) (o : Op)
    (k : Res o → Prog Op Res ε α) : (wAt exec act w es a).task t ≠ some (.op o k) := by
  intro hop
  obtain ⟨hlt, -⟩ := List.getElem?_eq_some_iff.1 hn
  obtain ⟨halt, hget⟩ := List.getElem?_eq_some_iff.1 ha
  have hev : TaskEvent (wAt exec act w es a) t es[a] := hget ▸ .step hop c
  have hle := hev.start_le hw halt hlt.le ht.ge
  obtain rfl : a = n := le_antisymm (Nat.le_of_lt_succ han) hle
  exact absurd (Option.some.inj (ha.symm.trans hn)) (by simp)

/-- Where no program is dropped, those started are there. -/
theorem task_ne_none {w : Pool Op Res ε α σ} (hw : ∀ t < w.count, w.task t ≠ none)
    {es : List (Event Op Res ε α χ A)} (hno : ∀ t, .stop t ∉ es) :
    ∀ t < (run exec act w es).count, (run exec act w es).task t ≠ none := by
  induction es generalizing w with
  | nil => exact hw
  | cons e es ih =>
    refine ih ?_ fun t ht => hno t (List.mem_cons_of_mem _ ht)
    cases e with
    | start p =>
      intro t ht
      simp only [next, Function.update_apply]
      split
      · exact Option.some_ne_none p
      · rename_i hne
        exact hw t (lt_of_le_of_ne (Nat.le_of_lt_succ ht) hne)
    | step u c =>
      rcases step_cases exec act w u c with ⟨o, k, -, hn⟩ | ⟨-, hn⟩
      · rw [hn]
        intro t ht
        simp only [Function.update_apply]
        split
        · exact Option.some_ne_none _
        · exact hw t ht
      · rw [hn]
        exact hw
    | stop u => exact absurd List.mem_cons_self (hno u)
    | ext a => exact hw

/-! ## What the history says of the modes -/

section Traced

variable {δ : M → (o : Op) → Res o → M → Prop} {Q : α → M → Prop} {X : M → Prop}

/-- **A protocol and its history.** `J n t m` is what the first `n` events say of program `t`
in mode `m`: it is true when a program starts, the events of the others keep it, and an
operation takes it along the protocol. Then it is true of every program at every moment. -/
theorem traced_run [Nonempty M] {J : ℕ → ℕ → M → Prop} (s : σ) {es : List (Event Op Res ε α χ A)}
    (hstart : ∀ n p, es[n]? = some (.start p) →
      ∃ m, p.Follows δ Q X m ∧ J (n + 1) (wAt exec act (Pool.idle s) es n).count m)
    (hkeep : ∀ n (hn : n < es.length) t m, J n t m →
      ¬ TaskEvent (wAt exec act (Pool.idle s) es n) t es[n] → J (n + 1) t m)
    (hstep : ∀ n t c o k m m', es[n]? = some (.step t c) →
      (wAt exec act (Pool.idle s) es n).task t = some (.op o k) → J n t m →
      δ m o (exec c o (wAt exec act (Pool.idle s) es n).st).1 m' → J (n + 1) t m')
    {n : ℕ} (hn : n ≤ es.length) :
    ∃ mode : ℕ → M, Tagged δ Q X (wAt exec act (Pool.idle s) es n) mode ∧
      ∀ t < (wAt exec act (Pool.idle s) es n).count, J n t (mode t) := by
  induction n with
  | zero =>
    obtain ⟨m⟩ := ‹Nonempty M›
    exact ⟨fun _ => m, .idle s _, fun t ht => absurd ht (Nat.not_lt_zero t)⟩
  | succ n ih =>
    have hlt : n < es.length := hn
    obtain ⟨mode, htag, hJ⟩ := ih hlt.le
    have hget : es[n]? = some es[n] := List.getElem?_eq_getElem hlt
    have hkept := hkeep n hlt
    rw [wAt_succ _ es hlt]
    cases he : es[n] with
    | start p =>
      rw [he] at hget hkept
      obtain ⟨m, hm, hnew⟩ := hstart n p hget
      refine ⟨_, htag.start hm, ?_⟩
      intro t ht
      rw [Function.update_apply]
      split
      · rename_i heq
        exact heq ▸ hnew
      · rename_i hne
        refine hkept t _ (hJ t (lt_of_le_of_ne (Nat.le_of_lt_succ ht) hne)) ?_
        rintro ⟨-, heq⟩
        exact hne heq
    | stop t =>
      rw [he] at hkept
      exact ⟨mode, htag.stop t, fun u hu => hkept u _ (hJ u hu) nofun⟩
    | ext a =>
      rw [he] at hkept
      exact ⟨mode, ⟨htag.task, htag.fresh⟩, fun u hu => hkept u _ (hJ u hu) nofun⟩
    | step t c =>
      rw [he] at hget hkept
      rcases step_cases exec act (wAt exec act (Pool.idle s) es n) t c with ⟨o, k, ht, hnext⟩ | ⟨hno, hnext⟩
      · obtain ⟨m', hm', -, htag'⟩ := htag.step ht c
        refine ⟨_, htag', ?_⟩
        intro u hu
        rw [hnext] at hu
        rw [Function.update_apply]
        split
        · rename_i heq
          rw [heq]
          exact hstep n t c o k _ m' hget ht (hJ t (heq ▸ hu)) hm'
        · rename_i hne
          refine hkept u _ (hJ u hu) ?_
          rintro ⟨⟩
          exact hne rfl
      · rw [hnext]
        refine ⟨mode, htag, fun u hu => hkept u _ (hJ u hu) ?_⟩
        intro h
        cases h with
        | step hop c => exact hno _ _ hop

end Traced

/-! ## The modes of a pool -/

section Led

variable {I : σ → Prop} {R : σ → σ → Prop} {δ : ℕ → M → χ → (o : Op) → σ → M → Prop}
  {Q : ℕ → α → M → Prop} {X : ℕ → ε → M → Prop}

/-- Every program in flight goes along with the mode of its number, as the relation of
its number allows. -/
def Led (exec : χ → (o : Op) → σ → Res o × σ) (I : σ → Prop) (R : σ → σ → Prop)
    (δ : ℕ → M → χ → (o : Op) → σ → M → Prop) (Q : ℕ → α → M → Prop) (X : ℕ → ε → M → Prop)
    (w : Pool Op Res ε α σ) (mode : ℕ → M) : Prop :=
  ∀ t p, w.task t = some p →
    p.Along exec I R (δ t) (fun a m _ => Q t a m) (fun e m _ => X t e m) (mode t) w.st

theorem Led.idle (s : σ) (mode : ℕ → M) :
    Led exec I R δ Q X (Pool.idle s : Pool Op Res ε α σ) mode :=
  fun t p hp => absurd hp (by simp [Pool.idle])

/-- The mode in which a program has ended. -/
theorem Led.ended {w : Pool Op Res ε α σ} {mode : ℕ → M} (h : Led exec I R δ Q X w mode) {t : ℕ}
    {r : Except ε α} (hr : w.result t = some r) :
    match r with
    | .ok a => Q t a (mode t)
    | .error e => X t e (mode t) := by
  obtain ⟨p, hp, hres⟩ := Option.bind_eq_some_iff.1 hr
  have hal := h t p hp
  cases p with
  | ok a =>
    obtain rfl : Except.ok a = r := Option.some.inj hres
    exact hal
  | err e =>
    obtain rfl : Except.error e = r := Option.some.inj hres
    exact hal
  | op o k => exact absurd hres (by simp [Prog.result])

variable (hR : ∀ a b c, R a b → R b c → R a c)
include hR

/-- The others do not touch the modes. -/
theorem Led.moved {w w' : Pool Op Res ε α σ} {mode : ℕ → M} (h : Led exec I R δ Q X w mode)
    (hs : R w.st w'.st) (ht : ∀ t p, w'.task t = some p → w.task t = some p) :
    Led exec I R δ Q X w' mode :=
  fun t p hp => (h t p (ht t p hp)).stable hR (fun _ _ _ _ _ hq => hq) (fun _ _ _ _ _ hx => hx) hs

/-- A program more, along with the mode given to its number. -/
theorem Led.update {w w' : Pool Op Res ε α σ} {mode : ℕ → M} (h : Led exec I R δ Q X w mode)
    (hs : R w.st w'.st) {t : ℕ} {p : Prog Op Res ε α} {m : M}
    (ht : w'.task = Function.update w.task t (some p))
    (hp : p.Along exec I R (δ t) (fun a m _ => Q t a m) (fun e m _ => X t e m) m w'.st) :
    Led exec I R δ Q X w' (Function.update mode t m) := by
  intro u q hq
  rw [ht, Function.update_apply] at hq
  by_cases hu : u = t
  · subst hu
    rw [if_pos rfl] at hq
    obtain rfl : p = q := by simpa using hq
    rw [Function.update_self]
    exact hp
  · rw [if_neg hu] at hq
    rw [Function.update_of_ne hu]
    exact (h u q hq).stable hR (fun _ _ _ _ _ hq => hq) (fun _ _ _ _ _ hx => hx) hs

variable (act)

/-- **What a step does to the modes**: it takes that of its program along `δ`. -/
theorem Led.step {w : Pool Op Res ε α σ} {mode : ℕ → M} (h : Led exec I R δ Q X w mode)
    (hrefl : R w.st w.st) (hI : I w.st) {t : ℕ} {o : Op} {k : Res o → Prog Op Res ε α}
    (ht : w.task t = some (.op o k)) {c : χ} (hs : R w.st (exec c o w.st).2) :
    ∃ m', δ t (mode t) c o w.st m' ∧
      Led exec I R δ Q X (next exec act w (.step t c)) (Function.update mode t m') := by
  obtain ⟨m', hm', hk⟩ := h t _ ht w.st hrefl hI c
  refine ⟨m', hm', ?_⟩
  rw [next_step exec act ht]
  exact h.update hR hs rfl hk

end Led

end Pool

end Yali.Conc
