import Mathlib.Data.List.Nodup
import Yali.Conc.Ghost

/-!
# Linearization points

Each program is to act as one atomic step on an abstract state: `spec t a r a'` says
that the step of program `t` may take `a` to `a'` with outcome `r`. The program takes
this step at one of its operations or at its start, and no other operation of it
changes the abstract state (`Point`). Programs one of whose operations fails may end
without it.

* `Entry`: a step taken, and the event at which it was; `Chain`: steps taken in turn.
* `Linearized`: the steps taken so far, in the order of their events.
* `linearized_run`: every run has them; a program that ended without a failure has taken
  its step, with the outcome of its result.
* `Linearized.before`: a program that ended before another one started took its step first.
-/

namespace Yali.Conc

variable {Op : Type} {Res : Op → Type} {ε α σ χ A τ ρ : Type}

/-! ## Points -/

/-- What a program has done: nothing yet, its step with an outcome, or it has failed. -/
inductive Stage (ρ : Type)
  | waiting
  | served (r : ρ)
  | failed

/-- What an operation does to the abstract state and the stage of its program. -/
inductive Point (spec : τ → ρ → τ → Prop) (clean : Prop) : Stage ρ → τ → τ → Stage ρ → Prop
  | stays (st : Stage ρ) (a : τ) : Point spec clean st a a st
  | serves {a a' : τ} {r : ρ} (h : spec a r a') : Point spec clean .waiting a a' (.served r)
  | fails (h : ¬ clean) (st : Stage ρ) (a : τ) : Point spec clean st a a .failed

/-- The stage in which a program with outcome `r` ends. -/
def Stage.Ended (P : ρ → Prop) (st : Stage ρ) : Prop := st = .failed ∨ ∃ r, st = .served r ∧ P r

/-! ## Histories -/

/-- The step of program `task`, taken at event `time`. -/
structure Entry (ρ : Type) where
  task : ℕ
  outcome : ρ
  time : ℕ

/-- The steps of the entries take `a` to `b`, one after the other. -/
def Chain (spec : ℕ → τ → ρ → τ → Prop) (a : τ) : List (Entry ρ) → τ → Prop
  | [], b => a = b
  | e :: l, b => ∃ a', spec e.task a e.outcome a' ∧ Chain spec a' l b

variable {spec : ℕ → τ → ρ → τ → Prop}

theorem Chain.append {a b c : τ} {l l' : List (Entry ρ)} (h : Chain spec a l b) (h' : Chain spec b l' c) :
    Chain spec a (l ++ l') c := by
  induction l generalizing a with
  | nil =>
    obtain rfl : a = b := h
    exact h'
  | cons e l ih =>
    obtain ⟨a', hstep, hrest⟩ := h
    exact ⟨a', hstep, ih hrest⟩

/-- A chain runs through the state before each of its entries. -/
theorem Chain.split {a b : τ} {l l' : List (Entry ρ)} (h : Chain spec a (l ++ l') b) :
    ∃ c, Chain spec a l c ∧ Chain spec c l' b := by
  induction l generalizing a with
  | nil => exact ⟨a, rfl, h⟩
  | cons e l ih =>
    obtain ⟨a', hstep, hrest⟩ := h
    obtain ⟨c, hl, hl'⟩ := ih hrest
    exact ⟨c, ⟨a', hstep, hl⟩, hl'⟩

namespace Pool

variable (exec : χ → (o : Op) → σ → Res o × σ) (act : A → σ → σ) (abs : σ → τ) (clean : χ → Prop)

/-- The relation of the modes: `abs` changes by the step of the program alone. -/
def LinearStep (spec : ℕ → τ → ρ → τ → Prop) (t : ℕ) (st : Stage ρ) (c : χ) (o : Op) (s : σ)
    (st' : Stage ρ) : Prop :=
  Point (spec t) (clean c) st (abs s) (abs (exec c o s).2) st'

variable (I : σ → Prop) (R : σ → σ → Prop) (agrees : ℕ → Except ε α → ρ → Prop)

/-- Every program in flight is at its stage. -/
abbrev AtStage (spec : ℕ → τ → ρ → τ → Prop) (w : Pool Op Res ε α σ) (stage : ℕ → Stage ρ) : Prop :=
  Led exec I R (LinearStep exec abs clean spec) (fun t a st => st.Ended (agrees t (.ok a)))
    (fun t e st => st.Ended (agrees t (.error e))) w stage

/-- A program that may be started: it has all of its step before it, or takes it at once. -/
def Linear (spec : ℕ → τ → ρ → τ → Prop) (t : ℕ) (p : Prog Op Res ε α) (s : σ) : Prop :=
  ∃ st : Stage ρ, (st = .waiting ∨ ∃ r, st = .served r ∧ spec t (abs s) r (abs s)) ∧
    p.Along exec I R (LinearStep exec abs clean spec t) (fun a st _ => st.Ended (agrees t (.ok a)))
      (fun e st _ => st.Ended (agrees t (.error e))) st s

/-- A failed operation of program `t` is among the first `n` events. -/
def FailedBy (es : List (Event Op Res ε α χ A)) (n t : ℕ) : Prop :=
  ∃ m c, m < n ∧ es[m]? = some (.step t c) ∧ ¬ clean c

/-- The steps taken in the first `n` events, in their order. -/
structure Linearized (spec : ℕ → τ → ρ → τ → Prop) (w : Pool Op Res ε α σ)
    (es : List (Event Op Res ε α χ A)) (n : ℕ) (hist : List (Entry ρ)) (stage : ℕ → Stage ρ) : Prop where
  led : AtStage exec abs clean I R agrees spec (wAt exec act w es n) stage
  moments : ∀ m ≤ n, ∃ l l', hist = l ++ l' ∧ Chain spec (abs w.st) l (abs (wAt exec act w es m).st) ∧
    (m = n → l' = [])
  nodup : (hist.map Entry.task).Nodup
  waiting : ∀ t, stage t = .waiting → t ∉ hist.map Entry.task
  served : ∀ t r, stage t = .served r → ∃ e ∈ hist, e.task = t ∧ e.outcome = r
  failed : ∀ t, stage t = .failed → FailedBy clean es n t
  fresh : ∀ t, (wAt exec act w es n).count ≤ t → stage t = .waiting
  ordered : hist.Pairwise fun e e' => e.time < e'.time
  times : ∀ e ∈ hist, ∃ h : e.time < es.length, e.time < n ∧
    TaskEvent (wAt exec act w es e.time) e.task es[e.time]

variable {exec act abs clean I R agrees}

theorem FailedBy.succ {es : List (Event Op Res ε α χ A)} {n t : ℕ} (h : FailedBy clean es n t) :
    FailedBy clean es (n + 1) t := by
  obtain ⟨m, c, hm, he, hc⟩ := h
  exact ⟨m, c, Nat.lt_succ_of_lt hm, he, hc⟩

namespace Linearized

variable {w : Pool Op Res ε α σ} {es : List (Event Op Res ε α χ A)} {n : ℕ} {hist : List (Entry ρ)}
  {stage : ℕ → Stage ρ}

/-- Nothing has happened. -/
theorem idle (s : σ) (es : List (Event Op Res ε α χ A)) :
    Linearized exec act abs clean I R agrees spec (Pool.idle s) es 0 [] (fun _ => .waiting) where
  led := .idle s _
  moments m hm := by
    obtain rfl := Nat.le_zero.1 hm
    exact ⟨[], [], rfl, rfl, fun _ => rfl⟩
  nodup := List.nodup_nil
  waiting _ _ := List.not_mem_nil
  served t r h := absurd h (by simp)
  failed t h := absurd h (by simp)
  fresh _ _ := rfl
  ordered := .nil
  times e he := absurd he List.not_mem_nil

theorem chain (h : Linearized exec act abs clean I R agrees spec w es n hist stage) :
    Chain spec (abs w.st) hist (abs (wAt exec act w es n).st) := by
  obtain ⟨l, l', rfl, hl, hnil⟩ := h.moments n le_rfl
  rw [hnil rfl, List.append_nil]
  exact hl

/-- The steps of the next event make the history longer. -/
theorem extend (h : Linearized exec act abs clean I R agrees spec w es n hist stage)
    {more : List (Entry ρ)} (hmore : Chain spec (abs w.st) (hist ++ more) (abs (wAt exec act w es (n + 1)).st)) :
    ∀ m ≤ n + 1, ∃ l l', hist ++ more = l ++ l' ∧ Chain spec (abs w.st) l (abs (wAt exec act w es m).st) ∧
      (m = n + 1 → l' = []) := by
  intro m hm
  rcases Nat.lt_or_eq_of_le hm with hlt | rfl
  · obtain ⟨l, l', rfl, hl, -⟩ := h.moments m (Nat.le_of_lt_succ hlt)
    refine ⟨l, l' ++ more, List.append_assoc _ _ _, hl, ?_⟩
    intro heq
    omega
  · exact ⟨_, [], (List.append_nil _).symm, hmore, fun _ => rfl⟩

/-- A program that has taken a step was started. -/
theorem started (h : Linearized exec act abs clean I R agrees spec w es n hist stage) (hw : w.Numbered)
    (hn : n ≤ es.length) {e : Entry ρ} (he : e ∈ hist) :
    e.task < (wAt exec act w es n).count := by
  obtain ⟨hlen, hlt, hev⟩ := h.times e he
  by_contra hge
  have hle := hev.start_le hw hlen hn (Nat.not_lt.1 hge)
  omega

/-- An event without a step: the stages of the programs in flight may change to failed. -/
theorem keep (h : Linearized exec act abs clean I R agrees spec w es n hist stage)
    (hn : n < es.length) {stage' : ℕ → Stage ρ}
    (hled : AtStage exec abs clean I R agrees spec (wAt exec act w es (n + 1)) stage')
    (habs : abs (wAt exec act w es (n + 1)).st = abs (wAt exec act w es n).st)
    (hstage : ∀ t, stage' t = stage t ∨ stage' t = .failed ∧ FailedBy clean es (n + 1) t ∧
      t < (wAt exec act w es n).count) :
    Linearized exec act abs clean I R agrees spec w es (n + 1) hist stage' where
  led := hled
  moments := by
    have hchain := h.chain
    rw [← habs, ← List.append_nil hist] at hchain
    have hext := h.extend hchain
    rwa [List.append_nil] at hext
  nodup := h.nodup
  waiting t ht := by
    rcases hstage t with hs | ⟨hs, -⟩
    · exact h.waiting t (hs ▸ ht)
    · rw [hs] at ht
      exact absurd ht (by simp)
  served t r ht := by
    rcases hstage t with hs | ⟨hs, -⟩
    · exact h.served t r (hs ▸ ht)
    · rw [hs] at ht
      exact absurd ht (by simp)
  failed t ht := by
    rcases hstage t with hs | ⟨-, hf, -⟩
    · exact (h.failed t (hs ▸ ht)).succ
    · exact hf
  fresh t ht := by
    have hcount := count_mono exec act w es (Nat.le_add_right n 1) hn
    rcases hstage t with hs | ⟨-, -, hlt⟩
    · rw [hs]
      exact h.fresh t (le_trans hcount ht)
    · omega
  ordered := h.ordered
  times e he := by
    obtain ⟨hlen, hlt, hev⟩ := h.times e he
    exact ⟨hlen, Nat.lt_succ_of_lt hlt, hev⟩

/-- An event at which program `t` takes its step. -/
theorem add (h : Linearized exec act abs clean I R agrees spec w es n hist stage) (hn : n < es.length)
    {t : ℕ} {r : ρ} (ht : stage t = .waiting)
    (hled : AtStage exec abs clean I R agrees spec (wAt exec act w es (n + 1))
      (Function.update stage t (.served r)))
    (hspec : spec t (abs (wAt exec act w es n).st) r (abs (wAt exec act w es (n + 1)).st))
    (hev : TaskEvent (wAt exec act w es n) t es[n]) (hlt : t < (wAt exec act w es (n + 1)).count) :
    Linearized exec act abs clean I R agrees spec w es (n + 1) (hist ++ [⟨t, r, n⟩])
      (Function.update stage t (.served r)) where
  led := hled
  moments := h.extend (h.chain.append ⟨_, hspec, rfl⟩)
  nodup := by
    rw [List.map_append, List.nodup_append]
    refine ⟨h.nodup, List.nodup_singleton _, ?_⟩
    rintro a ha b hb rfl
    obtain rfl : a = t := by simpa using hb
    exact h.waiting a ht ha
  waiting u hu := by
    rw [Function.update_apply] at hu
    split at hu
    · exact absurd hu (by simp)
    · rename_i hne
      rw [List.map_append, List.mem_append]
      rintro (hmem | hmem)
      · exact h.waiting u hu hmem
      · exact hne (by simpa using hmem)
  served u r' hu := by
    rw [Function.update_apply] at hu
    split at hu
    · rename_i heq
      obtain rfl : r = r' := by simpa using hu
      exact ⟨_, List.mem_append_right _ List.mem_cons_self, heq.symm, rfl⟩
    · obtain ⟨e, he, hrest⟩ := h.served u r' hu
      exact ⟨e, List.mem_append_left _ he, hrest⟩
  failed u hu := by
    rw [Function.update_apply] at hu
    split at hu
    · exact absurd hu (by simp)
    · exact (h.failed u hu).succ
  fresh u hu := by
    have hcount := count_mono exec act w es (Nat.le_add_right n 1) hn
    have hne : u ≠ t := by omega
    rw [Function.update_of_ne hne]
    exact h.fresh u (le_trans hcount hu)
  ordered := by
    rw [List.pairwise_append]
    refine ⟨h.ordered, List.pairwise_singleton _ _, ?_⟩
    intro e he e' he'
    obtain rfl := List.mem_singleton.1 he'
    obtain ⟨-, hlt, -⟩ := h.times e he
    exact hlt
  times e he := by
    rcases List.mem_append.1 he with he | he
    · obtain ⟨hlen, hlt, hev⟩ := h.times e he
      exact ⟨hlen, Nat.lt_succ_of_lt hlt, hev⟩
    · obtain rfl := List.mem_singleton.1 he
      exact ⟨hn, Nat.lt_succ_self n, hev⟩

variable (hR : ∀ a b c, R a b → R b c → R a c)
include hR

/-- A start: the program has its step before it, or takes it. -/
theorem start (h : Linearized exec act abs clean I R agrees spec w es n hist stage) (hn : n < es.length)
    {p : Prog Op Res ε α} (he : es[n] = .start p)
    (hs : R (wAt exec act w es n).st (wAt exec act w es n).st)
    (hp : Linear exec abs clean I R agrees spec (wAt exec act w es n).count p (wAt exec act w es n).st) :
    ∃ hist' stage', Linearized exec act abs clean I R agrees spec w es (n + 1) hist' stage' := by
  obtain ⟨st, hst, hal⟩ := hp
  have hnext : wAt exec act w es (n + 1) = next exec act (wAt exec act w es n) (.start p) := by
    rw [wAt_succ w es hn, he]
  have hstate : (wAt exec act w es (n + 1)).st = (wAt exec act w es n).st := by rw [hnext]; rfl
  have hled : AtStage exec abs clean I R agrees spec (wAt exec act w es (n + 1))
      (Function.update stage (wAt exec act w es n).count st) := by
    refine h.led.update hR (by rw [hstate]; exact hs) ?_ (by rw [hstate]; exact hal)
    rw [hnext]
    rfl
  have hfresh := h.fresh _ (le_refl (wAt exec act w es n).count)
  rcases hst with rfl | ⟨r, rfl, hspec⟩
  · refine ⟨hist, _, h.keep hn hled (congrArg abs hstate) ?_⟩
    intro t
    rw [Function.update_apply]
    split
    · rename_i heq
      rw [heq]
      exact Or.inl hfresh.symm
    · exact Or.inl rfl
  · refine ⟨_, _, h.add hn hfresh hled (by rw [hstate]; exact hspec) ?_ ?_⟩
    · rw [he]
      exact .start p rfl
    · rw [hnext]
      exact Nat.lt_succ_self _

/-- An operation: it leaves the abstract state, takes the step or fails. -/
theorem step (h : Linearized exec act abs clean I R agrees spec w es n hist stage) (hw : w.Numbered)
    (hn : n < es.length) {t : ℕ} {c : χ} (he : es[n] = .step t c) {o : Op}
    {k : Res o → Prog Op Res ε α} (ht : (wAt exec act w es n).task t = some (.op o k))
    (hI : I (wAt exec act w es n).st) (hs : R (wAt exec act w es n).st (wAt exec act w es n).st)
    (hstep : R (wAt exec act w es n).st (wAt exec act w es (n + 1)).st) :
    ∃ hist' stage', Linearized exec act abs clean I R agrees spec w es (n + 1) hist' stage' := by
  have hnext : wAt exec act w es (n + 1) = next exec act (wAt exec act w es n) (.step t c) := by
    rw [wAt_succ w es hn, he]
  have hstate : (wAt exec act w es (n + 1)).st = (exec c o (wAt exec act w es n).st).2 := by
    rw [hnext, next_step exec act ht]
  rw [hstate] at hstep
  obtain ⟨st', hpoint, hled⟩ := h.led.step act hR hs hI ht hstep
  rw [← hnext] at hled
  have hlt : t < (wAt exec act w es n).count := (hw.wAt es n).lt ht
  unfold LinearStep at hpoint
  rw [← hstate] at hpoint
  generalize hst : stage t = st at hpoint
  generalize habs : abs (wAt exec act w es n).st = a at hpoint
  generalize habs' : abs (wAt exec act w es (n + 1)).st = a' at hpoint
  cases hpoint with
  | stays =>
    rw [← hst, Function.update_eq_self] at hled
    exact ⟨hist, stage, h.keep hn hled (habs'.trans habs.symm) fun u => Or.inl rfl⟩
  | @serves _ _ r hspec =>
    refine ⟨_, _, h.add hn hst hled (by rw [habs, habs']; exact hspec) ?_ ?_⟩
    · rw [he]
      exact .step ht c
    · exact lt_of_lt_of_le hlt (count_mono exec act w es (Nat.le_add_right n 1) hn)
  | fails hc =>
    refine ⟨hist, _, h.keep hn hled (habs'.trans habs.symm) ?_⟩
    intro u
    rw [Function.update_apply]
    split
    · rename_i heq
      rw [heq]
      refine Or.inr ⟨rfl, ⟨n, c, Nat.lt_succ_self n, ?_, hc⟩, hlt⟩
      rw [List.getElem?_eq_getElem hn, he]
    · exact Or.inl rfl

end Linearized

/-! ## Runs -/

/-- **Every run is linearized**, if every event keeps `I` and stays within `R`, the
surroundings leave the abstract state and every program started is linear. -/
theorem linearized_run (hR : ∀ a b c, R a b → R b c → R a c) (hrefl : ∀ s, R s s) (s : σ)
    (es : List (Event Op Res ε α χ A)) (hI : ∀ n, I (wAt exec act (.idle s) es n).st)
    (hrel : ∀ n, n < es.length → R (wAt exec act (.idle s) es n).st (wAt exec act (.idle s) es (n + 1)).st)
    (hact : ∀ a s, abs (act a s) = abs s)
    (hstart : ∀ n p, es[n]? = some (.start p) →
      Linear exec abs clean I R agrees spec (wAt exec act (.idle s) es n).count p
        (wAt exec act (.idle s) es n).st) {n : ℕ} (hn : n ≤ es.length) :
    ∃ hist stage, Linearized exec act abs clean I R agrees spec (.idle s) es n hist stage := by
  induction n with
  | zero => exact ⟨_, _, .idle s es⟩
  | succ n ih =>
    have hlt : n < es.length := hn
    obtain ⟨hist, stage, h⟩ := ih hlt.le
    have hget : es[n]? = some es[n] := List.getElem?_eq_getElem hlt
    have hnext : wAt exec act (.idle s) es (n + 1) = next exec act (wAt exec act (.idle s) es n) es[n] :=
      wAt_succ (.idle s) es hlt
    have hmoved := hrel n hlt
    cases he : es[n] with
    | start p => exact h.start hR hlt he (hrefl _) (hstart n p (hget.trans (congrArg some he)))
    | step t c =>
      rcases step_cases exec act (wAt exec act (.idle s) es n) t c with ⟨o, k, ht, -⟩ | ⟨-, hsame⟩
      · exact h.step hR (Numbered.idle s) hlt he ht (hI n) (hrefl _) hmoved
      · -- the program has no operation left
        rw [he, hsame] at hnext
        refine ⟨hist, stage, h.keep hlt ?_ (by rw [hnext]) fun u => Or.inl rfl⟩
        rw [hnext]
        exact h.led
    | stop t =>
      rw [he] at hnext
      have hst : (wAt exec act (.idle s) es (n + 1)).st = (wAt exec act (.idle s) es n).st := by
        rw [hnext]
        rfl
      refine ⟨hist, stage, h.keep hlt (h.led.moved hR hmoved ?_) (congrArg abs hst) fun u => Or.inl rfl⟩
      intro u p hp
      rw [hnext] at hp
      simp only [next, Function.update_apply] at hp
      split at hp
      · exact absurd hp (by simp)
      · exact hp
    | ext a =>
      rw [he] at hnext
      have hst : (wAt exec act (.idle s) es (n + 1)).st = act a (wAt exec act (.idle s) es n).st := by
        rw [hnext]
        rfl
      refine ⟨hist, stage, h.keep hlt (h.led.moved hR hmoved ?_) ?_ fun u => Or.inl rfl⟩
      · intro u p hp
        rw [hnext] at hp
        exact hp
      · rw [hst, hact]

namespace Linearized

variable {w : Pool Op Res ε α σ} {es : List (Event Op Res ε α χ A)} {n : ℕ} {hist : List (Entry ρ)}
  {stage : ℕ → Stage ρ}

/-- **A result is the outcome of a step**, unless an operation failed. -/
theorem answer (h : Linearized exec act abs clean I R agrees spec w es n hist stage) {t : ℕ}
    {r : Except ε α} (hr : (wAt exec act w es n).result t = some r) (hc : ¬ FailedBy clean es n t) :
    ∃ e ∈ hist, e.task = t ∧ agrees t r e.outcome := by
  have hend : (stage t).Ended (agrees t r) := by
    have hended := h.led.ended hr
    cases r <;> exact hended
  rcases hend with hf | ⟨o, ho, hagree⟩
  · exact absurd (h.failed t hf) hc
  · obtain ⟨e, he, htask, hout⟩ := h.served t o ho
    exact ⟨e, he, htask, hout ▸ hagree⟩

/-- **A program that ended before another one started took its step first.** -/
theorem before (h : Linearized exec act abs clean I R agrees spec w es n hist stage) (hw : w.Numbered)
    {m t u : ℕ} (hm : m ≤ es.length) {r : Except ε α} (hr : (wAt exec act w es m).result t = some r)
    (hu : (wAt exec act w es m).count ≤ u) (ht : t ∈ hist.map Entry.task)
    (hu' : u ∈ hist.map Entry.task) : [t, u].Sublist (hist.map Entry.task) := by
  obtain ⟨e, he, rfl⟩ := List.mem_map.1 ht
  obtain ⟨e', he', rfl⟩ := List.mem_map.1 hu'
  obtain ⟨hlen, -, hev⟩ := h.times e he
  obtain ⟨hlen', -, hev'⟩ := h.times e' he'
  have hlt : e.time < e'.time := lt_of_lt_of_le (hev.lt_end hw hlen hr) (hev'.start_le hw hlen' hm hu)
  have hsub : [e, e'].Sublist hist := by
    obtain ⟨i, hi, hgi⟩ := List.mem_iff_getElem.1 he
    obtain ⟨j, hj, hgj⟩ := List.mem_iff_getElem.1 he'
    have hij : i < j := by
      by_contra hge
      rcases Nat.lt_or_eq_of_le (Nat.not_lt.1 hge) with hji | rfl
      · have hback := List.pairwise_iff_getElem.1 h.ordered j i hj hi hji
        rw [hgi, hgj] at hback
        omega
      · rw [hgi] at hgj
        subst hgj
        exact absurd hlt (lt_irrefl _)
    have hpair : [(⟨i, hi⟩ : Fin hist.length), ⟨j, hj⟩].Pairwise (· < ·) := by simpa using hij
    have hmap := List.map_getElem_sublist hpair
    rwa [List.map_cons, List.map_cons, List.map_nil, Fin.getElem_fin, Fin.getElem_fin, hgi, hgj] at hmap
  exact hsub.map Entry.task

end Linearized

end Pool

end Yali.Conc
