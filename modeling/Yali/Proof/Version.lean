import Mathlib.Data.Nat.Count
import Yali.Conc.Ghost
import Yali.Proof.Publish
import Yali.Proof.Stream

/-!
# Snapshot versions

A publication takes its number from the counter and sends its snapshot in two steps.
The versions of the snapshots held, and with them those on every stream, never go
backwards exactly in the runs that store the snapshots in the order in which their
numbers were taken (`versions_ascend_iff`).

* `issued_run`: a snapshot about to be sent has the number its publication took, and
  a publication takes one number.
* `store_ge`: in order, a stored snapshot is not older than the one held.
-/

namespace Yali

open Conc

variable (E : Env)

/-! ## The property -/

/-- The versions of the snapshots held never decrease, so neither do those on a
stream, and the one held is the highest of those stored. -/
structure VersionsAscend (g : Gateway) (es : List Event) : Prop where
  held : ∀ m n, m ≤ n → n ≤ es.length →
    (g.wAt es m).st.tx.value.version ≤ (g.wAt es n).st.tx.value.version
  streams : ∀ d c, ((g.run es).st.dp d).connection = some c →
    (c.sent.map Proto.Snapshot.version).Pairwise (· ≤ ·)
  highest : ∀ snapshot ∈ (g.run es).st.tx.stored,
    snapshot.version ≤ (g.run es).st.tx.value.version

/-- Event `n` is the increment of program `t`. -/
def IncrementsAt (g : Gateway) (es : List Event) (n t : ℕ) : Prop :=
  ∃ c k, es[n]? = some (.step t c) ∧ (g.wAt es n).task t = some (.op .fetchAdd k)

/-- Event `n` is the send of program `t`, which stores `snapshot`. -/
def StoresAt (g : Gateway) (es : List Event) (n t : ℕ) (snapshot : Proto.Snapshot) : Prop :=
  ∃ c k, es[n]? = some (.step t c) ∧ (g.wAt es n).task t = some (.op (.send snapshot) k) ∧
    (g.wAt es n).st.tx.receivers ≠ 0

/-- Event `n` increments the counter. -/
def increments (g : Gateway) (es : List Event) (n : ℕ) : Bool :=
  match es[n]? with
  | some (.step t _) =>
    match (g.wAt es n).task t with
    | some (.op .fetchAdd _) => true
    | _ => false
  | _ => false

/-- The number that an increment at event `n` takes: one more than the increments
before it, in 64 bits. -/
def number (g : Gateway) (es : List Event) (n : ℕ) : ℕ :=
  (Nat.count (fun a => increments g es a = true) n + 1) % 2 ^ 64

/-- Snapshots are stored in the order of the numbers that their publications took. -/
def InOrder (g : Gateway) (es : List Event) : Prop :=
  ∀ m n t u s s' a b, m < n → StoresAt g es m t s → StoresAt g es n u s' →
    IncrementsAt g es a t → IncrementsAt g es b u → number g es a ≤ number g es b

/-- A process that has just started over its tables. -/
abbrev Gateway.launched (pool : Tables) : Gateway := .idle (.start ⟨pool, .new⟩)

/-- A request, or a publication alone. -/
def Publisher (p : Handler) : Prop :=
  (∃ req, p = handle E req) ∨ ∃ reply, p = publishAndReply E reply

variable {E}

/-! ## The counter -/

/-- The counter after `n` events. -/
def counter (g : Gateway) (es : List Event) (n : ℕ) : UInt64 := (g.wAt es n).st.cp.configState.version

theorem IncrementsAt.lt {g : Gateway} {es : List Event} {n t : ℕ} (h : IncrementsAt g es n t) :
    n < es.length := by
  obtain ⟨c, k, he, -⟩ := h
  exact (List.getElem?_eq_some_iff.1 he).1

theorem StoresAt.lt {g : Gateway} {es : List Event} {n t : ℕ} {s : Proto.Snapshot}
    (h : StoresAt g es n t s) : n < es.length := by
  obtain ⟨c, k, he, -, -⟩ := h
  exact (List.getElem?_eq_some_iff.1 he).1

theorem not_increments {g : Gateway} {es : List Event} {n t : ℕ} {e : Event} (h : es[n]? = some e)
    (he : ∀ c, e ≠ .step t c) : ¬ IncrementsAt g es n t := by
  intro h
  obtain ⟨c, k, he', -⟩ := h
  rw [h] at he'
  exact he c (Option.some.inj he')

/-- Program `t` does not increment in a step of another kind. -/
theorem not_increments_op {g : Gateway} {es : List Event} {n t : ℕ}
    (h : ∀ k, (g.wAt es n).task t ≠ some (.op .fetchAdd k)) : ¬ IncrementsAt g es n t := by
  intro h
  obtain ⟨c, k, -, ht⟩ := h
  exact h k ht

/-- Nobody increments in such a step. -/
theorem not_increments_step {g : Gateway} {es : List Event} {n u : ℕ} {c : Option SqlxError}
    (hget : es[n]? = some (.step u c)) (hno : ∀ k, (g.wAt es n).task u ≠ some (.op .fetchAdd k)) (t : ℕ) :
    ¬ IncrementsAt g es n t := by
  by_cases htu : u = t
  · subst htu
    exact not_increments_op hno
  · exact not_increments hget (by simpa using htu)

theorem increments_iff {g : Gateway} {es : List Event} {n : ℕ} :
    increments g es n = true ↔ ∃ t, IncrementsAt g es n t := by
  constructor
  · intro h
    unfold increments at h
    split at h
    · rename_i t c he
      split at h
      · rename_i k ht
        exact ⟨t, c, k, he, ht⟩
      · exact absurd h Bool.false_ne_true
    · exact absurd h Bool.false_ne_true
  · intro h
    obtain ⟨t, c, k, he, ht⟩ := h
    unfold increments
    simp only [he, ht]

theorem exec_version {o : Op} (ho : o ≠ .fetchAdd) (c : Option SqlxError) (w : World) :
    (World.exec c o w).2.cp.configState.version = w.cp.configState.version := by
  cases o with
  | fetchAdd => exact absurd rfl ho
  | send a => rfl
  | _ => cases c <;> rfl

/-- **What an event does to the counter.** -/
theorem counter_succ (g : Gateway) (es : List Event) {n : ℕ} (hn : n < es.length) :
    ((∃ t, IncrementsAt g es n t) ∧ counter g es (n + 1) = counter g es n + 1) ∨
      ((∀ t, ¬ IncrementsAt g es n t) ∧ counter g es (n + 1) = counter g es n) := by
  have hget : es[n]? = some es[n] := List.getElem?_eq_getElem hn
  unfold counter
  rw [Gateway.wAt_succ g es hn]
  cases he : es[n] with
  | start p =>
    rw [he] at hget
    have hno : ∀ u, ¬ IncrementsAt g es n u := fun u => not_increments hget (by simp)
    exact Or.inr ⟨hno, rfl⟩
  | stop t =>
    rw [he] at hget
    have hno : ∀ u, ¬ IncrementsAt g es n u := fun u => not_increments hget (by simp)
    exact Or.inr ⟨hno, rfl⟩
  | ext a =>
    rw [he] at hget
    have hno : ∀ u, ¬ IncrementsAt g es n u := fun u => not_increments hget (by simp)
    exact Or.inr ⟨hno, act_version _ a⟩
  | step t c =>
    rw [he] at hget
    rcases Gateway.step_cases (g.wAt es n) t c with ⟨o, k, ht, hnext⟩ | ⟨hno, hnext⟩
    · rw [hnext]
      by_cases ho : o = .fetchAdd
      · subst ho
        have hinc : IncrementsAt g es n t := ⟨c, k, hget, ht⟩
        exact Or.inl ⟨⟨t, hinc⟩, rfl⟩
      · refine Or.inr ⟨not_increments_step hget fun k' hk' => ?_, exec_version ho c _⟩
        rw [ht] at hk'
        cases hk'
        exact ho rfl
    · rw [hnext]
      exact Or.inr ⟨not_increments_step hget (hno _), rfl⟩

/-- The counter is the number of increments, in 64 bits. -/
theorem counter_eq {g : Gateway} {es : List Event} (h0 : counter g es 0 = 0) {n : ℕ}
    (hn : n ≤ es.length) :
    counter g es n = UInt64.ofNat (Nat.count (fun a => increments g es a = true) n) := by
  induction n with
  | zero => exact h0
  | succ n ih =>
    have hih := ih (Nat.le_of_succ_le hn)
    rcases counter_succ g es hn with ⟨hinc, hs⟩ | ⟨hno, hs⟩
    · rw [hs, hih, Nat.count_succ, if_pos (increments_iff.2 hinc), UInt64.ofNat_add]
      rfl
    · have hfalse : ¬ increments g es n = true := fun hi => by
        obtain ⟨t, ht⟩ := increments_iff.1 hi
        exact hno t ht
      rw [hs, hih, Nat.count_succ, if_neg hfalse, Nat.add_zero]

/-- What an increment adds to. -/
theorem counter_number {g : Gateway} {es : List Event} (h0 : counter g es 0 = 0) {n : ℕ}
    (hn : n ≤ es.length) : (counter g es n + 1).toNat = number g es n := by
  have hadd : ∀ a : ℕ, UInt64.ofNat a + 1 = UInt64.ofNat (a + 1) :=
    fun a => (UInt64.ofNat_add a 1).symm
  rw [counter_eq h0 hn, hadd]
  exact UInt64.toNat_ofNat' ..

/-! ## The number of a publication -/

/-- What the mode of a program says of the numbers it took in the first `n` events. -/
def Issued (g : Gateway) (es : List Event) (n t : ℕ) : Mode → Prop
  | .sends snapshot => ∃ a, a < n ∧ IncrementsAt g es a t ∧
      snapshot.version = counter g es a + 1 ∧ ∀ a', a' < n → IncrementsAt g es a' t → a' = a
  | .finished => ∀ a a', a < n → a' < n → IncrementsAt g es a t → IncrementsAt g es a' t → a = a'
  | _ => ∀ a, a < n → ¬ IncrementsAt g es a t

/-- An event that is no increment of the program. -/
theorem Issued.succ {g : Gateway} {es : List Event} {n t : ℕ} {m : Mode} (h : Issued g es n t m)
    (hno : ¬ IncrementsAt g es n t) : Issued g es (n + 1) t m := by
  have hlt : ∀ a, a < n + 1 → IncrementsAt g es a t → a < n := by
    intro a ha hinc
    rcases Nat.lt_or_eq_of_le (Nat.le_of_lt_succ ha) with h | rfl
    · exact h
    · exact absurd hinc hno
  cases m with
  | sends snapshot =>
    obtain ⟨a, ha, hinc, hv, huniq⟩ := h
    refine ⟨a, by omega, hinc, hv, ?_⟩
    intro a' ha' hinc'
    exact huniq a' (hlt a' ha' hinc') hinc'
  | finished =>
    intro a a' ha ha' hinc hinc'
    exact h a a' (hlt a ha hinc) (hlt a' ha' hinc') hinc hinc'
  | working => exact fun a ha hinc => h a (hlt a ha hinc) hinc
  | owes => exact fun a ha hinc => h a (hlt a ha hinc) hinc
  | carries routes => exact fun a ha hinc => h a (hlt a ha hinc) hinc

/-- One operation of a program: it takes its number when it increments. -/
theorem Issued.phase {g : Gateway} {es : List Event} {n t : ℕ} {m m' : Mode} (h : Issued g es n t m)
    {c : Option SqlxError} {o : Op} {k : o.Res → Handler} (he : es[n]? = some (.step t c))
    (ht : (g.wAt es n).task t = some (.op o k))
    (hp : Phase E m o (World.exec c o (g.wAt es n).st).1 m') : Issued g es (n + 1) t m' := by
  have hno : o ≠ .fetchAdd → ¬ IncrementsAt g es n t := by
    refine fun ho => not_increments_op fun k' hk' => ?_
    rw [ht] at hk'
    cases hk'
    exact ho rfl
  generalize hres : (World.exec c o (g.wAt es n).st).1 = r at hp
  cases hp with
  | read ho r =>
    have hne : o ≠ .fetchAdd := by
      rintro rfl
      exact absurd ho Bool.false_ne_true
    exact Issued.succ (m := .working) h (hno hne)
  | wrote hw r hwr =>
    have hne : o ≠ .fetchAdd := by
      rintro rfl
      exact absurd hw Bool.false_ne_true
    exact Issued.succ (m := .owes) h (hno hne)
  | refused hw r hwr =>
    have hne : o ≠ .fetchAdd := by
      rintro rfl
      exact absurd hw Bool.false_ne_true
    refine Issued.succ (m := .finished) ?_ (hno hne)
    intro a a' ha _ hinc _
    exact absurd hinc (h a ha)
  | listed rows => exact Issued.succ (m := .carries _) h (hno (by simp))
  | unlisted e =>
    refine Issued.succ (m := .finished) ?_ (hno (by simp))
    intro a a' ha _ hinc _
    exact absurd hinc (h a ha)
  | counted routes version =>
    -- the number is the counter's, one more
    have hinc : IncrementsAt g es n t := ⟨c, k, he, ht⟩
    obtain rfl : counter g es n = version := hres
    refine ⟨n, Nat.lt_succ_self n, hinc, rfl, ?_⟩
    intro a' ha' hinc'
    rcases Nat.lt_or_eq_of_le (Nat.le_of_lt_succ ha') with hlt | rfl
    · exact absurd hinc' (h a' hlt)
    · rfl
  | sent snapshot =>
    refine Issued.succ (m := .finished) ?_ (hno (by simp))
    obtain ⟨a₀, -, -, -, huniq⟩ := h
    intro a a' ha ha' hinc hinc'
    have heq : a = a₀ := huniq a ha hinc
    have heq' : a' = a₀ := huniq a' ha' hinc'
    exact heq.trans heq'.symm

theorem publisher_follows {p : Handler} (h : Publisher E p) :
    ∃ m, Publishing E p m ∧ (m = .working ∨ m = .owes) := by
  rcases h with ⟨req, rfl⟩ | ⟨reply, rfl⟩
  · exact ⟨.working, handle_follows req, .inl rfl⟩
  · exact ⟨.owes, publishAndReply_follows reply, .inr rfl⟩

/-- An increment is an operation of its program. -/
theorem IncrementsAt.taskEvent {g : Gateway} {es : List Event} {n t : ℕ} (h : IncrementsAt g es n t) :
    ∃ hn : n < es.length, Pool.TaskEvent (g.wAt es n) t es[n] := by
  obtain ⟨c, k, he, ht⟩ := h
  obtain ⟨hn, hget⟩ := List.getElem?_eq_some_iff.1 he
  exact ⟨hn, hget ▸ .step ht c⟩

/-- **Along a run** every program has taken the numbers that its mode says. -/
theorem issued_run {w : World} {es : List Event} (hes : ∀ p, .start p ∈ es → Publisher E p) {n : ℕ}
    (hn : n ≤ es.length) :
    ∃ mode : ℕ → Mode, Pool.Tagged (Phase E) Replied Failed (Gateway.wAt (.idle w) es n) mode ∧
      ∀ t < (Gateway.wAt (.idle w) es n).count, Issued (.idle w) es n t (mode t) := by
  refine Pool.traced_run w (J := Issued (.idle w) es) ?_ ?_ ?_ hn
  · intro n p he
    obtain ⟨m, hm, hmode⟩ := publisher_follows (hes p (List.mem_of_getElem? he))
    -- a program that starts has taken nothing
    have hnone : ∀ a, a < n + 1 → ¬ IncrementsAt (.idle w) es a (Gateway.wAt (.idle w) es n).count := by
      rintro a ha ⟨c, k, hea, ht⟩
      exact Pool.no_op_before_start (.idle w) he rfl ha hea _ _ ht
    refine ⟨m, hm, ?_⟩
    rcases hmode with rfl | rfl
    · exact hnone
    · exact hnone
  · intro n hn t m h hno
    exact h.succ fun hinc => hno hinc.taskEvent.2
  · intro n t c o k m m' he ht h hphase
    exact h.phase he ht hphase

/-- A program increments once. -/
theorem increments_once {w : World} {es : List Event} (hes : ∀ p, .start p ∈ es → Publisher E p)
    {t a a' : ℕ} (h : IncrementsAt (.idle w) es a t) (h' : IncrementsAt (.idle w) es a' t) : a = a' := by
  obtain ⟨mode, -, hissued⟩ := issued_run hes (w := w) le_rfl
  have hlt : t < (Gateway.wAt (.idle w) es es.length).count := by
    obtain ⟨c, k, -, ht⟩ := id h
    exact lt_of_lt_of_le ((Pool.Numbered.idle w).wAt es a |>.lt ht)
      (Pool.count_mono World.exec (fun a w => World.act w a) (.idle w) es h.lt.le le_rfl)
  have hm := hissued t hlt
  cases hmode : mode t with
  | sends snapshot =>
    rw [hmode] at hm
    obtain ⟨a₀, -, -, -, huniq⟩ := hm
    have heq : a = a₀ := huniq a h.lt h
    have heq' : a' = a₀ := huniq a' h'.lt h'
    exact heq.trans heq'.symm
  | finished => rw [hmode] at hm; exact hm a a' h.lt h'.lt h h'
  | working => rw [hmode] at hm; exact absurd h (hm a h.lt)
  | owes => rw [hmode] at hm; exact absurd h (hm a h.lt)
  | carries routes => rw [hmode] at hm; exact absurd h (hm a h.lt)

/-- **A snapshot stored has the number its publication took.** -/
theorem StoresAt.version {pool : Tables} {es : List Event} (hes : ∀ p, .start p ∈ es → Publisher E p)
    {n t : ℕ} {snapshot : Proto.Snapshot}
    (h : StoresAt (.launched pool) es n t snapshot) :
    ∃ a, IncrementsAt (.launched pool) es a t ∧
      snapshot.version.toNat = number (.launched pool) es a := by
  have hn : n < es.length := h.lt
  obtain ⟨c, k, -, ht, -⟩ := h
  obtain ⟨mode, htag, hissued⟩ : ∃ mode : ℕ → Mode,
      Pool.Tagged (Phase E) Replied Failed ((Gateway.launched pool).wAt es n) mode ∧
        ∀ t < ((Gateway.launched pool).wAt es n).count, Issued (.launched pool) es n t (mode t) :=
    issued_run hes hn.le
  have hm := hissued t (htag.lt ht)
  rw [Publishing.of_send (htag.task t _ ht)] at hm
  obtain ⟨a, ha, hinc, hv, -⟩ := hm
  exact ⟨a, hinc, by rw [hv, counter_number rfl (by omega)]⟩

/-! ## What is stored -/

/-- **What an event does to the channel**: it stores a snapshot, or leaves what is
stored. -/
theorem stored_succ (g : Gateway) (es : List Event) {n : ℕ} (hn : n < es.length) :
    (g.wAt es (n + 1)).st.tx.init = (g.wAt es n).st.tx.init ∧
      ((∃ t s, StoresAt g es n t s ∧
          (g.wAt es (n + 1)).st.tx.stored = (g.wAt es n).st.tx.stored ++ [s]) ∨
        (g.wAt es (n + 1)).st.tx.stored = (g.wAt es n).st.tx.stored) := by
  have hget : es[n]? = some es[n] := List.getElem?_eq_getElem hn
  rw [Gateway.wAt_succ g es hn]
  cases he : es[n] with
  | start p => exact ⟨rfl, Or.inr rfl⟩
  | stop t => exact ⟨rfl, Or.inr rfl⟩
  | ext a =>
    obtain ⟨r, hr⟩ := act_tx (g.wAt es n).st a
    have hinit := congrArg Channel.init hr
    have hstored := congrArg Channel.stored hr
    exact ⟨hinit, Or.inr hstored⟩
  | step t c =>
    rw [he] at hget
    rcases Gateway.step_cases (g.wAt es n) t c with ⟨o, k, ht, hnext⟩ | ⟨-, hnext⟩
    · rw [hnext]
      cases o with
      | send s =>
        refine ⟨Channel.send_init s _, ?_⟩
        by_cases hr : (g.wAt es n).st.tx.receivers = 0
        · exact Or.inr (congrArg Channel.stored (Channel.send_of_none hr))
        · have hstores : StoresAt g es n t s := ⟨c, k, hget, ht, hr⟩
          exact Or.inl ⟨t, s, hstores, congrArg Channel.stored (Channel.send_of_some hr)⟩
      | fetchAdd => exact ⟨rfl, Or.inr rfl⟩
      | _ => cases c <;> exact ⟨rfl, Or.inr rfl⟩
    · rw [hnext]
      exact ⟨rfl, Or.inr rfl⟩

theorem init_version (pool : Tables) (es : List Event) {n : ℕ} (hn : n ≤ es.length) :
    (Gateway.wAt (.launched pool) es n).st.tx.init = ⟨0, []⟩ := by
  induction n with
  | zero => rfl
  | succ n ih => rw [(stored_succ _ es hn).1]; exact ih (Nat.le_of_succ_le hn)

/-- What the channel has stored was stored by an event. -/
theorem stored_at {w : World} (hw : w.tx.stored = []) {es : List Event} {n : ℕ} (hn : n ≤ es.length)
    {s : Proto.Snapshot} (hs : s ∈ (Gateway.wAt (.idle w) es n).st.tx.stored) :
    ∃ m t, m < n ∧ StoresAt (.idle w) es m t s := by
  induction n with
  | zero =>
    rw [Gateway.wAt_zero, show (Pool.idle w : Gateway).st = w from rfl, hw] at hs
    exact absurd hs (by simp)
  | succ n ih =>
    rcases (stored_succ (.idle w) es hn).2 with ⟨t, s', hst, heq⟩ | heq
    · rw [heq, List.mem_append, List.mem_singleton] at hs
      rcases hs with hs | rfl
      · obtain ⟨m, u, hm, hu⟩ := ih (Nat.le_of_succ_le hn) hs
        exact ⟨m, u, Nat.lt_succ_of_lt hm, hu⟩
      · exact ⟨n, t, Nat.lt_succ_self n, hst⟩
    · rw [heq] at hs
      obtain ⟨m, u, hm, hu⟩ := ih (Nat.le_of_succ_le hn) hs
      exact ⟨m, u, Nat.lt_succ_of_lt hm, hu⟩

/-- A send that stores. -/
theorem StoresAt.stored {g : Gateway} {es : List Event} {n t : ℕ} {s : Proto.Snapshot}
    (h : StoresAt g es n t s) :
    (g.wAt es (n + 1)).st.tx.stored = (g.wAt es n).st.tx.stored ++ [s] := by
  obtain ⟨c, k, he, ht, hr⟩ := h
  obtain ⟨hn, hget⟩ := List.getElem?_eq_some_iff.1 he
  rw [Gateway.wAt_succ g es hn, hget, Gateway.next_step ht]
  exact congrArg Channel.stored (Channel.send_of_some hr)

/-- The value held after it. -/
theorem StoresAt.value {g : Gateway} {es : List Event} {n t : ℕ} {s : Proto.Snapshot}
    (h : StoresAt g es n t s) : (g.wAt es (n + 1)).st.tx.value = s := by
  unfold Channel.value
  rw [h.stored]
  simp

/-! ## The order of the versions -/

/-- The values held by a channel, in the order of their versions. -/
def Ascending (ch : Channel Proto.Snapshot) : Prop :=
  (ch.init :: ch.stored).Pairwise fun s s' => s.version ≤ s'.version

theorem Ascending.past {ch : Channel Proto.Snapshot} (h : Ascending ch) {m n : ℕ} (hmn : m ≤ n)
    (hn : n ≤ ch.version) : (ch.past m).version ≤ (ch.past n).version := by
  have hlen : (ch.init :: ch.stored).length = ch.version + 1 := rfl
  rcases Nat.lt_or_eq_of_le hmn with hlt | rfl
  · have hle := List.pairwise_iff_getElem.1 h m n (by omega) (by omega) hlt
    rw [Channel.past_eq_getElem ch (by omega), Channel.past_eq_getElem ch (by omega)]
    exact hle
  · exact UInt64.le_refl _

/-- The value held is the newest. -/
theorem Ascending.value {ch : Channel Proto.Snapshot} (h : Ascending ch) {s : Proto.Snapshot}
    (hs : s ∈ ch.init :: ch.stored) : s.version ≤ ch.value.version := by
  obtain ⟨m, hm, rfl⟩ := List.mem_iff_getElem.1 hs
  have hle : m ≤ ch.version := Nat.le_of_lt_succ hm
  have hpast := h.past hle le_rfl
  rw [Channel.past_version] at hpast
  rwa [Channel.past_eq_getElem ch hm] at hpast

section Order

variable {pool : Tables} {es : List Event} (hes : ∀ p, .start p ∈ es → Publisher E p)
  (hord : InOrder (.launched pool) es)
include hes hord

/-- **In order, a stored snapshot is not older than those before it.** -/
theorem store_ge {n u : ℕ} {s s' : Proto.Snapshot}
    (hst : StoresAt (.launched pool) es n u s')
    (hs : s ∈ (Gateway.wAt (.launched pool) es n).st.tx.init ::
      (Gateway.wAt (.launched pool) es n).st.tx.stored) : s.version ≤ s'.version := by
  have hn : n ≤ es.length := hst.lt.le
  rcases List.mem_cons.1 hs with rfl | hs
  · -- the first value has version 0
    rw [init_version pool es hn]
    exact UInt64.zero_le
  · obtain ⟨m, t, hm, hstm⟩ := stored_at rfl hn hs
    obtain ⟨a, ha, hva⟩ := hstm.version hes
    obtain ⟨b, hb, hvb⟩ := hst.version hes
    rw [UInt64.le_iff_toNat_le, hva, hvb]
    exact hord m n t u s s' a b hm hstm hst ha hb

/-- Along the run the channel ascends. -/
theorem ascending_run {n : ℕ} (hn : n ≤ es.length) :
    Ascending (Gateway.wAt (.launched pool) es n).st.tx := by
  induction n with
  | zero => exact List.pairwise_singleton _ _
  | succ n ih =>
    have hasc := ih (Nat.le_of_succ_le hn)
    obtain ⟨hinit, ⟨t, s, hst, heq⟩ | heq⟩ := stored_succ (.launched pool) es hn
    · unfold Ascending
      rw [hinit, heq, ← List.cons_append, List.pairwise_append]
      refine ⟨hasc, List.pairwise_singleton _ _, ?_⟩
      intro s' hs' s'' hs''
      obtain rfl := List.mem_singleton.1 hs''
      exact store_ge hes hord hst hs'
    · unfold Ascending
      rw [hinit, heq]
      exact hasc

/-- One event does not take the version held back. -/
theorem held_succ {n : ℕ} (hn : n < es.length) :
    (Gateway.wAt (.launched pool) es n).st.tx.value.version ≤
      (Gateway.wAt (.launched pool) es (n + 1)).st.tx.value.version := by
  have hasc := ascending_run hes hord hn
  refine hasc.value ?_
  obtain ⟨hinit, hstored⟩ := stored_succ (.launched pool) es hn
  have hmem : (Gateway.wAt (.launched pool) es n).st.tx.value ∈
      (Gateway.wAt (.launched pool) es n).st.tx.init ::
        (Gateway.wAt (.launched pool) es n).st.tx.stored := Channel.value_mem _
  rw [hinit]
  rcases hstored with ⟨t, s, -, heq⟩ | heq
  · rw [heq, ← List.cons_append]
    exact List.mem_append_left _ hmem
  · rw [heq]
    exact hmem

end Order

/-- **Versions ascend exactly in the runs that store the snapshots in the order of
their numbers**: any number of requests and publications, any interleaving, with
connections that come and go, statements that fail and programs that stop. -/
theorem versions_ascend_iff (pool : Tables) (es : List Event) (hes : ∀ p, .start p ∈ es → Publisher E p) :
    VersionsAscend (.launched pool) es ↔ InOrder (.launched pool) es := by
  constructor
  · -- right after a store the version held is the number taken
    intro h m n t u s s' a b hmn hm hn ha hb
    obtain ⟨a', ha', hva⟩ := hm.version hes
    obtain ⟨b', hb', hvb⟩ := hn.version hes
    obtain rfl := increments_once hes ha ha'
    obtain rfl := increments_once hes hb hb'
    have hle := h.held (m + 1) (n + 1) (by omega) hn.lt
    rw [hm.value, hn.value, UInt64.le_iff_toNat_le] at hle
    rwa [← hva, ← hvb]
  · intro h
    have hasc := ascending_run hes h le_rfl
    rw [Gateway.wAt_length] at hasc
    refine ⟨?_, ?_, ?_⟩
    · intro m n hmn hn
      induction n, hmn using Nat.le_induction with
      | base => exact UInt64.le_refl _
      | succ n hmn ih =>
        have hstep := held_succ hes h hn
        exact UInt64.le_trans (ih (by omega)) hstep
    · intro d c hc
      have hlink := ((dpOk_run ⟨pool, .new⟩ es) d).2 c hc
      rw [List.pairwise_map]
      exact hlink.pairwise fun m n hmn hn => hasc.past hmn hn
    · intro s hs
      exact hasc.value (List.mem_cons_of_mem _ hs)

/-- A data plane connects, two publications read, take their numbers and send, the
first in the order of sending being `a`. -/
def Sample.publications (a b : ℕ) : List Event :=
  [.ext (.subscribe 0), .start (publishAndReply .plain .noContent), .start (publishAndReply .plain .noContent),
    .step 0 none, .step 0 none, .step 1 none, .step 1 none, .step a none, .step b none]

theorem Sample.publications_publish {a b : ℕ} (p : Handler) (hp : .start p ∈ Sample.publications a b) :
    Publisher .plain p := by
  right
  refine ⟨.noContent, ?_⟩
  simpa [Sample.publications] using hp

theorem Sample.publications_stores {n t : ℕ} {s : Proto.Snapshot}
    (h : StoresAt (.launched ⟨[], []⟩) (publications 0 1) n t s) : n = 7 ∧ t = 0 ∨ n = 8 ∧ t = 1 := by
  obtain ⟨c, k, he, ht, -⟩ := h
  match n with
  | 0 | 1 | 2 => exact absurd he (by simp [publications])
  | 3 | 4 | 5 | 6 =>
    obtain ⟨rfl, -⟩ := Conc.Event.step.inj (Option.some.inj he)
    cases ht
  | 7 | 8 =>
    obtain ⟨rfl, -⟩ := Conc.Event.step.inj (Option.some.inj he)
    decide
  | n + 9 => exact absurd he (by simp [publications])

theorem Sample.publications_increment {n t : ℕ}
    (h : IncrementsAt (.launched ⟨[], []⟩) (publications 0 1) n t) : n = 4 ∧ t = 0 ∨ n = 6 ∧ t = 1 := by
  obtain ⟨c, k, he, ht⟩ := h
  match n with
  | 0 | 1 | 2 => exact absurd he (by simp [publications])
  | 3 | 5 | 7 | 8 =>
    obtain ⟨rfl, -⟩ := Conc.Event.step.inj (Option.some.inj he)
    cases ht
  | 4 | 6 =>
    obtain ⟨rfl, -⟩ := Conc.Event.step.inj (Option.some.inj he)
    decide
  | n + 9 => exact absurd he (by simp [publications])

/-- The publications send in the order in which they have taken their numbers. -/
theorem versions_ascend_iff_plain :
    InOrder (.launched ⟨[], []⟩) (Sample.publications 0 1) ∧
      VersionsAscend (.launched ⟨[], []⟩) (Sample.publications 0 1) := by
  have horder : InOrder (.launched ⟨[], []⟩) (Sample.publications 0 1) := by
    intro m n t u s s' a b hmn hm hn ha hb
    obtain ⟨rfl, rfl⟩ | ⟨rfl, rfl⟩ := Sample.publications_stores hm
    · obtain ⟨rfl, -⟩ | ⟨-, heq⟩ := Sample.publications_increment ha
      · obtain ⟨rfl, -⟩ | ⟨rfl, -⟩ := Sample.publications_increment hb <;> decide
      · exact absurd heq (by decide)
    · obtain ⟨rfl, -⟩ | ⟨rfl, -⟩ := Sample.publications_stores hn <;> omega
  exact ⟨horder, (versions_ascend_iff ⟨[], []⟩ (Sample.publications 0 1) Sample.publications_publish).2 horder⟩

/-- The publication that read first sends last: the version held goes from 2 to 1. -/
theorem late_send_goes_back : ¬ VersionsAscend (.launched ⟨[], []⟩) (Sample.publications 1 0) := by
  intro h
  have hle : (2 : UInt64) ≤ 1 := h.held 8 9 (by decide) (by decide)
  exact absurd hle (by decide)

/-! ## Short of 2 ^ 64 events -/

section Short

variable {g : Gateway} {es : List Event} (hlen : es.length < 2 ^ 64)
include hlen

/-- The counter does not wrap. -/
theorem number_eq {a : ℕ} (ha : a < es.length) :
    number g es a = Nat.count (fun a => increments g es a = true) a + 1 := by
  have hle := Nat.count_le (p := fun a => increments g es a = true) (n := a)
  exact Nat.mod_eq_of_lt (by omega)

theorem number_le_iff {a b t u : ℕ} (ha : IncrementsAt g es a t) (hb : IncrementsAt g es b u) :
    number g es a ≤ number g es b ↔ a ≤ b := by
  rw [number_eq hlen ha.lt, number_eq hlen hb.lt]
  constructor
  · intro h
    by_contra hab
    have hlt := Nat.count_strict_mono (p := fun a => increments g es a = true)
      (increments_iff.2 ⟨u, hb⟩) (Nat.lt_of_not_le hab)
    omega
  · intro h
    have hmono := Nat.count_monotone (fun a => increments g es a = true) h
    omega

/-- The order of the numbers is that of the increments. -/
theorem inOrder_iff :
    InOrder g es ↔ ∀ m n t u s s' a b, m < n → StoresAt g es m t s → StoresAt g es n u s' →
      IncrementsAt g es a t → IncrementsAt g es b u → a ≤ b := by
  constructor
  · intro h m n t u s s' a b hmn hm hn ha hb
    exact (number_le_iff hlen ha hb).1 (h m n t u s s' a b hmn hm hn ha hb)
  · intro h m n t u s s' a b hmn hm hn ha hb
    exact (number_le_iff hlen ha hb).2 (h m n t u s s' a b hmn hm hn ha hb)

end Short

end Yali
