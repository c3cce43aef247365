import Mathlib.Data.List.Basic
import Mathlib.Data.Nat.Basic
import Mathlib.Tactic.Common

/-!
# Watch channels

A watch channel holds one value. `send` stores a value only if a receiver
exists; `subscribe` makes a receiver; dropping one lowers the count. The channel
keeps the values stored so far, so its version is their number and the value held
is the last.

A `WatchStream` yields the value held at its first poll, and after that the value
held whenever the version has moved since it last yielded.

* `Upto ch vs hi`: the values `vs` were read from `ch` in order, each at a version
  at most `hi`. Sending keeps it (`Upto.send`), reading the channel extends it
  (`Upto.read`).
* `poll_some`, `poll_none`: what a poll reads, and what it means that it yields
  nothing.
-/

namespace Yali.Conc

variable {α : Type}

/-- A watch channel: its first value, the values stored by `send`, oldest first,
and the number of receivers. -/
structure Channel (α : Type) where
  init : α
  stored : List α
  receivers : ℕ

namespace Channel

def new (a : α) : Channel α := ⟨a, [], 0⟩

/-- The value held. -/
def value (ch : Channel α) : α := ch.stored.getLastD ch.init

/-- The number of values stored. -/
def version (ch : Channel α) : ℕ := ch.stored.length

/-- The value held at version `n`. -/
def past (ch : Channel α) (n : ℕ) : α := (ch.init :: ch.stored).getD n ch.init

def send (a : α) (ch : Channel α) : Channel α :=
  if ch.receivers = 0 then ch else { ch with stored := ch.stored ++ [a] }

/-- `Sender::subscribe`: a receiver that has seen the value held. -/
def subscribe (ch : Channel α) : ℕ × Channel α :=
  (ch.version, { ch with receivers := ch.receivers + 1 })

/-- A receiver is dropped. -/
def unsubscribe (ch : Channel α) : Channel α := { ch with receivers := ch.receivers - 1 }

theorem send_of_none {a : α} {ch : Channel α} (h : ch.receivers = 0) : ch.send a = ch := if_pos h

theorem send_of_some {a : α} {ch : Channel α} (h : ch.receivers ≠ 0) :
    ch.send a = { ch with stored := ch.stored ++ [a] } := if_neg h

@[simp] theorem send_init (a : α) (ch : Channel α) : (ch.send a).init = ch.init := by
  unfold send; split <;> rfl

theorem send_value {a : α} {ch : Channel α} (h : ch.receivers ≠ 0) : (ch.send a).value = a := by
  rw [send_of_some h]; simp [value]

theorem send_version_le (a : α) (ch : Channel α) : ch.version ≤ (ch.send a).version := by
  unfold send version; split <;> simp

theorem past_version (ch : Channel α) : ch.past ch.version = ch.value := by
  unfold past version value
  -- by the last value stored, if there is one
  cases h : ch.stored.reverse with
  | nil => simp [List.reverse_eq_nil_iff.1 h]
  | cons a l =>
    have hs : ch.stored = l.reverse ++ [a] := by rw [← List.reverse_reverse ch.stored, h]; simp
    simp [hs, List.getD_eq_getElem?_getD]

theorem past_eq_getElem (ch : Channel α) {n : ℕ} (h : n < (ch.init :: ch.stored).length) :
    ch.past n = (ch.init :: ch.stored)[n] := by
  unfold past
  rw [List.getD_eq_getElem?_getD, List.getElem?_eq_getElem h, Option.getD_some]

/-- The value held is the first one or one stored. -/
theorem value_mem (ch : Channel α) : ch.value ∈ ch.init :: ch.stored := by
  have hlt : ch.version < (ch.init :: ch.stored).length := Nat.lt_succ_self _
  rw [← past_version, past_eq_getElem ch hlt]
  exact List.getElem_mem _

/-- Sending does not change what was held before. -/
theorem past_send (a : α) (ch : Channel α) {n : ℕ} (h : n ≤ ch.version) :
    (ch.send a).past n = ch.past n := by
  by_cases hr : ch.receivers = 0
  · rw [send_of_none hr]
  · rw [send_of_some hr]
    unfold past version at *
    simp only [List.getD_eq_getElem?_getD]
    have hlt : n < (ch.init :: ch.stored).length := Nat.lt_succ_of_le h
    rw [← List.cons_append, List.getElem?_append_left hlt]

/-! ## What a reader has read -/

/-- The values `vs` were read from the channel in order, each at a version at most
`hi`, itself at most the channel's. -/
def Upto (ch : Channel α) (vs : List α) (hi : ℕ) : Prop :=
  hi ≤ ch.version ∧ ∃ ns : List ℕ, vs = ns.map ch.past ∧ ns.Pairwise (· ≤ ·) ∧ ∀ n ∈ ns, n ≤ hi

theorem Upto.nil {ch : Channel α} {hi : ℕ} (h : hi ≤ ch.version) : ch.Upto [] hi :=
  ⟨h, [], by simp⟩

theorem Upto.send {ch : Channel α} {vs : List α} {hi : ℕ} (h : ch.Upto vs hi) (a : α) :
    (ch.send a).Upto vs hi := by
  obtain ⟨hv, ns, rfl, hp, hn⟩ := h
  refine ⟨le_trans hv (send_version_le a ch), ns, ?_, hp, hn⟩
  apply List.map_congr_left
  intro n hm
  exact (past_send a ch (le_trans (hn n hm) hv)).symm

/-- The count of receivers does not matter to what was read. -/
theorem Upto.receivers {ch : Channel α} {vs : List α} {hi : ℕ} (h : ch.Upto vs hi) (r : ℕ) :
    ({ ch with receivers := r } : Channel α).Upto vs hi := h

/-- Reading at version `n`. -/
theorem Upto.snoc {ch : Channel α} {vs : List α} {hi n : ℕ} (h : ch.Upto vs hi) (hn : hi ≤ n)
    (hv : n ≤ ch.version) : ch.Upto (vs ++ [ch.past n]) n := by
  obtain ⟨-, ns, rfl, hp, hns⟩ := h
  refine ⟨hv, ns ++ [n], by simp, ?_, ?_⟩
  · rw [List.pairwise_append]
    refine ⟨hp, by simp, ?_⟩
    intro m hm k hk
    obtain rfl := List.mem_singleton.1 hk
    exact le_trans (hns m hm) hn
  · intro m hm
    rcases List.mem_append.1 hm with hm | hm
    · exact le_trans (hns m hm) hn
    · exact le_of_eq (List.mem_singleton.1 hm)

/-- **Reading the value held.** -/
theorem Upto.read {ch : Channel α} {vs : List α} {hi : ℕ} (h : ch.Upto vs hi) :
    ch.Upto (vs ++ [ch.value]) ch.version := by
  rw [← past_version]; exact h.snoc h.1 le_rfl

/-- A value not held before was not read before. -/
theorem Upto.not_mem {β : Type} {f : α → β} {ch : Channel α} {vs : List α} {hi : ℕ} (h : ch.Upto vs hi)
    (hlt : hi < ch.version) (hf : ((ch.init :: ch.stored).map f).Nodup) : f ch.value ∉ vs.map f := by
  obtain ⟨-, ns, rfl, -, hns⟩ := h
  intro hmem
  obtain ⟨a, ha, heq⟩ := List.mem_map.1 hmem
  obtain ⟨n, hn, rfl⟩ := List.mem_map.1 ha
  have hle : n ≤ hi := hns n hn
  have hlen : (ch.init :: ch.stored).length = ch.version + 1 := rfl
  have hn₁ : n < (ch.init :: ch.stored).length := by omega
  have hn₂ : ch.version < (ch.init :: ch.stored).length := by omega
  rw [← past_version, past_eq_getElem ch hn₁, past_eq_getElem ch hn₂] at heq
  -- two positions with one value
  have hlt' := List.pairwise_iff_getElem.1 (List.pairwise_map.1 hf) n ch.version hn₁ hn₂ (by omega)
  exact hlt' heq

/-- What was read is ordered as the values held were. -/
theorem Upto.pairwise {ch : Channel α} {vs : List α} {hi : ℕ} (h : ch.Upto vs hi) {r : α → α → Prop}
    (hr : ∀ m n, m ≤ n → n ≤ ch.version → r (ch.past m) (ch.past n)) : vs.Pairwise r := by
  obtain ⟨hv, ns, rfl, hp, hn⟩ := h
  rw [List.pairwise_map]
  refine hp.imp_of_mem ?_
  intro m k _ hk hmk
  exact hr m k hmk (le_trans (hn k hk) hv)

end Channel

/-! ## Streams -/

/-- A `WatchStream`: whether it was never polled, and the version it last yielded. -/
structure WatchStream where
  first : Bool
  seen : ℕ

namespace WatchStream

/-- `WatchStream::new` over a receiver that has seen version `seen`. -/
def new (seen : ℕ) : WatchStream := ⟨true, seen⟩

/-- One poll: the value yielded and the stream after it, or pending. -/
def poll (ch : Channel α) (ws : WatchStream) : Option (α × WatchStream) :=
  if ws.first || ws.seen != ch.version then some (ch.value, ⟨false, ch.version⟩) else none

/-- It yields the value held, at its first poll and when it has not seen the version. -/
theorem poll_some {ch : Channel α} {ws ws' : WatchStream} {a : α} (h : ws.poll ch = some (a, ws')) :
    (ws.first = true ∨ ws.seen ≠ ch.version) ∧ a = ch.value ∧ ws' = ⟨false, ch.version⟩ := by
  unfold poll at h
  split at h
  · rename_i hcond
    simp only [Option.some.injEq, Prod.mk.injEq] at h
    exact ⟨by simpa using hcond, h.1.symm, h.2.symm⟩
  · exact absurd h (by simp)

/-- Nothing to yield: the stream was polled, and at the version the channel has. -/
theorem poll_none {ch : Channel α} {ws : WatchStream} (h : ws.poll ch = none) :
    ws = ⟨false, ch.version⟩ := by
  obtain ⟨first, seen⟩ := ws
  unfold poll at h
  split at h
  · exact absurd h (by simp)
  · rename_i hc; simpa using hc

end WatchStream

end Yali.Conc
