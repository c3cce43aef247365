import Mathlib.Data.List.Sort

/-!
# Rows by key

A table is a list of rows that a key tells apart. A row is found by its key
(`find_key`), and the rows in the order of their keys are in strictly increasing
order (`sorted_strict`).

Two tables `ReadAlike` if the values read from their rows are the same, in any order. What
is selected by the keys reads the same (`ReadAlike.find`, `ReadAlike.sort`), and the
changes of a table keep it so.
-/

namespace Yali.Keyed

variable {α κ : Type} {key : α → κ}

/-- Two rows of one key are one row. -/
theorem eq_of_key {l : List α} (h : (l.map key).Nodup) {a b : α} (ha : a ∈ l) (hb : b ∈ l)
    (hk : key a = key b) : a = b :=
  List.inj_on_of_nodup_map h ha hb hk

/-- A row of a new key. -/
theorem nodup_concat {l : List α} (h : (l.map key).Nodup) {a : α} (hfree : ∀ b ∈ l, key b ≠ key a) :
    ((l ++ [a]).map key).Nodup := by
  rw [List.map_append, List.nodup_append]
  refine ⟨h, List.nodup_singleton _, ?_⟩
  intro k hk k' hk' heq
  obtain ⟨b, hb, rfl⟩ := List.mem_map.1 hk
  obtain rfl : k' = key a := by simpa using hk'
  exact hfree b hb heq

theorem find_key [DecidableEq κ] {l : List α} (h : (l.map key).Nodup) {k : κ} {a : α} :
    (l.find? fun x => key x = k) = some a ↔ a ∈ l ∧ key a = k := by
  constructor
  · intro hf
    exact ⟨List.mem_of_find?_eq_some hf, by simpa using List.find?_some hf⟩
  · intro h
    obtain ⟨ha, rfl⟩ := h
    cases hf : l.find? fun x => key x = key a with
    | none =>
      have := List.find?_eq_none.1 hf a ha
      exact absurd (by simp) this
    | some b =>
      have hb : key b = key a := by simpa using List.find?_some hf
      rw [eq_of_key h (List.mem_of_find?_eq_some hf) ha hb]

theorem find_none [DecidableEq κ] {l : List α} {k : κ} :
    (l.find? fun x => key x = k) = none ↔ ∀ a ∈ l, key a ≠ k := by
  simp [List.find?_eq_none]

/-- Rows replaced by rows of the same keys. -/
theorem find_map [DecidableEq κ] {f : α → α} (hf : ∀ a, key (f a) = key a) (l : List α) (k : κ) :
    (l.map f).find? (fun a => key a = k) = (l.find? fun a => key a = k).map f := by
  have hkey : ((fun a => decide (key a = k)) ∘ f) = fun a => decide (key a = k) := by
    funext a
    simp only [Function.comp_apply, hf]
  rw [List.find?_map, hkey]

theorem find_filter [DecidableEq κ] (l : List α) (k k' : κ) :
    (l.filter fun a => key a ≠ k').find? (fun a => key a = k) =
      if k = k' then none else l.find? fun a => key a = k := by
  rw [List.find?_filter]
  split
  · rename_i heq
    rw [List.find?_eq_none]
    intro a _ ha
    simp only [decide_eq_true_eq] at ha
    exact ha.1 (ha.2.trans heq)
  · rename_i hne
    congr 1
    funext a
    by_cases hk : key a = k
    · have hne' : key a ≠ k' := fun h => hne (hk.symm.trans h)
      simp [hk, hne]
    · simp [hk]

/-- **Sorted by key**, rows with distinct keys are strictly increasing. -/
theorem sorted_strict [LinearOrder κ] {l : List α} (h : (l.map key).Nodup) :
    (l.insertionSort fun a b => key a ≤ key b).Pairwise fun a b => key a < key b := by
  have hle : (l.insertionSort fun a b => key a ≤ key b).Pairwise fun a b => key a ≤ key b :=
    @List.pairwise_insertionSort α (fun a b => key a ≤ key b) _ ⟨fun a b => le_total _ _⟩
      ⟨fun a b c => le_trans⟩ l
  have hne : (l.insertionSort fun a b => key a ≤ key b).Pairwise fun a b => key a ≠ key b := by
    have hp : ((l.insertionSort fun a b => key a ≤ key b).map key).Nodup :=
      ((List.perm_insertionSort _ l).map key).nodup_iff.2 h
    exact List.pairwise_map.1 hp
  exact (hle.and hne).imp fun hab => lt_of_le_of_ne hab.1 hab.2

/-! ## Tables that read alike -/

/-- The values that `read` gives for the rows are the same, in any order. -/
def ReadAlike {β : Type} (read : α → β) (l l' : List α) : Prop := (l.map read).Perm (l'.map read)

namespace ReadAlike

variable {β : Type} {read : α → β} {l l' : List α}

theorem concat (h : ReadAlike read l l') (a : α) : ReadAlike read (l ++ [a]) (l' ++ [a]) := by
  unfold ReadAlike
  rw [List.map_append, List.map_append]
  exact h.append_right _

variable {field : β → κ} (hkey : ∀ a, field (read a) = key a)
include hkey

theorem map_key (l : List α) : l.map key = (l.map read).map field := by
  rw [List.map_map]
  exact List.map_congr_left fun a _ => (hkey a).symm

theorem nodup (h : ReadAlike read l l') (hl : (l.map key).Nodup) : (l'.map key).Nodup := by
  rw [map_key hkey] at hl ⊢
  exact (h.map field).nodup_iff.1 hl

/-- The rows of keys in a set. -/
theorem filter (h : ReadAlike read l l') (P : κ → Prop) [DecidablePred P] :
    ReadAlike read (l.filter fun a => P (key a)) (l'.filter fun a => P (key a)) := by
  have hmap : ∀ l : List α, (l.filter fun a => P (key a)).map read =
      (l.map read).filter fun b => P (field b) := by
    intro l
    rw [List.filter_map]
    simp only [Function.comp_def, hkey]
  unfold ReadAlike
  rw [hmap, hmap]
  exact List.Perm.filter _ h

theorem countP (h : ReadAlike read l l') (P : κ → Prop) [DecidablePred P] :
    (l.countP fun a => P (key a)) = l'.countP fun a => P (key a) := by
  have hmap : ∀ l : List α, (l.countP fun a => P (key a)) = (l.map read).countP fun b => P (field b) := by
    intro l
    rw [List.countP_map]
    simp only [Function.comp_def, hkey]
  rw [hmap, hmap]
  exact h.countP_eq _

theorem any (h : ReadAlike read l l') (P : κ → Prop) [DecidablePred P] :
    (l.any fun a => P (key a)) = l'.any fun a => P (key a) := by
  have hmap : ∀ l : List α, (l.any fun a => P (key a)) = (l.map read).any fun b => P (field b) := by
    intro l
    rw [List.any_map]
    simp only [Function.comp_def, hkey]
  rw [hmap, hmap, Bool.eq_iff_iff, List.any_eq_true, List.any_eq_true]
  exact exists_congr fun b => and_congr_left fun _ => h.mem_iff

/-- The row of a key is replaced. -/
theorem replace [DecidableEq κ] (h : ReadAlike read l l') (new : α) :
    ReadAlike read (l.map fun a => if key a = key new then new else a)
      (l'.map fun a => if key a = key new then new else a) := by
  have hmap : ∀ l : List α, (l.map fun a => if key a = key new then new else a).map read =
      (l.map read).map fun b => if field b = key new then read new else b := by
    intro l
    rw [List.map_map, List.map_map]
    refine List.map_congr_left fun a _ => ?_
    simp only [Function.comp_apply, hkey]
    split <;> rfl
  unfold ReadAlike
  rw [hmap, hmap]
  exact h.map _

/-- **The row of a key reads the same.** -/
theorem find [DecidableEq κ] (h : ReadAlike read l l') (hl : (l.map key).Nodup) (k : κ) :
    (l.find? fun a => key a = k).map read = (l'.find? fun a => key a = k).map read := by
  have hmap : ∀ l : List α, (l.find? fun a => key a = k).map read =
      (l.map read).find? fun b => field b = k := by
    intro l
    rw [List.find?_map]
    simp only [Function.comp_def, hkey]
  have hfields := hl
  rw [map_key hkey] at hfields
  rw [hmap, hmap]
  refine Option.ext fun b => ?_
  rw [find_key hfields, find_key ((h.map field).nodup_iff.1 hfields), h.mem_iff]

/-- **In the order of their keys the rows read the same.** -/
theorem sort [LinearOrder κ] (h : ReadAlike read l l') (hl : (l.map key).Nodup) :
    (l.insertionSort fun a b => key a ≤ key b).map read =
      (l'.insertionSort fun a b => key a ≤ key b).map read := by
  have hsorted : ∀ l : List α, (l.map key).Nodup →
      ((l.insertionSort fun a b => key a ≤ key b).map read).Pairwise fun a b => field a < field b := by
    intro l hl
    rw [List.pairwise_map]
    simp only [hkey]
    exact sorted_strict hl
  have hperm : ∀ l : List α, ((l.insertionSort fun a b => key a ≤ key b).map read).Perm (l.map read) :=
    fun l => (List.perm_insertionSort _ l).map read
  refine ((hperm l).trans (h.trans (hperm l').symm)).eq_of_pairwise ?_ (hsorted l hl)
    (hsorted l' (h.nodup hkey hl))
  intro a b _ _ hab hba
  exact absurd (hab.trans hba) (lt_irrefl _)

/-- Tables in which every key reads the same. -/
theorem of_find [DecidableEq κ] (hl : (l.map key).Nodup) (hl' : (l'.map key).Nodup)
    (h : ∀ k, (l.find? fun a => key a = k).map read = (l'.find? fun a => key a = k).map read) :
    ReadAlike read l l' := by
  have hmem : ∀ {l : List α}, (l.map key).Nodup → ∀ b, b ∈ l.map read ↔
      (l.find? fun a => key a = field b).map read = some b := by
    intro l hl b
    rw [List.mem_map, Option.map_eq_some_iff]
    constructor
    · rintro ⟨a, ha, rfl⟩
      exact ⟨a, (find_key hl).2 ⟨ha, (hkey a).symm⟩, rfl⟩
    · rintro ⟨a, ha, rfl⟩
      exact ⟨a, ((find_key hl).1 ha).1, rfl⟩
  have hnodup : ∀ {l : List α}, (l.map key).Nodup → (l.map read).Nodup := by
    intro l hl
    rw [map_key hkey] at hl
    exact hl.of_map field
  refine (List.perm_ext_iff_of_nodup (hnodup hl) (hnodup hl')).2 fun b => ?_
  rw [hmem hl, hmem hl', h]

end ReadAlike

end Yali.Keyed
