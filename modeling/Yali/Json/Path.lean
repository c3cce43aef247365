import Yali.Json.Doc

/-!
# Keys and paths

The members of an ordered map by key, and the value of a document at a path of keys.

* `lookup_put`: what an insertion does to the other keys.
* `Ordered.ext`: an ordered map is determined by its members.
* `valueAt`: the value at a path, which goes through objects only.
-/

namespace Yali

/-! ## Members -/

section Map

variable {κ α : Type} [LinearOrder κ]

@[simp] theorem lookup_self (kv : κ × α) (m : List (κ × α)) : (kv :: m).lookup kv.1 = some kv.2 := by
  rw [List.lookup_cons, beq_self_eq_true]

theorem lookup_ne {k : κ} {x : κ × α} (h : k ≠ x.1) (m : List (κ × α)) :
    (x :: m).lookup k = m.lookup k := by
  rw [List.lookup_cons, beq_eq_false_iff_ne.2 h]

theorem mem_of_lookup {k : κ} {v : α} {m : List (κ × α)} (h : m.lookup k = some v) : (k, v) ∈ m := by
  induction m with
  | nil => exact absurd h (by simp)
  | cons kv m ih =>
    by_cases hk : k = kv.1
    · rw [hk, lookup_self] at h
      obtain rfl : kv.2 = v := Option.some.inj h
      rw [hk]
      exact List.mem_cons_self
    · rw [lookup_ne hk] at h
      exact List.mem_cons_of_mem _ (ih h)

theorem lookup_eq_none {k : κ} {m : List (κ × α)} (h : ∀ x ∈ m, x.1 ≠ k) : m.lookup k = none := by
  cases hl : m.lookup k with
  | none => rfl
  | some v => exact absurd rfl (h (k, v) (mem_of_lookup hl))

/-- A key is there iff it has a value. -/
theorem mem_keys {k : κ} {m : List (κ × α)} : k ∈ m.map Prod.fst ↔ m.lookup k ≠ none := by
  constructor
  · intro h
    induction m with
    | nil => exact absurd h (by simp)
    | cons kv m ih =>
      by_cases hk : k = kv.1
      · rw [hk, lookup_self]
        exact Option.some_ne_none _
      · rw [lookup_ne hk]
        rcases List.mem_cons.1 h with h | h
        · exact absurd h hk
        · exact ih h
  · intro h
    obtain ⟨v, hv⟩ := Option.ne_none_iff_exists'.1 h
    exact List.mem_map.2 ⟨(k, v), mem_of_lookup hv, rfl⟩

/-- An insertion sets its own key and no other. -/
theorem lookup_put (k k' : κ) (v : α) (m : List (κ × α)) :
    (put k v m).lookup k' = if k' = k then some v else m.lookup k' := by
  induction m with
  | nil =>
    unfold put
    by_cases h : k' = k
    · rw [if_pos h, h]
      exact lookup_self (k, v) []
    · rw [if_neg h]
      exact lookup_ne (x := (k, v)) h []
  | cons kv m ih =>
    obtain ⟨l, w⟩ := kv
    unfold put
    split
    · -- in front of the first key
      by_cases h : k' = k
      · rw [if_pos h, h]
        exact lookup_self (k, v) _
      · rw [if_neg h]
        exact lookup_ne (x := (k, v)) h _
    split
    · rename_i heq
      by_cases h : k' = k
      · rw [if_pos h, h]
        exact lookup_self (k, v) _
      · have hl : k' ≠ l := fun h' => h (h'.trans heq.symm)
        rw [if_neg h, lookup_ne (x := (k, v)) h, lookup_ne (x := (l, w)) hl]
    · rename_i hne
      by_cases h : k' = l
      · have hk : k' ≠ k := fun h' => hne (h'.symm.trans h)
        rw [if_neg hk, h, lookup_self (l, w), lookup_self (l, w)]
      · rw [lookup_ne (x := (l, w)) h, lookup_ne (x := (l, w)) h, ih]

/-- **An ordered map is determined by its members.** -/
theorem Ordered.ext {m m' : List (κ × α)} (h : Ordered m) (h' : Ordered m')
    (heq : ∀ k, m.lookup k = m'.lookup k) : m = m' := by
  -- a key below the first is none of the map
  have hbelow : ∀ {l : List (κ × α)} {x : κ × α} {k : κ}, Ordered (x :: l) → k < x.1 →
      (x :: l).lookup k = none := by
    intro l x k hl hk
    refine lookup_eq_none ?_
    intro z hz
    rcases List.mem_cons.1 hz with rfl | hz
    · exact hk.ne'
    · exact (hk.trans ((ordered_cons.1 hl).1 z hz)).ne'
  induction m generalizing m' with
  | nil =>
    cases m' with
    | nil => rfl
    | cons x m' =>
      have hx := heq x.1
      rw [lookup_self, List.lookup_nil] at hx
      exact absurd hx (by simp)
  | cons x m ih =>
    cases m' with
    | nil =>
      have hx := heq x.1
      rw [lookup_self, List.lookup_nil] at hx
      exact absurd hx (by simp)
    | cons y m' =>
      obtain ⟨hlt, hm⟩ := ordered_cons.1 h
      obtain ⟨hlt', hm'⟩ := ordered_cons.1 h'
      have hkey : x.1 = y.1 := by
        by_contra hne
        rcases lt_or_gt_of_ne hne with hxy | hxy
        · have hx := heq x.1
          rw [lookup_self, hbelow h' hxy] at hx
          exact absurd hx (by simp)
        · have hy := heq y.1
          rw [lookup_self, hbelow h hxy] at hy
          exact absurd hy (by simp)
      have hval : x.2 = y.2 := by
        have hx := heq x.1
        rw [lookup_self, hkey, lookup_self] at hx
        exact Option.some.inj hx
      have hrest : ∀ k, m.lookup k = m'.lookup k := by
        intro k
        by_cases hk : k = x.1
        · have hnone : m.lookup k = none := lookup_eq_none fun z hz => hk ▸ (hlt z hz).ne'
          have hnone' : m'.lookup k = none :=
            lookup_eq_none fun z hz => hk.trans hkey ▸ (hlt' z hz).ne'
          rw [hnone, hnone']
        · have hx := heq k
          rwa [lookup_ne hk, lookup_ne (hkey ▸ hk)] at hx
      rw [ih hm hm' hrest, Prod.ext hkey hval]

end Map

/-! ## Paths -/

namespace Json

/-- The value at a path of keys. -/
def valueAt : List String → Json → Option Json
  | [], j => some j
  | k :: path, .obj fs => (fs.lookup k).bind (valueAt path)
  | _ :: _, _ => none

@[simp] theorem valueAt_nil (j : Json) : valueAt [] j = some j := rfl

@[simp] theorem valueAt_obj (k : String) (path : List String) (fs : List (String × Json)) :
    valueAt (k :: path) (.obj fs) = (fs.lookup k).bind (valueAt path) := rfl

/-- Below a value that is not an object there is nothing. -/
theorem valueAt_scalar {j : Json} (h : j.isObject = false) (k : String) (path : List String) :
    valueAt (k :: path) j = none := by
  cases j with
  | obj fs => exact absurd h (by simp [isObject])
  | _ => rfl

/-- A path can be walked in two parts. -/
theorem valueAt_append (path rest : List String) (j : Json) :
    valueAt (path ++ rest) j = (valueAt path j).bind (valueAt rest) := by
  induction path generalizing j with
  | nil => rfl
  | cons k path ih =>
    cases j with
    | obj fs =>
      rw [List.cons_append, valueAt_obj, valueAt_obj]
      cases fs.lookup k with
      | none => rfl
      | some v => exact ih v
    | _ => rfl

theorem isObject_iff {j : Json} : j.isObject = true ↔ ∃ fs, j = .obj fs := by
  cases j with
  | obj fs => exact iff_of_true rfl ⟨fs, rfl⟩
  | _ => exact iff_of_false (by simp [isObject]) (by simp)

end Json

end Yali
