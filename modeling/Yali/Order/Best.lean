import Mathlib.Data.List.Basic
import Mathlib.Order.Lattice

/-!
# The best of a list

A scan keeps the best element so far among those that satisfy `p`: an element
replaces the one kept if it is better, which is to have the smaller rank in some
linear order.

* `scan_none`: nothing is kept iff nothing satisfies `p`.
* `scan_some`: what is kept satisfies `p`, and has the least rank of all that do.
* `scan_map`: the scan of images.
* `scan_agree`: where the ranks are distinct, the elements that are not the best do not
  matter, and so the order of the list does not (`scan_perm`).
-/

namespace Yali.Best

variable {α β : Type} [LinearOrder β] (p : α → Bool) (better : α → α → Bool) (rank : α → β)

/-- One turn: the element kept so far against the next one. -/
def keep (best : Option α) (a : α) : Option α :=
  if !p a then best
  else
    match best with
    | none => some a
    | some b => if better a b then some a else some b

def scan (l : List α) : Option α := l.foldl (keep p better) none

/-- The best of the images is the image of the best. -/
theorem scan_map {γ : Type} (f : γ → α) (l : List γ) :
    scan p better (l.map f) = (scan (fun a => p (f a)) (fun a b => better (f a) (f b)) l).map f := by
  have hstep : ∀ (best : Option γ) (a : γ), keep p better (best.map f) (f a) =
      (keep (fun a => p (f a)) (fun a b => better (f a) (f b)) best a).map f := by
    intro best a
    unfold keep
    split
    · rfl
    · cases best with
      | none => rfl
      | some b =>
        simp only [Option.map_some]
        split <;> rfl
  have hfold : ∀ (l : List γ) (best : Option γ), (l.map f).foldl (keep p better) (best.map f) =
      (l.foldl (keep (fun a => p (f a)) (fun a b => better (f a) (f b))) best).map f := by
    intro l
    induction l with
    | nil => intro best; rfl
    | cons a l ih => intro best; rw [List.map_cons, List.foldl_cons, List.foldl_cons, hstep, ih]
  exact hfold l none

/-- `best` is right for the elements `l`. -/
def Right (l : List α) (best : Option α) : Prop :=
  (best = none → ∀ a ∈ l, p a = false) ∧
    ∀ b, best = some b → b ∈ l ∧ p b = true ∧ ∀ a ∈ l, p a = true → rank b ≤ rank a

variable {p better rank} (hrank : ∀ a b, better a b = true ↔ rank a < rank b)
include hrank

/-- **One more element.** -/
theorem Right.keep {l : List α} {best : Option α} (h : Right p rank l best) (a : α) :
    Right p rank (l ++ [a]) (keep p better best a) := by
  obtain ⟨hnone, hsome⟩ := h
  have hall : ∀ {b}, (∀ x ∈ l, p x = true → rank b ≤ rank x) → (p a = true → rank b ≤ rank a) →
      ∀ x ∈ l ++ [a], p x = true → rank b ≤ rank x := by
    intro b hl ha x hx hpx
    rcases List.mem_append.1 hx with hx | hx
    · exact hl x hx hpx
    · obtain rfl := List.mem_singleton.1 hx
      exact ha hpx
  unfold Best.keep
  by_cases hp : p a = true
  · simp only [hp, Bool.not_true, Bool.false_eq_true, if_false]
    cases best with
    | none =>
      -- the first that satisfies `p`
      refine ⟨by simp, ?_⟩
      rintro b ⟨⟩
      refine ⟨by simp, hp, hall ?_ fun _ => le_rfl⟩
      intro x hx hpx
      rw [hnone rfl x hx] at hpx
      exact absurd hpx (by decide)
    | some b =>
      obtain ⟨hb, hpb, hbest⟩ := hsome b rfl
      by_cases hab : better a b = true
      · simp only [hab, if_true]
        have hlt := (hrank a b).1 hab
        refine ⟨by simp, ?_⟩
        rintro c ⟨⟩
        have hold : ∀ x ∈ l, p x = true → rank a ≤ rank x := by
          intro x hx hpx
          exact (le_of_lt hlt).trans (hbest x hx hpx)
        exact ⟨by simp, hp, hall hold fun _ => le_rfl⟩
      · simp only [hab]
        have hle : rank b ≤ rank a := not_lt.1 fun hlt => hab ((hrank a b).2 hlt)
        refine ⟨by simp, ?_⟩
        rintro c ⟨⟩
        exact ⟨List.mem_append_left _ hb, hpb, hall hbest fun _ => hle⟩
  · -- passed over
    simp only [hp, Bool.not_false, if_true]
    refine ⟨?_, ?_⟩
    · intro hb x hx
      rcases List.mem_append.1 hx with hx | hx
      · exact hnone hb x hx
      · rw [List.mem_singleton.1 hx]; simpa using hp
    · intro b hb
      obtain ⟨hbl, hpb, hbest⟩ := hsome b hb
      exact ⟨List.mem_append_left _ hbl, hpb, hall hbest fun hpa => absurd hpa hp⟩

/-- **The scan is right for the whole list.** -/
theorem scan_right (l : List α) : Right p rank l (scan p better l) := by
  suffices h : ∀ (l done : List α) (best : Option α), Right p rank done best →
      Right p rank (done ++ l) (l.foldl (keep p better) best) from
    h l [] none ⟨by simp, by simp⟩
  -- on the elements left, those done growing at the end
  intro l
  induction l with
  | nil => intro done best h; simpa using h
  | cons a l ih =>
    intro done best h
    have h' := ih (done ++ [a]) _ (h.keep hrank a)
    rwa [List.append_assoc] at h'

theorem scan_none {l : List α} : scan p better l = none ↔ ∀ a ∈ l, p a = false := by
  obtain ⟨hnone, hsome⟩ := scan_right hrank (p := p) l
  refine ⟨hnone, ?_⟩
  intro h
  cases hs : scan p better l with
  | none => rfl
  | some b =>
    obtain ⟨hb, hpb, -⟩ := hsome b hs
    rw [h b hb] at hpb
    exact absurd hpb (by decide)

theorem scan_some {l : List α} {b : α} (h : scan p better l = some b) :
    b ∈ l ∧ p b = true ∧ ∀ a ∈ l, p a = true → rank b ≤ rank a :=
  (scan_right hrank (p := p) l).2 b h

/-- **Two lists with the same elements in `q`** have the same best element, if their best
elements are in `q`. -/
theorem scan_agree {l l' : List α} (hinj : ∀ a ∈ l, ∀ b ∈ l, rank a = rank b → a = b) {q : α → Prop}
    (hmem : ∀ a, q a → (a ∈ l ↔ a ∈ l')) (hl : ∀ b, scan p better l = some b → q b)
    (hl' : ∀ b, scan p better l' = some b → q b) : scan p better l = scan p better l' := by
  cases hs : scan p better l with
  | none =>
    cases hs' : scan p better l' with
    | none => rfl
    | some b' =>
      obtain ⟨hb', hpb', -⟩ := scan_some hrank hs'
      have hno := (scan_none hrank).1 hs b' ((hmem b' (hl' b' hs')).2 hb')
      rw [hpb'] at hno
      exact absurd hno (by decide)
  | some b =>
    obtain ⟨hb, hpb, hbest⟩ := scan_some hrank hs
    have hbl := (hmem b (hl b hs)).1 hb
    cases hs' : scan p better l' with
    | none =>
      have hno := (scan_none hrank).1 hs' b hbl
      rw [hpb] at hno
      exact absurd hno (by decide)
    | some b' =>
      obtain ⟨hb', hpb', hbest'⟩ := scan_some hrank hs'
      have hbl' := (hmem b' (hl' b' hs')).2 hb'
      -- each is at least as good as the other
      have hle := hbest b' hbl' hpb'
      have hle' := hbest' b hbl hpb
      rw [hinj b hb b' hbl' (le_antisymm hle hle')]

theorem scan_perm {l l' : List α} (hinj : ∀ a ∈ l, ∀ b ∈ l, rank a = rank b → a = b)
    (hperm : l.Perm l') : scan p better l = scan p better l' :=
  scan_agree hrank hinj (q := fun _ => True) (fun _ _ => hperm.mem_iff) (fun _ _ => trivial)
    fun _ _ => trivial

end Yali.Best
