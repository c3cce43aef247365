import Yali.Spec.Service

/-!
# What a merge comes to

`merge_objects` overrides the target by the overlay, path by path.

* `lookup_mergeFields`: one level, key by key.
* `valueAt_merge`: all levels. Where the overlay has a value, the merge of the two
  values is there; elsewhere the target's, unless the overlay cuts the path short.
* `deepMerge_override`, `deepMerge_absorbs`: the laws of
  `deep_merge_default_with_params`.
-/

namespace Yali

open Json

/-! ## One level -/

/-- The value at a key that the overlay has, `tv` being the target's. -/
def mergeMember (tv : Option Json) (ov : Json) : Json := mergeObjects (tv.getD .null) ov

theorem mergeObjects_scalar {overlay : Json} (h : overlay.isObject = false) (target : Json) :
    mergeObjects target overlay = overlay := by
  cases overlay with
  | obj fs => exact absurd h (by simp [isObject])
  | _ => simp only [mergeObjects]

theorem mergeObjects_replaced {target : Json} (h : target.isObject = false) (overlay : Json) :
    mergeObjects target overlay = overlay := by
  cases overlay with
  | obj fs =>
    cases target with
    | obj t => exact absurd h (by simp [isObject])
    | _ => simp only [mergeObjects]
  | _ => simp only [mergeObjects]

/-- **One level of the merge**: the keys of the overlay are overridden, the others kept. -/
theorem lookup_mergeFields {t o : List (String × Json)} (ho : Ordered o) (k : String) :
    (mergeFields t o).lookup k =
      match o.lookup k with
      | some ov => some (mergeMember (t.lookup k) ov)
      | none => t.lookup k := by
  induction o generalizing t with
  | nil => simp only [mergeFields, List.lookup_nil]
  | cons kv o ih =>
    obtain ⟨key, ov⟩ := kv
    obtain ⟨hlt, ho'⟩ := ordered_cons.1 ho
    -- whatever the branch, the member is put as `mergeMember` says
    have hput : mergeFields t ((key, ov) :: o) =
        mergeFields (put key (mergeMember (t.lookup key) ov) t) o := by
      simp only [mergeFields]
      cases ht : t.lookup key with
      | none => rw [mergeMember, Option.getD_none, mergeObjects_replaced rfl]
      | some tv =>
        rw [mergeMember, Option.getD_some]
        by_cases htv : tv.isObject = true
        · by_cases hov : ov.isObject = true
          · simp only [htv, hov, Bool.and_self, if_true]
          · rw [Bool.not_eq_true] at hov
            simp only [hov, Bool.and_false, Bool.false_eq_true, if_false, mergeObjects_scalar hov]
        · rw [Bool.not_eq_true] at htv
          simp only [htv, Bool.false_and, Bool.false_eq_true, if_false, mergeObjects_replaced htv]
    rw [hput, ih ho', lookup_put]
    by_cases hk : k = key
    · -- the key comes once
      have hnone : o.lookup k = none := lookup_eq_none fun x hx => hk ▸ (hlt x hx).ne'
      rw [hnone, if_pos hk, hk, lookup_self (key, ov)]
    · rw [if_neg hk, lookup_ne (x := (key, ov)) hk]

/-! ## All levels -/

/-- The overlay has a value that is not an object at a proper prefix of the path. -/
def CutShort (overlay : Json) (path : List String) : Prop :=
  ∃ q, q <+: path ∧ q ≠ path ∧ ∃ v, overlay.valueAt q = some v ∧ v.isObject = false

/-- A target without the key has nothing below it either. -/
theorem valueAt_getD (target : Json) (k : String) {path : List String} (h : path ≠ []) :
    valueAt path ((target.valueAt [k]).getD .null) = valueAt (k :: path) target := by
  have hsplit := valueAt_append [k] path target
  rw [List.singleton_append] at hsplit
  rw [hsplit]
  cases target.valueAt [k] with
  | some tv => rfl
  | none =>
    cases path with
    | nil => exact absurd rfl h
    | cons l path => rfl

/-- The next key of a path. -/
theorem valueAt_mergeObjects {target : Json} {o : List (String × Json)} (ho : Ordered o) (k : String)
    (path : List String) :
    valueAt (k :: path) (mergeObjects target (.obj o)) =
      match o.lookup k with
      | some ov => valueAt path (mergeMember (target.valueAt [k]) ov)
      | none => valueAt (k :: path) target := by
  by_cases ht : target.isObject = true
  · obtain ⟨t, rfl⟩ := isObject_iff.1 ht
    simp only [mergeObjects, valueAt_obj, lookup_mergeFields ho]
    cases o.lookup k with
    | none => rfl
    | some ov =>
      cases t.lookup k with
      | none => rfl
      | some tv => rfl
  · rw [Bool.not_eq_true] at ht
    rw [mergeObjects_replaced ht, valueAt_obj, valueAt_scalar ht, valueAt_scalar ht]
    cases o.lookup k with
    | none => rfl
    | some ov =>
      simp only [Option.bind_some, mergeMember, Option.getD_none]
      rw [mergeObjects_replaced rfl]

/-- **Where the overlay has a value**, the two values are merged. -/
theorem valueAt_merge {overlay : Json} (ho : overlay.Canon) {path : List String} {ov : Json}
    (h : overlay.valueAt path = some ov) (target : Json) :
    (mergeObjects target overlay).valueAt path = some (mergeMember (target.valueAt path) ov) := by
  induction path generalizing target overlay with
  | nil =>
    obtain rfl : overlay = ov := by simpa using h
    rfl
  | cons k path ih =>
    cases ho with
    | obj hord hcan =>
      rename_i o
      rw [valueAt_obj] at h
      obtain ⟨v, hv, hpath⟩ := Option.bind_eq_some_iff.1 h
      rw [valueAt_mergeObjects hord, hv]
      simp only
      have hcanv : v.Canon := hcan (k, v) (mem_of_lookup hv)
      rw [mergeMember, ih hcanv hpath]
      cases path with
      | nil => rfl
      | cons l path => rw [valueAt_getD target k (List.cons_ne_nil l path)]
    | _ => exact absurd h (by simp [valueAt])

/-- **Where the overlay has none**, the target's value stays. -/
theorem valueAt_merge_kept {overlay : Json} (ho : overlay.Canon) {path : List String}
    (h : overlay.valueAt path = none) (hcut : ¬ CutShort overlay path) (target : Json) :
    (mergeObjects target overlay).valueAt path = target.valueAt path := by
  induction path generalizing target overlay with
  | nil => exact absurd h (by simp)
  | cons k path ih =>
    have hobj : overlay.isObject = true := by
      by_contra hno
      rw [Bool.not_eq_true] at hno
      exact hcut ⟨[], List.nil_prefix, by simp, overlay, rfl, hno⟩
    obtain ⟨o, rfl⟩ := isObject_iff.1 hobj
    cases ho with
    | obj hord hcan =>
      rw [valueAt_mergeObjects hord]
      cases hv : o.lookup k with
      | none => rfl
      | some v =>
        rw [valueAt_obj, hv, Option.bind_some] at h
        have hcut' : ¬ CutShort v path := by
          intro hc
          obtain ⟨q, hq, hne, w, hw, hws⟩ := hc
          refine hcut ⟨k :: q, List.cons_prefix_cons.2 ⟨rfl, hq⟩, ?_, w, ?_, hws⟩
          · intro heq
            exact hne (List.cons.inj heq).2
          · rw [valueAt_obj, hv, Option.bind_some, hw]
        have hcanv : v.Canon := hcan (k, v) (mem_of_lookup hv)
        simp only
        have hne : path ≠ [] := by
          intro hnil
          rw [hnil, valueAt_nil] at h
          exact absurd h (Option.some_ne_none v)
        rw [mergeMember, ih hcanv h hcut', valueAt_getD target k hne]

/-- **Below a value of the overlay that is not an object** there is nothing. -/
theorem valueAt_merge_cut {overlay : Json} (ho : overlay.Canon) {path : List String}
    (hcut : CutShort overlay path) (target : Json) :
    (mergeObjects target overlay).valueAt path = none := by
  obtain ⟨q, ⟨r, rfl⟩, hne, v, hv, hvs⟩ := hcut
  have hq := valueAt_merge ho hv target
  rw [mergeMember, mergeObjects_scalar hvs] at hq
  rw [valueAt_append, hq, Option.bind_some]
  cases r with
  | nil => exact absurd (List.append_nil q).symm hne
  | cons k r => exact valueAt_scalar hvs k r

/-! ## Merging again -/

theorem mergeFields_ext {t o m : List (String × Json)} (ht : Json.Canon (.obj t))
    (ho : Json.Canon (.obj o)) (hm : Ordered m)
    (h : ∀ k, (match o.lookup k with
      | some ov => some (mergeMember (t.lookup k) ov)
      | none => t.lookup k) = m.lookup k) :
    mergeFields t o = m := by
  cases ht with
  | obj htord htcan =>
    cases ho with
    | obj hoord hocan =>
      have hord := (mergeFields_canon t o htord htcan hocan).1
      refine Ordered.ext hord hm ?_
      intro k
      rw [lookup_mergeFields hoord]
      exact h k

theorem mergeFields_ordered {t o : List (String × Json)} (ht : Json.Canon (.obj t))
    (ho : Json.Canon (.obj o)) : Ordered (mergeFields t o) := by
  cases mergeObjects_canon ht ho with
  | obj hord _ => exact hord

theorem mergeObjects_self {j : Json} (hj : j.Canon) : mergeObjects j j = j := by
  induction hj with
  | @obj o hord hcan ih =>
    have hobj : Json.Canon (.obj o) := .obj hord hcan
    simp only [mergeObjects]
    congr 1
    refine mergeFields_ext hobj hobj hord ?_
    intro k
    cases hk : o.lookup k with
    | none => rfl
    | some v =>
      simp only [mergeMember, Option.getD_some]
      rw [ih (k, v) (mem_of_lookup hk)]
  | _ => simp only [mergeObjects]

theorem mergeObjects_empty_left (o : List (String × Json)) (ho : Json.Canon (.obj o)) :
    mergeObjects (.obj []) (.obj o) = .obj o := by
  have hnil : Json.Canon (.obj []) := .obj ordered_nil (by simp)
  simp only [mergeObjects]
  congr 1
  cases id ho with
  | obj hord hcan =>
    refine mergeFields_ext hnil ho hord ?_
    intro k
    cases o.lookup k with
    | none => rfl
    | some v =>
      simp only [mergeMember, List.lookup_nil, Option.getD_none]
      rw [mergeObjects_replaced rfl]

theorem canon_getD {t : List (String × Json)} (ht : Json.Canon (.obj t)) (k : String) :
    ((t.lookup k).getD .null).Canon := by
  cases ht with
  | obj hord hcan =>
    cases hk : t.lookup k with
    | none => exact .null
    | some v => exact hcan (k, v) (mem_of_lookup hk)

/-- **Merging the same overlay again** changes nothing. -/
theorem mergeObjects_idem {target overlay : Json} (ht : target.Canon) (ho : overlay.Canon) :
    mergeObjects (mergeObjects target overlay) overlay = mergeObjects target overlay := by
  induction ho generalizing target with
  | @obj o hord hcan ih =>
    have hobj : Json.Canon (.obj o) := .obj hord hcan
    by_cases htobj : target.isObject = true
    · obtain ⟨t, rfl⟩ := isObject_iff.1 htobj
      have hm : Json.Canon (.obj (mergeFields t o)) := mergeObjects_canon ht hobj
      simp only [mergeObjects]
      congr 1
      refine mergeFields_ext hm hobj (mergeFields_ordered ht hobj) ?_
      intro k
      rw [lookup_mergeFields hord]
      cases hk : o.lookup k with
      | none => rfl
      | some v =>
        simp only [mergeMember, Option.getD_some]
        rw [ih (k, v) (mem_of_lookup hk) (canon_getD ht k)]
    · rw [Bool.not_eq_true] at htobj
      rw [mergeObjects_replaced htobj, mergeObjects_self hobj]
  | _ => simp only [mergeObjects]

/-- **Merging the outcome into the target** changes nothing. -/
theorem mergeObjects_absorb {target overlay : Json} (ht : target.Canon) (ho : overlay.Canon) :
    mergeObjects target (mergeObjects target overlay) = mergeObjects target overlay := by
  induction ho generalizing target with
  | @obj o hord hcan ih =>
    have hobj : Json.Canon (.obj o) := .obj hord hcan
    by_cases htobj : target.isObject = true
    · obtain ⟨t, rfl⟩ := isObject_iff.1 htobj
      have hm : Json.Canon (.obj (mergeFields t o)) := mergeObjects_canon ht hobj
      simp only [mergeObjects]
      congr 1
      refine mergeFields_ext ht hm (mergeFields_ordered ht hobj) ?_
      intro k
      rw [lookup_mergeFields hord]
      cases hk : o.lookup k with
      | some v =>
        simp only [mergeMember]
        rw [ih (k, v) (mem_of_lookup hk) (canon_getD ht k)]
      | none =>
        -- a member that the overlay leaves alone is merged with itself
        cases htk : t.lookup k with
        | none => rfl
        | some tv =>
          have htv := canon_getD ht k
          rw [htk, Option.getD_some] at htv
          simp only [mergeMember, Option.getD_some]
          rw [mergeObjects_self htv]
    · rw [Bool.not_eq_true] at htobj
      rw [mergeObjects_replaced htobj, mergeObjects_replaced htobj]
  | _ => simp only [mergeObjects]

/-! ## `deep_merge_default_with_params` -/

/-- What the merge `m` of `d` and `p` has at a path. -/
structure Override (d p m : Json) (path : List String) : Prop where
  /-- A value that is not an object is taken as it is, an array whole. -/
  scalar : ∀ v, p.valueAt path = some v → v.isObject = false → m.valueAt path = some v
  /-- An object over nothing, or over a value that is none, is taken as it is. -/
  replaced : ∀ v, p.valueAt path = some v → v.isObject = true →
    (∀ dv, d.valueAt path = some dv → dv.isObject = false) → m.valueAt path = some v
  merged : ∀ dfs pfs, d.valueAt path = some (.obj dfs) → p.valueAt path = some (.obj pfs) →
    ∃ mfs, m.valueAt path = some (.obj mfs) ∧
      ∀ k, k ∈ mfs.map Prod.fst ↔ k ∈ dfs.map Prod.fst ∨ k ∈ pfs.map Prod.fst
  kept : p.valueAt path = none → ¬ CutShort p path → m.valueAt path = d.valueAt path
  /-- Nothing is there that neither has. -/
  known : m.valueAt path ≠ none → d.valueAt path ≠ none ∨ p.valueAt path ≠ none

theorem valueAt_canon {j : Json} (hj : j.Canon) {path : List String} {v : Json}
    (h : j.valueAt path = some v) : v.Canon := by
  induction path generalizing j with
  | nil =>
    obtain rfl : j = v := by simpa using h
    exact hj
  | cons k path ih =>
    cases hj with
    | obj hord hcan =>
      rw [valueAt_obj] at h
      obtain ⟨w, hw, hpath⟩ := Option.bind_eq_some_iff.1 h
      exact ih (hcan (k, w) (mem_of_lookup hw)) hpath
    | _ => exact absurd h (by simp [valueAt])

theorem mergeObjects_override {p : Json} (hp : p.Canon) (d : Json) (path : List String) :
    Override d p (mergeObjects d p) path where
  scalar := by
    intro v hv hvs
    rw [valueAt_merge hp hv d, mergeMember, mergeObjects_scalar hvs]
  replaced := by
    intro v hv _ hd
    rw [valueAt_merge hp hv d, mergeMember, mergeObjects_replaced]
    cases hdv : d.valueAt path with
    | none => rfl
    | some dv => exact hd dv hdv
  merged := by
    intro dfs pfs hdv hpv
    have hord : Ordered pfs := by
      cases valueAt_canon hp hpv with
      | obj hord _ => exact hord
    refine ⟨mergeFields dfs pfs, ?_, ?_⟩
    · rw [valueAt_merge hp hpv d, hdv]
      simp only [mergeMember, Option.getD_some, mergeObjects]
    · intro k
      rw [mem_keys, mem_keys, mem_keys, lookup_mergeFields hord]
      cases pfs.lookup k with
      | none => simp
      | some v => simp
  kept := by
    intro hpv hcut
    exact valueAt_merge_kept hp hpv hcut d
  known := by
    intro hm
    by_cases hpv : p.valueAt path = none
    · by_cases hcut : CutShort p path
      · exact absurd (valueAt_merge_cut hp hcut d) hm
      · rw [valueAt_merge_kept hp hpv hcut d] at hm
        exact Or.inl hm
    · exact Or.inr hpv

theorem deepMerge_objects {d p : Value} (hd : d.isObject = true) (hp : p.isObject = true)
    (context : String) :
    deepMergeDefaultWithParams d (some p) context =
      .ok ⟨mergeObjects d.doc p.doc, mergeObjects_canon d.canon p.canon⟩ := by
  simp only [deepMergeDefaultWithParams, hd, hp, Bool.not_true, Bool.false_eq_true, if_false]

theorem deepMerge_eq {d p m : Value} (hd : d.isObject = true) (hp : p.isObject = true)
    (context : String) (h : mergeObjects d.doc p.doc = m.doc) :
    deepMergeDefaultWithParams d (some p) context = .ok m := by
  rw [deepMerge_objects hd hp]
  exact congrArg Except.ok (Value.ext h)

/-- Without params the default config stays, and so it does with empty ones. -/
theorem deepMerge_none {d : Value} (hd : d.isObject = true) (context : String) :
    deepMergeDefaultWithParams d none context = .ok d := by
  simp only [deepMergeDefaultWithParams, hd, Bool.not_true, Bool.false_eq_true, if_false]

theorem deepMerge_empty {d : Value} (hd : d.isObject = true) (context : String) :
    deepMergeDefaultWithParams d (some .emptyObject) context = .ok d := by
  refine deepMerge_eq hd rfl context ?_
  obtain ⟨t, ht⟩ := isObject_iff.1 hd
  rw [ht]
  simp only [Value.emptyObject, mergeObjects, mergeFields]

theorem mergeObjects_isObject {target overlay : Json} (h : overlay.isObject = true) :
    (mergeObjects target overlay).isObject = true := by
  obtain ⟨o, rfl⟩ := isObject_iff.1 h
  cases target with
  | _ => simp only [mergeObjects, isObject]

/-- **The merge overrides path by path**: the params where they have a value, the default
config elsewhere. -/
theorem deepMerge_override (d p : Value) (hd : d.isObject = true) (hp : p.isObject = true)
    (context : String) :
    ∃ m, deepMergeDefaultWithParams d (some p) context = .ok m ∧ m.isObject = true ∧
      ∀ path, Override d.doc p.doc m.doc path :=
  ⟨_, deepMerge_objects hd hp context, mergeObjects_isObject hp, mergeObjects_override p.canon d.doc⟩

namespace Sample

def retryDefaults : Value :=
  .ofDoc (.obj [("retry", .obj [("codes", .arr [.str "502"]), ("times", .num (.posInt 3))])])

def retryParams : Value := .ofDoc (.obj [("retry", .obj [("codes", .arr [.str "503"])])])

end Sample

theorem deepMerge_override_retry :
    Sample.retryDefaults.isObject = true ∧ Sample.retryParams.isObject = true ∧
      ∃ m, deepMergeDefaultWithParams Sample.retryDefaults (some Sample.retryParams) "route" = .ok m ∧
        m.isObject = true ∧
        ∀ path, Override Sample.retryDefaults.doc Sample.retryParams.doc m.doc path :=
  ⟨rfl, rfl, deepMerge_override Sample.retryDefaults Sample.retryParams rfl rfl "route"⟩

/-- **The merge is idempotent and absorbs its overlay.** -/
theorem deepMerge_absorbs (d p : Value) (hd : d.isObject = true) (hp : p.isObject = true)
    (context : String) :
    (∃ m, deepMergeDefaultWithParams d (some p) context = .ok m ∧
      deepMergeDefaultWithParams m (some p) context = .ok m ∧
      deepMergeDefaultWithParams d (some m) context = .ok m) ∧
    deepMergeDefaultWithParams p (some p) context = .ok p ∧
    deepMergeDefaultWithParams d (some .emptyObject) context = .ok d ∧
    deepMergeDefaultWithParams d none context = .ok d ∧
    deepMergeDefaultWithParams .emptyObject (some p) context = .ok p := by
  have hm : (Value.mk (mergeObjects d.doc p.doc) (mergeObjects_canon d.canon p.canon)).isObject = true :=
    mergeObjects_isObject hp
  refine ⟨⟨_, deepMerge_objects hd hp context, ?_, ?_⟩, ?_, ?_, ?_, ?_⟩
  · exact deepMerge_eq hm hp context (mergeObjects_idem d.canon p.canon)
  · exact deepMerge_eq hd hm context (mergeObjects_absorb d.canon p.canon)
  · exact deepMerge_eq hp hp context (mergeObjects_self p.canon)
  · exact deepMerge_empty hd context
  · exact deepMerge_none hd context
  · refine deepMerge_eq rfl hp context ?_
    obtain ⟨o, ho⟩ := isObject_iff.1 hp
    have hcan := p.canon
    rw [ho] at hcan ⊢
    exact mergeObjects_empty_left o hcan

theorem deepMerge_absorbs_retry :
    ∃ m, deepMergeDefaultWithParams Sample.retryDefaults (some Sample.retryParams) "route" = .ok m ∧
      deepMergeDefaultWithParams m (some Sample.retryParams) "route" = .ok m ∧
      deepMergeDefaultWithParams Sample.retryDefaults (some m) "route" = .ok m :=
  (deepMerge_absorbs Sample.retryDefaults Sample.retryParams rfl rfl "route").1

end Yali
