import Yali.Proof.Codec
import Yali.Proof.Serve

/-!
# Whom the details blame

Every detail of an entry starts with the entry's context, `route.policies[i]`
(`policyDetails_about`), and no detail is about two entries (`about_inj`). So the
entries that the details of a rejected route name are the invalid ones,
`validateRoutePolicies_blames`.
-/

namespace Yali

open Conc

variable {E : Env}

/-! ## Contexts -/

def entryContext (index : ℕ) : String := "route.policies[" ++ toString index ++ "]"

/-- A detail is about `context`. -/
def About (context detail : String) : Prop := context.toList <+: detail.toList

theorem about_append (context rest : String) : About context (context ++ rest) := by
  rw [About, String.toList_append]
  exact List.prefix_append _ _

theorem About.append {context detail : String} (h : About context detail) (rest : String) :
    About context (detail ++ rest) := by
  rw [About, String.toList_append]
  exact h.trans (List.prefix_append _ _)

theorem toList_entryContext (index : ℕ) :
    (entryContext index).toList = "route.policies[".toList ++ (Nat.toDigits 10 index ++ [']']) := by
  have hdigits : (toString index).toList = Nat.toDigits 10 index := Nat.toList_repr
  show ("route.policies[" ++ toString index ++ "]").toList = _
  rw [String.toList_append, String.toList_append, List.append_assoc]
  exact congrArg (fun ds => "route.policies[".toList ++ (ds ++ [']'])) hdigits

theorem takeWhile_digits (index : ℕ) (rest : List Char) :
    (Nat.toDigits 10 index ++ (']' :: rest)).takeWhile (fun c => decide (c ≠ ']')) =
      Nat.toDigits 10 index := by
  have hall : ∀ c ∈ Nat.toDigits 10 index, decide (c ≠ ']') = true := by
    intro c hc
    have hdigit := Nat.isDigit_of_mem_toDigits (by decide) (by decide) hc
    rw [decide_eq_true_eq]
    intro hclose
    rw [hclose] at hdigit
    exact absurd hdigit (by decide)
  rw [List.takeWhile_append_of_pos hall, List.takeWhile_cons_of_neg (by simp), List.append_nil]

/-- **Two entries have no detail in common.** -/
theorem about_inj {i j : ℕ} {detail : String} (hi : About (entryContext i) detail)
    (hj : About (entryContext j) detail) : i = j := by
  obtain ⟨ri, hri⟩ := hi
  obtain ⟨rj, hrj⟩ := hj
  have heq : (entryContext i).toList ++ ri = (entryContext j).toList ++ rj := hri.trans hrj.symm
  simp only [toList_entryContext, List.append_assoc, List.singleton_append] at heq
  have hdigits := congrArg (List.takeWhile fun c => decide (c ≠ ']')) (List.append_cancel_left heq)
  rw [takeWhile_digits, takeWhile_digits] at hdigits
  have hvalue := congrArg (fun ds => Nat.ofDigitChars 10 ds 0) hdigits
  simpa only [Nat.ofDigitChars_ten_toDigits] using hvalue

/-! ## Details are about their context -/

/-- One detail on the context. -/
theorem about_single {context : String} {details : List String}
    (h : ∃ rest, details = [context ++ rest]) : ∀ detail ∈ details, About context detail := by
  obtain ⟨rest, rfl⟩ := h
  intro detail hd
  obtain rfl := List.mem_singleton.1 hd
  exact about_append context rest

theorem schemaDetail_about (context : String) (error : SchemaError) :
    About context (schemaDetail context error) := by
  have hloc : About context
      (if error.instancePath.isEmpty then context else context ++ error.instancePath) := by
    split
    · exact List.prefix_refl _
    · exact about_append _ _
  unfold schemaDetail
  simp only
  split
  · exact hloc.append _
  · exact (hloc.append _).append _

theorem validateAgainstSchema_about {schema : E.Schema} {v : Value} {context : String}
    {err : ValidationError} (h : validateAgainstSchema E schema v context = .error err) :
    ∀ detail ∈ err.details, About context detail := by
  obtain ⟨-, hdetails⟩ := validateAgainstSchema_error h
  rw [hdetails]
  intro detail hd
  obtain ⟨error, -, rfl⟩ := List.mem_map.1 hd
  exact schemaDetail_about context error

theorem About.of_append {context rest detail : String} (h : About (context ++ rest) detail) :
    About context detail := by
  rw [About, String.toList_append] at h
  exact (List.prefix_append _ _).trans h

/-- **What an entry adds is about the entry**, whichever check it fails. -/
theorem policyDetails_about (context : String) (entry : RoutePolicy) (policy : Option PolicySpec) :
    ∀ detail ∈ policyDetails E context entry policy, About context detail := by
  unfold policyDetails
  cases policy with
  | none =>
    simp only [List.mem_singleton, forall_eq, String.append_assoc]
    exact about_append _ _
  | some policy =>
    simp only
    split
    · simp only [List.mem_singleton, forall_eq, String.append_assoc]
      exact about_append _ _
    · cases hc : compileSchema E policy.configSchema context with
      | error err => exact about_single (compileSchema_error hc)
      | ok schema =>
        simp only
        cases hm : deepMergeDefaultWithParams policy.defaultConfig entry.params context with
        | error err => exact about_single (deepMerge_error hm)
        | ok merged =>
          simp only
          cases hv : validateAgainstSchema E schema merged (context ++ ".params") with
          | error err =>
            intro detail hd
            exact (validateAgainstSchema_about hv detail hd).of_append
          | ok u => simp

theorem entryDetails_about {db : Tables} {index : ℕ} {entry : RoutePolicy} :
    ∀ detail ∈ entryDetails E db index entry, About (entryContext index) detail := by
  unfold entryDetails
  simp only
  split
  · exact policyDetails_about _ _ _
  · simp only [List.mem_singleton, forall_eq]
    exact about_append (entryContext index) _

/-! ## The entries named -/

/-- Some detail is about the entry at `index`. -/
def Names (details : List String) (index : ℕ) : Prop :=
  ∃ detail ∈ details, About (entryContext index) detail

/-- **The details name the entries that are not attached.** -/
theorem names_detailsOf {db : Tables} {entries : List RoutePolicy} {index : ℕ} :
    Names (detailsOf E db 0 entries) index ↔
      ∃ entry, entries[index]? = some entry ∧ ¬ entry.Attached E db := by
  unfold Names detailsOf
  constructor
  · intro h
    obtain ⟨detail, hd, habout⟩ := h
    obtain ⟨⟨entry, i⟩, hmem, hd⟩ := List.mem_flatMap.1 hd
    -- the detail is of the entry that it names
    obtain rfl : i = index := about_inj (entryDetails_about detail hd) habout
    refine ⟨entry, List.mem_zipIdx_iff_getElem?.1 hmem, ?_⟩
    intro ha
    rw [entryDetails_nil.2 ha] at hd
    exact absurd hd List.not_mem_nil
  · intro h
    obtain ⟨entry, hentry, hna⟩ := h
    have hne : entryDetails E db index entry ≠ [] := fun hnil => hna (entryDetails_nil.1 hnil)
    obtain ⟨detail, hd⟩ := List.exists_mem_of_ne_nil _ hne
    have hmem : (entry, index) ∈ entries.zipIdx 0 := List.mem_zipIdx_iff_getElem?.2 hentry
    exact ⟨detail, List.mem_flatMap.2 ⟨(entry, index), hmem, hd⟩, entryDetails_about detail hd⟩

/-- **The checks of a route are sound, complete and blame exactly the invalid entries**,
for any policies stored, as long as no read of a policy fails. -/
theorem validateRoutePolicies_blames (route : RouteSpec) (faults : ℕ → Option SqlxError)
    (hreads : ∀ i < readCount route.policies, faults i = none) (s : AppState) :
    (((validateRoutePolicies E route).run exec faults s).1 = .ok () ↔
        ∀ entry ∈ route.policies, entry.Attached E s.pool) ∧
      ∀ err, ((validateRoutePolicies E route).run exec faults s).1 = .error err →
        ∀ index, Names err.details index ↔
          ∃ entry, route.policies[index]? = some entry ∧ ¬ entry.Attached E s.pool := by
  rw [validateRoutePolicies_details hreads, ← detailsOf_nil (i := 0), ← List.isEmpty_iff]
  simp only
  constructor
  · split
    · rename_i hnil
      exact iff_of_true rfl hnil
    · rename_i hne
      exact iff_of_false (by simp) hne
  · intro err herr index
    split at herr
    · exact absurd herr (by simp)
    · obtain rfl : _ = err := by simpa using herr
      exact names_detailsOf

namespace Sample

/-- A valid entry, one of an unknown policy, one of a stage that the policy has not, and the
first two again. -/
def mixed : RouteSpec :=
  { users with
    policies := [⟨"pre_route", "quota", "1", none⟩, ⟨"pre_route", "limits", "2", none⟩,
      ⟨"post_response", "quota", "1", none⟩, ⟨"pre_route", "quota", "1", none⟩,
      ⟨"pre_route", "limits", "2", none⟩] }

theorem mixed_attached {index : ℕ} :
    (∃ entry, mixed.policies[index]? = some entry ∧ ¬ entry.Attached .plain quotaStore.pool) ↔
      index = 1 ∨ index = 2 ∨ index = 4 := by
  have hread : Db.rowToPolicy .plain (Db.policyRow .plain quota) = quota :=
    rowToPolicy_policyRow Env.plain_lawful quota
  have hvalid : RoutePolicy.Attached .plain quotaStore.pool ⟨"pre_route", "quota", "1", none⟩ := by
    refine ⟨nofun, Db.policyRow .plain quota, rfl, ?_⟩
    rw [hread]
    exact ⟨List.mem_singleton_self _, quota.configSchema, quota.defaultConfig, rfl, fun _ => rfl, rfl⟩
  have hunknown : ¬ RoutePolicy.Attached .plain quotaStore.pool ⟨"pre_route", "limits", "2", none⟩ := by
    rintro ⟨-, row, hrow, -⟩
    exact absurd hrow (by simp [quotaStore, Tables.selectPolicy, Db.policyRow, quota])
  have hstage : ¬ RoutePolicy.Attached .plain quotaStore.pool ⟨"post_response", "quota", "1", none⟩ := by
    rintro ⟨-, row, hrow, hstage, -⟩
    obtain rfl : Db.policyRow .plain quota = row := Option.some.inj hrow
    rw [hread] at hstage
    exact absurd hstage (by decide)
  match index with
  | 0 => simpa [mixed] using hvalid
  | 1 => simpa [mixed] using hunknown
  | 2 => simpa [mixed] using hstage
  | 3 => simpa [mixed] using hvalid
  | 4 => simpa [mixed] using hunknown
  | index + 5 => simp [mixed]

end Sample

/-- The invalid entries are blamed, and no other, though valid ones are between them. -/
theorem validateRoutePolicies_blames_mixed :
    (∀ i < readCount Sample.mixed.policies, noFault i = none) ∧
      ∃ err, ((validateRoutePolicies .plain Sample.mixed).run exec noFault Sample.quotaStore).1 = .error err ∧
        ∀ index, Names err.details index ↔ index = 1 ∨ index = 2 ∨ index = 4 := by
  obtain ⟨hok, herr⟩ := validateRoutePolicies_blames (E := .plain) Sample.mixed noFault (fun _ _ => rfl)
    Sample.quotaStore
  refine ⟨fun _ _ => rfl, ?_⟩
  cases hrun : ((validateRoutePolicies .plain Sample.mixed).run exec noFault Sample.quotaStore).1 with
  | ok u =>
    obtain ⟨entry, hentry, hno⟩ := Sample.mixed_attached.2 (Or.inl rfl)
    exact absurd (hok.1 hrun entry (List.mem_of_getElem? hentry)) hno
  | error err => exact ⟨err, rfl, fun index => (herr err hrun index).trans Sample.mixed_attached⟩

end Yali
