import Yali.Json.Path
import Yali.Spec.Store
import Yali.Spec.Str

/-!
# Validation and merging

`service/`: the checks of a policy at registration and of a route's policy list,
and the merge of a policy's defaults with a route's params.
-/

namespace Yali

open Conc

/-- The faults found, each as one text that says where it is. -/
structure ValidationError where
  details : List String

def ValidationError.new (detail : String) : ValidationError := ⟨[detail]⟩

/-! ## `service/merge.rs` -/

mutual

/-- `target` with `overlay` laid over it: objects merge, anything else is replaced. -/
def mergeObjects (target overlay : Json) : Json :=
  match overlay with
  | .obj overlayObj =>
    match target with
    | .obj targetObj => .obj (mergeFields targetObj overlayObj)
    -- a target that is not an object is replaced
    | _ => .obj overlayObj
  | overlay => overlay

/-- The loop of `merge_objects` over the members of the overlay. -/
def mergeFields (targetObj : List (String × Json)) : List (String × Json) → List (String × Json)
  | [] => targetObj
  | (key, overlayValue) :: rest =>
    match targetObj.lookup key with
    | some targetValue =>
      if targetValue.isObject && overlayValue.isObject then
        mergeFields (put key (mergeObjects targetValue overlayValue) targetObj) rest
      -- arrays too are replaced whole
      else mergeFields (put key overlayValue targetObj) rest
    | none => mergeFields (put key overlayValue targetObj) rest

end

mutual

/-- Merging keeps the maps ordered, so the result is a value again. -/
theorem mergeObjects_canon {target overlay : Json} (ht : target.Canon) (ho : overlay.Canon) :
    (mergeObjects target overlay).Canon := by
  cases ho with
  | obj hord hov =>
    cases ht with
    | obj tord htv =>
      have h := mergeFields_canon _ _ tord htv hov
      exact .obj h.1 h.2
    | _ => exact .obj hord hov
  | null => exact .null
  | bool b => exact .bool b
  | num n => exact .num n
  | str s => exact .str s
  | arr h => exact .arr h

theorem mergeFields_canon (t o : List (String × Json)) (ht : Ordered t)
    (htv : ∀ x ∈ t, x.2.Canon) (ho : ∀ x ∈ o, x.2.Canon) :
    Ordered (mergeFields t o) ∧ ∀ x ∈ mergeFields t o, x.2.Canon := by
  cases o with
  | nil => exact ⟨ht, htv⟩
  | cons kv rest =>
    obtain ⟨key, ov⟩ := kv
    have hov : ov.Canon := ho (key, ov) List.mem_cons_self
    have hrest : ∀ x ∈ rest, x.2.Canon := fun x hx => ho x (List.mem_cons_of_mem _ hx)
    have hput : ∀ v : Json, v.Canon → ∀ x ∈ put key v t, x.2.Canon := by
      intro v hv x hx
      rcases mem_put hx with rfl | hx
      · exact hv
      · exact htv x hx
    simp only [mergeFields]
    split
    · rename_i tv htl
      split
      · have hm := mergeObjects_canon (htv _ (mem_of_lookup htl)) hov
        exact mergeFields_canon _ rest (put_ordered ht) (hput _ hm) hrest
      · exact mergeFields_canon _ rest (put_ordered ht) (hput _ hov) hrest
    · exact mergeFields_canon _ rest (put_ordered ht) (hput _ hov) hrest

end

/-- The configuration that a policy runs with: its defaults under the params. -/
def deepMergeDefaultWithParams (defaultConfig : Value) (params : Option Value) (context : String) :
    Except ValidationError Value :=
  if !defaultConfig.isObject then
    .error (.new (context ++ ".default_config must be a JSON object"))
  else
    match params with
    | none => .ok defaultConfig
    | some params =>
      if !params.isObject then .error (.new (context ++ ".params must be a JSON object"))
      else .ok ⟨mergeObjects defaultConfig.doc params.doc,
        mergeObjects_canon defaultConfig.canon params.canon⟩

/-! ## `service/validation.rs` -/

def allowedPolicyStages : List String := ["pre_route", "pre_upstream", "post_response"]

/-- All unsupported stages are reported, an empty list by itself. -/
def validateSupportedStages (stages : List String) (context : String) : Except ValidationError Unit :=
  if stages.isEmpty then .error (.new (context ++ ".supported_stages must not be empty"))
  else
    let details := (stages.filter fun stage => !allowedPolicyStages.any (· == stage)).map fun stage =>
      context ++ ".supported_stages contains unsupported stage " ++ stage
    if details.isEmpty then .ok () else .error ⟨details⟩

section Schema

variable (E : Env)

/-- A schema that does not compile is one detail. -/
def compileSchema (schema : Value) (context : String) : Except ValidationError E.Schema :=
  (E.compile schema).mapError fun err => .new (context ++ ".config_schema is invalid: " ++ err)

/-- The detail of one error of a value against a schema. -/
def schemaDetail (context : String) (error : SchemaError) : String :=
  let location := if error.instancePath.isEmpty then context else context ++ error.instancePath
  if error.additionalItems then location ++ ": additional items are not allowed"
  else location ++ ": " ++ error.message

/-- One detail for each error of the validator, in its order. -/
def validateAgainstSchema (schema : E.Schema) (value : Value) (context : String) :
    Except ValidationError Unit :=
  match E.errors schema value with
  | [] => .ok ()
  | errors => .error ⟨errors.map (schemaDetail context)⟩

/-! ## `service/policies.rs` -/

/-- The checks of a registration. -/
def validatePolicySpec (policy : PolicySpec) : Except ValidationError Unit := do
  -- these three are made in any case, the schema only if they find nothing
  let details :=
    (if (Str.trim policy.sha256).isEmpty then ["policy.sha256 must not be empty"] else []) ++
    (if !policy.defaultConfig.isObject then ["policy.default_config must be a JSON object"] else []) ++
    (match validateSupportedStages policy.supportedStages "policy" with
      | .ok () => []
      | .error err => err.details)
  if !details.isEmpty then .error ⟨details⟩
  else
    let schema ← compileSchema E policy.configSchema "policy"
    validateAgainstSchema E schema policy.defaultConfig "policy.default_config"

/-! ## `service/routes.rs` -/

/-- What an entry adds to the details once its policy is read. -/
def policyDetails (context : String) (routePolicy : RoutePolicy) (policy : Option PolicySpec) :
    List String :=
  match policy with
  | none =>
    [context ++ ": policy " ++ routePolicy.id ++ "@" ++ routePolicy.version ++ " not found"]
  | some policy =>
    if !policy.supportedStages.any (· == routePolicy.stage) then
      [context ++ ": stage " ++ routePolicy.stage ++ " not allowed for " ++ routePolicy.id ++ "@" ++
        routePolicy.version]
    else
      match compileSchema E policy.configSchema context with
      | .error err => err.details
      | .ok schema =>
        match deepMergeDefaultWithParams policy.defaultConfig routePolicy.params context with
        | .error err => err.details
        | .ok merged =>
          match validateAgainstSchema E schema merged (context ++ ".params") with
          | .error err => err.details
          | .ok () => []

/-- The turn of the loop for entry `index`: the details it adds. Params that are not
an object are blamed without reading the policy. -/
def checkPolicy (index : ℕ) (routePolicy : RoutePolicy) : Async ValidationError (List String) :=
  let context := "route.policies[" ++ toString index ++ "]"
  if routePolicy.params.any fun v => !v.isObject then
    -- `continue`, before the read
    .ok [context ++ ".params must be a JSON object"]
  else do
    -- a failing read ends the loop with its own detail alone
    let policy ← (Db.getPolicyVersion E routePolicy.id routePolicy.version).mapErr fun err =>
      .new (context ++ ": failed to read policy from db: " ++ err.display)
    return policyDetails E context routePolicy policy

/-- The loop over the entries from `index` on, with the details so far. -/
def checkPolicies (index : ℕ) (details : List String) :
    List RoutePolicy → Async ValidationError (List String)
  | [] => .ok details
  | routePolicy :: rest => do
    let added ← checkPolicy E index routePolicy
    checkPolicies (index + 1) (details ++ added) rest

/-- **The check of a route**: its entries one by one, over the policies stored. -/
def validateRoutePolicies (route : RouteSpec) : Async ValidationError Unit := do
  let details ← checkPolicies E 0 [] route.policies
  if details.isEmpty then .ok () else .err ⟨details⟩

end Schema

end Yali
