import Mathlib.Data.List.Perm.Basic
import Yali.Proof.Codec
import Yali.Proof.Listing
import Yali.Proof.Recovery

/-!
# A backup through the API

`GET /policies` and `GET /routes` list what a process has. The elements of their bodies can be
posted to a new process, the policies first, in any order otherwise.

* `Admitted`: requests that are admissible one after the other, which are all answered with
  success (`Admitted.answered`). What is listed gives such requests (`Inventory.admitted`).
* `backup_restores`: at any point of any number of lives the bodies are accepted by a new
  process, and the processes that start over the two files cannot be told apart.
-/

namespace Yali

open Conc Serde

variable {E : Env}

/-! ## Requests one after the other -/

/-- The answers to calls served one at a time. -/
def answers (E : Env) : AppState → List Call → List (Except ApiError Reply)
  | _, [] => []
  | s, call :: calls => (serveCall E call s).1 :: answers E (serveCall E call s).2 calls

/-- Each request is admissible once the ones before it are written. -/
def Admitted (E : Env) : Tables → List Request → Prop
  | _, [] => True
  | db, req :: reqs => req.Admissible E db ∧ Admitted E (req.written E db) reqs

theorem Admitted.append {db : Tables} {reqs reqs' : List Request} (h : Admitted E db reqs)
    (h' : Admitted E (reqs.foldl (Request.written E) db) reqs') : Admitted E db (reqs ++ reqs') := by
  induction reqs generalizing db with
  | nil => exact h'
  | cons req reqs ih => exact ⟨h.1, ih h.2 h'⟩

/-- **Each is answered with success**, and all of them are written. -/
theorem Admitted.answered {s : AppState} {reqs : List Request} (h : Admitted E s.pool reqs) :
    answers E s (reqs.map .change) = reqs.map (fun req => .ok req.reply) ∧
      (serveCalls E s (reqs.map .change)).pool = reqs.foldl (Request.written E) s.pool := by
  induction reqs generalizing s with
  | nil => exact ⟨rfl, rfl⟩
  | cons req reqs ih =>
    obtain ⟨hadm, hrest⟩ := h
    obtain ⟨hout, hpool⟩ := serial_written hadm s rfl
    have hok : (serve E noFault req s).1 = .ok req.reply := by
      generalize (serve E noFault req s).1 = r at hout
      cases r with
      | error err => exact absurd hout (by simp [outcome, Except.mapError])
      | ok reply => simpa [outcome, Except.mapError] using hout
    rw [← hpool] at hrest
    obtain ⟨hans, htables⟩ := ih hrest
    refine ⟨congrArg₂ List.cons hok hans, htables.trans ?_⟩
    rw [List.foldl_cons, ← hpool]

/-! ## Posting what is listed -/

/-- Policies that pass their check, of keys that are new and distinct. -/
theorem admitted_policies (db : Tables) {policies : List PolicySpec}
    (hvalid : ∀ policy ∈ policies, validatePolicySpec E policy = .ok ())
    (hkeys : (db.policies.map PolicyRow.key ++ policies.map PolicySpec.key).Nodup) :
    Admitted E db (policies.map .createPolicy) ∧
      (policies.map Request.createPolicy).foldl (Request.written E) db =
        { db with policies := db.policies ++ policies.map (Db.policyRow E) } := by
  induction policies generalizing db with
  | nil => exact ⟨trivial, by simp⟩
  | cons policy policies ih =>
    have hfree : ∀ row ∈ db.policies, ¬ (row.id = policy.id ∧ row.version = policy.version) := by
      rintro row hrow ⟨hid, hversion⟩
      have hkey : row.key = policy.key := congrArg toLex (Prod.ext hid hversion)
      exact List.disjoint_of_nodup_append hkeys (List.mem_map_of_mem hrow) (hkey ▸ List.mem_cons_self)
    have hwritten : (Request.createPolicy policy).written E db =
        { db with policies := db.policies ++ [Db.policyRow E policy] } := rfl
    have hnext := ih ((Request.createPolicy policy).written E db)
      (fun p hp => hvalid p (List.mem_cons_of_mem _ hp)) (by
        rw [hwritten, List.map_append, List.append_assoc]
        exact hkeys)
    refine ⟨⟨⟨hvalid policy List.mem_cons_self, hfree⟩, hnext.1⟩, ?_⟩
    rw [List.map_cons, List.foldl_cons, hnext.2, hwritten, List.map_cons, List.append_assoc]
    rfl

/-- Routes whose entries are attached, of ids that are new and distinct. -/
theorem admitted_routes (db : Tables) {routes : List RouteSpec}
    (hatt : ∀ route ∈ routes, ∀ entry ∈ route.policies, entry.Attached E db)
    (hkeys : (db.routes.map RouteRow.id ++ routes.map RouteSpec.id).Nodup) :
    Admitted E db (routes.map .createRoute) ∧
      (routes.map Request.createRoute).foldl (Request.written E) db =
        { db with routes := db.routes ++ routes.map (Db.routeRow E) } := by
  induction routes generalizing db with
  | nil => exact ⟨trivial, by simp⟩
  | cons route routes ih =>
    have hfree : ∀ row ∈ db.routes, row.id ≠ route.id := by
      intro row hrow hid
      exact List.disjoint_of_nodup_append hkeys (List.mem_map_of_mem hrow) (hid ▸ List.mem_cons_self)
    have hwritten : (Request.createRoute route).written E db =
        { db with routes := db.routes ++ [Db.routeRow E route] } := rfl
    have hnext := ih ((Request.createRoute route).written E db)
      (fun r hr => hatt r (List.mem_cons_of_mem _ hr)) (by
        rw [hwritten, List.map_append, List.append_assoc]
        exact hkeys)
    refine ⟨⟨⟨hatt route List.mem_cons_self, hfree⟩, hnext.1⟩, ?_⟩
    rw [List.map_cons, List.foldl_cons, hnext.2, hwritten, List.map_cons, List.append_assoc]
    rfl

/-- The tables hold the policies, which pass their check, and the routes, whose entries are
attached. -/
structure Inventory (E : Env) (policies : List PolicySpec) (routes : List RouteSpec) (db : Tables) : Prop where
  policyRows : db.policies.Perm (policies.map (Db.policyRow E))
  routeRows : db.routes.Perm (routes.map (Db.routeRow E))
  valid : ∀ policy ∈ policies, validatePolicySpec E policy = .ok ()
  attached : ∀ route ∈ routes, ∀ entry ∈ route.policies, entry.Attached E db
  keys : db.PrimaryKeys

/-- Whether an entry is attached is seen in what is read of the policies. -/
theorem RoutePolicy.Attached.alike {db db' : Tables} {entry : RoutePolicy} (ha : entry.Attached E db)
    (h : (db.selectPolicy entry.id entry.version).map (Db.rowToPolicy E) =
      (db'.selectPolicy entry.id entry.version).map (Db.rowToPolicy E)) : entry.Attached E db' := by
  obtain ⟨hobj, row, hrow, hrest⟩ := ha
  rw [hrow] at h
  obtain ⟨row', hrow', hread⟩ := Option.map_eq_some_iff.1 h.symm
  rw [← hread] at hrest
  exact ⟨hobj, row', hrow', hrest⟩

namespace Inventory

variable {policies policies' : List PolicySpec} {routes routes' : List RouteSpec} {db db' : Tables}

theorem perm (h : Inventory E policies routes db) (hp : policies'.Perm policies) (hr : routes'.Perm routes) :
    Inventory E policies' routes' db where
  policyRows := h.policyRows.trans (hp.map _).symm
  routeRows := h.routeRows.trans (hr.map _).symm
  valid policy hmem := h.valid policy (hp.mem_iff.1 hmem)
  attached route hmem := h.attached route (hr.mem_iff.1 hmem)
  keys := h.keys

theorem sound (h : Inventory E policies routes db) : Sound E db where
  policy row hrow := by
    obtain ⟨policy, hmem, rfl⟩ := List.mem_map.1 (h.policyRows.mem_iff.1 hrow)
    exact ⟨policy, rfl, h.valid policy hmem⟩
  route row hrow := by
    obtain ⟨route, hmem, rfl⟩ := List.mem_map.1 (h.routeRows.mem_iff.1 hrow)
    exact ⟨route, rfl, h.attached route hmem⟩

/-- Tables of one inventory have the same rows. -/
theorem alike (h : Inventory E policies routes db) (h' : Inventory E policies routes db') : db.ReadAlike E db' where
  policies := (h.policyRows.trans h'.policyRows.symm).map _
  routes := (h.routeRows.trans h'.routeRows.symm).map _
  keys := h.keys

/-- **An inventory can be posted** over empty tables, the policies first. -/
theorem admitted (h : Inventory E policies routes db) :
    Admitted E ⟨[], []⟩ (policies.map .createPolicy ++ routes.map .createRoute) ∧
      Inventory E policies routes
        ((policies.map Request.createPolicy ++ routes.map Request.createRoute).foldl (Request.written E) ⟨[], []⟩) := by
  have hpolicies : (policies.map PolicySpec.key).Nodup := by
    have hkeys := (h.policyRows.map PolicyRow.key).nodup_iff.1 h.keys.policies
    rwa [List.map_map] at hkeys
  have hroutes : (routes.map RouteSpec.id).Nodup := by
    have hkeys := (h.routeRows.map RouteRow.id).nodup_iff.1 h.keys.routes
    rwa [List.map_map] at hkeys
  have hattached : ∀ rows, ∀ route ∈ routes, ∀ entry ∈ route.policies,
      entry.Attached E ⟨policies.map (Db.policyRow E), rows⟩ := by
    intro rows route hroute entry hentry
    refine (h.attached route hroute entry hentry).alike ?_
    have hread : Keyed.ReadAlike (Db.rowToPolicy E) db.policies (policies.map (Db.policyRow E)) := h.policyRows.map _
    rw [selectPolicy_eq, selectPolicy_eq]
    exact hread.find rowToPolicy_key h.keys.policies _
  obtain ⟨hfirst, hwritten⟩ := admitted_policies ⟨[], []⟩ h.valid hpolicies
  simp only [List.nil_append] at hwritten
  obtain ⟨hrest, hall⟩ := admitted_routes ⟨policies.map (Db.policyRow E), []⟩ (hattached []) hroutes
  simp only [List.nil_append] at hall
  refine ⟨hfirst.append (hwritten ▸ hrest), ?_⟩
  rw [List.foldl_append, hwritten, hall]
  refine ⟨.refl _, .refl _, h.valid, hattached _, ?_, ?_⟩
  · rwa [List.map_map]
  · rwa [List.map_map]

end Inventory

/-! ## What is listed -/

/-- The params of an attached entry are not `null`. -/
theorem RoutePolicy.Attached.clean {db : Tables} {entry : RoutePolicy} (ha : entry.Attached E db) : entry.Clean := by
  intro v hv hnull
  have hobj := ha.1 v hv
  rw [Value.isObject, hnull] at hobj
  exact absurd hobj Bool.false_ne_true

/-- **What sound tables list is their inventory.** -/
theorem inventory_of_sound (hE : E.Lawful) {s : AppState} (h : Sound E s.pool) (hk : s.pool.PrimaryKeys) :
    ∃ policies routes, Inventory E policies routes s.pool ∧
      (serveCall E .listPolicies s).1 = .ok (.policies policies) ∧
      (serveCall E .listRoutes s).1 = .ok (.routes routes) := by
  -- a row read is the row of what it reads
  have hpolicy : ∀ row ∈ s.pool.policies, ∃ policy, row = Db.policyRow E policy ∧
      validatePolicySpec E policy = .ok () ∧ Db.rowToPolicy E row = policy := by
    intro row hrow
    obtain ⟨policy, rfl, hvalid⟩ := h.policy row hrow
    exact ⟨policy, rfl, hvalid, rowToPolicy_policyRow hE policy⟩
  have hroute : ∀ row ∈ s.pool.routes, ∃ route, row = Db.routeRow E route ∧
      (∀ entry ∈ route.policies, entry.Attached E s.pool) ∧ Db.rowToRoute E row = route := by
    intro row hrow
    obtain ⟨route, rfl, hatt⟩ := h.route row hrow
    exact ⟨route, rfl, hatt, rowToRoute_routeRow hE fun entry hentry => (hatt entry hentry).clean⟩
  have hpolicies : s.pool.selectPolicies.Perm s.pool.policies := List.perm_insertionSort _ _
  have hroutes : s.pool.selectRoutes.Perm s.pool.routes := List.perm_insertionSort _ _
  have hpolicyRows : (s.pool.selectPolicies.map (Db.rowToPolicy E)).map (Db.policyRow E) = s.pool.selectPolicies := by
    rw [List.map_map]
    refine (List.map_congr_left fun row hrow => ?_).trans (List.map_id _)
    obtain ⟨policy, rfl, -, hread⟩ := hpolicy row (hpolicies.mem_iff.1 hrow)
    rw [Function.comp_apply, hread, id_eq]
  have hrouteRows : (s.pool.specs E).map (Db.routeRow E) = s.pool.selectRoutes := by
    rw [Tables.specs, List.map_map]
    refine (List.map_congr_left fun row hrow => ?_).trans (List.map_id _)
    obtain ⟨route, rfl, -, hread⟩ := hroute row (hroutes.mem_iff.1 hrow)
    rw [Function.comp_apply, hread, id_eq]
  refine ⟨s.pool.selectPolicies.map (Db.rowToPolicy E), s.pool.specs E, ⟨?_, ?_, ?_, ?_, hk⟩, rfl, rfl⟩
  · rw [hpolicyRows]
    exact hpolicies.symm
  · rw [hrouteRows]
    exact hroutes.symm
  · intro policy hmem
    obtain ⟨row, hrow, rfl⟩ := List.mem_map.1 hmem
    obtain ⟨policy, -, hvalid, hread⟩ := hpolicy row (hpolicies.mem_iff.1 hrow)
    rw [hread]
    exact hvalid
  · intro route hmem
    obtain ⟨row, hrow, rfl⟩ := mem_specs.1 hmem
    obtain ⟨route, -, hatt, hread⟩ := hroute row hrow
    rw [hread]
    exact hatt

/-! ## The bodies -/

/-- The texts of the elements of an array. -/
def elements (E : Env) (body : String) : Option (List String) := do
  let doc ← E.ofText body
  (← doc.asArray).mapM E.toText

/-- The texts of what a call lists. -/
def exported (E : Env) (call : Call) (s : AppState) : Option (List String) :=
  match (serveCall E call s).1 with
  | .ok reply => (reply.body E).bind (elements E)
  | .error _ => none

/-- The requests of bodies of policies, and then of routes. -/
def imported (E : Env) (policies routes : List String) : Option (List Request) := do
  let first ← policies.mapM (postPolicies E)
  let rest ← routes.mapM (postRoutes E)
  some (first ++ rest)

section Bodies

variable {α : Type} [Serde α]

/-- No text is over the limit on a body. -/
def Fits (texts : List String) : Prop := ∀ text ∈ texts, text.utf8ByteSize ≤ bodyLimit

/-- Each text is read as the value. -/
def ReadAs (E : Env) (texts : List String) (l : List α) : Prop :=
  List.Forall₂ (fun text a => E.fromStr text = some a) texts l

/-- The elements of a list that is written are the texts of its values. -/
theorem elements_toText (hE : E.Lawful) (l : List α) :
    (E.toText (ser l)).bind (elements E) = (l.map ser).mapM E.toText := by
  obtain ⟨body, hbody, hparse⟩ := hE.roundTrip (ser l)
  rw [hbody, Option.bind_some]
  unfold elements
  rw [hparse]
  rfl

/-- **The elements of a list that is written are read back.** -/
theorem elements_ser (hE : E.Lawful) {l : List α} (h : ∀ a ∈ l, de (ser a) = some a) :
    ∃ texts, (E.toText (ser l)).bind (elements E) = some texts ∧ ReadAs E texts l := by
  rw [elements_toText hE]
  induction l with
  | nil => exact ⟨[], rfl, .nil⟩
  | cons a l ih =>
    obtain ⟨text, htext, hread⟩ := hE.roundTrip (ser a)
    obtain ⟨texts, hrest, hall⟩ := ih fun b hb => h b (List.mem_cons_of_mem _ hb)
    refine ⟨text :: texts, ?_, .cons ?_ hall⟩
    · rw [List.map_cons, List.mapM_cons, htext, hrest]
      rfl
    · unfold Env.fromStr
      rw [hread]
      exact h a List.mem_cons_self

/-- Texts within the limit are posted as the requests of their values. -/
theorem ReadAs.mapM {texts : List String} {l : List α} (h : ReadAs E texts l) (hfits : Fits texts)
    (f : α → Request) : texts.mapM (fun body => (extractJson E body).map f) = some (l.map f) := by
  induction h with
  | nil => rfl
  | cons hread hrest ih =>
    have hone := hfits _ List.mem_cons_self
    have hothers := ih fun text ht => hfits text (List.mem_cons_of_mem _ ht)
    rw [List.mapM_cons, extractJson, if_pos hone, hread, hothers]
    rfl

/-- In another order the texts are read as the values in that order. -/
theorem ReadAs.perm {texts texts' : List String} {l : List α} (h : ReadAs E texts l) (hp : texts'.Perm texts) :
    ∃ l' : List α, l'.Perm l ∧ ReadAs E texts' l' := by
  obtain ⟨l', hread, hperm⟩ := List.perm_comp_forall₂ hp h
  exact ⟨l', hperm, hread⟩

end Bodies

theorem exported_policies (hE : E.Lawful) (s : AppState) : exported E .listPolicies s =
    ((s.pool.selectPolicies.map (Db.rowToPolicy E)).map ser).mapM E.toText :=
  elements_toText hE _

theorem exported_routes (hE : E.Lawful) (s : AppState) :
    exported E .listRoutes s = ((s.pool.specs E).map ser).mapM E.toText :=
  elements_toText hE _

/-! ## The round trip -/

/-- Posted to the process `s` the bodies are all accepted. Once restarted, it cannot be told
apart from a process over the tables `db`. -/
def Restores (E : Env) (policies routes : List String) (s : AppState) (db : Tables) : Prop :=
  ∃ reqs, imported E policies routes = some reqs ∧
    answers E s (reqs.map .change) = reqs.map (fun req => .ok req.reply) ∧
      ∃ first second, buildStateAndListener E (.of db) = some first ∧
        buildStateAndListener E (.of (serveCalls E s (reqs.map .change)).pool) = some second ∧
        ∀ es, (∀ p, .start p ∈ es → ∃ call, p = router E call) → Indistinct first second es

/-- Over empty tables the bodies of an inventory restore it. -/
theorem Inventory.restores {policies : List PolicySpec} {routes : List RouteSpec} {db : Tables}
    (h : Inventory E policies routes db) {texts texts' : List String} (hp : ReadAs E texts policies)
    (hr : ReadAs E texts' routes) (hfits : Fits texts) (hfits' : Fits texts') {s : AppState}
    (hs : s.pool = ⟨[], []⟩) : Restores E texts texts' s db := by
  obtain ⟨hadm, hrestored⟩ := h.admitted
  rw [← hs] at hadm hrestored
  obtain ⟨hans, htables⟩ := hadm.answered
  rw [← htables] at hrestored
  refine ⟨_, ?_, hans, _, _, (DbFile.Intact.of h.sound).build, (DbFile.Intact.of hrestored.sound).build, ?_⟩
  · unfold imported postPolicies postRoutes
    rw [hp.mapM hfits, hr.mapM hfits']
    rfl
  · intro es hes
    refine indistinct_run ?_ hes
    exact ⟨h.alike hrestored, rfl⟩

/-- The rows have distinct keys. -/
def Distinct (E : Env) (db : Tables) : Prop := Registers E (fun _ => True) db ∧ Outside Set.univ ⟨[], []⟩ db

theorem Distinct.empty : Distinct E ⟨[], []⟩ :=
  ⟨⟨List.nodup_nil, fun _ hrow => absurd hrow List.not_mem_nil⟩, List.nodup_nil, fun _ _ => Iff.rfl⟩

theorem written_distinct (req : Request) (db : Tables) (h : Distinct E db) (hadm : req.Admissible E db) :
    Distinct E (req.written E db) :=
  ⟨written_registers (fun _ _ => trivial) h.1 hadm, written_outside (fun _ _ => Set.mem_univ _) hadm h.2⟩

/-- **A backup restores the configuration.** At any point of the last of any number of lives
over a file that was new to the first, the elements that `GET /policies` and `GET /routes` list
can be posted to a process over empty tables, if none is over the limit on a body, the policies
first and otherwise in any order: each is accepted, and the processes that start over the two
files cannot be told apart. -/
theorem backup_restores (hE : E.Lawful) (calls : ℕ → ℕ → Call) (ls : List Life) (es : List Event)
    (h : ServesLives E calls (ls ++ [.served es])) :
    ∃ cp policies routes, processAfter E ls = some cp ∧
      exported E .listPolicies (Gateway.run (.idle (.start cp)) es).st.cp = some policies ∧
      exported E .listRoutes (Gateway.run (.idle (.start cp)) es).st.cp = some routes ∧
      (Fits policies → Fits routes → ∀ policies' routes', policies'.Perm policies → routes'.Perm routes →
        ∀ s : AppState, s.pool = ⟨[], []⟩ →
          Restores E policies' routes' s (Gateway.run (.idle (.start cp)) es).st.cp.pool) := by
  obtain ⟨cp, hcp, hsound, hdistinct⟩ := lives_kept h.before .empty written_distinct
  have hcalls := h.last hcp
  -- the run of the last life keeps them
  have hsound' : Sound E (Gateway.run (.idle (.start cp)) es).st.cp.pool :=
    (calls_kept sound_kept hsound es hcalls.routed).inv
  have hdistinct' : Distinct E (Gateway.run (.idle (.start cp)) es).st.cp.pool :=
    serial_run (w := .start cp) hcalls hdistinct fun _ _ req _ => written_distinct req
  obtain ⟨policies, routes, hinv, hlistPolicies, hlistRoutes⟩ :=
    inventory_of_sound hE hsound' ⟨hdistinct'.1.nodup, hdistinct'.2.nodup⟩
  obtain ⟨texts, htexts, hread⟩ := elements_ser hE fun (policy : PolicySpec) (_ : policy ∈ policies) =>
    PolicySpec.deserialize_serialize policy
  obtain ⟨texts', htexts', hread'⟩ := elements_ser hE fun (route : RouteSpec) (hroute : route ∈ routes) =>
    RouteSpec.deserialize_serialize fun entry hentry => (hinv.attached route hroute entry hentry).clean
  refine ⟨cp, texts, texts', hcp, ?_, ?_, ?_⟩
  · unfold exported
    rw [hlistPolicies]
    exact htexts
  · unfold exported
    rw [hlistRoutes]
    exact htexts'
  · intro hfits hfits' bodies bodies' hperm hperm' s hs
    obtain ⟨policies', hpolicies, hreads⟩ := hread.perm hperm
    obtain ⟨routes', hroutes, hreads'⟩ := hread'.perm hperm'
    exact (hinv.perm hpolicies hroutes).restores hreads hreads' (fun text ht => hfits text (hperm.mem_iff.1 ht))
      (fun text ht => hfits' text (hperm'.mem_iff.1 ht)) hs

namespace Sample

/-- The calls of `attachment`. -/
def attaching : ℕ → Call
  | 0 => .change (.createPolicy quota)
  | _ => .change (.createRoute quotaRoute)

theorem attachment_serves :
    ServesLives .plain (fun _ => attaching) ([.interrupted 3] ++ [.served attachment]) := by
  intro i es s hl _ n p hp
  have hes : es = attachment := by
    match i with
    | 0 => exact absurd hl (by simp)
    | 1 => simpa using hl.symm
    | i + 2 => exact absurd hl (by simp)
  rw [hes] at hp
  match n with
  | 0 | 1 =>
    obtain rfl : _ = p := by simpa [attachment] using hp
    rw [hes]
    rfl
  | 2 | 3 | 4 | 5 | 6 | 7 => exact absurd hp (by simp [attachment])
  | n + 8 => exact absurd hp (by simp [attachment])

theorem fits_print {doc : Json} (h : String.utf8Len (Text.print doc) ≤ bodyLimit) :
    Fits [String.ofList (Text.print doc)] := by
  intro text ht
  obtain rfl := List.mem_singleton.1 ht
  rwa [String.utf8ByteSize_ofList]

/-- The texts of the policy and of the route. -/
theorem attachment_exported {s : AppState}
    (hs : s.pool = ⟨[Db.policyRow .plain quota], [Db.routeRow .plain quotaRoute]⟩) :
    ∃ policy route, exported .plain .listPolicies s = some [policy] ∧
      exported .plain .listRoutes s = some [route] ∧ Fits [policy] ∧ Fits [route] := by
  refine ⟨.ofList (Text.print (ser quota)), .ofList (Text.print (ser quotaRoute)), ?_, ?_,
    fits_print (by decide +kernel), fits_print (by decide +kernel)⟩
  · have hread := rowToPolicy_policyRow Env.plain_lawful quota
    rw [exported_policies Env.plain_lawful, hs, Tables.selectPolicies, List.insertionSort_cons,
      List.insertionSort_nil, List.orderedInsert_nil, List.map_singleton, hread]
    rfl
  · have hread : Db.rowToRoute .plain (Db.routeRow .plain quotaRoute) = quotaRoute :=
      rowToRoute_routeRow Env.plain_lawful (by simp [quotaRoute, RoutePolicy.Clean])
    rw [exported_routes Env.plain_lawful, hs, Tables.specs, Tables.selectRoutes, List.insertionSort_cons,
      List.insertionSort_nil, List.orderedInsert_nil, List.map_singleton, hread]
    rfl

end Sample

/-- The first process is killed while it starts, and the backup is that of the second: a policy
and a route that it is attached to. -/
theorem backup_restores_quota :
    ∃ cp policies routes, processAfter .plain [.interrupted 3] = some cp ∧
      exported .plain .listPolicies (Gateway.run (.idle (.start cp)) Sample.attachment).st.cp = some policies ∧
      exported .plain .listRoutes (Gateway.run (.idle (.start cp)) Sample.attachment).st.cp = some routes ∧
      policies.length = 1 ∧ routes.length = 1 ∧
      ∀ policies' routes', policies'.Perm policies → routes'.Perm routes →
        ∀ s : AppState, s.pool = ⟨[], []⟩ →
          Restores .plain policies' routes' s (Gateway.run (.idle (.start cp)) Sample.attachment).st.cp.pool := by
  obtain ⟨cp, policies, routes, hcp, hpolicies, hroutes, hrestores⟩ :=
    backup_restores Env.plain_lawful _ _ _ Sample.attachment_serves
  have hnew : processAfter .plain [.interrupted 3] = some ⟨⟨[], []⟩, ⟨1, .new ⟨0, []⟩⟩⟩ := rfl
  obtain rfl := Option.some.inj (hnew.symm.trans hcp)
  obtain ⟨policy, route, hpolicies', hroutes', hfits, hfits'⟩ :=
    Sample.attachment_exported (Sample.attachment_stored ⟨1, .new ⟨0, []⟩⟩)
  obtain rfl : [policy] = policies := Option.some.inj (hpolicies'.symm.trans hpolicies)
  obtain rfl : [route] = routes := Option.some.inj (hroutes'.symm.trans hroutes)
  exact ⟨_, _, _, hcp, hpolicies, hroutes, rfl, rfl, hrestores hfits hfits'⟩

end Yali
