import Yali.Proof.Register

/-!
# What the status of a response tells

A response should blame the request for what is wrong with the request, and the server
for a statement that fails (`Separates`). One branch of the handlers does not: a failing
read of a policy is answered as a validation error. `separates_iff` says that there is
no other.
-/

namespace Yali

open Conc

variable {E : Env}

/-! ## Statements that fail -/

/-- A statement on the tables. -/
def Op.isStatement : Op → Bool
  | .fetchAdd => false
  | .send _ => false
  | _ => true

/-- No statement made has failed. -/
def Clean (visits : List (Op × Option SqlxError)) : Prop :=
  ∀ x ∈ visits, x.1.isStatement = true → x.2 = none

/-- Some statement made has failed. -/
def Faulted (visits : List (Op × Option SqlxError)) : Prop :=
  ∃ o e, (o, some e) ∈ visits ∧ o.isStatement = true

theorem faulted_iff {visits : List (Op × Option SqlxError)} : Faulted visits ↔ ¬ Clean visits := by
  constructor
  · intro h hclean
    obtain ⟨o, e, hmem, ho⟩ := h
    exact absurd (hclean _ hmem ho) (by simp)
  · intro h
    by_contra hno
    refine h ?_
    intro x hx ho
    obtain ⟨o, fault⟩ := x
    cases fault with
    | none => rfl
    | some e => exact absurd ⟨o, e, hx, ho⟩ hno

theorem clean_nil : Clean [] := by simp [Clean]

theorem clean_append {a b : List (Op × Option SqlxError)} : Clean (a ++ b) ↔ Clean a ∧ Clean b := by
  simp only [Clean, List.forall_mem_append]

theorem clean_single {o : Op} (ho : o.isStatement = true) {fault : Option SqlxError} :
    Clean [(o, fault)] ↔ fault = none := by
  simp [Clean, ho]

/-- A violation of a `UNIQUE` or `PRIMARY KEY` constraint, by the extended result code. -/
def SqlxError.isUniqueViolation : SqlxError → Bool
  | .database code _ => code == 1555 || code == 2067
  | .other _ => false

/-- SQLite names these constraints in the messages of their violations only. -/
def SqlxError.Worded (e : SqlxError) : Prop :=
  ∀ code message, e = .database code message →
    (Str.contains message "UNIQUE" || Str.contains message "PRIMARY") = true → e.isUniqueViolation = true

theorem mapDbError_internal {e : SqlxError} (hw : e.Worded) (hu : e.isUniqueViolation = false) :
    (mapDbError e).status = .internalServerError := by
  cases e with
  | other text => rfl
  | database code message =>
    simp only [mapDbError]
    split
    · rename_i h
      rw [hw code message rfl h] at hu
      exact absurd hu (by simp)
    · rfl

/-! ## What a request executes -/

theorem visits_ofExcept {ε α : Type} (r : Except ε α) (c : ℕ → Option SqlxError) (s : AppState) :
    (Prog.ofExcept r : Async ε α).visits exec c s = [] := by
  cases r <;> rfl

theorem checkPolicy_clean (index : ℕ) (entry : RoutePolicy) (c : ℕ → Option SqlxError) (s : AppState) :
    Clean ((checkPolicy E index entry).visits exec c s) ↔ (entry.isRead = true → c 0 = none) := by
  unfold checkPolicy
  by_cases hr : entry.isRead = true
  · have hany : (entry.params.any fun v => !v.isObject) = false := by simpa [RoutePolicy.isRead] using hr
    have hrest : ∀ r : Except SqlxError (Option PolicyRow),
        ∀ f : Option PolicySpec → Async ValidationError (List String),
        (∀ policy c s, (f policy).visits exec c s = []) → ∀ c s, ∀ g : SqlxError → ValidationError,
        ((((Prog.ofExcept r : Async SqlxError _).bind fun row => .ok (row.map (Db.rowToPolicy E))).mapErr
          g).bind f).visits exec c s = [] := by
      intro r f hf c s g
      cases r with
      | error e => rfl
      | ok row => exact hf _ c s
    simp only [hany, Bool.false_eq_true, if_false, Db.getPolicyVersion, Prog.bind_eq, Prog.op_bind,
      Prog.mapErr_op, Prog.visits_op, Prog.pure_eq]
    rw [hrest _ _ fun _ _ _ => rfl, clean_single rfl]
    exact ⟨fun h _ => h, fun h => h hr⟩
  · have hany : (entry.params.any fun v => !v.isObject) = true := by simpa [RoutePolicy.isRead] using hr
    simp only [hany, if_true, Prog.visits_ok]
    exact iff_of_true clean_nil fun h => absurd h hr

/-- **The loop over the entries** makes all its reads, or stops at the first that fails. -/
theorem checkPolicies_clean (entries : List RoutePolicy) (index : ℕ) (details : List String)
    (c : ℕ → Option SqlxError) (s : AppState) :
    Clean ((checkPolicies E index details entries).visits exec c s) ↔
      ∀ i < readCount entries, c i = none := by
  induction entries generalizing index details c with
  | nil => exact iff_of_true clean_nil (by simp [readCount])
  | cons entry entries ih =>
    simp only [checkPolicies, Prog.bind_eq, Prog.visits_bind]
    rw [clean_append, checkPolicy_clean, forall_reads_cons]
    rcases checkPolicy_run (E := E) index entry c s with ⟨hc, hrun⟩ | ⟨⟨hread, hc⟩, err, c', hrun⟩
    · rw [hrun]
      exact and_congr_right fun _ => ih _ _ _
    · exact iff_of_false (fun h => hc (h.1 hread)) fun h => hc (h.1 hread)

theorem validateRoutePolicies_clean (route : RouteSpec) (c : ℕ → Option SqlxError) (s : AppState) :
    Clean ((validateRoutePolicies E route).visits exec c s) ↔
      ∀ i < readCount route.policies, c i = none := by
  simp only [validateRoutePolicies, Prog.bind_eq, Prog.visits_bind]
  rw [clean_append, checkPolicies_clean]
  refine and_iff_left ?_
  rcases checkPolicies_run (E := E) route.policies 0 [] c s with ⟨-, hr⟩ | ⟨-, err, c', hr⟩
  · rw [hr]
    simp only
    split
    · exact clean_nil
    · exact clean_nil
  · rw [hr]
    exact clean_nil

theorem publishFromDb_clean (c : ℕ → Option SqlxError) (s : AppState) :
    Clean ((publishFromDb E).visits exec c s) ↔ c 0 = none := by
  have hlist : (Db.listRoutes E).visits exec c s = [(.selectRoutes, c 0)] := by
    simp only [Db.listRoutes, Prog.bind_eq, Prog.op_bind, Prog.visits_op]
    cases c 0 <;> rfl
  simp only [publishFromDb, Prog.bind_eq, Prog.visits_bind, hlist, listRoutes_run]
  rw [clean_append, clean_single rfl]
  refine and_iff_left ?_
  -- the increment and the send are no statements
  cases c 0 with
  | some e => exact clean_nil
  | none =>
    change Clean [(Op.fetchAdd, _), (Op.send _, _)]
    simp [Clean, Op.isStatement]

theorem publishAndReply_clean (reply : Reply) (c : ℕ → Option SqlxError) (s : AppState) :
    Clean ((publishAndReply E reply).visits exec c s) ↔ c 0 = none := by
  rw [publishAndReply, Prog.visits_bind, Prog.visits_mapErr, clean_append, publishFromDb_clean]
  refine and_iff_left ?_
  split
  · exact clean_nil
  · exact clean_nil

/-- The answer once the request is written: the read of the routes decides. -/
theorem publishAndReply_run (reply : Reply) (c : ℕ → Option SqlxError) (s : AppState) :
    ((publishAndReply E reply).run exec c s).1 =
      match c 0 with
      | none => .ok reply
      | some e => .error (mapDbError e) := by
  rw [publishAndReply, Prog.run_bind, Prog.run_mapErr, publishFromDb_run]
  cases c 0 <;> rfl

namespace Request

/-- The number of policies that the checks read, unless a read fails. -/
def readCount : Request → ℕ
  | .createRoute route => Yali.readCount route.policies
  | .updateRoute _ route => Yali.readCount route.policies
  | _ => 0

theorem readCount_valid {req : Request} {db : Tables} (h : req.Valid E db) : req.readCount = req.reads := by
  cases req with
  | createRoute route => exact readCount_attached h
  | updateRoute id route => exact readCount_attached h
  | _ => rfl

theorem check_clean (req : Request) (c : ℕ → Option SqlxError) (s : AppState) :
    Clean ((req.check E).visits exec c s) ↔ ∀ i < req.readCount, c i = none := by
  have hnone : ∀ i < 0, c i = none := fun i hi => absurd hi (Nat.not_lt_zero i)
  cases req with
  | createPolicy policy =>
    simp only [check, visits_ofExcept]
    exact iff_of_true clean_nil hnone
  | createRoute route =>
    simp only [check, Prog.visits_mapErr]
    exact validateRoutePolicies_clean route c s
  | updateRoute id route =>
    simp only [check, Prog.visits_mapErr]
    exact validateRoutePolicies_clean (route.renamed id) c s
  | deleteRoute id => exact iff_of_true clean_nil hnone

theorem write_visits (req : Request) (c : ℕ → Option SqlxError) (s : AppState) :
    (req.write E).visits exec c s = [(req.writeOp E, c 0)] := by
  rw [write, Prog.visits_op, visits_ofExcept]

theorem writeOp_isStatement (req : Request) : (req.writeOp E).isStatement = true := by
  cases req with
  | _ => rfl

/-- What a request comes to, with the statements that it has made. -/
inductive Settles (E : Env) (faults : ℕ → Option SqlxError) (req : Request) (s : AppState) :
    Except ApiError Reply → List (Op × Option SqlxError) → Prop
  | unread (h : ¬ ∀ i < req.readCount, faults i = none) (err : ApiError)
    (hs : err.status = .unprocessableEntity) (visits) (hv : ¬ Clean visits) :
    Settles E faults req s (.error err) visits
  | invalid (h : ∀ i < req.readCount, faults i = none) (hi : ¬ req.Valid E s.pool) (err : ApiError)
    (hs : err.status = .unprocessableEntity) (visits) (hv : Clean visits) :
    Settles E faults req s (.error err) visits
  | failed (h : ∀ i < req.readCount, faults i = none) (hf : ¬ ∀ i ≤ req.reads + 1, faults i = none)
    (err : ApiError) (hs : err.status = .internalServerError) (visits) (hv : ¬ Clean visits) :
    Settles E faults req s (.error err) visits
  | refused (h : ∀ i < req.readCount, faults i = none) (hadm : ¬ req.Admissible E s.pool) (err : ApiError)
    (hk : req.KeyRefused s.pool err) (visits) (hv : Clean visits) :
    Settles E faults req s (.error err) visits
  | answered (h : ∀ i < req.readCount, faults i = none) (visits) (hv : Clean visits) :
    Settles E faults req s (.ok req.reply) visits

end Request

/-- The failures are none of a uniqueness constraint. -/
def OtherFaults (faults : ℕ → Option SqlxError) : Prop :=
  ∀ n e, faults n = some e → e.Worded ∧ e.isUniqueViolation = false

theorem OtherFaults.internal {faults : ℕ → Option SqlxError} (hf : OtherFaults faults) {n : ℕ}
    {e : SqlxError} (he : faults n = some e) : (mapDbError e).status = .internalServerError := by
  obtain ⟨hw, hu⟩ := hf n e he
  exact mapDbError_internal hw hu

section Settle

variable {faults : ℕ → Option SqlxError} (hf : OtherFaults faults) {req : Request} {s : AppState}
include hf

/-- A write that fails. -/
theorem settles_fault (hread : ∀ i < req.readCount, faults i = none) {e : SqlxError}
    (hw : faults req.reads = some e) (before after : List (Op × Option SqlxError)) :
    req.Settles E faults s (.error (mapDbError e)) (before ++ ([(req.writeOp E, some e)] ++ after)) := by
  refine .failed hread ?_ _ (hf.internal hw) _ ?_
  · intro h
    rw [h req.reads (by omega)] at hw
    exact absurd hw (by simp)
  · intro h
    have hsingle := (clean_append.1 (clean_append.1 h).2).1
    exact absurd ((clean_single req.writeOp_isStatement).1 hsingle) (by simp)

/-- **Once the request is written**, the read of the routes decides. -/
theorem settles_written (hread : ∀ i < req.readCount, faults i = none)
    {before : List (Op × Option SqlxError)}
    (hbefore : Clean before) {rest : ℕ → Option SqlxError} (hrest : rest 0 = faults (req.reads + 1)) :
    req.Settles E faults s
      ((publishAndReply E req.reply).run exec rest { s with pool := req.written E s.pool }).1
      (before ++ ([(req.writeOp E, none)] ++
        (publishAndReply E req.reply).visits exec rest { s with pool := req.written E s.pool })) := by
  have hvisits : Clean (before ++ ([(req.writeOp E, none)] ++
      (publishAndReply E req.reply).visits exec rest { s with pool := req.written E s.pool })) ↔
        faults (req.reads + 1) = none := by
    rw [clean_append, clean_append, publishAndReply_clean, clean_single req.writeOp_isStatement, hrest]
    exact ⟨fun h => h.2.2, fun h => ⟨hbefore, rfl, h⟩⟩
  rw [publishAndReply_run, hrest]
  cases hl : faults (req.reads + 1) with
  | some e =>
    refine .failed hread ?_ _ (hf.internal hl) _ ?_
    · intro h
      rw [h _ le_rfl] at hl
      exact absurd hl (by simp)
    · intro h
      rw [hvisits.1 h] at hl
      exact absurd hl (by simp)
  | none => exact .answered hread _ (hvisits.2 hl)

end Settle

/-- **A request on its own**, from any store and with any statements failing: its answer
beside the statements made. -/
theorem serve_settles {faults : ℕ → Option SqlxError} (hf : OtherFaults faults) (req : Request)
    (s : AppState) :
    req.Settles E faults s (serve E faults req s).1 ((handle E req).visits exec faults s) := by
  have hclean := req.check_clean (E := E) faults s
  unfold serve
  simp only [handle_eq, Request.change_eq, Prog.bind_assoc, Prog.run_bind, Prog.visits_bind]
  rcases Request.check_run (E := E) req faults s with ⟨⟨hv, hreads⟩, hrun⟩ | ⟨hno, err, c', hstatus, hrun⟩
  · rw [hrun]
    have hcount := Request.readCount_valid hv
    rw [hcount] at hclean
    have hread : ∀ i < req.readCount, faults i = none := by rwa [hcount]
    have hcheck := hclean.2 hreads
    simp only [Request.write_run, Request.write_visits, Nat.zero_add]
    cases hw : faults req.reads with
    | some e =>
      rw [(Request.write_fault (E := E) req e s).1]
      exact settles_fault hf hread hw _ _
    | none =>
      rcases Request.write_cases hv with ⟨hadm, hok, hs⟩ | ⟨hnadm, err, herr, hs, hkey⟩
      · rw [hok, hs]
        have hnext : 0 + 1 + req.reads = req.reads + 1 := by omega
        exact settles_written hf hread hcheck (congrArg faults hnext)
      · rw [herr]
        refine .refused hread hnadm err hkey _ ?_
        exact clean_append.2 ⟨hcheck, clean_append.2
          ⟨(clean_single req.writeOp_isStatement).2 rfl, clean_nil⟩⟩
  · rw [hrun]
    simp only [List.append_nil]
    by_cases hread : ∀ i < req.readCount, faults i = none
    · refine .invalid hread ?_ err hstatus _ (hclean.2 hread)
      intro hv
      rw [Request.readCount_valid hv] at hread
      exact hno ⟨hv, hread⟩
    · exact .unread hread err hstatus _ fun h => hread (hclean.1 h)

/-! ## The law -/

namespace Request

/-- The id of the request, or its id and version, is stored. -/
def Stored (db : Tables) : Request → Prop
  | .createPolicy policy => ∃ row ∈ db.policies, row.id = policy.id ∧ row.version = policy.version
  | .createRoute route => ∃ row ∈ db.routes, row.id = route.id
  | .updateRoute id _ => ∃ row ∈ db.routes, row.id = id
  | .deleteRoute id => ∃ row ∈ db.routes, row.id = id

/-- The route id of the request is not stored. -/
def Missing (db : Tables) : Request → Prop
  | .createPolicy _ => False
  | .createRoute route => ∀ row ∈ db.routes, row.id ≠ route.id
  | .updateRoute id _ => ∀ row ∈ db.routes, row.id ≠ id
  | .deleteRoute id => ∀ row ∈ db.routes, row.id ≠ id

theorem KeyRefused.cases {db : Tables} {req : Request} {err : ApiError} (h : req.KeyRefused db err) :
    (err.status = .conflict ∧ req.Stored db) ∨ (err.status = .notFound ∧ req.Missing db) := by
  cases req with
  | createPolicy policy => exact Or.inl h
  | createRoute route => exact Or.inl h
  | updateRoute id route => exact Or.inr h
  | deleteRoute id => exact Or.inr h

theorem reply_status (req : Request) :
    req.reply.status = .created ∨ req.reply.status = .ok ∨ req.reply.status = .noContent := by
  cases req with
  | createPolicy policy => exact Or.inl rfl
  | createRoute route => exact Or.inl rfl
  | updateRoute id route => exact Or.inr (Or.inl rfl)
  | deleteRoute id => exact Or.inr (Or.inr rfl)

end Request

/-- The status of the response separates the request's faults from the server's. -/
structure Separates (E : Env) (faults : ℕ → Option SqlxError) (req : Request) (s : AppState) : Prop where
  server : status (serve E faults req s).1 = .internalServerError ↔
    Faulted ((handle E req).visits exec faults s)
  conflict : status (serve E faults req s).1 = .conflict → req.Stored s.pool
  notFound : status (serve E faults req s).1 = .notFound → req.Missing s.pool
  unprocessable : status (serve E faults req s).1 = .unprocessableEntity → ¬ req.Valid E s.pool

/-- What the status of an outcome says, unless a read failed. -/
theorem Request.Settles.separates {faults : ℕ → Option SqlxError} {req : Request} {s : AppState}
    {r : Except ApiError Reply} {visits : List (Op × Option SqlxError)}
    (h : req.Settles E faults s r visits) (hreads : ∀ i < req.readCount, faults i = none) :
    (status r = .internalServerError ↔ ¬ Clean visits) ∧ (status r = .conflict → req.Stored s.pool) ∧
      (status r = .notFound → req.Missing s.pool) ∧
      (status r = .unprocessableEntity → ¬ req.Valid E s.pool) := by
  cases h with
  | unread hread err hs _ hv => exact absurd hreads hread
  | invalid hread hi err hs _ hv =>
    have hstatus : status (.error err) = .unprocessableEntity := hs
    rw [hstatus]
    exact ⟨iff_of_false (by decide) (not_not.2 hv), nofun, nofun, fun _ => hi⟩
  | failed hread hfail err hs _ hv =>
    have hstatus : status (.error err) = .internalServerError := hs
    rw [hstatus]
    exact ⟨iff_of_true rfl hv, nofun, nofun, nofun⟩
  | refused hread hadm err hk _ hv =>
    rcases hk.cases with ⟨hs, hkey⟩ | ⟨hs, hkey⟩
    · have hstatus : status (.error err) = .conflict := hs
      rw [hstatus]
      exact ⟨iff_of_false (by decide) (not_not.2 hv), fun _ => hkey, nofun, nofun⟩
    · have hstatus : status (.error err) = .notFound := hs
      rw [hstatus]
      exact ⟨iff_of_false (by decide) (not_not.2 hv), nofun, fun _ => hkey, nofun⟩
  | answered hread _ hv =>
    change (req.reply.status = _ ↔ _) ∧ (req.reply.status = _ → _) ∧ (req.reply.status = _ → _) ∧
      (req.reply.status = _ → _)
    rcases req.reply_status with hs | hs | hs
    all_goals
      rw [hs]
      exact ⟨iff_of_false (by decide) (not_not.2 hv), nofun, nofun, nofun⟩

/-- **The status separates them exactly when no policy read fails.** -/
theorem separates_iff {faults : ℕ → Option SqlxError} (hf : OtherFaults faults) (req : Request)
    (s : AppState) : Separates E faults req s ↔ ∀ i < req.readCount, faults i = none := by
  have hsettles := serve_settles (E := E) hf req s
  constructor
  · intro h
    have hserver := h.server
    generalize (serve E faults req s).1 = r at hsettles hserver
    generalize (handle E req).visits exec faults s = visits at hsettles hserver
    rw [faulted_iff] at hserver
    cases hsettles with
    | unread hread err hs _ hv =>
      -- a failed read is answered as if the request were invalid
      have h500 : err.status = .internalServerError := hserver.2 hv
      rw [hs] at h500
      exact absurd h500 (by decide)
    | invalid hread hi err hs _ hv => exact hread
    | failed hread hfail err hs _ hv => exact hread
    | refused hread hadm err hk _ hv => exact hread
    | answered hread _ hv => exact hread
  · intro hreads
    obtain ⟨hserver, hconflict, hmissing, hinvalid⟩ := hsettles.separates hreads
    exact ⟨hserver.trans faulted_iff.symm, hconflict, hmissing, hinvalid⟩

namespace Sample

theorem quotaRoute_accepted : Accepts Env.plain noFault (.createRoute quotaRoute) quotaStore := by
  refine accepts_iff.2 ⟨⟨?_, by simp [quotaStore]⟩, fun _ _ => rfl, rfl⟩
  intro entry hentry
  obtain rfl := List.mem_singleton.1 hentry
  have hfree : ∀ row ∈ (Tables.mk [] []).policies,
      ¬ (row.id = quota.id ∧ row.version = quota.version) := by simp
  have hreg : Registered Env.plain quotaStore.pool quota := registered_append hfree quota_valid
  exact hreg.attached Env.plain_lawful rfl rfl (List.mem_singleton_self _) (Or.inl rfl)

/-- Statement `n` fails. -/
def locked (n : ℕ) : ℕ → Option SqlxError := fun i =>
  if i = n then some (.database 5 "database is locked") else none

theorem locked_other (n : ℕ) : OtherFaults (locked n) := by
  intro i e he
  unfold locked at he
  split at he
  · obtain rfl := Option.some.inj he
    refine ⟨?_, rfl⟩
    intro code message heq hwords
    obtain ⟨-, rfl⟩ : 5 = code ∧ "database is locked" = message := by simpa using heq
    exact absurd hwords (by decide)
  · exact absurd he (by simp)

end Sample

/-- The policy of the entry is read, the write of the route fails: 500. -/
theorem separates_iff_quota :
    OtherFaults (Sample.locked 1) ∧
      Separates .plain (Sample.locked 1) (.createRoute Sample.quotaRoute) Sample.quotaStore ∧
      (Request.createRoute Sample.quotaRoute).readCount = 1 ∧
      status (serve .plain (Sample.locked 1) (.createRoute Sample.quotaRoute) Sample.quotaStore).1 =
        .internalServerError := by
  have hf := Sample.locked_other 1
  have hseparates : Separates .plain (Sample.locked 1) (.createRoute Sample.quotaRoute) Sample.quotaStore := by
    refine (separates_iff hf (.createRoute Sample.quotaRoute) Sample.quotaStore).2 ?_
    intro i hi
    obtain rfl : i = 0 := Nat.lt_one_iff.1 hi
    rfl
  have hfault : Faulted ((handle .plain (.createRoute Sample.quotaRoute)).visits exec (Sample.locked 1)
      Sample.quotaStore) := by
    obtain ⟨k, hhandle, hk⟩ := Sample.quotaRoute_checked
    refine ⟨.insertRoute (Db.routeRow .plain Sample.quotaRoute), .database 5 "database is locked", ?_, rfl⟩
    rw [hhandle, Prog.visits_op]
    refine List.mem_cons_of_mem _ ?_
    -- the policy is found
    change _ ∈ (k (.ok (some (Db.policyRow .plain Sample.quota)))).visits exec _ _
    rw [hk]
    exact List.mem_cons_self
  exact ⟨hf, hseparates, rfl, hseparates.server.2 hfault⟩

/-- A request that would be accepted is refused as invalid when the read of its policy
fails. -/
theorem failed_read_is_unprocessable :
    Accepts Env.plain noFault (.createRoute Sample.quotaRoute) Sample.quotaStore ∧
      OtherFaults (Sample.locked 0) ∧
      status (serve Env.plain (Sample.locked 0) (.createRoute Sample.quotaRoute) Sample.quotaStore).1 =
        .unprocessableEntity ∧
      ¬ Separates Env.plain (Sample.locked 0) (.createRoute Sample.quotaRoute) Sample.quotaStore := by
  have hstatus : status (serve Env.plain (Sample.locked 0) (.createRoute Sample.quotaRoute)
      Sample.quotaStore).1 = .unprocessableEntity := rfl
  refine ⟨Sample.quotaRoute_accepted, Sample.locked_other 0, hstatus, ?_⟩
  intro h
  have hfault : Faulted ((handle Env.plain (.createRoute Sample.quotaRoute)).visits exec
      (Sample.locked 0) Sample.quotaStore) :=
    ⟨.selectPolicy "quota" "1", .database 5 "database is locked", List.mem_cons_self, rfl⟩
  have h500 := h.server.2 hfault
  rw [hstatus] at h500
  exact absurd h500 (by decide)

end Yali
