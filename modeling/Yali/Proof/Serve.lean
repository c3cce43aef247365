import Yali.Proof.Checks
import Yali.Spec.Api

/-!
# A request on its own

Every handler checks, writes and publishes. `Request.change` is what comes before
the publication, and `handle_eq` splits a handler there.

* `checkPolicies_run`: the loop collects the details of the entries, unless a read fails.
* `validateRoutePolicies_run`: a route passes exactly when each of its entries is
  `Attached` to a stored policy and no read fails.
* `change_run`: with any statements failing, `change` makes the write of the request
  or ends in an error and leaves the state as it was.
* `publishFromDb_run`: what the publication does, by the outcome of its read.
-/

namespace Yali

open Conc

variable (E : Env)

/-! ## Splitting a handler -/

/-- The route that `updateRoute` writes. -/
def RouteSpec.renamed (route : RouteSpec) (id : String) : RouteSpec := { route with id := id }

theorem RouteSpec.renamed_eq (route : RouteSpec) (id : String) :
    (if route.id ≠ id then { route with id := id } else route) = route.renamed id := by
  unfold renamed
  split
  · rfl
  · rename_i h
    obtain rfl : route.id = id := not_not.1 h
    rfl

namespace Request

/-- The checks and the write of a request. -/
def change : Request → Async ApiError Unit
  | .createPolicy policy => do
    .ofExcept ((validatePolicySpec E policy).mapError fun err => .validation err.details)
    (Db.insertPolicy E policy).mapErr mapDbError
  | .createRoute route => do
    (validateRoutePolicies E route).mapErr fun err => .validation err.details
    (Db.insertRoute E route).mapErr mapDbError
  | .updateRoute id route => do
    (validateRoutePolicies E (route.renamed id)).mapErr fun err => .validation err.details
    let rows ← (Db.updateRoute E (route.renamed id)).mapErr mapDbError
    if rows = 0 then .err (.notFound "route not found") else .ok ()
  | .deleteRoute id => do
    let rows ← (Db.deleteRoute id).mapErr mapDbError
    if rows = 0 then .err (.notFound "route not found") else .ok ()

def reply : Request → Reply
  | .createPolicy policy => .policyCreated policy
  | .createRoute route => .routeCreated route
  | .updateRoute id route => .route (route.renamed id)
  | .deleteRoute _ => .noContent

/-- A policy is created by its own request alone. -/
theorem reply_created {req : Request} {policy : PolicySpec} (h : req.reply = .policyCreated policy) :
    req = .createPolicy policy := by
  cases req with
  | createPolicy policy' =>
    obtain rfl : policy' = policy := by simpa [reply] using h
    rfl
  | _ => exact absurd h (by simp [reply])

end Request

/-- The rest of a handler. -/
def publishAndReply (reply : Reply) : Handler :=
  ((publishFromDb E).mapErr mapDbError).bind fun _ => .ok reply

theorem handle_eq (req : Request) :
    handle E req = (req.change E).bind fun _ => publishAndReply E req.reply := by
  have hif : ∀ (rows : ℕ) (reply : Reply),
      (if rows = 0 then (.err (.notFound "route not found") : Handler)
        else (publishAndReply E reply)) =
      Prog.bind (if rows = 0 then .err (.notFound "route not found") else .ok ())
        fun _ : Unit => publishAndReply E reply := by
    intro rows reply
    split <;> rfl
  cases req with
  | createPolicy policy =>
    simp only [handle, Api.createPolicy, Request.change, Prog.bind_eq, Prog.bind_assoc]; rfl
  | createRoute route =>
    simp only [handle, Api.createRoute, Request.change, Prog.bind_eq, Prog.bind_assoc]; rfl
  | updateRoute id route =>
    simp only [handle, Api.updateRoute, Request.change, Prog.bind_eq, Prog.bind_assoc,
      RouteSpec.renamed_eq, ← hif]
    rfl
  | deleteRoute id =>
    simp only [handle, Api.deleteRoute, Request.change, Prog.bind_eq, Prog.bind_assoc, ← hif]
    rfl

/-! ## The checks of a route -/

variable {E}

/-- The turn for one entry: it reads the policy if its params allow, and adds the details
of the entry or ends the loop. -/
theorem checkPolicy_run (index : ℕ) (entry : RoutePolicy) (c : ℕ → Option SqlxError) (s : AppState) :
    ((entry.isRead = true → c 0 = none) ∧ (checkPolicy E index entry).run exec c s =
        (.ok (entryDetails E s.pool index entry), s, fun n => c (n + readCount [entry]))) ∨
      ((entry.isRead = true ∧ c 0 ≠ none) ∧
        ∃ err c', (checkPolicy E index entry).run exec c s = (.error err, s, c')) := by
  unfold checkPolicy entryDetails
  by_cases hr : entry.isRead = true
  · have hany : (entry.params.any fun v => !v.isObject) = false := by simpa [RoutePolicy.isRead] using hr
    have hcount : readCount [entry] = 1 := by simp [readCount, hr]
    simp only [hany, hr, Bool.false_eq_true, if_false, if_true, hcount]
    simp only [Db.getPolicyVersion, Prog.bind_eq, Prog.op_bind, Prog.mapErr_op, Prog.run_op, exec]
    cases hc : c 0 with
    | some e =>
      right
      simp only [statement, Prog.ofExcept, Prog.err_bind, Prog.mapErr_err, Prog.run_err]
      exact ⟨by simp, _, _, rfl⟩
    | none =>
      left
      exact ⟨by simp, rfl⟩
  · -- params that are not an object are blamed without a read
    have hany : (entry.params.any fun v => !v.isObject) = true := by simpa [RoutePolicy.isRead] using hr
    have hcount : readCount [entry] = 0 := by simp [readCount, hr]
    left
    simp only [hany, hr, if_true, Prog.run_ok, hcount]
    exact ⟨by simp, rfl⟩

theorem forall_reads_cons {entry : RoutePolicy} {entries : List RoutePolicy}
    {c : ℕ → Option SqlxError} :
    (∀ i < readCount (entry :: entries), c i = none) ↔
      (entry.isRead = true → c 0 = none) ∧
        ∀ i < readCount entries, c (i + readCount [entry]) = none := by
  by_cases hr : entry.isRead = true
  · have hone : readCount [entry] = 1 := by simp [readCount, hr]
    have hcons : readCount (entry :: entries) = readCount entries + 1 := by simp [readCount, hr]
    rw [hone, hcons]
    constructor
    · intro h
      exact ⟨fun _ => h 0 (by omega), fun i hi => h (i + 1) (by omega)⟩
    · intro h i hi
      cases i with
      | zero => exact h.1 hr
      | succ i => exact h.2 i (by omega)
  · have hzero : readCount [entry] = 0 := by simp [readCount, hr]
    have hcons : readCount (entry :: entries) = readCount entries := by simp [readCount, hr]
    rw [hzero, hcons]
    constructor
    · intro h
      exact ⟨fun h' => absurd h' hr, h⟩
    · intro h
      exact h.2

/-- **The loop over the entries** collects their details, unless a read fails. -/
theorem checkPolicies_run (entries : List RoutePolicy) (index : ℕ) (details : List String)
    (c : ℕ → Option SqlxError) (s : AppState) :
    ((∀ i < readCount entries, c i = none) ∧
        (checkPolicies E index details entries).run exec c s =
          (.ok (details ++ detailsOf E s.pool index entries), s, fun n => c (n + readCount entries))) ∨
      (¬ (∀ i < readCount entries, c i = none) ∧
        ∃ err c', (checkPolicies E index details entries).run exec c s = (.error err, s, c')) := by
  induction entries generalizing index details c with
  | nil =>
    left
    refine ⟨by simp [readCount], ?_⟩
    rw [detailsOf, List.zipIdx_nil, List.flatMap_nil, List.append_nil]
    rfl
  | cons entry entries ih =>
    rw [forall_reads_cons]
    simp only [checkPolicies, Prog.bind_eq, Prog.run_bind]
    rcases checkPolicy_run (E := E) index entry c s with ⟨hc, hrun⟩ | ⟨⟨hread, hc⟩, err, c', hrun⟩
    · simp only [hrun]
      -- the rest decides, on the choices that are left
      rcases ih (index + 1) (details ++ entryDetails E s.pool index entry)
        (fun n => c (n + readCount [entry])) with ⟨hall, hr⟩ | ⟨hno, err, c', hr⟩
      · left
        refine ⟨⟨hc, hall⟩, ?_⟩
        have hcount : readCount (entry :: entries) = readCount entries + readCount [entry] := by
          rw [readCount, readCount, readCount, List.countP_cons, List.countP_cons, List.countP_nil,
            Nat.zero_add]
        simp only [hr, List.append_assoc, ← detailsOf_cons, hcount, Nat.add_assoc]
      · right
        exact ⟨fun h => hno h.2, err, c', hr⟩
    · right
      refine ⟨fun h => hc (h.1 hread), err, c', ?_⟩
      simp only [hrun]

/-- The checks of a route when no read fails: the details of its entries. -/
theorem validateRoutePolicies_details {route : RouteSpec} {c : ℕ → Option SqlxError}
    (hc : ∀ i < readCount route.policies, c i = none) (s : AppState) :
    (validateRoutePolicies E route).run exec c s =
      (if (detailsOf E s.pool 0 route.policies).isEmpty then .ok ()
        else .error ⟨detailsOf E s.pool 0 route.policies⟩, s,
        fun n => c (n + readCount route.policies)) := by
  simp only [validateRoutePolicies, Prog.bind_eq, Prog.run_bind]
  rcases checkPolicies_run (E := E) route.policies 0 [] c s with ⟨-, hr⟩ | ⟨hno, -⟩
  · simp only [hr, List.nil_append]
    split <;> rfl
  · exact absurd hc hno

/-- **The checks of a route**, run from any store and with any reads failing. -/
theorem validateRoutePolicies_run (route : RouteSpec) (c : ℕ → Option SqlxError) (s : AppState) :
    ((∀ entry ∈ route.policies, entry.Attached E s.pool) ∧ (∀ i < route.policies.length, c i = none) ∧
        (validateRoutePolicies E route).run exec c s =
          (.ok (), s, fun n => c (n + route.policies.length))) ∨
      (¬ ((∀ entry ∈ route.policies, entry.Attached E s.pool) ∧
          ∀ i < route.policies.length, c i = none) ∧
        ∃ err c', (validateRoutePolicies E route).run exec c s = (.error err, s, c')) := by
  by_cases hc : ∀ i < readCount route.policies, c i = none
  · have hr := validateRoutePolicies_details (E := E) hc s
    by_cases ha : ∀ entry ∈ route.policies, entry.Attached E s.pool
    · left
      rw [readCount_attached ha] at hc hr
      rw [detailsOf_nil.2 ha] at hr
      exact ⟨ha, hc, hr⟩
    · right
      have hne : (detailsOf E s.pool 0 route.policies).isEmpty = false := by
        rw [List.isEmpty_eq_false_iff]
        intro hnil
        exact ha (detailsOf_nil.1 hnil)
      rw [hne] at hr
      exact ⟨fun h => ha h.1, _, _, hr⟩
  · right
    refine ⟨?_, ?_⟩
    · intro h
      exact hc fun i hi => h.2 i (lt_of_lt_of_le hi (readCount_le _))
    · simp only [validateRoutePolicies, Prog.bind_eq, Prog.run_bind]
      rcases checkPolicies_run (E := E) route.policies 0 [] c s with ⟨hall, -⟩ | ⟨-, err, c', hr⟩
      · exact absurd hall hc
      · rw [hr]
        exact ⟨err, c', rfl⟩

/-- Attached entries pass when no read fails. -/
theorem validateRoutePolicies_pass {route : RouteSpec} {c : ℕ → Option SqlxError} {s : AppState}
    (ha : ∀ entry ∈ route.policies, entry.Attached E s.pool)
    (hc : ∀ i < route.policies.length, c i = none) :
    ((validateRoutePolicies E route).run exec c s).1 = .ok () := by
  rcases validateRoutePolicies_run (E := E) route c s with ⟨-, -, hrun⟩ | ⟨hno, -⟩
  · rw [hrun]
  · exact absurd ⟨ha, hc⟩ hno

/-! ## The change -/

namespace Request

/-- The number of policy reads of an accepted request. -/
def reads : Request → ℕ
  | .createPolicy _ => 0
  | .createRoute route => route.policies.length
  | .updateRoute _ route => route.policies.length
  | .deleteRoute _ => 0

/-- The request is well formed and fits the store. -/
def Admissible (E : Env) (db : Tables) : Request → Prop
  | .createPolicy policy =>
    validatePolicySpec E policy = .ok () ∧
      ∀ row ∈ db.policies, ¬ (row.id = policy.id ∧ row.version = policy.version)
  | .createRoute route =>
    (∀ entry ∈ route.policies, entry.Attached E db) ∧ ∀ row ∈ db.routes, row.id ≠ route.id
  | .updateRoute id route =>
    (∀ entry ∈ route.policies, entry.Attached E db) ∧ ∃ row ∈ db.routes, row.id = id
  | .deleteRoute id => ∃ row ∈ db.routes, row.id = id

/-- The tables once the request is written. -/
def written (E : Env) (db : Tables) : Request → Tables
  | .createPolicy policy => { db with policies := db.policies ++ [Db.policyRow E policy] }
  | .createRoute route => { db with routes := db.routes ++ [Db.routeRow E route] }
  | .updateRoute id route => (db.updateRoute (Db.routeRow E (route.renamed id))).2
  | .deleteRoute id => (db.deleteRoute id).2

/-- A refusal that no failing statement caused. -/
def Refused (db : Tables) (req : Request) (err : ApiError) : Prop :=
  match req with
  | .createPolicy policy =>
    err.status = .unprocessableEntity ∨
      err.status = .conflict ∧ ∃ row ∈ db.policies, row.id = policy.id ∧ row.version = policy.version
  | .createRoute route =>
    err.status = .unprocessableEntity ∨ err.status = .conflict ∧ ∃ row ∈ db.routes, row.id = route.id
  | .updateRoute id _ =>
    err.status = .unprocessableEntity ∨ err.status = .notFound ∧ ∀ row ∈ db.routes, row.id ≠ id
  | .deleteRoute id => err.status = .notFound ∧ ∀ row ∈ db.routes, row.id ≠ id

/-- What the checks and the write of a request come to: all of it, or nothing. -/
inductive Changes (E : Env) (req : Request) (c : ℕ → Option SqlxError) (s : AppState) :
    Except ApiError Unit × AppState × (ℕ → Option SqlxError) → Prop
  | written (h : req.Admissible E s.pool) (hc : ∀ i ≤ req.reads, c i = none) :
    Changes E req c s
      (.ok (), { s with pool := req.written E s.pool }, fun n => c (n + (req.reads + 1)))
  | refused (h : ¬ (req.Admissible E s.pool ∧ ∀ i ≤ req.reads, c i = none)) (err : ApiError)
    (c' : ℕ → Option SqlxError) (he : (∃ i, c i ≠ none) ∨ req.Refused s.pool err) :
    Changes E req c s (.error err, s, c')

end Request

/-! ### The writes -/

theorem ofExcept_run {ε α : Type} (r : Except ε α) (c : ℕ → Option SqlxError) (s : AppState) :
    (Prog.ofExcept r : Async ε α).run exec c s = (r, s, c) := by
  cases r <;> rfl

/-- The program of one operation, whose answer `f` makes a result of. -/
theorem op_run {ε α : Type} {o : Op} (f : o.Res → Except ε α) (c : ℕ → Option SqlxError) (s : AppState) :
    (Prog.op o fun r => .ofExcept (f r) : Async ε α).run exec c s =
      (f (exec (c 0) o s).1, (exec (c 0) o s).2, fun n => c (n + 1)) := by
  rw [Prog.run_op, ofExcept_run]

/-- A row of a new key is inserted, one of a key that is there is refused. -/
theorem insertPolicy_cases (db : Tables) (row : PolicyRow) :
    ((∀ r ∈ db.policies, ¬ (r.id = row.id ∧ r.version = row.version)) ∧
        db.insertPolicy row = (.ok (), { db with policies := db.policies ++ [row] })) ∨
      ((∃ r ∈ db.policies, r.id = row.id ∧ r.version = row.version) ∧
        ∃ e, db.insertPolicy row = (.error e, db) ∧ (mapDbError e).status = .conflict) := by
  unfold Tables.insertPolicy
  by_cases h : (db.policies.any fun r => r.id = row.id ∧ r.version = row.version) = true
  · right
    rw [if_pos h]
    exact ⟨by simpa using h, _, rfl, by decide⟩
  · left
    rw [if_neg h]
    exact ⟨by simpa using h, rfl⟩

theorem insertRoute_cases (db : Tables) (row : RouteRow) :
    ((∀ r ∈ db.routes, r.id ≠ row.id) ∧
        db.insertRoute row = (.ok (), { db with routes := db.routes ++ [row] })) ∨
      ((∃ r ∈ db.routes, r.id = row.id) ∧
        ∃ e, db.insertRoute row = (.error e, db) ∧ (mapDbError e).status = .conflict) := by
  unfold Tables.insertRoute
  by_cases h : (db.routes.any fun r => r.id = row.id) = true
  · right
    rw [if_pos h]
    exact ⟨by simpa using h, _, rfl, by decide⟩
  · left
    rw [if_neg h]
    exact ⟨by simpa using h, rfl⟩

/-- A statement affects rows exactly when the key is there. -/
theorem affects_cases (rows : List RouteRow) (id : String) :
    ((∃ r ∈ rows, r.id = id) ∧ (rows.countP fun r => r.id = id) ≠ 0) ∨
      ((∀ r ∈ rows, r.id ≠ id) ∧ (rows.countP fun r => r.id = id) = 0) := by
  by_cases h : ∃ r ∈ rows, r.id = id
  · left
    obtain ⟨r, hr, hid⟩ := h
    have hpos : 0 < rows.countP fun r => r.id = id := by
      rw [List.countP_pos_iff]
      exact ⟨r, hr, by simpa using hid⟩
    exact ⟨⟨r, hr, hid⟩, Nat.ne_of_gt hpos⟩
  · right
    have hno : ∀ r ∈ rows, r.id ≠ id := fun r hr hid => h ⟨r, hr, hid⟩
    refine ⟨hno, ?_⟩
    rw [List.countP_eq_zero]
    intro r hr
    simpa using hno r hr

theorem updateRoute_cases (db : Tables) (row : RouteRow) :
    ((∃ r ∈ db.routes, r.id = row.id) ∧ (db.updateRoute row).1 ≠ 0) ∨
      ((∀ r ∈ db.routes, r.id ≠ row.id) ∧ db.updateRoute row = (0, db)) := by
  unfold Tables.updateRoute
  rcases affects_cases db.routes row.id with h | ⟨hno, hcount⟩
  · exact Or.inl h
  · right
    have hmap : (db.routes.map fun r => if r.id = row.id then row else r) = db.routes := by
      conv_rhs => rw [← List.map_id db.routes]
      exact List.map_congr_left fun r hr => if_neg (hno r hr)
    rw [hmap, hcount]
    exact ⟨hno, rfl⟩

theorem deleteRoute_cases (db : Tables) (id : String) :
    ((∃ r ∈ db.routes, r.id = id) ∧ (db.deleteRoute id).1 ≠ 0) ∨
      ((∀ r ∈ db.routes, r.id ≠ id) ∧ db.deleteRoute id = (0, db)) := by
  unfold Tables.deleteRoute
  rcases affects_cases db.routes id with h | ⟨hno, hcount⟩
  · exact Or.inl h
  · right
    have hfilter : (db.routes.filter fun r => r.id ≠ id) = db.routes :=
      List.filter_eq_self.2 fun r hr => by simpa using hno r hr
    rw [hfilter, hcount]
    exact ⟨hno, rfl⟩

/-! ### The checks and the write together -/

/-- No failure up to the write at `n`, split at the write. -/
theorem none_upto {c : ℕ → Option SqlxError} {n : ℕ} :
    (∀ i ≤ n, c i = none) ↔ (∀ i < n, c i = none) ∧ c n = none := by
  constructor
  · intro h; exact ⟨fun i hi => h i (by omega), h n le_rfl⟩
  · rintro ⟨h, hn⟩ i hi
    rcases Nat.lt_or_eq_of_le hi with hi | rfl
    · exact h i hi
    · exact hn

theorem shift_shift (c : ℕ → Option SqlxError) (n : ℕ) :
    (fun i => (fun i => c (i + n)) (i + 1)) = fun i => c (i + (n + 1)) := by
  funext i
  simp only [Nat.add_assoc, Nat.add_comm 1]

theorem ofExcept_mapErr {ε ε' α : Type} (g : ε → ε') (r : Except ε α) :
    (Prog.ofExcept r : Async ε α).mapErr g = .ofExcept (r.mapError g) := by
  cases r <;> rfl

namespace Request

/-- The write of `updateRoute` and `deleteRoute`, with the answer to no rows. -/
def affecting (write : Async SqlxError ℕ) : Async ApiError Unit :=
  (write.mapErr mapDbError).bind fun rows =>
    if rows = 0 then .err (.notFound "route not found") else .ok ()

/-- The answer to a number of rows. -/
def affected : Except SqlxError ℕ → Except ApiError Unit
  | .ok 0 => .error (.notFound "route not found")
  | .ok _ => .ok ()
  | .error e => .error (mapDbError e)

/-- The answer to some rows. -/
theorem affected_succ {n : ℕ} (hn : n ≠ 0) : affected (.ok n) = .ok () := by
  obtain ⟨rows, rfl⟩ := Nat.exists_eq_succ_of_ne_zero hn
  rfl

theorem affecting_op {o : Op} (f : o.Res → Except SqlxError ℕ) :
    affecting (.op o fun r => .ofExcept (f r)) = .op o fun r => .ofExcept (affected (f r)) := by
  have hrest : ∀ r : Except SqlxError ℕ, ((Prog.ofExcept r : Async SqlxError ℕ).mapErr mapDbError).bind
      (fun rows => if rows = 0 then .err (.notFound "route not found") else .ok ()) =
        (.ofExcept (affected r) : Async ApiError Unit) := by
    intro r
    cases r with
    | error e => rfl
    | ok rows => cases rows <;> rfl
  simp only [affecting, Prog.mapErr_op, Prog.op_bind, hrest]

/-- The checks that come before the write. -/
def check (E : Env) : Request → Async ApiError Unit
  | .createPolicy policy =>
    .ofExcept ((validatePolicySpec E policy).mapError fun err => .validation err.details)
  | .createRoute route => (validateRoutePolicies E route).mapErr fun err => .validation err.details
  | .updateRoute id route =>
    (validateRoutePolicies E (route.renamed id)).mapErr fun err => .validation err.details
  | .deleteRoute _ => .ok ()

def writeOp (E : Env) : Request → Op
  | .createPolicy policy => .insertPolicy (Db.policyRow E policy)
  | .createRoute route => .insertRoute (Db.routeRow E route)
  | .updateRoute id route => .updateRoute (Db.routeRow E (route.renamed id))
  | .deleteRoute id => .deleteRoute id

/-- What the handler makes of the write's answer. -/
def answer (E : Env) : (req : Request) → (req.writeOp E).Res → Except ApiError Unit
  | .createPolicy _ => Except.mapError mapDbError
  | .createRoute _ => Except.mapError mapDbError
  | .updateRoute _ _ => affected
  | .deleteRoute _ => affected

def write (E : Env) (req : Request) : Async ApiError Unit :=
  .op (req.writeOp E) fun r => .ofExcept (req.answer E r)

theorem change_eq (req : Request) : req.change E = (req.check E).bind fun _ => req.write E := by
  cases req with
  | createPolicy policy =>
    simp only [change, check, write, answer, writeOp, Db.insertPolicy, Prog.bind_eq, Prog.mapErr_op,
      ofExcept_mapErr]
  | createRoute route =>
    simp only [change, check, write, answer, writeOp, Db.insertRoute, Prog.bind_eq, Prog.mapErr_op,
      ofExcept_mapErr]
  | updateRoute id route =>
    have haff := affecting_op (o := .updateRoute (Db.routeRow E (route.renamed id))) fun r => r
    simp only [change, check, write, answer, writeOp, Db.updateRoute, Prog.bind_eq, ← haff]
    rfl
  | deleteRoute id =>
    have haff := affecting_op (o := .deleteRoute id) fun r => r
    simp only [change, check, write, answer, writeOp, Prog.ok_bind, ← haff]
    rfl

/-- What the request must satisfy, its key apart. -/
def Valid (E : Env) (db : Tables) : Request → Prop
  | .createPolicy policy => validatePolicySpec E policy = .ok ()
  | .createRoute route => ∀ entry ∈ route.policies, entry.Attached E db
  | .updateRoute _ route => ∀ entry ∈ route.policies, entry.Attached E db
  | .deleteRoute _ => True

theorem Admissible.valid {req : Request} {db : Tables} (h : req.Admissible E db) : req.Valid E db := by
  cases req with
  | deleteRoute id => trivial
  | _ => exact h.1

/-- **The checks**, run from any store and with any reads failing. -/
theorem check_run (req : Request) (c : ℕ → Option SqlxError) (s : AppState) :
    ((req.Valid E s.pool ∧ ∀ i < req.reads, c i = none) ∧
        (req.check E).run exec c s = (.ok (), s, fun n => c (n + req.reads))) ∨
      (¬ (req.Valid E s.pool ∧ ∀ i < req.reads, c i = none) ∧
        ∃ err c', err.status = .unprocessableEntity ∧ (req.check E).run exec c s = (.error err, s, c')) := by
  have hroute : ∀ route : RouteSpec,
      (((∀ entry ∈ route.policies, entry.Attached E s.pool) ∧ ∀ i < route.policies.length, c i = none) ∧
        ((validateRoutePolicies E route).mapErr fun err => ApiError.validation err.details).run exec c s =
          (.ok (), s, fun n => c (n + route.policies.length))) ∨
      (¬ ((∀ entry ∈ route.policies, entry.Attached E s.pool) ∧
          ∀ i < route.policies.length, c i = none) ∧
        ∃ err c', err.status = .unprocessableEntity ∧
          ((validateRoutePolicies E route).mapErr fun err => ApiError.validation err.details).run exec c s =
            (.error err, s, c')) := by
    intro route
    rw [Prog.run_mapErr]
    rcases validateRoutePolicies_run (E := E) route c s with ⟨ha, hr, hrun⟩ | ⟨hno, err, c', hrun⟩
    · left
      rw [hrun]
      exact ⟨⟨ha, hr⟩, rfl⟩
    · right
      rw [hrun]
      exact ⟨hno, _, _, rfl, rfl⟩
  have hnone : ∀ i < 0, c i = none := fun i hi => absurd hi (Nat.not_lt_zero i)
  cases req with
  | createPolicy policy =>
    simp only [check, Valid, reads]
    cases hv : validatePolicySpec E policy with
    | ok u => exact Or.inl ⟨⟨rfl, hnone⟩, rfl⟩
    | error err =>
      -- refused before anything is read
      exact Or.inr ⟨fun h => absurd h.1 (by simp), _, _, rfl, rfl⟩
  | createRoute route => exact hroute route
  | updateRoute id route => exact hroute (route.renamed id)
  | deleteRoute id => exact Or.inl ⟨⟨trivial, hnone⟩, rfl⟩

theorem write_run (req : Request) (c : ℕ → Option SqlxError) (s : AppState) :
    (req.write E).run exec c s =
      (req.answer E (exec (c 0) (req.writeOp E) s).1, (exec (c 0) (req.writeOp E) s).2,
        fun n => c (n + 1)) :=
  op_run (o := req.writeOp E) (req.answer E) c s

/-- A write that fails changes nothing. -/
theorem write_fault (req : Request) (e : SqlxError) (s : AppState) :
    req.answer E (exec (some e) (req.writeOp E) s).1 = .error (mapDbError e) ∧
      (exec (some e) (req.writeOp E) s).2 = s := by
  cases req with
  | _ => exact ⟨rfl, rfl⟩

/-- A refusal of the write: the key is taken, or missing. -/
def KeyRefused (db : Tables) (req : Request) (err : ApiError) : Prop :=
  match req with
  | .createPolicy policy =>
    err.status = .conflict ∧ ∃ row ∈ db.policies, row.id = policy.id ∧ row.version = policy.version
  | .createRoute route => err.status = .conflict ∧ ∃ row ∈ db.routes, row.id = route.id
  | .updateRoute id _ => err.status = .notFound ∧ ∀ row ∈ db.routes, row.id ≠ id
  | .deleteRoute id => err.status = .notFound ∧ ∀ row ∈ db.routes, row.id ≠ id

theorem KeyRefused.refused {db : Tables} {req : Request} {err : ApiError} (h : KeyRefused db req err) :
    Refused db req err := by
  cases req with
  | deleteRoute id => exact h
  | _ => exact Or.inr h

/-- **A write that does not fail** does its work, if the key fits. -/
theorem write_cases {req : Request} {s : AppState} (hv : req.Valid E s.pool) :
    (req.Admissible E s.pool ∧ req.answer E (exec none (req.writeOp E) s).1 = .ok () ∧
        (exec none (req.writeOp E) s).2 = { s with pool := req.written E s.pool }) ∨
      (¬ req.Admissible E s.pool ∧ ∃ err, req.answer E (exec none (req.writeOp E) s).1 = .error err ∧
        (exec none (req.writeOp E) s).2 = s ∧ req.KeyRefused s.pool err) := by
  cases req with
  | createPolicy policy =>
    simp only [answer, writeOp, exec, statement]
    rcases insertPolicy_cases s.pool (Db.policyRow E policy) with ⟨hk, hi⟩ | ⟨hk, e, hi, he⟩
    · left
      rw [hi]
      exact ⟨⟨hv, hk⟩, rfl, rfl⟩
    · right
      rw [hi]
      refine ⟨?_, _, rfl, rfl, he, hk⟩
      intro h
      obtain ⟨-, hno⟩ := h
      obtain ⟨r, hr, hid⟩ := hk
      exact hno r hr hid
  | createRoute route =>
    simp only [answer, writeOp, exec, statement]
    rcases insertRoute_cases s.pool (Db.routeRow E route) with ⟨hk, hi⟩ | ⟨hk, e, hi, he⟩
    · left
      rw [hi]
      exact ⟨⟨hv, hk⟩, rfl, rfl⟩
    · right
      rw [hi]
      refine ⟨?_, _, rfl, rfl, he, hk⟩
      intro h
      obtain ⟨-, hno⟩ := h
      obtain ⟨r, hr, hid⟩ := hk
      exact hno r hr hid
  | updateRoute id route =>
    rcases updateRoute_cases s.pool (Db.routeRow E (route.renamed id)) with ⟨hk, hn⟩ | ⟨hk, hn⟩
    · exact Or.inl ⟨⟨hv, hk⟩, affected_succ hn, rfl⟩
    · right
      simp only [answer, writeOp, exec, statement, hn]
      refine ⟨?_, _, rfl, rfl, rfl, hk⟩
      intro h
      obtain ⟨-, r, hr, hid⟩ := h
      exact hk r hr hid
  | deleteRoute id =>
    rcases deleteRoute_cases s.pool id with ⟨hk, hn⟩ | ⟨hk, hn⟩
    · exact Or.inl ⟨hk, affected_succ hn, rfl⟩
    · right
      simp only [answer, writeOp, exec, statement, hn]
      refine ⟨?_, _, rfl, rfl, rfl, hk⟩
      intro h
      obtain ⟨r, hr, hid⟩ := h
      exact hk r hr hid

/-- **The checks and the write of a request**, run from any store and with any
statements failing. -/
theorem change_run (req : Request) (c : ℕ → Option SqlxError) (s : AppState) :
    req.Changes E c s ((req.change E).run exec c s) := by
  rw [change_eq, Prog.run_bind]
  rcases check_run (E := E) req c s with ⟨⟨hv, hreads⟩, hrun⟩ | ⟨hno, err, c', hstatus, hrun⟩
  · rw [hrun]
    simp only [write_run, Nat.zero_add, shift_shift]
    cases hc : c req.reads with
    | some e =>
      obtain ⟨herr, hs⟩ := write_fault (E := E) req e s
      rw [herr, hs]
      have hfail : ∃ i, c i ≠ none := ⟨req.reads, by simp [hc]⟩
      refine .refused (fun h => ?_) _ _ (.inl hfail)
      have hnone := h.2 _ le_rfl
      rw [hc] at hnone
      exact absurd hnone (by simp)
    | none =>
      -- the statement is made: whether it changes anything is up to the keys
      rcases write_cases hv with ⟨hadm, hok, hs⟩ | ⟨hno, err, herr, hs, hkey⟩
      · rw [hok, hs]
        exact .written hadm (none_upto.2 ⟨hreads, hc⟩)
      · rw [herr, hs]
        exact .refused (fun h => hno h.1) _ _ (.inr hkey.refused)
  · rw [hrun]
    refine .refused ?_ _ _ (.inr ?_)
    · intro h
      exact hno ⟨h.1.valid, (none_upto.1 h.2).1⟩
    · cases req with
      | deleteRoute id =>
        have hreads : ∀ i < 0, c i = none := fun i hi => absurd hi (Nat.not_lt_zero i)
        exact absurd ⟨trivial, hreads⟩ hno
      | _ => exact Or.inl hstatus

end Request

/-! ## Publishing -/

variable (E) in
/-- The routes stored, as `list_routes` returns them. -/
def Tables.specs (db : Tables) : List RouteSpec := db.selectRoutes.map (Db.rowToRoute E)

/-- The state once `routes` are published. -/
def AppState.publish (s : AppState) (routes : List RouteSpec) : AppState where
  pool := s.pool
  configState :=
    { version := s.configState.version + 1
      tx := s.configState.tx.send ⟨s.configState.version + 1, routes.map routeToProto⟩ }

theorem listRoutes_run (c : ℕ → Option SqlxError) (s : AppState) :
    (Db.listRoutes E).run exec c s =
      ((match c 0 with
        | some e => .error e
        | none => .ok (s.pool.specs E)), s, fun n => c (n + 1)) := by
  simp only [Db.listRoutes, Prog.bind_eq, Prog.op_bind, Prog.run_op, exec]
  cases c 0 with
  | some e => rfl
  | none => rfl

/-- **Publishing**: the read of the routes decides, and then nothing fails. -/
theorem publishFromDb_run (c : ℕ → Option SqlxError) (s : AppState) :
    (publishFromDb E).run exec c s =
      match c 0 with
      | none => (.ok (), s.publish (s.pool.specs E), fun n => c (n + 3))
      | some e => (.error e, s, fun n => c (n + 1)) := by
  simp only [publishFromDb, Prog.bind_eq, Prog.run_bind, listRoutes_run]
  cases c 0 with
  | some e => rfl
  | none => rfl

/-! ## The whole request -/

/-- What a request run on its own comes to. -/
inductive Request.Serves (E : Env) (faults : ℕ → Option SqlxError) (req : Request) (s : AppState) :
    Except ApiError Reply × AppState → Prop
  | refused (h : ¬ (req.Admissible E s.pool ∧ ∀ i ≤ req.reads, faults i = none)) (err : ApiError)
    (he : (∃ i, faults i ≠ none) ∨ req.Refused s.pool err) : Serves E faults req s (.error err, s)
  | unpublished (h : req.Admissible E s.pool) (hf : ∀ i ≤ req.reads, faults i = none)
    (hu : faults (req.reads + 1) ≠ none) (err : ApiError) :
    Serves E faults req s (.error err, { s with pool := req.written E s.pool })
  | published (h : req.Admissible E s.pool) (hf : ∀ i ≤ req.reads, faults i = none)
    (hu : faults (req.reads + 1) = none) :
    Serves E faults req s
      (.ok req.reply,
        AppState.publish { s with pool := req.written E s.pool } ((req.written E s.pool).specs E))

/-- **A request on its own**, from any state and with any statements failing. -/
theorem serve_cases (faults : ℕ → Option SqlxError) (req : Request) (s : AppState) :
    req.Serves E faults s (serve E faults req s) := by
  have hc := req.change_run (E := E) faults s
  unfold serve
  rw [handle_eq, Prog.run_bind]
  generalize (req.change E).run exec faults s = q at hc
  cases hc with
  | refused h err c' he => exact .refused h err he
  | written h hf =>
    simp only [publishAndReply, Prog.run_bind, Prog.run_mapErr, publishFromDb_run, Nat.zero_add]
    cases hfault : faults (req.reads + 1) with
    | some e =>
      -- the write is not taken back
      exact .unpublished h hf (by simp [hfault]) _
    | none => exact .published h hf hfault

/-- The request is answered with success. -/
def Accepts (E : Env) (faults : ℕ → Option SqlxError) (req : Request) (s : AppState) : Prop :=
  ∃ reply, (serve E faults req s).1 = .ok reply

theorem accepts_iff {faults : ℕ → Option SqlxError} {req : Request} {s : AppState} :
    Accepts E faults req s ↔
      req.Admissible E s.pool ∧ (∀ i ≤ req.reads, faults i = none) ∧ faults (req.reads + 1) = none := by
  have hc := serve_cases (E := E) faults req s
  unfold Accepts
  generalize serve E faults req s = r at hc
  cases hc with
  | refused h err he => simpa using fun h₁ h₂ => absurd ⟨h₁, h₂⟩ h
  | unpublished h hf hu err => simpa using fun _ _ => hu
  | published h hf hu => simpa using ⟨h, hf, hu⟩

/-- What is stored once a request is accepted. -/
theorem Accepts.pool {faults : ℕ → Option SqlxError} {req : Request} {s : AppState}
    (h : Accepts E faults req s) : (serve E faults req s).2.pool = req.written E s.pool := by
  have hc := serve_cases (E := E) faults req s
  unfold Accepts at h
  generalize serve E faults req s = r at hc h
  cases hc with
  | refused h' err he => obtain ⟨reply, hr⟩ := h; exact absurd hr (by simp)
  | unpublished h' hf hu err => obtain ⟨reply, hr⟩ := h; exact absurd hr (by simp)
  | published h' hf hu => rfl

/-- A route listed comes from a row, and a row is listed. -/
theorem mem_specs {db : Tables} {route : RouteSpec} :
    route ∈ db.specs E ↔ ∃ row ∈ db.routes, Db.rowToRoute E row = route := by
  simp only [Tables.specs, Tables.selectRoutes, List.mem_map, List.mem_insertionSort]

/-- The routes are listed in the order of their rows. -/
theorem specs_ids (db : Tables) : (db.specs E).map RouteSpec.id = db.selectRoutes.map RouteRow.id := by
  unfold Tables.specs
  rw [List.map_map]
  rfl

/-! ## The routes subscribers should see -/

/-- The routes stored, as the subscribers should see them. -/
def Tables.protoRoutes (E : Env) (db : Tables) : List Proto.Route := (db.specs E).map routeToProto

theorem specs_congr {db db' : Tables} (h : db.routes = db'.routes) : db.specs E = db'.specs E := by
  unfold Tables.specs Tables.selectRoutes
  rw [h]

theorem protoRoutes_congr {db db' : Tables} (h : db.routes = db'.routes) :
    db.protoRoutes E = db'.protoRoutes E := by
  unfold Tables.protoRoutes
  rw [specs_congr h]

theorem specs_nil {db : Tables} : db.specs E = [] ↔ db.routes = [] := by
  rw [← List.length_eq_zero_iff, ← List.length_eq_zero_iff, Tables.specs, Tables.selectRoutes, List.length_map,
    List.length_insertionSort]

theorem protoRoutes_nil {db : Tables} : db.protoRoutes E = [] ↔ db.routes = [] := by
  rw [Tables.protoRoutes, List.map_eq_nil_iff, specs_nil]

end Yali
