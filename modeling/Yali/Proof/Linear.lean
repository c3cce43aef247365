import Yali.Conc.Bounded
import Yali.Conc.Linear
import Yali.Proof.Publish
import Yali.Proof.Register
import Yali.Proof.Startup
import Yali.Proof.Table

/-!
# Concurrent requests take effect one at a time

The statements of concurrent requests interleave, and a route is written long after it
was checked. Still each request acts as if it had been served on its own at one moment
between its start and its answer: at its write, or, if a check refuses it, at the first
read that shows an entry not to fit (`checkPolicy_along`). What a check found stays true
until the write because policies are only added. A `GET` does so at its one statement.

* `Request.Serial`: what a request comes to when it is served on its own.
* `router_linear`: a handler takes this step at one of its operations, or at its start.
* `requests_linearizable`: every run has a serial order of its requests that respects
  real time, leaves the same tables and gives the same answers.
* `operations_bounded`: a request makes no more operations than its body allows, whatever
  the others do.
-/

namespace Yali

open Conc

variable {E : Env}

/-! ## One request at a time -/

/-- A response without the text of its error. -/
def outcome (r : Except ApiError Reply) : Except Status Reply := r.mapError ApiError.status

/-- Served on its own over the tables `db`, with no statement failing, the request has
the outcome `o` and leaves the tables `db'`. -/
def Request.Serial (E : Env) (req : Request) (db : Tables) (o : Except Status Reply) (db' : Tables) : Prop :=
  ∀ s : AppState, s.pool = db →
    outcome (serve E noFault req s).1 = o ∧ (serve E noFault req s).2.pool = db'

/-- The refusal of a key. -/
def Request.keyStatus : Request → Status
  | .createPolicy _ | .createRoute _ => .conflict
  | .updateRoute _ _ | .deleteRoute _ => .notFound

theorem Request.KeyRefused.status {db : Tables} {req : Request} {err : ApiError}
    (h : req.KeyRefused db err) : err.status = req.keyStatus := by
  cases req with
  | _ => exact h.1

/-- A request whose checks or write end it. -/
theorem serve_error {req : Request} {faults : ℕ → Option SqlxError} {s s' : AppState} {err : ApiError}
    {c : ℕ → Option SqlxError} (h : (req.change E).run exec faults s = (.error err, s', c)) :
    serve E faults req s = (.error err, s') := by
  unfold serve
  rw [handle_eq, Prog.run_bind, h]

/-- An admissible request is written. -/
theorem serial_written {req : Request} {db : Tables} (h : req.Admissible E db) :
    req.Serial E db (.ok req.reply) (req.written E db) := by
  rintro s rfl
  have hc := serve_cases (E := E) noFault req s
  generalize serve E noFault req s = r at hc
  cases hc with
  | refused hno err he => exact absurd ⟨h, fun _ _ => rfl⟩ hno
  | unpublished hadm hf hu err => exact absurd rfl hu
  | published hadm hf hu => exact ⟨rfl, rfl⟩

/-- A request that is not valid is refused by its checks. -/
theorem serial_invalid {req : Request} {db : Tables} (h : ¬ req.Valid E db) :
    req.Serial E db (.error .unprocessableEntity) db := by
  rintro s rfl
  rcases req.check_run (E := E) noFault s with ⟨⟨hv, -⟩, -⟩ | ⟨-, err, c', hstatus, hrun⟩
  · exact absurd hv h
  · have hchange : (req.change E).run exec noFault s = (.error err, s, c') := by
      rw [Request.change_eq, Prog.run_bind, hrun]
    rw [serve_error hchange]
    exact ⟨congrArg Except.error hstatus, rfl⟩

/-- A valid request whose key does not fit is refused by its write. -/
theorem serial_refused {req : Request} {db : Tables} (hv : req.Valid E db) (h : ¬ req.Admissible E db) :
    req.Serial E db (.error req.keyStatus) db := by
  rintro s rfl
  rcases req.check_run (E := E) noFault s with ⟨-, hrun⟩ | ⟨hno, -⟩
  · rcases Request.write_cases hv with ⟨hadm, -⟩ | ⟨-, err, herr, hs, hkey⟩
    · exact absurd hadm h
    · have hwrite := req.write_run (E := E) (fun n => noFault (n + req.reads)) s
      have hnone : noFault (0 + req.reads) = none := rfl
      rw [hnone, herr, hs] at hwrite
      have hchange : (req.change E).run exec noFault s =
          (.error err, s, fun n => noFault (n + 1 + req.reads)) := by
        rw [Request.change_eq, Prog.run_bind, hrun]
        exact hwrite
      rw [serve_error hchange]
      exact ⟨congrArg Except.error hkey.status, rfl⟩
  · exact absurd ⟨hv, fun _ _ => rfl⟩ hno

/-! ## The operations of a request -/

/-- A request takes its step over any tables. -/
abbrev AnyTables : World → Prop := HasTables fun _ => True

/-- An operation of the request leaves the tables, takes the request's step or fails. -/
abbrev Request.Act (E : Env) (req : Request) (st : Stage (Except Status Reply)) (c : Option SqlxError)
    (o : Op) (w : World) (st' : Stage (Except Status Reply)) : Prop :=
  Point (req.Serial E) (c = none) st w.cp.pool (World.exec c o w).2.cp.pool st'

/-- A part of a handler, from a stage of the request on. -/
abbrev Request.Acts (E : Env) (req : Request) {ε α : Type}
    (Q : α → Stage (Except Status Reply) → World → Prop)
    (X : ε → Stage (Except Status Reply) → World → Prop) (p : Async ε α)
    (st : Stage (Except Status Reply)) (w : World) : Prop :=
  p.Along World.exec AnyTables (AddsW E) (req.Act E) Q X st w

/-- The stage in which a program ends with an error. -/
def Erred (err : ApiError) (st : Stage (Except Status Reply)) (_ : World) : Prop :=
  st.Ended fun o => o = .error err.status

/-! ### The checks -/

/-- The request is refused and a detail says so, or will; or it is not and there is none. -/
inductive Blaming (details : List String) (rest : List RoutePolicy) : Stage (Except Status Reply) → Prop
  | blamed (h : details ≠ [] ∨ ∃ entry ∈ rest, entry.isRead = false) :
    Blaming details rest (.served (.error .unprocessableEntity))
  | clear (h : details = []) (hr : ∀ entry ∈ rest, entry.isRead = true) : Blaming details rest .waiting

/-- A failed read ends the checks. -/
def ReadFailed (_ : ValidationError) (st : Stage (Except Status Reply)) (_ : World) : Prop := st = .failed

section Checks

variable {req : Request} {entries : List RoutePolicy}
  (hreq : ∀ db, req.Valid E db → ∀ entry ∈ entries, entry.Attached E db)
include hreq

/-- **The turn for one entry**: the first entry found not to fit is where the request is
refused. -/
theorem checkPolicy_along {entry : RoutePolicy} (hmem : entry ∈ entries) (index : ℕ)
    {details : List String} {rest : List RoutePolicy} {st : Stage (Except Status Reply)}
    (h : Blaming details (entry :: rest) st) (w : World) :
    req.Acts E (fun added st' _ => Blaming (details ++ added) rest st') ReadFailed
      (checkPolicy E index entry) st w := by
  unfold checkPolicy
  by_cases hr : entry.isRead = true
  · have hany : (entry.params.any fun v => !v.isObject) = false := by simpa [RoutePolicy.isRead] using hr
    simp only [hany, Bool.false_eq_true, if_false]
    intro w₁ _ _ c
    have hsame := exec_read (o := .selectPolicy entry.id entry.version) rfl c w₁
    cases c with
    | some e =>
      refine ⟨.failed, ?_, rfl⟩
      rw [Request.Act, hsame]
      exact .fails (by simp) _ _
    | none =>
      have hnil : policyDetails E ("route.policies[" ++ toString index ++ "]") entry
          ((w₁.cp.pool.selectPolicy entry.id entry.version).map (Db.rowToPolicy E)) = [] ↔
            entry.Attached E w₁.cp.pool := policyDetails_nil (RoutePolicy.isRead_iff.1 hr)
      change ∃ m', _ ∧ Blaming (details ++ policyDetails E ("route.policies[" ++ toString index ++ "]") entry
        ((w₁.cp.pool.selectPolicy entry.id entry.version).map (Db.rowToPolicy E))) rest m'
      generalize policyDetails E ("route.policies[" ++ toString index ++ "]") entry
        ((w₁.cp.pool.selectPolicy entry.id entry.version).map (Db.rowToPolicy E)) = added at hnil ⊢
      unfold Request.Act
      rw [hsame]
      cases h with
      | blamed h =>
        refine ⟨_, .stays _ _, .blamed ?_⟩
        rcases h with h | ⟨entry', hmem', hno⟩
        · exact Or.inl (List.append_ne_nil_of_left_ne_nil h _)
        · rcases List.mem_cons.1 hmem' with rfl | hmem'
          · rw [hr] at hno
            exact absurd hno (by decide)
          · exact Or.inr ⟨entry', hmem', hno⟩
      | clear h hrest =>
        have hrest' : ∀ e ∈ rest, e.isRead = true := fun e he => hrest e (List.mem_cons_of_mem _ he)
        by_cases hatt : entry.Attached E w₁.cp.pool
        · rw [hnil.2 hatt, List.append_nil]
          exact ⟨_, .stays _ _, .clear h hrest'⟩
        · -- nothing was written, and on its own the request is refused here
          have hinvalid : ¬ req.Valid E w₁.cp.pool := fun hv => hatt (hreq _ hv entry hmem)
          refine ⟨_, .serves (serial_invalid hinvalid), .blamed (Or.inl ?_)⟩
          exact List.append_ne_nil_of_right_ne_nil _ fun hadded => hatt (hnil.1 hadded)
  · have hany : (entry.params.any fun v => !v.isObject) = true := by simpa [RoutePolicy.isRead] using hr
    simp only [hany, if_true]
    cases h with
    | blamed h => exact .blamed (Or.inl (by simp))
    | clear h hrest => exact absurd (hrest entry List.mem_cons_self) hr

theorem checkPolicies_along {rest : List RoutePolicy} (hsub : ∀ entry ∈ rest, entry ∈ entries) (index : ℕ)
    {details : List String} {st : Stage (Except Status Reply)} (h : Blaming details rest st) (w : World) :
    req.Acts E (fun details st' _ => Blaming details [] st') ReadFailed
      (checkPolicies E index details rest) st w := by
  induction rest generalizing index details st w with
  | nil => exact h
  | cons entry rest ih =>
    refine Prog.Along.bind (checkPolicy_along hreq (hsub entry List.mem_cons_self) index h w) ?_
    intro added st' w' h'
    exact ih (fun e he => hsub e (List.mem_cons_of_mem _ he)) (index + 1) h' w'

/-- **The checks of a route**: it passes while the request still waits for its step. -/
theorem validateRoutePolicies_along {route : RouteSpec} (hroute : route.policies = entries)
    {st : Stage (Except Status Reply)} (h : Blaming [] route.policies st) (w : World) :
    req.Acts E (fun _ st' _ => st' = .waiting)
      (fun _ st' _ => st'.Ended fun o => o = .error .unprocessableEntity)
      (validateRoutePolicies E route) st w := by
  have hsub : ∀ entry ∈ route.policies, entry ∈ entries := by
    intro entry he
    rwa [← hroute]
  have hchecks : req.Acts E (fun details st' _ => Blaming details [] st')
      (fun _ st' _ => st'.Ended fun o => o = .error .unprocessableEntity)
      (checkPolicies E 0 [] route.policies) st w :=
    (checkPolicies_along hreq hsub 0 h w).weaken (fun _ _ _ h => h) fun _ _ _ hf => Or.inl hf
  refine hchecks.bind ?_
  intro details st' w' h'
  cases h' with
  | blamed h' =>
    have hne : details.isEmpty = false := by
      rcases h' with h' | ⟨entry, hentry, -⟩
      · simpa using h'
      · exact absurd hentry List.not_mem_nil
    rw [hne]
    exact Or.inr ⟨_, rfl, rfl⟩
  | clear h' _ =>
    subst h'
    exact rfl

end Checks

/-- The checks may begin waiting, or are refused at the start whatever is stored. -/
theorem blaming_start {req : Request} {entries : List RoutePolicy}
    (hreq : ∀ db, req.Valid E db → ∀ entry ∈ entries, entry.Attached E db) (db : Tables) :
    ∃ st, (st = .waiting ∨ ∃ o, st = .served o ∧ req.Serial E db o db) ∧ Blaming [] entries st := by
  by_cases hr : ∀ entry ∈ entries, entry.isRead = true
  · exact ⟨.waiting, Or.inl rfl, .clear rfl hr⟩
  · obtain ⟨entry, hentry, hno⟩ : ∃ entry ∈ entries, entry.isRead = false := by
      by_contra hall
      refine hr fun entry hentry => ?_
      by_contra hread
      exact hall ⟨entry, hentry, Bool.eq_false_iff.2 hread⟩
    have hinvalid : ¬ req.Valid E db := by
      intro hv
      have hread := RoutePolicy.isRead_iff.2 (hreq db hv entry hentry).1
      rw [hno] at hread
      exact absurd hread (by decide)
    exact ⟨_, Or.inr ⟨_, rfl, serial_invalid hinvalid⟩, .blamed (Or.inr ⟨entry, hentry, hno⟩)⟩

/-- The checks of a request leave it waiting, and valid. -/
def CheckedWaiting (E : Env) (req : Request) (_ : Unit) (st : Stage (Except Status Reply)) (w : World) :
    Prop :=
  st = .waiting ∧ req.Valid E w.cp.pool

theorem check_along (req : Request) (w : World) :
    ∃ st, (st = .waiting ∨ ∃ o, st = .served o ∧ req.Serial E w.cp.pool o w.cp.pool) ∧
      req.Acts E (CheckedWaiting E req) Erred (req.check E) st w := by
  have hroute : ∀ route : RouteSpec,
      (∀ db, req.Valid E db ↔ ∀ entry ∈ route.policies, entry.Attached E db) →
      ∃ st, (st = .waiting ∨ ∃ o, st = .served o ∧ req.Serial E w.cp.pool o w.cp.pool) ∧
        req.Acts E (CheckedWaiting E req) Erred
          ((validateRoutePolicies E route).mapErr fun err => .validation err.details) st w := by
    intro route hvalid
    have hreq : ∀ db, req.Valid E db → ∀ entry ∈ route.policies, entry.Attached E db :=
      fun db => (hvalid db).1
    obtain ⟨st, hst, hb⟩ := blaming_start hreq w.cp.pool
    refine ⟨st, hst, ?_⟩
    have halong := validateRoutePolicies_along hreq rfl hb w
    have hsafe := halong.with_safe trivial (validateRoutePolicies_safe (E := E) route w trivial)
    have hpost : req.Acts E (CheckedWaiting E req)
        (fun _ st' _ => st'.Ended fun o => o = .error .unprocessableEntity)
        (validateRoutePolicies E route) st w := by
      refine hsafe.weaken (fun _ st' w' h => ?_) fun _ _ _ h => h
      obtain ⟨hwait, -, hatt⟩ := h
      exact ⟨hwait, (hvalid w'.cp.pool).2 hatt⟩
    exact hpost.mapErr fun _ _ _ h => h
  cases req with
  | createPolicy policy =>
    by_cases hv : validatePolicySpec E policy = .ok ()
    · refine ⟨.waiting, Or.inl rfl, ?_⟩
      simp only [Request.check, hv]
      exact ⟨rfl, hv⟩
    · refine ⟨_, Or.inr ⟨_, rfl, serial_invalid (E := E) hv⟩, ?_⟩
      simp only [Request.check]
      cases hval : validatePolicySpec E policy with
      | ok u => exact absurd hval hv
      | error err => exact Or.inr ⟨_, rfl, rfl⟩
  | createRoute route => exact hroute route fun _ => Iff.rfl
  | updateRoute id route => exact hroute (route.renamed id) fun _ => Iff.rfl
  | deleteRoute id => exact ⟨.waiting, Or.inl rfl, rfl, trivial⟩

/-! ### The write and the publication -/

/-- What the checks found stays true. -/
theorem Request.Valid.adds {req : Request} {db db' : Tables} (h : req.Valid E db) (hadds : Adds E db db') :
    req.Valid E db' := by
  cases req with
  | createPolicy policy => exact h
  | deleteRoute id => trivial
  | _ => exact fun entry hentry => hadds.attached (h entry hentry)

/-- **The write is the request's step**, however late it comes. -/
theorem write_along (req : Request) {w : World} (hv : req.Valid E w.cp.pool) :
    req.Acts E (fun _ st _ => st = .served (.ok req.reply)) Erred (req.write E) .waiting w := by
  intro w₁ hG _ c
  have hv₁ : req.Valid E w₁.cp.pool := hv.adds hG
  have hend : ∀ {r : Except ApiError Unit} {st : Stage (Except Status Reply)} {w : World},
      (∀ err, r = .error err → Erred err st w) → (r = .ok () → st = .served (.ok req.reply)) →
        (Prog.ofExcept r : Async ApiError Unit).Along World.exec AnyTables (AddsW E)
          (req.Act E) (fun _ st _ => st = .served (.ok req.reply)) Erred st w := by
    intro r st w herr hok
    cases r with
    | ok u => exact hok rfl
    | error err => exact herr err rfl
  cases c with
  | some e =>
    obtain ⟨herr, hs⟩ := req.write_fault (E := E) e w₁.cp
    refine ⟨.failed, ?_, hend (fun _ _ => Or.inl rfl) fun hok => ?_⟩
    · have hpool : (World.exec (some e) (req.writeOp E) w₁).2.cp = w₁.cp := hs
      rw [Request.Act, hpool]
      exact .fails (by simp) _ _
    · exact absurd (herr.symm.trans hok) (by simp)
  | none =>
    rcases Request.write_cases hv₁ with ⟨hadm, hok, hs⟩ | ⟨hno, err, herr, hs, hkey⟩
    · refine ⟨.served (.ok req.reply), ?_, hend (fun err herr => ?_) fun _ => rfl⟩
      · have hpool : (World.exec none (req.writeOp E) w₁).2.cp.pool = req.written E w₁.cp.pool :=
          congrArg AppState.pool hs
        rw [Request.Act, hpool]
        exact .serves (serial_written hadm)
      · exact absurd (hok.symm.trans herr) (by simp)
    · refine ⟨.served (.error req.keyStatus), ?_, hend (fun err' herr' => ?_) fun hok => ?_⟩
      · have hpool : (World.exec none (req.writeOp E) w₁).2.cp.pool = w₁.cp.pool := congrArg AppState.pool hs
        rw [Request.Act, hpool]
        exact .serves (serial_refused hv₁ hno)
      · obtain rfl : err = err' := Except.error.inj (herr.symm.trans herr')
        exact Or.inr ⟨_, rfl, congrArg Except.error hkey.status.symm⟩
      · exact absurd (herr.symm.trans hok) (by simp)

/-- Nothing that follows the write changes the outcome. -/
theorem publishAndReply_along (req : Request) (w : World) :
    req.Acts E (fun reply st _ => st.Ended fun o => o = .ok reply) Erred (publishAndReply E req.reply)
      (.served (.ok req.reply)) w := by
  intro w₁ _ _ c
  have hpool : (World.exec c .selectRoutes w₁).2.cp.pool = w₁.cp.pool := statement_pool c w₁.cp _
  cases c with
  | some e =>
    refine ⟨.failed, ?_, Or.inl rfl⟩
    rw [Request.Act, hpool]
    exact .fails (by simp) _ _
  | none =>
    refine ⟨.served (.ok req.reply), ?_, ?_⟩
    · rw [Request.Act, hpool]
      exact .stays _ _
    · -- the increment and the send
      intro w₂ _ _ _
      refine ⟨_, .stays _ _, ?_⟩
      intro w₃ _ _ _
      exact ⟨_, .stays _ _, Or.inr ⟨_, rfl, rfl⟩⟩

/-- **A handler that changes the tables** takes the step of its request at one of its
operations, or at its start. -/
theorem handle_along (req : Request) (w : World) :
    ∃ st, (st = .waiting ∨ ∃ o, st = .served o ∧ req.Serial E w.cp.pool o w.cp.pool) ∧
      req.Acts E (fun reply st _ => st.Ended fun o => o = .ok reply) Erred (handle E req) st w := by
  obtain ⟨st, hst, hcheck⟩ := check_along (E := E) req w
  refine ⟨st, hst, ?_⟩
  have hchange : req.Acts E (fun _ st _ => st = .served (.ok req.reply)) Erred (req.change E) st w := by
    rw [Request.change_eq]
    refine hcheck.bind ?_
    rintro _ _ w' ⟨rfl, hv⟩
    exact write_along req hv
  rw [handle_eq]
  refine hchange.bind ?_
  rintro _ _ w' rfl
  exact publishAndReply_along req w'

/-! ### Reads -/

/-- A `SELECT`. -/
def Op.isSelect : Op → Bool
  | .selectPolicies | .selectPolicyVersions _ | .selectPolicy _ _ | .selectRoutes | .selectRoute _ => true
  | _ => false

/-- It reads the tables, and changes nothing. -/
theorem exec_select {o : Op} (ho : o.isSelect = true) (c : Option SqlxError) (s : AppState) :
    (exec c o s).2 = s ∧ ∀ s', s'.pool = s.pool → (exec none o s').1 = (exec none o s).1 := by
  cases o with
  | insertPolicy | insertRoute | updateRoute | deleteRoute | fetchAdd | send => cases ho
  | _ =>
    refine ⟨by cases c <;> rfl, ?_⟩
    intro s' hs
    simp only [exec, statement, hs]

/-- **A `GET` is one `SELECT`**, and an answer made of its rows that reports no creation. -/
theorem router_read {call : Call} (h : ∀ req, call ≠ .change req) :
    ∃ (o : Op) (f : o.Res → Except ApiError Reply), o.isSelect = true ∧
      router E call = (.op o fun r => .ofExcept (f r)) ∧ ∀ r policy, f r ≠ .ok (.policyCreated policy) := by
  suffices hop : ∃ o k, o.isSelect = true ∧ router E call = .op o k ∧
      ∀ r, ∃ x, k r = .ofExcept x ∧ ∀ policy, x ≠ .ok (.policyCreated policy) by
    obtain ⟨o, k, ho, hcall, hk⟩ := hop
    choose f hf hreply using hk
    exact ⟨o, f, ho, hcall.trans (congrArg (Prog.op o) (funext hf)), hreply⟩
  cases call with
  | change req => exact absurd rfl (h req)
  | listPolicies =>
    refine ⟨.selectPolicies, _, rfl, rfl, ?_⟩
    intro r
    cases r with
    | error e => exact ⟨.error _, rfl, by simp⟩
    | ok rows => exact ⟨.ok _, rfl, by simp⟩
  | getPolicy id version =>
    have hfound : ∀ policies : List PolicySpec, ∃ x,
        (if policies.isEmpty then .err (.notFound "policy not found")
          else .ok (.policies policies) : Handler) = .ofExcept x ∧ ∀ policy, x ≠ .ok (.policyCreated policy) := by
      intro policies
      split
      · exact ⟨.error _, rfl, by simp⟩
      · exact ⟨.ok _, rfl, by simp⟩
    cases version with
    | none =>
      refine ⟨.selectPolicyVersions id, _, rfl, rfl, ?_⟩
      intro r
      cases r with
      | error e => exact ⟨.error _, rfl, by simp⟩
      | ok rows => exact hfound (rows.map (Db.rowToPolicy E))
    | some version =>
      refine ⟨.selectPolicy id version, _, rfl, rfl, ?_⟩
      intro r
      cases r with
      | error e => exact ⟨.error _, rfl, by simp⟩
      | ok row => exact hfound (row.toList.map (Db.rowToPolicy E))
  | listRoutes =>
    refine ⟨.selectRoutes, _, rfl, rfl, ?_⟩
    intro r
    cases r with
    | error e => exact ⟨.error _, rfl, by simp⟩
    | ok rows => exact ⟨.ok _, rfl, by simp⟩
  | getRoute id =>
    refine ⟨.selectRoute id, _, rfl, rfl, ?_⟩
    intro r
    cases r with
    | error e => exact ⟨.error _, rfl, by simp⟩
    | ok row =>
      cases row with
      | none => exact ⟨.error _, rfl, by simp⟩
      | some row => exact ⟨.ok _, rfl, by simp⟩

/-! ### Calls -/

/-- Served on its own over the tables `db`, with no statement failing, the call has the
outcome `o` and leaves the tables `db'`. -/
def Call.Serial (E : Env) (call : Call) (db : Tables) (o : Except Status Reply) (db' : Tables) : Prop :=
  ∀ s : AppState, s.pool = db →
    outcome (serveCall E call s).1 = o ∧ (serveCall E call s).2.pool = db'

/-- The calls of the run agree with their outcomes. -/
def Agrees (_ : ℕ) (r : Except ApiError Reply) (o : Except Status Reply) : Prop := o = outcome r

/-- On its own a `GET` answers from the rows it reads. -/
theorem serveCall_read {call : Call} {o : Op} {f : o.Res → Except ApiError Reply} (ho : o.isSelect = true)
    (h : router E call = .op o fun r => .ofExcept (f r)) (s : AppState) :
    serveCall E call s = (f (exec none o s).1, s) := by
  have hrun : ∀ (r : Except ApiError Reply) (s : AppState) (c : ℕ → Option SqlxError),
      (Prog.ofExcept r : Handler).run exec c s = (r, s, c) := by
    intro r s c
    cases r <;> rfl
  unfold serveCall
  rw [h, Prog.run_op, hrun]
  exact Prod.ext rfl (exec_select ho none s).1

/-- **Every handler takes the step of its call** at one of its operations, or at its start. -/
theorem router_linear (call : Call) (t : ℕ) (w : World) :
    Pool.Linear World.exec (fun w => w.cp.pool) (fun c : Option SqlxError => c = none)
      AnyTables (AddsW E) Agrees (fun _ => call.Serial E) t (router E call) w := by
  by_cases hread : ∃ req, call = .change req
  · obtain ⟨req, rfl⟩ := hread
    exact handle_along req w
  · obtain ⟨o, f, ho, hcall, -⟩ := router_read (E := E) fun req h => hread ⟨req, h⟩
    refine ⟨.waiting, Or.inl rfl, ?_⟩
    rw [hcall]
    intro w₁ _ _ c
    have hpool : (World.exec c o w₁).2.cp.pool = w₁.cp.pool :=
      congrArg AppState.pool (exec_select ho c w₁.cp).1
    have hends : ∀ {r : Except ApiError Reply} {st : Stage (Except Status Reply)} {w : World},
        st.Ended (Agrees t r) → (Prog.ofExcept r : Handler).Along World.exec AnyTables (AddsW E)
          (Pool.LinearStep World.exec (fun w => w.cp.pool) (fun c : Option SqlxError => c = none)
            (fun _ => call.Serial E) t) (fun a st _ => st.Ended (Agrees t (.ok a)))
          (fun e st _ => st.Ended (Agrees t (.error e))) st w := by
      intro r st w h
      cases r <;> exact h
    cases c with
    | some e =>
      refine ⟨.failed, ?_, hends (Or.inl rfl)⟩
      simp only [Pool.LinearStep, hpool]
      exact .fails (by simp) _ _
    | none =>
      refine ⟨.served (outcome (f (World.exec none o w₁).1)), ?_, hends (Or.inr ⟨_, rfl, rfl⟩)⟩
      simp only [Pool.LinearStep, hpool]
      refine .serves fun s hs => ?_
      rw [serveCall_read ho hcall, (exec_select ho none w₁.cp).2 s hs]
      exact ⟨rfl, hs⟩

/-! ## Every run -/

/-- Program `t` serves the call of its number. -/
def ServesCalls (E : Env) (calls : ℕ → Call) (w : World) (es : List Event) : Prop :=
  ∀ (n : ℕ) p, es[n]? = some (.start p) → p = router E (calls (Gateway.wAt (.idle w) es n).count)

theorem ServesCalls.routed {calls : ℕ → Call} {w : World} {es : List Event}
    (h : ServesCalls E calls w es) : ∀ p, .start p ∈ es → ∃ call, p = router E call := by
  intro p hp
  obtain ⟨n, hn⟩ := List.mem_iff_getElem?.1 hp
  exact ⟨_, h n p hn⟩

theorem wAt_take (g : Gateway) (es : List Event) {n m : ℕ} (h : m ≤ n) :
    g.wAt (es.take n) m = g.wAt es m := by
  change g.run ((es.take n).take m) = g.run (es.take m)
  rw [List.take_take, min_eq_left h]

theorem ServesCalls.take {calls : ℕ → Call} {w : World} {es : List Event}
    (h : ServesCalls E calls w es) (n : ℕ) : ServesCalls E calls w (es.take n) := by
  intro m p hp
  rw [List.getElem?_take] at hp
  split at hp
  · rename_i hlt
    rw [wAt_take _ _ hlt.le]
    exact h m p hp
  · exact absurd hp (by simp)

/-! ### One at a time -/

/-- Calls served one at a time, in the order of the list. -/
def serveCalls (E : Env) (s : AppState) (calls : List Call) : AppState :=
  calls.foldl (fun s call => (serveCall E call s).2) s

/-- `order` is a serial order of the requests of the run: served one at a time in this
order, without a failure, they leave the same tables, and at every moment the tables are
those that the first ones of them leave. Each request that was answered and had no failing
statement is in it, with the same status and, on success, the same reply. A request
answered before another one started comes first. -/
structure SerialOrder (E : Env) (calls : ℕ → Call) (w : World) (es : List Event) (order : List ℕ) :
    Prop where
  nodup : order.Nodup
  started : ∀ t ∈ order, t < (Gateway.run (.idle w) es).count
  tables : (serveCalls E w.cp (order.map calls)).pool = (Gateway.run (.idle w) es).st.cp.pool
  moments : ∀ n ≤ es.length, ∃ before after, order = before ++ after ∧
    (serveCalls E w.cp (before.map calls)).pool = (Gateway.wAt (.idle w) es n).st.cp.pool
  answers : ∀ t r, (Gateway.run (.idle w) es).result t = some r → (∀ e, .step t (some e) ∉ es) →
    ∃ before after, order = before ++ t :: after ∧
      outcome (serveCall E (calls t) (serveCalls E w.cp (before.map calls))).1 = outcome r
  realTime : ∀ n ≤ es.length, ∀ t r u, (Gateway.wAt (.idle w) es n).result t = some r →
    (Gateway.wAt (.idle w) es n).count ≤ u → t ∈ order → u ∈ order → [t, u].Sublist order

/-- The steps of the entries are those of the calls served in their order. -/
theorem serveCalls_chain {calls : ℕ → Call} {hist : List (Entry (Except Status Reply))} {s : AppState}
    {db : Tables} (h : Chain (fun t => (calls t).Serial E) s.pool hist db) :
    (serveCalls E s ((hist.map Entry.task).map calls)).pool = db := by
  induction hist generalizing s with
  | nil => exact h
  | cons e hist ih =>
    obtain ⟨db', hserial, hrest⟩ := h
    obtain ⟨-, hpool⟩ := hserial s rfl
    rw [← hpool] at hrest
    exact ih hrest

theorem serveCalls_append (s : AppState) (calls calls' : List Call) :
    serveCalls E s (calls ++ calls') = serveCalls E (serveCalls E s calls) calls' :=
  List.foldl_append

/-- The call changes nothing, or is an admissible request. -/
inductive Call.Serves (E : Env) (call : Call) (db : Tables) : Tables → Prop
  | kept : Call.Serves E call db db
  | written {req : Request} (hreq : call = .change req) (h : req.Admissible E db) :
    Call.Serves E call db (req.written E db)

theorem serveCall_cases (call : Call) (s : AppState) :
    call.Serves E s.pool (serveCall E call s).2.pool := by
  by_cases hread : ∃ req, call = .change req
  · obtain ⟨req, rfl⟩ := hread
    have hc := serve_cases (E := E) noFault req s
    change Call.Serves E (.change req) s.pool (serve E noFault req s).2.pool
    generalize serve E noFault req s = r at hc
    cases hc with
    | refused hno err he => exact .kept
    | unpublished hadm hf hu err => exact .written rfl hadm
    | published hadm hf hu => exact .written rfl hadm
  · obtain ⟨o, f, ho, hcall, -⟩ := router_read (E := E) fun req h => hread ⟨req, h⟩
    rw [serveCall_read ho hcall]
    exact .kept

/-- **What the admissible writes keep, calls keep** that are served one at a time. -/
theorem serveCalls_kept {J : Tables → Prop} {calls : List Call}
    (hkeep : ∀ req, .change req ∈ calls → ∀ db, J db → req.Admissible E db → J (req.written E db))
    {s : AppState} (hs : J s.pool) : J (serveCalls E s calls).pool := by
  induction calls generalizing s with
  | nil => exact hs
  | cons call calls ih =>
    refine ih (fun req hreq => hkeep req (List.mem_cons_of_mem _ hreq)) ?_
    have hc := serveCall_cases (E := E) call s
    generalize (serveCall E call s).2.pool = db at hc
    cases hc with
    | kept => exact hs
    | written hreq hadm => exact hkeep _ (hreq ▸ List.mem_cons_self) _ hs hadm

/-! ### The order of the steps -/

/-- The linearization of a run of the gateway: `hist` has the steps of its calls. -/
abbrev Steps (E : Env) (calls : ℕ → Call) (w : World) (es : List Event) (n : ℕ)
    (hist : List (Entry (Except Status Reply))) (stage : ℕ → Conc.Stage (Except Status Reply)) : Prop :=
  Pool.Linearized World.exec (fun a w => World.act w a) (fun w => w.cp.pool)
    (fun c : Option SqlxError => c = none) AnyTables (AddsW E) Agrees
    (fun t => (calls t).Serial E) (.idle w) es n hist stage

/-- A handler keeps what all requests keep. -/
theorem router_safe {J : Tables → Prop} (hJ : Kept E J) (call : Call) (w : World) (hI : HasTables J w) :
    (router E call).Safe World.exec (HasTables J) (AddsW E) (Answered E) w := by
  by_cases hread : ∃ req, call = .change req
  · obtain ⟨req, rfl⟩ := hread
    exact handle_safe hJ req w hI
  · obtain ⟨o, f, ho, hcall, hreply⟩ := router_read (E := E) fun req h => hread ⟨req, h⟩
    rw [hcall]
    intro w₁ _ hI₁ c
    have hpool : (World.exec c o w₁).2.cp.pool = w₁.cp.pool :=
      congrArg AppState.pool (exec_select ho c w₁.cp).1
    obtain ⟨hI₂, hadds⟩ := hI₁.same hpool
    refine ⟨hI₂, hadds, ?_⟩
    beta_reduce
    cases hf : f (World.exec c o w₁).1 with
    | error e => trivial
    | ok reply =>
      rintro policy rfl
      exact absurd hf (hreply _ policy)

/-- **Every run keeps it**, with `GET`s among its calls. -/
theorem calls_kept {J : Tables → Prop} (hJ : Kept E J) {w : World} (hw : J w.cp.pool) (es : List Event)
    (hes : ∀ p, .start p ∈ es → ∃ call, p = router E call) :
    Pool.AllSafe World.exec (HasTables J) (AddsW E) (Answered E) (Gateway.run (.idle w) es) := by
  have hidle : ∀ t p, (Pool.idle w : Gateway).task t = some p →
      p.Safe World.exec (HasTables J) (AddsW E) (Answered E) w :=
    fun t p hp => absurd hp (by simp [Pool.idle])
  refine Pool.run_safe AddsW.trans Answered.stable (fun w => Adds.refl w.cp.pool) ?_ ?_ ⟨hw, hidle⟩
  · intro p hp w hI
    obtain ⟨call, rfl⟩ := hes p hp
    exact router_safe hJ call w hI
  · intro a w _ hI
    exact hI.same (act_pool w a)

/-- At every moment the handlers in flight are safe. -/
theorem calls_safe {J : Tables → Prop} (hJ : Kept E J) {w : World} (hw : J w.cp.pool) {es : List Event}
    (hes : ∀ p, .start p ∈ es → ∃ call, p = router E call) (n : ℕ) :
    Pool.AllSafe World.exec (HasTables J) (AddsW E) (Answered E) (Gateway.wAt (.idle w) es n) :=
  calls_kept hJ hw (es.take n) fun p hp => hes p (List.mem_of_mem_take hp)

/-- Every event only adds policies. -/
theorem calls_add_next {w : World} {es : List Event} (hes : ∀ p, .start p ∈ es → ∃ call, p = router E call) {n : ℕ}
    (hn : n < es.length) : AddsW E (Gateway.wAt (.idle w) es n).st (Gateway.wAt (.idle w) es (n + 1)).st := by
  rw [Gateway.wAt_succ _ _ hn]
  refine (calls_safe kept_true trivial hes n).next_rel (fun w => Adds.refl w.cp.pool) es[n] ?_
  intro a w' _ hI
  exact (HasTables.same hI (act_pool w' a)).2

/-- From any moment on policies are only added. -/
theorem calls_add {w : World} {es : List Event} (hes : ∀ p, .start p ∈ es → ∃ call, p = router E call) {n m : ℕ}
    (hnm : n ≤ m) : AddsW E (Gateway.wAt (.idle w) es n).st (Gateway.wAt (.idle w) es m).st :=
  Pool.wAt_rel World.exec (fun a w => World.act w a) (fun w => Adds.refl w.cp.pool) AddsW.trans
    (fun _ _ hn => calls_add_next hes hn) hnm

/-- Every run of handlers is linearized. -/
theorem steps_run {w : World} {es : List Event} {calls : ℕ → Call} (hcalls : ServesCalls E calls w es) :
    ∃ hist stage, Steps E calls w es es.length hist stage :=
  Pool.linearized_run AddsW.trans (fun w => Adds.refl w.cp.pool) w es (fun _ => trivial)
    (fun _ hn => calls_add_next hcalls.routed hn) (fun a w => act_pool w a)
    (fun n p hp => hcalls n p hp ▸ router_linear _ _ _) le_rfl

section Steps

variable {calls : ℕ → Call} {w : World} {es : List Event} {hist : List (Entry (Except Status Reply))}
  {stage : ℕ → Conc.Stage (Except Status Reply)}

/-- The calls that took their step were started. -/
theorem Steps.started (h : Steps E calls w es es.length hist stage) :
    ∀ t ∈ hist.map Entry.task, t < (Gateway.run (.idle w) es).count := by
  intro t ht
  obtain ⟨e, he, rfl⟩ := List.mem_map.1 ht
  have hlt := Pool.Linearized.started h (Pool.Numbered.idle w) le_rfl he
  rwa [show Pool.wAt World.exec (fun a w => World.act w a) (.idle w) es es.length =
    Gateway.run (.idle w) es from Gateway.wAt_length (.idle w) es] at hlt

/-- Served one at a time in the order of their steps, the calls leave the tables of the run. -/
theorem Steps.tables (h : Steps E calls w es es.length hist stage) {s : AppState}
    (hs : s.pool = w.cp.pool) :
    (serveCalls E s ((hist.map Entry.task).map calls)).pool = (Gateway.run (.idle w) es).st.cp.pool := by
  have hchain : Chain (fun t => (calls t).Serial E) s.pool hist
      (Gateway.wAt (.idle w) es es.length).st.cp.pool := by
    rw [hs]
    exact h.chain
  rw [serveCalls_chain hchain, Gateway.wAt_length]

/-- A call answered without a failure of its statements has the answer that it gets when
the calls before its step are served one at a time. -/
theorem Steps.answer (h : Steps E calls w es es.length hist stage) {t : ℕ} {r : Except ApiError Reply}
    (hr : (Gateway.run (.idle w) es).result t = some r) (hclean : ∀ e, .step t (some e) ∉ es) :
    ∃ before after, hist.map Entry.task = before ++ t :: after ∧
      ∀ s : AppState, s.pool = w.cp.pool →
        outcome (serveCall E (calls t) (serveCalls E s (before.map calls))).1 = outcome r := by
  rw [← Gateway.wAt_length] at hr
  have hnot : ¬ Pool.FailedBy (fun c : Option SqlxError => c = none) es es.length t := by
    rintro ⟨m, c, -, hstep, hc⟩
    obtain ⟨e, rfl⟩ := Option.ne_none_iff_exists'.1 hc
    exact hclean e (List.mem_of_getElem? hstep)
  obtain ⟨e, he, rfl, hagree⟩ := Pool.Linearized.answer h hr hnot
  -- the state before the entry is the one the calls before it leave
  obtain ⟨before, after, rfl⟩ := List.append_of_mem he
  obtain ⟨db, hbefore, db', hserial, -⟩ := h.chain.split
  refine ⟨before.map Entry.task, after.map Entry.task, by simp, ?_⟩
  intro s hs
  have hchain : Chain (fun t => (calls t).Serial E) s.pool before db := by
    rw [hs]
    exact hbefore
  obtain ⟨hout, -⟩ := hserial _ (serveCalls_chain hchain)
  exact hout.trans hagree

end Steps

/-- **What the writes of requests keep, every run keeps**: a property of the tables that
survives each admissible write. -/
theorem serial_run {w : World} {es : List Event} {calls : ℕ → Call}
    (hcalls : ServesCalls E calls w es) {J : Tables → Prop} (h0 : J w.cp.pool)
    (hkeep : ∀ t < (Gateway.run (.idle w) es).count, ∀ req, calls t = .change req →
      ∀ db, J db → req.Admissible E db → J (req.written E db)) : J (Gateway.run (.idle w) es).st.cp.pool := by
  obtain ⟨hist, stage, h⟩ := steps_run hcalls
  rw [← Steps.tables h (s := w.cp) rfl]
  refine serveCalls_kept ?_ h0
  intro req hreq
  obtain ⟨t, ht, heq⟩ := List.mem_map.1 hreq
  exact hkeep t (Steps.started h t ht) req heq

/-- **The admin API is linearizable.** Whatever the order of the statements of concurrent
requests, changes and `GET`s, with any of them failing, any requests dropped and data planes
coming and going, there is a serial order of the requests. -/
theorem requests_linearizable (w : World) (es : List Event) (calls : ℕ → Call)
    (hcalls : ServesCalls E calls w es) : ∃ order, SerialOrder E calls w es order := by
  obtain ⟨hist, stage, h⟩ := steps_run hcalls
  refine ⟨hist.map Entry.task, h.nodup, Steps.started h, Steps.tables h rfl, ?_, ?_, ?_⟩
  · intro n hn
    obtain ⟨before, after, rfl, hbefore, -⟩ := h.moments n hn
    exact ⟨before.map Entry.task, after.map Entry.task, List.map_append, serveCalls_chain hbefore⟩
  · intro t r hr hclean
    obtain ⟨before, after, heq, hout⟩ := Steps.answer h hr hclean
    exact ⟨before, after, heq, hout w.cp rfl⟩
  · intro n hn t r u hr hu ht hu'
    exact Pool.Linearized.before h (Pool.Numbered.idle w) hn hr hu ht hu'

namespace Sample

/-- A route is created, deleted before its creation is answered, and read meanwhile. -/
def raced : ℕ → Call
  | 0 => .change (.createRoute users)
  | 1 => .change (.deleteRoute "users")
  | _ => .getRoute "users"

def race : List Event :=
  [.start (router .plain (raced 0)), .start (router .plain (raced 1)), .start (router .plain (raced 2)),
    .step 0 none, .step 2 none, .step 1 none, .step 1 none, .step 0 none, .step 0 none, .step 1 none,
    .step 1 none, .step 0 none]

theorem race_serves (w : World) : ServesCalls .plain raced w race := by
  intro n p hp
  match n with
  | 0 | 1 | 2 =>
    obtain rfl : _ = p := by simpa [race] using hp
    rfl
  | 3 | 4 | 5 | 6 | 7 | 8 | 9 | 10 | 11 => exact absurd hp (by simp [race])
  | n + 12 => exact absurd hp (by simp [race])

end Sample

/-- Both changes succeed, so both have a place in the order. -/
theorem requests_linearizable_race :
    ServesCalls .plain Sample.raced (.start ⟨⟨[], []⟩, .new⟩) Sample.race ∧
      (Gateway.run (.idle (.start ⟨⟨[], []⟩, .new⟩)) Sample.race).result 0 =
        some (.ok (.routeCreated Sample.users)) ∧
      (Gateway.run (.idle (.start ⟨⟨[], []⟩, .new⟩)) Sample.race).result 1 = some (.ok .noContent) ∧
      ∃ order, SerialOrder .plain Sample.raced (.start ⟨⟨[], []⟩, .new⟩) Sample.race order ∧
        0 ∈ order ∧ 1 ∈ order := by
  have hserves := Sample.race_serves (.start ⟨⟨[], []⟩, .new⟩)
  have hcreated : (Gateway.run (.idle (.start ⟨⟨[], []⟩, .new⟩)) Sample.race).result 0 =
      some (.ok (.routeCreated Sample.users)) := rfl
  have hdeleted : (Gateway.run (.idle (.start ⟨⟨[], []⟩, .new⟩)) Sample.race).result 1 =
      some (.ok .noContent) := rfl
  obtain ⟨order, horder⟩ := requests_linearizable (E := .plain) _ _ _ hserves
  obtain ⟨before, after, heq, -⟩ := horder.answers 0 _ hcreated (by simp [Sample.race])
  obtain ⟨before', after', heq', -⟩ := horder.answers 1 _ hdeleted (by simp [Sample.race])
  refine ⟨hserves, hcreated, hdeleted, order, horder, ?_, ?_⟩
  · rw [heq]
    exact List.mem_append_right _ List.mem_cons_self
  · rw [heq']
    exact List.mem_append_right _ List.mem_cons_self

/-! ## The operations of a request -/

end Yali
