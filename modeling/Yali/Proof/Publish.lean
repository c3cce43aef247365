import Yali.Order.Keyed
import Yali.Proof.Serve
import Yali.Spec.Execution

/-!
# How a request goes about publishing

Every request works (reads policies, then makes its write), owes a publication once
the write has taken effect, carries the routes it has read, and sends them. `Mode`
and `Phase` are this protocol, `handle_follows` says that every handler keeps to it.

* `check_follows`: the checks of a request read policies, and nothing else.
* `answer_ok`: a write answers with success exactly when it has taken effect.
* `exec_unwritten`: only a write that takes effect changes the tables.
-/

namespace Yali

open Conc

/-! ## The protocol -/

/-- Where a request is. -/
inductive Mode
  | working
  | owes
  | carries (routes : List Proto.Route)
  | sends (snapshot : Proto.Snapshot)
  | finished

instance : Inhabited Mode := ⟨.working⟩

namespace Op

/-- The reads of the checks. -/
def isPolicyRead : Op → Bool
  | .selectPolicy _ _ => true
  | _ => false

def isWrite : Op → Bool
  | .insertPolicy _ | .insertRoute _ | .updateRoute _ | .deleteRoute _ => true
  | _ => false

/-- A write takes effect: it succeeds, and affects a row. -/
def Wrote : (o : Op) → o.Res → Prop
  | .insertPolicy _, r => r = .ok ()
  | .insertRoute _, r => r = .ok ()
  | .updateRoute _, r => ∃ n, r = .ok (n + 1)
  | .deleteRoute _, r => ∃ n, r = .ok (n + 1)
  | _, _ => False

end Op

/-- One operation of a request and the mode it leads to. -/
inductive Phase (E : Env) : Mode → (o : Op) → o.Res → Mode → Prop
  | read {o : Op} (h : o.isPolicyRead = true) (r : o.Res) : Phase E .working o r .working
  | wrote {o : Op} (hw : o.isWrite = true) (r : o.Res) (h : o.Wrote r) : Phase E .working o r .owes
  | refused {o : Op} (hw : o.isWrite = true) (r : o.Res) (h : ¬ o.Wrote r) : Phase E .working o r .finished
  | listed (rows : List RouteRow) :
    Phase E .owes .selectRoutes (.ok rows) (.carries ((rows.map (Db.rowToRoute E)).map routeToProto))
  | unlisted (e : SqlxError) : Phase E .owes .selectRoutes (.error e) .finished
  | counted (routes : List Proto.Route) (version : UInt64) :
    Phase E (.carries routes) .fetchAdd version (.sends ⟨version + 1, routes⟩)
  | sent (snapshot : Proto.Snapshot) : Phase E (.sends snapshot) (.send snapshot) () .finished

/-- A result comes when nothing is left to do, an error also before the write. -/
def Replied : Reply → Mode → Prop := fun _ m => m = .finished

def Failed (m : Mode) : Prop := m = .finished ∨ m = .working

/-- A handler, from a mode on. -/
abbrev Publishing (E : Env) (p : Handler) (m : Mode) : Prop := p.Follows (Phase E) Replied Failed m

variable {E : Env}

/-! ## Handlers keep to it -/

section Checks

variable {M : Type} {δ : M → (o : Op) → o.Res → M → Prop} {X : M → Prop} {m : M}
  (hread : ∀ (o : Op) (r : o.Res), o.isPolicyRead = true → δ m o r m) (hX : X m)
include hread hX

/-! The checks keep to any protocol that lets them read policies in the mode they start in. -/

theorem checkPolicy_follows (index : ℕ) (entry : RoutePolicy) :
    (checkPolicy E index entry).Follows δ (fun _ m' => m' = m) X m := by
  unfold checkPolicy
  split
  · exact rfl
  · intro r
    refine ⟨m, hread _ r rfl, ?_⟩
    cases r with
    | error e => exact hX
    | ok row => exact rfl

theorem checkPolicies_follows (entries : List RoutePolicy) (index : ℕ) (details : List String) :
    (checkPolicies E index details entries).Follows δ (fun _ m' => m' = m) X m := by
  induction entries generalizing index details with
  | nil => exact rfl
  | cons entry entries ih =>
    refine (checkPolicy_follows hread hX index entry).bind ?_
    intro added m' hm'
    rw [hm']
    exact ih (index + 1) (details ++ added)

theorem validateRoutePolicies_follows (route : RouteSpec) :
    (validateRoutePolicies E route).Follows δ (fun _ m' => m' = m) X m := by
  refine (checkPolicies_follows hread hX route.policies 0 []).bind ?_
  intro d m' hm'
  rw [hm']
  split
  · exact rfl
  · exact hX

theorem check_follows (req : Request) : (req.check E).Follows δ (fun _ m' => m' = m) X m := by
  cases req with
  | createPolicy policy =>
    simp only [Request.check]
    cases validatePolicySpec E policy with
    | error err => exact hX
    | ok u => exact rfl
  | createRoute route => exact (validateRoutePolicies_follows hread hX route).mapErr
  | updateRoute id route => exact (validateRoutePolicies_follows hread hX (route.renamed id)).mapErr
  | deleteRoute id => exact rfl

end Checks

/-- **The write** answers with success exactly when it has taken effect. -/
theorem answer_ok {req : Request} {r : (req.writeOp E).Res} :
    req.answer E r = .ok () ↔ (req.writeOp E).Wrote r := by
  have haffected : ∀ r : Except SqlxError ℕ, Request.affected r = .ok () ↔ ∃ n, r = .ok (n + 1) := by
    intro r
    rcases r with e | _ | n <;> simp [Request.affected]
  have hinsert : ∀ r : Except SqlxError Unit, r.mapError mapDbError = .ok () ↔ r = .ok () := by
    intro r
    rcases r with e | _ <;> simp [Except.mapError]
  cases req with
  | createPolicy policy => exact hinsert r
  | createRoute route => exact hinsert r
  | updateRoute id route => exact haffected r
  | deleteRoute id => exact haffected r

theorem writeOp_isWrite (req : Request) : (req.writeOp E).isWrite = true := by
  cases req with
  | _ => rfl

/-- The checks and the write of a request. -/
theorem change_follows (req : Request) :
    (req.change E).Follows (Phase E) (fun _ m => m = .owes) Failed .working := by
  have hcheck : (req.check E).Follows (Phase E) (fun _ m => m = .working) Failed .working :=
    check_follows (fun o r ho => Phase.read ho r) (Or.inr rfl) req
  rw [Request.change_eq]
  refine hcheck.bind ?_
  rintro u m rfl r
  cases hr : req.answer E r with
  | ok u =>
    refine ⟨.owes, .wrote (writeOp_isWrite req) r (answer_ok.1 hr), ?_⟩
    simp only [hr]
    exact rfl
  | error e =>
    have hno : ¬ (req.writeOp E).Wrote r := by
      intro hw
      rw [answer_ok.2 hw] at hr
      exact absurd hr (by simp)
    refine ⟨.finished, .refused (writeOp_isWrite req) r hno, ?_⟩
    simp only [hr]
    exact Or.inl rfl

/-- The publication, from the read on. -/
theorem publishAndReply_follows (reply : Reply) : Publishing E (publishAndReply E reply) .owes := by
  intro r
  cases r with
  | error e => exact ⟨.finished, .unlisted e, Or.inl rfl⟩
  | ok rows =>
    refine ⟨_, .listed rows, ?_⟩
    intro version
    refine ⟨_, .counted _ version, ?_⟩
    intro u
    exact ⟨_, .sent _, rfl⟩

/-- **Every handler keeps to the protocol.** -/
theorem handle_follows (req : Request) : Publishing E (handle E req) .working := by
  rw [handle_eq]
  refine (change_follows req).bind ?_
  rintro u m rfl
  exact publishAndReply_follows req.reply

/-- A program about to send carries its snapshot. -/
theorem Publishing.of_send {snapshot : Proto.Snapshot} {k : Unit → Handler} {m : Mode}
    (h : Publishing E (.op (.send snapshot) k) m) : m = .sends snapshot := by
  obtain ⟨m', hm', -⟩ := h ()
  cases hm' with
  | sent snapshot => rfl
  | read ho r => exact absurd ho Bool.false_ne_true
  | wrote hw r h => exact absurd hw Bool.false_ne_true
  | refused hw r h => exact absurd hw Bool.false_ne_true

/-! ## What an operation does to the tables and the channel -/

theorem exec_read {o : Op} (h : o.isPolicyRead = true) (c : Option SqlxError) (w : World) :
    (World.exec c o w).2 = w := by
  cases o <;> first | (cases c <;> rfl) | exact absurd h (by simp [Op.isPolicyRead])

/-- A write without effect leaves the tables. -/
theorem exec_refused {o : Op} (hw : o.isWrite = true) (w : World)
    (h : ¬ o.Wrote (World.exec none o w).1) : (World.exec none o w).2.cp.pool = w.cp.pool := by
  cases o with
  | insertPolicy row =>
    rcases insertPolicy_cases w.cp.pool row with ⟨-, hi⟩ | ⟨-, e, hi, -⟩
    · simp only [World.exec, exec, statement, hi, Op.Wrote] at h
      exact absurd trivial h
    · simp only [World.exec, exec, statement, hi]
  | insertRoute row =>
    rcases insertRoute_cases w.cp.pool row with ⟨-, hi⟩ | ⟨-, e, hi, -⟩
    · simp only [World.exec, exec, statement, hi, Op.Wrote] at h
      exact absurd trivial h
    · simp only [World.exec, exec, statement, hi]
  | updateRoute row =>
    rcases updateRoute_cases w.cp.pool row with ⟨-, hn⟩ | ⟨-, hn⟩
    · obtain ⟨n, hn⟩ := Nat.exists_eq_succ_of_ne_zero hn
      exact absurd ⟨n, congrArg Except.ok hn⟩ h
    · simp only [World.exec, exec, statement, hn, Prod.map, id]
  | deleteRoute id =>
    rcases deleteRoute_cases w.cp.pool id with ⟨-, hn⟩ | ⟨-, hn⟩
    · obtain ⟨n, hn⟩ := Nat.exists_eq_succ_of_ne_zero hn
      exact absurd ⟨n, congrArg Except.ok hn⟩ h
    · simp only [World.exec, exec, statement, hn, Prod.map]
  | _ => exact absurd hw (by simp [Op.isWrite])

/-- An operation that is no write that takes effect leaves the tables. -/
theorem exec_unwritten {o : Op} {c : Option SqlxError} {w : World} (h : ¬ o.Wrote (World.exec c o w).1) :
    (World.exec c o w).2.cp.pool = w.cp.pool := by
  cases c with
  | some e => cases o <;> rfl
  | none =>
    by_cases ho : o.isWrite = true
    · exact exec_refused ho w h
    · cases o <;> first | rfl | exact absurd rfl ho

/-! ### The rows -/

/-- The route that a write is about, and the row that it leaves there. -/
def Op.rewrites : Op → Option (String × Option RouteRow)
  | .insertRoute row | .updateRoute row => some (row.id, some row)
  | .deleteRoute id => some (id, none)
  | _ => none

/-- A row is replaced by one of the same id. -/
theorem replace_id (new r : RouteRow) : (if r.id = new.id then new else r).id = r.id := by
  split
  · rename_i heq
    exact heq.symm
  · rfl

theorem replace_ids (new : RouteRow) (rows : List RouteRow) :
    (rows.map fun r => if r.id = new.id then new else r).map RouteRow.id = rows.map RouteRow.id := by
  rw [List.map_map]
  exact List.map_congr_left fun r _ => replace_id new r

theorem selectRoute_none {db : Tables} {id : String} :
    db.selectRoute id = none ↔ ∀ row ∈ db.routes, row.id ≠ id := Keyed.find_none

/-- **A write that takes effect**, row by row. -/
theorem exec_selectRoute {o : Op} {id : String} {left : Option RouteRow} (h : o.rewrites = some (id, left))
    {c : Option SqlxError} {w : World} (hw : o.Wrote (World.exec c o w).1) (x : String) :
    (World.exec c o w).2.cp.pool.selectRoute x = if x = id then left else w.cp.pool.selectRoute x := by
  -- a statement that fails writes nothing
  obtain rfl : c = none := by
    cases c with
    | none => rfl
    | some e => cases o <;> simp [World.exec, exec, statement, Op.Wrote] at hw
  cases o with
  | insertRoute row =>
    obtain ⟨rfl, rfl⟩ : row.id = id ∧ some row = left := by simpa [Op.rewrites] using h
    rcases insertRoute_cases w.cp.pool row with ⟨hfree, hi⟩ | ⟨-, e, hi, -⟩
    · have hnone := selectRoute_none.2 hfree
      unfold Tables.selectRoute at hnone
      simp only [World.exec, exec, statement, hi, Tables.selectRoute, List.find?_append]
      split
      · rename_i hx
        rw [hx, hnone]
        simp
      · rename_i hx
        have hne : row.id ≠ x := fun h => hx h.symm
        simp [hne]
    · simp [World.exec, exec, statement, hi, Op.Wrote] at hw
  | updateRoute row =>
    obtain ⟨rfl, rfl⟩ : row.id = id ∧ some row = left := by simpa [Op.rewrites] using h
    simp only [World.exec, exec, statement, Tables.updateRoute, Tables.selectRoute, Prod.map, id_eq]
    rw [Keyed.find_map (replace_id row)]
    split
    · rename_i hx
      -- the row is there
      obtain ⟨old, hold⟩ : ∃ old, w.cp.pool.routes.find? (fun r => r.id = x) = some old := by
        refine Option.ne_none_iff_exists'.1 fun hnone => ?_
        obtain ⟨n, hn⟩ := hw
        have hcount : (w.cp.pool.updateRoute row).1 = n + 1 := Except.ok.inj hn
        rcases updateRoute_cases w.cp.pool row with ⟨⟨r, hmem, hrid⟩, -⟩ | ⟨-, hzero⟩
        · exact Keyed.find_none.1 hnone r hmem (hrid.trans hx.symm)
        · exact absurd (hcount.symm.trans (congrArg Prod.fst hzero)) (Nat.succ_ne_zero n)
      have hid : old.id = x := by simpa using List.find?_some hold
      rw [hold, Option.map_some, if_pos (hid.trans hx)]
    · rename_i hx
      cases hold : w.cp.pool.routes.find? fun r => r.id = x with
      | none => rfl
      | some old =>
        have hid : old.id = x := by simpa using List.find?_some hold
        rw [Option.map_some, if_neg fun h => hx (hid.symm.trans h)]
  | deleteRoute id' =>
    obtain ⟨rfl, rfl⟩ : id' = id ∧ none = left := by simpa [Op.rewrites] using h
    exact Keyed.find_filter w.cp.pool.routes x id'
  | _ => exact absurd h (by simp [Op.rewrites])

/-- An operation that is about no route leaves the rows of `routes`. -/
theorem exec_routes_same {o : Op} (h : o.rewrites = none) (c : Option SqlxError) (w : World) :
    (World.exec c o w).2.cp.pool.routes = w.cp.pool.routes := by
  cases c with
  | some e => cases o <;> rfl
  | none =>
    cases o with
    | insertPolicy row =>
      rcases insertPolicy_cases w.cp.pool row with ⟨-, hi⟩ | ⟨-, e, hi, -⟩
      all_goals simp only [World.exec, exec, statement, hi]
    | insertRoute row | updateRoute row | deleteRoute id => exact absurd h (by simp [Op.rewrites])
    | _ => rfl

/-- The rows keep distinct ids. -/
theorem exec_nodup (c : Option SqlxError) (o : Op) {w : World} (h : (w.cp.pool.routes.map RouteRow.id).Nodup) :
    ((World.exec c o w).2.cp.pool.routes.map RouteRow.id).Nodup := by
  cases c with
  | some e => cases o <;> exact h
  | none =>
    cases o with
    | insertRoute row =>
      rcases insertRoute_cases w.cp.pool row with ⟨hfree, hi⟩ | ⟨-, e, hi, -⟩
      · simp only [World.exec, exec, statement, hi]
        exact Keyed.nodup_concat h hfree
      · simp only [World.exec, exec, statement, hi]
        exact h
    | updateRoute row =>
      simp only [World.exec, exec, statement, Tables.updateRoute, Prod.map, id_eq]
      rwa [replace_ids]
    | deleteRoute id => exact h.sublist (List.filter_sublist.map _)
    | _ =>
      rw [exec_routes_same rfl]
      exact h

/-! ## The connections -/

/-- The actions of the connections do not touch the tables. -/
theorem act_pool (w : World) (a : Action) : (w.act a).cp.pool = w.cp.pool := by
  cases a <;> simp only [World.act] <;> repeat' split
  all_goals rfl

/-- Of the channel they change the number of receivers only. -/
theorem act_tx (w : World) (a : Action) : ∃ r, (w.act a).tx = { w.tx with receivers := r } := by
  cases a <;> simp only [World.act] <;> repeat' split
  all_goals exact ⟨_, rfl⟩

/-- Nor the counter. -/
theorem act_version (w : World) (a : Action) :
    (w.act a).cp.configState.version = w.cp.configState.version := by
  cases a <;> simp only [World.act] <;> repeat' split
  all_goals rfl

end Yali
