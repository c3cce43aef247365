import Mathlib.Data.String.Basic
import Mathlib.Data.List.Pairwise

/-!
# JSON documents and values

`Json` is what a JSON text denotes: an object lists its members in the order of
the text, and a key may occur twice. `Value` is the canonical case, what
`serde_json::Value` can hold: every object is a map ordered by key, so its keys
are strictly increasing, at every level.

* `put`: insertion into an ordered map, by key.
* `Json.canon`: the value a document is read as (members are inserted in order,
  a later one replaces an earlier one of the same key).
* `Json.Canon.canon_eq`: a canonical document is read as itself.
-/

namespace Yali

/-- A finite double, by its bits. -/
structure Double where
  bits : UInt64
  finite : bits >>> 52 &&& 0x7ff ≠ 0x7ff
  deriving DecidableEq

/-- A JSON number. `negInt n` is the integer `-(n + 1)`, so no integer has two forms. -/
inductive Number
  | posInt (n : UInt64)
  | negInt (n : Fin (2 ^ 63))
  | float (d : Double)
  deriving DecidableEq

/-- A JSON document. -/
inductive Json
  | null
  | bool (b : Bool)
  | num (n : Number)
  | str (s : String)
  | arr (xs : List Json)
  | obj (fs : List (String × Json))

/-! ## Ordered maps -/

section Map

variable {κ α : Type} [LinearOrder κ]

/-- Insertion into a list of pairs ordered by key; the value of a key that is
there is replaced. -/
def put (k : κ) (v : α) : List (κ × α) → List (κ × α)
  | [] => [(k, v)]
  | (k', v') :: m =>
    if k < k' then (k, v) :: (k', v') :: m
    else if k = k' then (k, v) :: m
    else (k', v') :: put k v m

/-- The keys are strictly increasing. -/
def Ordered (m : List (κ × α)) : Prop := (m.map Prod.fst).Pairwise (· < ·)

@[simp] theorem ordered_nil : Ordered ([] : List (κ × α)) := by simp [Ordered]

@[simp] theorem ordered_cons {kv : κ × α} {m : List (κ × α)} :
    Ordered (kv :: m) ↔ (∀ x ∈ m, kv.1 < x.1) ∧ Ordered m := by
  simp [Ordered]

/-- An insertion brings in nothing but its own pair. -/
theorem mem_put {k : κ} {v : α} {x : κ × α} {m : List (κ × α)} (h : x ∈ put k v m) :
    x = (k, v) ∨ x ∈ m := by
  induction m with
  | nil => simpa [put] using h
  | cons kv m ih =>
    obtain ⟨k', v'⟩ := kv
    simp only [put] at h
    split at h
    · simpa using h
    split at h
    · rcases List.mem_cons.1 h with h | h
      · exact Or.inl h
      · exact Or.inr (List.mem_cons_of_mem _ h)
    · rcases List.mem_cons.1 h with h | h
      · exact Or.inr (h ▸ List.mem_cons_self)
      · exact (ih h).imp_right (List.mem_cons_of_mem _)

/-- An insertion keeps the order. -/
theorem put_ordered {k : κ} {v : α} {m : List (κ × α)} (hm : Ordered m) : Ordered (put k v m) := by
  induction m with
  | nil => simp [put]
  | cons kv m ih =>
    obtain ⟨k', v'⟩ := kv
    obtain ⟨hlt, hm'⟩ := ordered_cons.1 hm
    simp only [put]
    split
    · rename_i hk
      refine ordered_cons.2 ⟨?_, hm⟩
      intro x hx
      rcases List.mem_cons.1 hx with rfl | hx
      · exact hk
      · exact hk.trans (hlt x hx)
    split
    · rename_i hk
      exact ordered_cons.2 ⟨fun x hx => hk ▸ hlt x hx, hm'⟩
    · rename_i hk hne
      refine ordered_cons.2 ⟨?_, ih hm'⟩
      intro x hx
      rcases mem_put hx with rfl | hx
      · exact lt_of_le_of_ne (not_lt.1 hk) (Ne.symm hne)
      · exact hlt x hx

/-- A key above all others goes to the end. -/
theorem put_last {k : κ} {v : α} {m : List (κ × α)} (h : ∀ x ∈ m, x.1 < k) :
    put k v m = m ++ [(k, v)] := by
  induction m with
  | nil => rfl
  | cons kv m ih =>
    obtain ⟨k', v'⟩ := kv
    have hk : k' < k := h _ List.mem_cons_self
    rw [put, if_neg hk.asymm, if_neg hk.ne', ih (fun x hx => h x (List.mem_cons_of_mem _ hx)),
      List.cons_append]

end Map

namespace Json

/-! ## Reading -/

def isObject : Json → Bool
  | .obj _ => true
  | _ => false

def asObject : Json → Option (List (String × Json))
  | .obj fs => some fs
  | _ => none

def asArray : Json → Option (List Json)
  | .arr xs => some xs
  | _ => none

def asStr : Json → Option String
  | .str s => some s
  | _ => none

def asBool : Json → Option Bool
  | .bool b => some b
  | _ => none

def asU64 : Json → Option UInt64
  | .num (.posInt n) => some n
  | _ => none

/-! ## Canonical documents -/

/-- Every object, at every level, is ordered by key. -/
inductive Canon : Json → Prop
  | null : Canon .null
  | bool (b) : Canon (.bool b)
  | num (n) : Canon (.num n)
  | str (s) : Canon (.str s)
  | arr {xs} (h : ∀ x ∈ xs, Canon x) : Canon (.arr xs)
  | obj {fs : List (String × Json)} (ho : Ordered fs) (h : ∀ x ∈ fs, Canon x.2) : Canon (.obj fs)

mutual

/-- The value a document is read as. -/
def canon : Json → Json
  | .arr xs => .arr (canonList xs)
  | .obj fs => .obj (canonFields [] fs)
  | j => j

def canonList : List Json → List Json
  | [] => []
  | x :: xs => x.canon :: canonList xs

/-- Inserts the members into the map `m`, in order. -/
def canonFields (m : List (String × Json)) : List (String × Json) → List (String × Json)
  | [] => m
  | (k, v) :: fs => canonFields (put k v.canon m) fs

end

mutual

/-- What is read is canonical. -/
theorem canon_canon : ∀ j : Json, Canon j.canon
  | .null => .null
  | .bool b => .bool b
  | .num n => .num n
  | .str s => .str s
  | .arr xs => .arr (canonList_canon xs)
  | .obj fs => .obj (canonFields_canon fs [] (by simp) (by simp)).1
      (canonFields_canon fs [] (by simp) (by simp)).2

theorem canonList_canon : ∀ xs : List Json, ∀ x ∈ canonList xs, Canon x
  | [] => by simp [canonList]
  | x :: xs => by
    intro y hy
    rcases List.mem_cons.1 hy with rfl | hy
    · exact canon_canon x
    · exact canonList_canon xs y hy

theorem canonFields_canon : ∀ (fs m : List (String × Json)), Ordered m → (∀ x ∈ m, Canon x.2) →
    Ordered (canonFields m fs) ∧ ∀ x ∈ canonFields m fs, Canon x.2
  | [], _, ho, hm => ⟨ho, hm⟩
  | (k, v) :: fs, m, ho, hm => by
    refine canonFields_canon fs (put k v.canon m) (put_ordered ho) ?_
    intro x hx
    rcases mem_put hx with rfl | hx
    · exact canon_canon v
    · exact hm x hx

end

mutual

/-- **A canonical document is read as itself.** -/
theorem Canon.canon_eq : ∀ {j : Json}, Canon j → j.canon = j
  | _, .null => rfl
  | _, .bool _ => rfl
  | _, .num _ => rfl
  | _, .str _ => rfl
  | .arr xs, .arr h => by rw [canon, canonList_eq xs h]
  | .obj fs, .obj ho h => by rw [canon, canonFields_eq fs [] (by simpa using ho) h, List.nil_append]

theorem canonList_eq : ∀ xs : List Json, (∀ x ∈ xs, Canon x) → canonList xs = xs
  | [], _ => rfl
  | x :: xs, h => by
    rw [canonList, Canon.canon_eq (h x List.mem_cons_self),
      canonList_eq xs (fun y hy => h y (List.mem_cons_of_mem _ hy))]

theorem canonFields_eq : ∀ (fs m : List (String × Json)), Ordered (m ++ fs) →
    (∀ x ∈ fs, Canon x.2) → canonFields m fs = m ++ fs
  | [], m, _, _ => by simp [canonFields]
  | (k, v) :: fs, m, ho, h => by
    have hlast : ∀ x ∈ m, x.1 < k := by
      intro x hx
      simp only [Ordered, List.map_append, List.pairwise_append] at ho
      exact ho.2.2 x.1 (List.mem_map_of_mem hx) k (by simp)
    rw [canonFields, Canon.canon_eq (h (k, v) List.mem_cons_self), put_last hlast,
      canonFields_eq fs (m ++ [(k, v)]) (by simpa using ho)
        (fun x hx => h x (List.mem_cons_of_mem _ hx))]
    simp

end

end Json

/-! ## Values -/

/-- A JSON value: a canonical document. -/
@[ext] structure Value where
  doc : Json
  canon : doc.Canon

namespace Value

/-- Reading a document as a value. -/
def ofDoc (j : Json) : Value := ⟨j.canon, j.canon_canon⟩

@[simp] theorem ofDoc_doc (v : Value) : ofDoc v.doc = v := Value.ext v.canon.canon_eq

/-- The empty object. -/
def emptyObject : Value := ⟨.obj [], .obj (by simp) (by simp)⟩

def isObject (v : Value) : Bool := v.doc.isObject

end Value

end Yali
