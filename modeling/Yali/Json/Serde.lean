import Yali.Json.Doc

/-!
# Typed JSON

`Serde α` gives the document a value of type `α` is written as and the reading of
a document at type `α`, as `#[derive(Serialize, Deserialize)]` does: a struct is
written with its fields in the order of their declaration; reading it takes each
field by name, ignores names it does not know and rejects a name that occurs
twice; a missing field is an error or its default; `null` reads as `None`. The form
of a struct as an array of its fields, which gives no further values, is left out.

`LawfulSerde α`: what is written is read back. An `Option` is lawful over a type
that never writes `null` (`NonNull`).
-/

namespace Yali

/-- A type that is written as a document and read from one. -/
class Serde (α : Type) where
  ser : α → Json
  de : Json → Option α

/-- What is written is read back. -/
class LawfulSerde (α : Type) [Serde α] : Prop where
  de_ser (a : α) : Serde.de (Serde.ser a) = some a

/-- `null` is never written. -/
class NonNull (α : Type) [Serde α] : Prop where
  ser_ne (a : α) : Serde.ser a ≠ .null

namespace Serde

variable {α : Type} [Serde α]

/-! ## Structs -/

/-- The member of a name, `none` if the name occurs twice. -/
def member (fs : List (String × Json)) (name : String) : Option (Option Json) :=
  match fs.filter fun f => f.1 == name with
  | [] => some none
  | [f] => some (some f.2)
  | _ => none

/-- A field that must be there. -/
def required (fs : List (String × Json)) (name : String) : Option α := do
  let j ← member fs name
  de (← j)

/-- A field with a default. -/
def defaulted (d : α) (fs : List (String × Json)) (name : String) : Option α := do
  match ← member fs name with
  | none => some d
  | some j => de j

/-! ## Instances -/

instance : Serde Value := ⟨Value.doc, fun j => some (Value.ofDoc j)⟩

instance : Serde String := ⟨.str, Json.asStr⟩

instance : Serde Bool := ⟨.bool, Json.asBool⟩

instance : Serde UInt64 := ⟨fun n => .num (.posInt n), Json.asU64⟩

instance : Serde UInt32 where
  ser n := .num (.posInt n.toUInt64)
  de j := do
    let n ← j.asU64
    if n.toNat < 2 ^ 32 then some n.toUInt32 else none

instance : Serde (Option α) where
  ser
    | none => .null
    | some a => ser a
  de
    | .null => some none
    | j => (de j).map some

instance : Serde (List α) where
  ser l := .arr (l.map ser)
  de j := do (← j.asArray).mapM de

instance : LawfulSerde Value := ⟨fun v => congrArg some (Value.ofDoc_doc v)⟩

instance : LawfulSerde String := ⟨fun _ => rfl⟩

instance : NonNull String := ⟨fun _ => Json.noConfusion⟩

instance : LawfulSerde Bool := ⟨fun _ => rfl⟩

instance : NonNull Bool := ⟨fun _ => Json.noConfusion⟩

instance : LawfulSerde UInt64 := ⟨fun _ => rfl⟩

instance : NonNull UInt64 := ⟨fun _ => Json.noConfusion⟩

instance : LawfulSerde UInt32 := ⟨fun n => by
  have h : n.toUInt64.toNat < 2 ^ 32 := by simpa using n.toNat_lt
  simp only [ser, de, Json.asU64, Option.bind_eq_bind, Option.bind_some, if_pos h]
  simp⟩

instance : NonNull UInt32 := ⟨fun _ => Json.noConfusion⟩

/-- Any document but `null` is read at the type below. -/
theorem de_option {j : Json} (h : j ≠ .null) : (de j : Option (Option α)) = (de j : Option α).map some := by
  cases j <;> first | exact absurd rfl h | rfl

/-- A value that is not written as `null` is read back as `Some`. -/
theorem de_ser_some {a : α} (h : de (ser a) = some a) (hn : ser a ≠ .null) :
    (de (ser (some a)) : Option (Option α)) = some (some a) := by
  change (de (ser a) : Option (Option α)) = some (some a)
  rw [de_option hn, h]; rfl

/-- A list is read back if its elements are. -/
theorem de_ser_list {l : List α} (h : ∀ a ∈ l, de (ser a) = some a) :
    (de (ser l) : Option (List α)) = some l := by
  simp only [ser, de, Json.asArray, Option.bind_eq_bind, Option.bind_some]
  induction l with
  | nil => rfl
  | cons a l ih =>
    rw [List.map_cons, List.mapM_cons, h a List.mem_cons_self,
      ih fun b hb => h b (List.mem_cons_of_mem _ hb)]
    rfl

omit [Serde α] in
/-- What is read from a list is read from an element of it. -/
theorem mem_of_mapM {β : Type} {f : β → Option α} {xs : List β} {l : List α} (h : xs.mapM f = some l) :
    ∀ a ∈ l, ∃ x ∈ xs, f x = some a := by
  induction xs generalizing l with
  | nil =>
    obtain rfl : [] = l := by simpa using h
    simp
  | cons x xs ih =>
    simp only [List.mapM_cons, Option.bind_eq_bind, Option.bind_eq_some_iff, Option.pure_def,
      Option.some.injEq] at h
    obtain ⟨b, hb, l', hl', rfl⟩ := h
    intro a ha
    rcases List.mem_cons.1 ha with rfl | ha
    · exact ⟨x, List.mem_cons_self, hb⟩
    · obtain ⟨y, hy, hya⟩ := ih hl' a ha
      exact ⟨y, List.mem_cons_of_mem _ hy, hya⟩

instance [LawfulSerde α] [NonNull α] : LawfulSerde (Option α) := ⟨fun a => by
  cases a with
  | none => rfl
  | some a => exact de_ser_some (LawfulSerde.de_ser a) (NonNull.ser_ne a)⟩

instance [LawfulSerde α] : LawfulSerde (List α) := ⟨fun _ => de_ser_list fun a _ => LawfulSerde.de_ser a⟩

instance : NonNull (List α) := ⟨fun _ => Json.noConfusion⟩

end Serde

end Yali
