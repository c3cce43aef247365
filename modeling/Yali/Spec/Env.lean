import Yali.Json.Serde
import Yali.Json.Text

/-!
# Libraries the control plane calls

`Env` collects what comes from `serde_json` (a document's text and its parsing)
and from `jsonschema` (compiling a schema, the errors of a value against it).

`Env.Lawful` states what the control plane relies on: the text of a document is
there and parses to that document. `Env.Compact` gives the texts that the schema and
the migration spell out, which `serde_json` writes without spaces. `Env.plain` is one such environment, with the
text layer of `Yali.Text` and the one schema keyword `"type": "object"`.
-/

namespace Yali

/-- One error of a value against a schema: where it is, whether it is an
`AdditionalItems` error, and its text. -/
structure SchemaError where
  instancePath : String
  additionalItems : Bool
  message : String

structure Env where
  toText : Json → Option String
  ofText : String → Option Json
  Schema : Type
  compile : Value → Except String Schema
  errors : Schema → Value → List SchemaError

namespace Env

variable (E : Env) {α : Type} [Serde α]

/-- `serde_json::to_string`. -/
def toString (a : α) : Option String := E.toText (Serde.ser a)

/-- `serde_json::from_str`. -/
def fromStr (s : String) : Option α := (E.ofText s).bind Serde.de

/-- A document has a text, which parses to it. -/
structure Lawful : Prop where
  roundTrip : ∀ j, ∃ s, E.toText j = some s ∧ E.ofText s = some j

/-- The texts that are spelled out in the schema. -/
structure Compact : Prop where
  null : E.toText .null = some "null"
  emptyObject : E.toText (.obj []) = some "\x7b\x7d"
  stages : E.toText (.arr [.str "pre_route", .str "pre_upstream", .str "post_response"]) =
    some "[\"pre_route\",\"pre_upstream\",\"post_response\"]"
  schema : E.toText (.obj [("type", .str "object")]) = some "\x7b\"type\":\"object\"\x7d"
  nonempty : ∀ j, E.toText j ≠ some ""

variable {E}

/-- **What is stored is read back**, for a value that its own reading accepts. -/
theorem Lawful.read (hE : E.Lawful) {a : α} (ha : Serde.de (Serde.ser a) = some a) (d : String) :
    E.fromStr ((E.toString a).getD d) = some a := by
  obtain ⟨s, hs, hp⟩ := hE.roundTrip (Serde.ser a)
  unfold fromStr toString
  rw [hs, Option.getD_some, hp, Option.bind_some, ha]

/-- Compact text, and schemas that are objects and know `"type": "object"` only. -/
def plain : Env where
  toText := Text.toText
  ofText := Text.ofText
  Schema := Value
  compile v := if v.isObject then .ok v else .error "schema must be an object"
  errors schema v :=
    match schema.doc.asObject.bind (List.lookup "type") with
    | some (.str "object") =>
      if v.isObject then [] else [⟨"", false, "value is not of type \"object\""⟩]
    | _ => []

theorem plain_lawful : plain.Lawful := ⟨Text.ofText_toText⟩

theorem plain_compact : plain.Compact where
  null := by decide
  emptyObject := by decide
  stages := by decide
  schema := by decide
  nonempty j h := by
    have hpos := Text.print_pos j
    have hnil : Text.print j = [] := by
      have htext : String.ofList (Text.print j) = "" := Option.some.inj h
      simpa using congrArg String.toList htext
    rw [hnil] at hpos
    exact absurd hpos (by decide)

end Env

end Yali
