import TargetQuiz.Json.Reader
import TargetQuiz.Json.Writer

/-! Wire forms of types. A record is read from an object, which may have unknown but no repeated
fields, or from an array of exactly its fields in their order. -/
namespace TargetQuiz

class Wire (α : Type) where
  toJson : α → Json
  ofJson? : Json → Option α

namespace Wire

def write {α : Type} [Wire α] (a : α) : String := (toJson a).render

def read? {α : Type} [Wire α] (s : String) : Option α := (Json.parse s).bind ofJson?

/-- The fields of a record by name; a field that is missing gives `none` in its place. -/
def record? (names : List String) : Json → Option (List (Option Json))
  | .object fields =>
    names.mapM fun name =>
      match fields.filter (·.1 == name) with
      | [] => some none
      | [(_, v)] => some (some v)
      | _ => none
  | .array items => if items.length = names.length then some (items.map some) else none
  | _ => none

def required? {α : Type} [Wire α] (field : Option Json) : Option α := field.bind ofJson?

instance : Wire Int64 where
  toJson n := .number (.ofInt n.toInt)
  ofJson?
    | .number n => n.int64?
    | _ => none

instance : Wire UInt64 where
  toJson n := .number (.ofInt n.toNat)
  ofJson?
    | .number n => n.uint64?
    | _ => none

instance : Wire UInt8 where
  toJson n := .number (.ofInt n.toNat)
  ofJson?
    | .number n => n.uint8?
    | _ => none

/-- Binary numbers that are not finite have no number in JSON and are written as null. -/
instance : Wire Binary64 where
  toJson x := if x.isFinite then .number (.ofBinary64 x) else .null
  ofJson?
    | .number n => n.binary64?
    | _ => none

instance : Wire Bool where
  toJson b := .bool b
  ofJson?
    | .bool b => some b
    | _ => none

instance : Wire String where
  toJson s := .string s
  ofJson?
    | .string s => some s
    | _ => none

instance {α : Type} [Wire α] : Wire (List α) where
  toJson as := .array (as.map toJson)
  ofJson?
    | .array items => items.mapM ofJson?
    | _ => none

instance {α : Type} [Wire α] : Wire (Option α) where
  toJson
    | some a => toJson a
    | none => .null
  ofJson?
    | .null => some none
    | v => (ofJson? v).map some

/-- A field that may be missing, which counts as the null value. -/
def optional? {α : Type} [Wire α] (field : Option Json) : Option (Option α) :=
  match field with
  | none => some none
  | some v => ofJson? v

end Wire
end TargetQuiz
