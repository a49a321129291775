/-
  Relayout/Migration/Role.lean
  ============================
  **What the value of a keyword is to a migration.**

  Only some keywords hold schemas: as their value, as the members of their value, or as its
  elements.  Everything else, definitions included, is data that is copied; definitions are
  migrated when a reference reaches them.

  `Role.ofKeyword` makes the choice that the walker makes in `walk_keyword`, `traversalOrder` is
  its `TRAVERSAL_ORDER`, and `Pointer.isLazy` its `is_lazy_pointer`.
-/
import Relayout.Json.Pointer

namespace Relayout

/-- What a value is to a migration. -/
inductive Role where
  /-- An object is a schema. -/
  | schema
  /-- The member values of an object are schemas where they are objects. -/
  | schemaMap
  /-- The elements of an array are schemas. -/
  | schemaList
  /-- The elements of an array are schemas, and each may be given the label of its choice. -/
  | labelledList
  /-- An object is a schema, and the elements of an array are. -/
  | schemaOrList
  /-- Data, which is copied. -/
  | verbatim
deriving DecidableEq, Repr

/-- The role of the value of a keyword. -/
def Role.ofKeyword (keyword : String) : Role :=
  match keyword with
  | "properties" | "patternProperties" | "dependencies" => .schemaMap
  | "items" => .schemaOrList
  | "allOf" => .labelledList
  | "oneOf" | "anyOf" => .schemaList
  | "additionalProperties" | "additionalItems" | "contains" | "propertyNames"
  | "if" | "then" | "else" | "not" => .schema
  | _ => .verbatim

/-- The keywords that hold schemas, in the order in which they are visited. -/
def traversalOrder : List String :=
  ["properties", "items", "allOf", "oneOf", "anyOf", "dependencies", "patternProperties",
   "additionalProperties", "additionalItems", "contains", "propertyNames", "if", "then",
   "else", "not"]

/-- Whether segments go through a keyword for definitions. The segment after a keyword whose
    members are named freely is a name and not a keyword. -/
def throughDefinitions : List String → Bool
  | [] => false
  | s :: rest =>
    if s = "definitions" || s = "$defs" then true
    else if s = "properties" || s = "patternProperties" || s = "dependencies" then
      match rest with
      | [] => false
      | _ :: rest => throughDefinitions rest
    else throughDefinitions rest

/-- Whether a pointer leads into definitions, which are migrated only when referred to. -/
def Pointer.isLazy (p : Pointer) : Bool := throughDefinitions p.segments

end Relayout
