/-
  Relayout/Draft07/Expectation.lean
  =================================
  **The Draft-07 meta-schema: what the value of each keyword of a schema has to be.**

  A schema is an object or a truth value; the members of an object that are keywords have to
  be as the table says, and the others are free.  The table is in the order in which the
  meta-schema lists the keywords, which is the order in which violations are reported.

  The table is the meta-schema that the program carries with it, read keyword by keyword.
-/
import Relayout.Json.Pointer
import Relayout.Json.Printer

namespace Relayout.Draft07

/-- The types of JSON values. -/
inductive ValueType where
  | array
  | boolean
  | integer
  | null
  | number
  | object
  | string
deriving DecidableEq, Repr

/-- The name of a type. -/
def ValueType.name : ValueType → String
  | .array => "array"
  | .boolean => "boolean"
  | .integer => "integer"
  | .null => "null"
  | .number => "number"
  | .object => "object"
  | .string => "string"

/-- The names that the keyword `type` may use. -/
def simpleTypes : List String :=
  [ValueType.array, .boolean, .integer, .null, .number, .object, .string].map ValueType.name

/-- The formats that the meta-schema asks for. -/
inductive Format where
  | uri
  | uriReference
  | regex
deriving DecidableEq, Repr

/-- The name of a format. -/
def Format.name : Format → String
  | .uri => "uri"
  | .uriReference => "uri-reference"
  | .regex => "regex"

/-- What a value has to be. -/
inductive Expectation where
  /-- Anything. -/
  | anything
  /-- A schema. -/
  | schema
  /-- An array of at least one schema. -/
  | schemas
  /-- A schema or such an array. -/
  | schemaOrSchemas
  /-- An object whose members are schemas. -/
  | schemaMap
  /-- An object whose members are schemas and whose keys are patterns. -/
  | patternMap
  /-- An object whose members are schemas or lists of names. -/
  | dependencyMap
  /-- A string, perhaps of a format. -/
  | text (format : Option Format)
  /-- A truth value. -/
  | flag
  /-- A number, perhaps a positive one. -/
  | amount (positive : Bool)
  /-- An integer that is not negative. -/
  | count
  /-- An array of anything. -/
  | list
  /-- An array of distinct strings. -/
  | names
  /-- The name of a type, or an array of at least one, all distinct. -/
  | typeNames
deriving DecidableEq, Repr

/-- The keywords of a schema, in order, with what their values have to be. -/
def keywords : List (String × Expectation) := [
  ("$id", .text (some .uriReference)),
  ("$schema", .text (some .uri)),
  ("$ref", .text (some .uriReference)),
  ("$comment", .text none),
  ("title", .text none),
  ("description", .text none),
  ("default", .anything),
  ("readOnly", .flag),
  ("writeOnly", .flag),
  ("examples", .list),
  ("multipleOf", .amount true),
  ("maximum", .amount false),
  ("exclusiveMaximum", .amount false),
  ("minimum", .amount false),
  ("exclusiveMinimum", .amount false),
  ("maxLength", .count),
  ("minLength", .count),
  ("pattern", .text (some .regex)),
  ("additionalItems", .schema),
  ("items", .schemaOrSchemas),
  ("maxItems", .count),
  ("minItems", .count),
  ("uniqueItems", .flag),
  ("contains", .schema),
  ("maxProperties", .count),
  ("minProperties", .count),
  ("required", .names),
  ("additionalProperties", .schema),
  ("definitions", .schemaMap),
  ("properties", .schemaMap),
  ("patternProperties", .patternMap),
  ("dependencies", .dependencyMap),
  ("propertyNames", .schema),
  ("const", .anything),
  ("enum", .list),
  ("type", .typeNames),
  ("format", .text none),
  ("contentMediaType", .text none),
  ("contentEncoding", .text none),
  ("if", .schema),
  ("then", .schema),
  ("else", .schema),
  ("allOf", .schemas),
  ("anyOf", .schemas),
  ("oneOf", .schemas),
  ("not", .schema)]

/-- What the value of a keyword has to be; other members are free. -/
def expectation (keyword : String) : Expectation := (keywords.lookup keyword).getD .anything

/-! ### Violations -/

/-- In what way a value is not what it has to be. -/
inductive Breach where
  /-- It has none of these types. -/
  | type (types : List ValueType)
  /-- It is none of the alternatives. -/
  | alternatives
  /-- It is negative. -/
  | negative
  /-- It is not positive. -/
  | notPositive
  /-- It is an empty array. -/
  | noItems
  /-- Two of its elements are the same. -/
  | repeated
  /-- It is not of a format. -/
  | format (format : Format)
deriving DecidableEq, Repr

/-- A value that is not what it has to be, and its place in the schema. -/
structure Violation where
  breach : Breach
  value : Json
  place : Pointer
deriving DecidableEq, Repr

/-- A name in double quotes. -/
def inQuotes (name : String) : String := "\"" ++ name ++ "\""

/-- The words for a breach, which follow the value. -/
def Breach.describe : Breach → String
  | .type [t] => "is not of type " ++ inQuotes t.name
  | .type types =>
    "is not of types " ++ String.intercalate ", " (types.map (fun t => inQuotes t.name))
  | .alternatives => "is not valid under any of the schemas listed in the 'anyOf' keyword"
  | .negative => "is less than the minimum of 0"
  | .notPositive => "is less than or equal to the minimum of 0"
  | .noItems => "has less than 1 item"
  | .repeated => "has non-unique elements"
  | .format f => "is not a " ++ inQuotes f.name

/-- A text with the place that it is about. -/
def located (text : String) (p : Pointer) : String := text ++ " (at '" ++ p.text ++ "')"

/-- The wording of a violation. -/
def Violation.message (v : Violation) : String :=
  located (v.value.compact ++ " " ++ v.breach.describe) v.place

end Relayout.Draft07
