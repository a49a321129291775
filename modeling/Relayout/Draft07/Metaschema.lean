/-
  Relayout/Draft07/Metaschema.lean
  ================================
  **Checking a value against the Draft-07 meta-schema.**

  `violations` collects every violation in a value that is expected to be something, in
  order; a value conforms when there is none.  Where the meta-schema offers alternatives,
  violations inside them are not reported: the value as a whole is no alternative.

  `violations` is the first half of the program's `validate`: checking a schema against the
  meta-schema and collecting all errors.
-/
import Relayout.Draft07.Expectation
import Relayout.Pattern.Parser
import Relayout.Text.Basic
import Relayout.Url.Parser

namespace Relayout

/-! ### Sameness of values -/

/-- The double nearest to a number. -/
def Number.toDouble : Number → Double
  | .int n => Double.ofInt n
  | .double x => x

/-- Whether two numbers are the same as doubles; the two zeros are. -/
def Number.same (a b : Number) : Bool :=
  let x := a.toDouble
  let y := b.toDouble
  (x.isZero && y.isZero) || x = y

mutual

/-- Whether two values are the same, numbers compared by their value. -/
def Json.same : Json → Json → Bool
  | .null, .null => true
  | .bool a, .bool b => a = b
  | .num a, .num b => a.same b
  | .str a, .str b => a = b
  | .arr as, .arr bs => Json.sameElements as bs
  | .obj as, .obj bs => Json.sameMembers as bs
  | _, _ => false

/-- Whether elements are the same one by one. -/
def Json.sameElements : List Json → List Json → Bool
  | [], [] => true
  | a :: as, b :: bs => Json.same a b && Json.sameElements as bs
  | _, _ => false

/-- Whether members are the same one by one. -/
def Json.sameMembers : Members → Members → Bool
  | [], [] => true
  | (k, a) :: as, (l, b) :: bs => k = l && Json.same a b && Json.sameMembers as bs
  | _, _ => false

end

namespace Draft07

/-- Whether no two elements are the same. -/
def allDistinct : List Json → Bool
  | [] => true
  | x :: xs => !xs.any (Json.same x) && allDistinct xs

/-! ### Formats -/

/-- A reference may be any text without backslashes and blanks. -/
def isReference (text : String) : Bool :=
  text.toList.all (fun c => c ≠ '\\' && !Text.isBlank c)

/-- Whether a text is of a format. -/
def Format.accepts : Format → String → Bool
  | .uri, text => Url.isAbsolute text
  | .uriReference, text => isReference text
  | .regex, text => Pattern.isScriptPattern text

/-! ### Values without schemas in them -/

/-- A value does not have the only type that it may have. -/
def wrongType (t : ValueType) (p : Pointer) (v : Json) : List Violation := [⟨.type [t], v, p⟩]

/-- A number below zero. -/
def isNegative : Number → Bool
  | .int n => n < 0
  | .double x => x.negative && !x.isZero

/-- Zero. -/
def isZero : Number → Bool
  | .int n => n = 0
  | .double x => x.isZero

/-- A string, perhaps of a format. -/
def checkText (format : Option Format) (p : Pointer) : Json → List Violation
  | .str s =>
    match format with
    | some f => if f.accepts s then [] else [⟨.format f, .str s, p⟩]
    | none => []
  | v => wrongType .string p v

/-- A number, perhaps a positive one. -/
def checkAmount (positive : Bool) (p : Pointer) : Json → List Violation
  | .num n =>
    if positive && (isNegative n || isZero n) then [⟨.notPositive, .num n, p⟩] else []
  | v => wrongType .number p v

/-- A number without a fraction part, however it is written. -/
def isWhole : Number → Bool
  | .int _ => true
  | .double x => x.isWhole

/-- An integer that is not negative. A number with a fraction part is no integer, but it is held
    to the lower limit as well. -/
def checkCount (p : Pointer) : Json → List Violation
  | .num n =>
    (if isWhole n then [] else wrongType .integer p (.num n)) ++
      if isNegative n then [⟨.negative, .num n, p⟩] else []
  | v => wrongType .integer p v

/-- Elements that have to be strings, from an index on. -/
def checkStrings (p : Pointer) : Nat → List Json → List Violation
  | _, [] => []
  | i, x :: xs =>
    (match x with
      | .str _ => []
      | x => wrongType .string (p.element i) x) ++ checkStrings p (i + 1) xs

/-- Distinct strings. -/
def checkNames (p : Pointer) : Json → List Violation
  | .arr xs =>
    checkStrings p 0 xs ++ if allDistinct xs then [] else [⟨.repeated, .arr xs, p⟩]
  | v => wrongType .array p v

/-- The name of a type. -/
def isTypeName : Json → Bool
  | .str s => simpleTypes.contains s
  | _ => false

/-- The name of a type, or distinct such names. -/
def checkTypeNames (p : Pointer) (v : Json) : List Violation :=
  let fits := match v with
    | .arr xs => !xs.isEmpty && xs.all isTypeName && allDistinct xs
    | v => isTypeName v
  if fits then [] else [⟨.alternatives, v, p⟩]

/-- Keys that have to be patterns; a violation is about the key, at the place of the object. -/
def checkPatternKeys (p : Pointer) (ms : Members) : List Violation :=
  ms.keys.flatMap fun key =>
    if Format.regex.accepts key then [] else [⟨.format .regex, .str key, p⟩]

/-! ### Schemas -/

/-- Put the violations found under keywords into the order of the meta-schema. -/
def inKeywordOrder (found : List (String × List Violation)) : List Violation :=
  keywords.flatMap (fun k => (found.lookup k.1).getD [])

/-- An array that has to have an element. -/
def needsItem (p : Pointer) (xs : List Json) : List Violation :=
  if xs.isEmpty then [⟨.noItems, .arr xs, p⟩] else []

/-- Forget violations inside an alternative: if there are any, there is no alternative. -/
def orAlternatives (p : Pointer) (v : Json) (inside : List Violation) : List Violation :=
  if inside.isEmpty then [] else [⟨.alternatives, v, p⟩]

mutual

/-- Every way in which a value is not what it is expected to be. -/
def violations : Expectation → Pointer → Json → List Violation
  | .anything, _, _ => []
  | .schema, p, .obj ms => inKeywordOrder (memberViolations p ms)
  | .schema, _, .bool _ => []
  | .schema, p, v => [⟨.type [.boolean, .object], v, p⟩]
  | .schemas, p, .arr xs => needsItem p xs ++ elementViolations p 0 xs
  | .schemas, p, v => wrongType .array p v
  | .schemaOrSchemas, p, .obj ms =>
    orAlternatives p (.obj ms) (inKeywordOrder (memberViolations p ms))
  | .schemaOrSchemas, _, .bool _ => []
  | .schemaOrSchemas, p, .arr xs =>
    orAlternatives p (.arr xs) (needsItem p xs ++ elementViolations p 0 xs)
  | .schemaOrSchemas, p, v => [⟨.alternatives, v, p⟩]
  | .schemaMap, p, .obj ms => entryViolations p ms
  | .schemaMap, p, v => wrongType .object p v
  | .patternMap, p, .obj ms => entryViolations p ms ++ checkPatternKeys p ms
  | .patternMap, p, v => wrongType .object p v
  | .dependencyMap, p, .obj ms => dependencyViolations p ms
  | .dependencyMap, p, v => wrongType .object p v
  | .text format, p, v => checkText format p v
  | .flag, _, .bool _ => []
  | .flag, p, v => wrongType .boolean p v
  | .amount positive, p, v => checkAmount positive p v
  | .count, p, v => checkCount p v
  | .list, _, .arr _ => []
  | .list, p, v => wrongType .array p v
  | .names, p, v => checkNames p v
  | .typeNames, p, v => checkTypeNames p v

/-- The violations in the value of each keyword of a schema. -/
def memberViolations (p : Pointer) : Members → List (String × List Violation)
  | [] => []
  | (k, v) :: ms => (k, violations (expectation k) (p.member k) v) :: memberViolations p ms

/-- The violations in members that have to be schemas. -/
def entryViolations (p : Pointer) : Members → List Violation
  | [] => []
  | (k, v) :: ms => violations .schema (p.member k) v ++ entryViolations p ms

/-- The violations in members that have to be schemas or names. -/
def dependencyViolations (p : Pointer) : Members → List Violation
  | [] => []
  | (k, v) :: ms =>
    (match v with
      | .arr xs => orAlternatives (p.member k) v (checkNames (p.member k) (.arr xs))
      | v => orAlternatives (p.member k) v (violations .schema (p.member k) v)) ++
    dependencyViolations p ms

/-- The violations in elements that have to be schemas, from an index on. -/
def elementViolations (p : Pointer) : Nat → List Json → List Violation
  | _, [] => []
  | i, x :: xs => violations .schema (p.element i) x ++ elementViolations p (i + 1) xs

end

/-- A value conforms to the meta-schema. -/
def Conforms (v : Json) : Prop := violations .schema .root v = []

instance (v : Json) : Decidable (Conforms v) :=
  inferInstanceAs (Decidable (violations .schema .root v = []))

end Draft07

end Relayout
