/-
  Relayout/Draft07/Compilation.lean
  =================================
  **What the meta-schema cannot say about a schema.**

  A schema that conforms may still be unusable: an identity or a reference may not be a URL,
  a key of `patternProperties` is used as a plain pattern, which not every pattern of the
  script dialect is, and a limit of a length or a size has to be written as an integer, which
  `2.0` is not.  Identities are looked for everywhere but in `enum` and `const`, each relative
  to the one around it; the rest only where schemas take effect.  The first fault is the only
  one reported, and only a limit is located.

  `compilationError?` is the second half of the program's `validate`, the compilation of the
  schema, and `validate` is both.
-/
import Relayout.Draft07.Metaschema

namespace Relayout.Draft07

/-- Why a conforming schema cannot be used. -/
inductive CompilationError where
  /-- An identity or a reference is no URL. -/
  | url (cause : UrlError)
  /-- The key that this subschema stands under is no plain pattern. -/
  | patternKey (subschema : Json)
  /-- A limit of a length or a size is not written as an integer. -/
  | limit (value : Json) (place : Pointer)
deriving DecidableEq, Repr

/-- The wording of an error. -/
def CompilationError.message : CompilationError → String
  | .url cause => located cause.message .root
  | .patternKey subschema =>
    located (subschema.compact ++ " " ++ (Breach.format .regex).describe) .root
  | .limit value place => Violation.message ⟨.type [.integer], value, place⟩

/-- The identity that an object declares. -/
def identity? (ms : Members) : Option String := (ms.get? "$id").bind Json.asString?

/-- The base of what is inside an object. -/
def innerBase (base : Url) (ms : Members) : Except UrlError Url :=
  match identity? ms with
  | some id => Url.parse (some base) id
  | none => .ok base

/-- The base of a document without an identity. -/
def defaultBase : Url := ⟨"json-schema", false⟩

/-- The base of a document. -/
def documentBase (document : Json) : Except UrlError Url :=
  match (document.asMembers?).bind identity? with
  | some id => Url.parse none id
  | none => .ok defaultBase

/-! ### Identities -/

mutual

/-- The first fault in the identities inside a value. -/
def identityFault? (base : Url) : Json → Option UrlError
  | .obj ms =>
    match innerBase base ms with
    | .ok inner => memberIdentityFault? inner ms
    | .error e => some e
  | .arr xs => elementIdentityFault? base xs
  | _ => none

/-- The first fault in the identities inside members. -/
def memberIdentityFault? (base : Url) : Members → Option UrlError
  | [] => none
  | (k, v) :: ms =>
    if k = "enum" || k = "const" then memberIdentityFault? base ms
    else (identityFault? base v).or (memberIdentityFault? base ms)

/-- The first fault in the identities inside elements. -/
def elementIdentityFault? (base : Url) : List Json → Option UrlError
  | [] => none
  | x :: xs => (identityFault? base x).or (elementIdentityFault? base xs)

end

/-! ### Schemas that take effect -/

/-- What the value of a keyword holds that takes effect. -/
inductive Slot where
  | schema
  | schemaMap
  | patternMap
  | schemaList
  | schemaOrList
  | limit
  | nothing
deriving DecidableEq, Repr

/-- The slot of a keyword. -/
def slot (keyword : String) : Slot :=
  match keyword with
  | "properties" | "dependencies" => .schemaMap
  | "patternProperties" => .patternMap
  | "allOf" | "anyOf" | "oneOf" => .schemaList
  | "items" => .schemaOrList
  | "additionalProperties" | "additionalItems" | "contains" | "propertyNames" | "not" | "if"
  | "then" | "else" => .schema
  | "maxLength" | "minLength" | "maxItems" | "minItems" | "maxProperties" | "minProperties" =>
    .limit
  | _ => .nothing

/-- The keywords whose values take effect together with a keyword, in order. Properties go
    with `additionalProperties` if that is restrictive, branches go with their condition, and
    additional items need a list of items. -/
def together (ms : Members) (keyword : String) : List String :=
  let restrictive := match ms.get? "additionalProperties" with
    | some (.bool false) | some (.obj _) => true
    | _ => false
  match keyword with
  | "properties" | "patternProperties" => if restrictive then [] else [keyword]
  | "additionalProperties" =>
    match ms.get? keyword with
    | some (.obj _) =>
      if ms.has "patternProperties" then ["patternProperties", keyword, "properties"]
      else ["properties", keyword]
    | some (.bool false) => ["patternProperties", "properties"]
    | _ => ["patternProperties"]
  | "if" => if ms.has "then" || ms.has "else" then ["if", "then", "else"] else []
  | "then" | "else" => []
  | "additionalItems" =>
    match ms.get? "items" with
    | some (.arr _) => [keyword]
    | _ => []
  | _ => [keyword]

/-- The first fault among those found under keywords, in the order in which they take
    effect. -/
def firstFault? (ms : Members) (found : List (String × Option CompilationError)) :
    Option CompilationError :=
  (ms.keys.flatMap (together ms)).findSome? (fun k => (found.lookup k).join)

/-- The first fault in a schema, given those found under its keywords for a base. A reference
    takes the place of everything else. -/
def schemaFault? (base : Url) (ms : Members)
    (found : Url → List (String × Option CompilationError)) : Option CompilationError :=
  match innerBase base ms with
  | .error e => some (.url e)
  | .ok inner =>
    match ms.get? "$ref" with
    | some (.str ref) =>
      match Url.parse (some inner) ref with
      | .ok _ => none
      | .error e => some (.url e)
    | _ => firstFault? ms (found inner)

/-- A limit that is a number but not written as an integer. -/
def limitFault? (p : Pointer) : Json → Option CompilationError
  | .num (.double x) => some (.limit (.num (.double x)) p)
  | _ => none

mutual

/-- The first fault in what takes effect inside a value. -/
def fault? (base : Url) : Slot → Pointer → Json → Option CompilationError
  | .schema, p, .obj ms => schemaFault? base ms (memberFaults · p ms)
  | .schemaOrList, p, .obj ms => schemaFault? base ms (memberFaults · p ms)
  | .schemaMap, p, .obj ms => entryFault? base p ms
  | .patternMap, p, .obj ms => patternFault? base p ms
  | .schemaList, p, .arr xs => elementFault? base p 0 xs
  | .schemaOrList, p, .arr xs => elementFault? base p 0 xs
  | .limit, p, v => limitFault? p v
  | _, _, _ => none

/-- The first fault in the value of each keyword. -/
def memberFaults (base : Url) (p : Pointer) : Members → List (String × Option CompilationError)
  | [] => []
  | (k, v) :: ms => (k, fault? base (slot k) (p.member k) v) :: memberFaults base p ms

/-- The first fault in members that are schemas. -/
def entryFault? (base : Url) (p : Pointer) : Members → Option CompilationError
  | [] => none
  | (k, v) :: ms => (fault? base .schema (p.member k) v).or (entryFault? base p ms)

/-- The first fault in members that are schemas under patterns. -/
def patternFault? (base : Url) (p : Pointer) : Members → Option CompilationError
  | [] => none
  | (k, v) :: ms =>
    if Pattern.isValid k.toList then
      (fault? base .schema (p.member k) v).or (patternFault? base p ms)
    else some (.patternKey v)

/-- The first fault in elements that are schemas, from an index on. -/
def elementFault? (base : Url) (p : Pointer) : Nat → List Json → Option CompilationError
  | _, [] => none
  | i, x :: xs => (fault? base .schema (p.element i) x).or (elementFault? base p (i + 1) xs)

end

/-- Why a conforming schema cannot be used, if it cannot. -/
def compilationError? (document : Json) : Option CompilationError :=
  match documentBase document with
  | .error e => some (.url e)
  | .ok base =>
    match identityFault? base document with
    | some e => some (.url e)
    | none => fault? base .schema .root document

/-- Reject a document with every violation of the meta-schema, or, if there is none, with the
    reason why it cannot be used. -/
def validate (document : Json) : Except (List String) Unit :=
  match violations .schema .root document with
  | [] =>
    match compilationError? document with
    | none => .ok ()
    | some e => .error [e.message]
  | found => .error (found.map Violation.message)

end Relayout.Draft07
