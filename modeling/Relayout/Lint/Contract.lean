/-
  Relayout/Lint/Contract.lean
  ===========================
  **Checking a migrated schema against the contract of the layout compiler.**

  Every object at any depth is looked at, whatever keyword it stands under.  The findings
  about the layout of an object come before those about its members, which come in document
  order; whether the root lacks an identity is said last.

  `Json.lint` is `lint` of the contract linter: `check` is its `lint_value`, `checkLayout` its
  `lint_layout`, `checkSource` its `lint_get_items`, `checkItemField` its `check_item_property`.
-/
import Relayout.Lint.Finding
import Relayout.Migration.Resolve

namespace Relayout

namespace Contract

/-- The properties that the items listed by a node are known to have: those of its `items`,
    or else its own. -/
def itemProperties? (node : Members) : Option Members :=
  let ofItems := (node.get? "items").bind (fun items => items.get? "properties")
  (ofItems.orElse (fun _ => node.get? "properties")).bind Json.asMembers?

/-- A field that names an item property has to name a known one, where they are known. -/
def checkItemField (node fields : Members) (p : Pointer) (field : String) : List Finding :=
  match fields.get? field, itemProperties? node with
  | some (.str name), some properties =>
    if properties.has name then []
    else [.error (.unknownItemProperty field name) (p.push field)]
  | _, _ => []

/-- The two fields that name item properties. -/
def checkItemFields (node fields : Members) (p : Pointer) : List Finding :=
  checkItemField node fields p "itemKey" ++ checkItemField node fields p "itemTitle"

/-- A URL has to have an expression, in which nothing is left to promote. -/
def checkUrl (p : Pointer) (url : Json) : List Finding :=
  match (url.get? "expr").bind Json.asString? with
  | none => [.error .malformedUrl p]
  | some expr =>
    if Template.hasUnpromoted expr then [.warning (.unpromotedPlaceholder expr) p] else []

/-- An item source has to have exactly one of an expression and a URL. -/
def checkSource (node : Members) (p : Pointer) : Json → List Finding
  | .obj fields =>
    (match Members.get? fields "expr", Members.get? fields "url" with
      | some _, some _ => [.error .sourceNotUnique p]
      | none, none => [.error .sourceNotUnique p]
      | none, some url => checkUrl (p.push "url") url
      | some _, none => []) ++
    checkItemFields node fields p
  | _ => [.error .sourceNotObject p]

/-- A layout has to be a name or an object that can be read. -/
def checkLayout (node : Members) (p : Pointer) : Json → List Finding
  | .str _ => []
  | .obj fields =>
    (match LayoutNode.ofJson (.obj fields) with
      | .ok _ => []
      | .error cause => [.error (.malformedLayout cause) p]) ++
    (match Members.get? fields "getItems" with
      | some source => checkSource node (p.push "getItems") source
      | none => []) ++
    checkItemFields node fields p
  | _ => [.error .strayLayout p]

/-- The layout of an object, if it has one. -/
def checkNode (node : Members) (p : Pointer) : List Finding :=
  match node.get? "layout" with
  | some layout => checkLayout node (p.push "layout") layout
  | none => []

/-- A key that a built-in rule claims is left over. -/
def checkKey (key : String) (p : Pointer) : List Finding :=
  if Table.builtin.recognizes key then [.warning (.legacyExtension key) p] else []

mutual

/-- The findings in a value. -/
def check (p : Pointer) : Json → List Finding
  | .obj ms => checkNode ms p ++ checkMembers p ms
  | .arr xs => checkElements p 0 xs
  | _ => []

/-- The findings in members. -/
def checkMembers (p : Pointer) : Members → List Finding
  | [] => []
  | (k, v) :: ms => checkKey k (p.member k) ++ check (p.member k) v ++ checkMembers p ms

/-- The findings in elements, from an index on. -/
def checkElements (p : Pointer) : Nat → List Json → List Finding
  | _, [] => []
  | i, x :: xs => check (p.element i) x ++ checkElements p (i + 1) xs

end

/-- A document with references into itself has to have an identity. -/
def checkRoot (document : Json) : List Finding :=
  if document.refTexts.any (fun ref => (internalFragment? ref).isSome)
      && (document.get? "$id").isNone then
    [.error .missingRootId .root]
  else []

end Contract

/-- What a lint finds. -/
structure LintReport where
  schemaId : String
  findings : List Finding
deriving DecidableEq, Repr

namespace LintReport

/-- The errors, in the order found. -/
def errors (r : LintReport) : List (LintError × Pointer) := r.findings.filterMap Finding.error?

/-- The warnings, in the order found. -/
def warnings (r : LintReport) : List (LintWarning × Pointer) :=
  r.findings.filterMap Finding.warning?

/-- No errors were found. -/
def isClean (r : LintReport) : Bool := r.errors.isEmpty

end LintReport

/-- Lint a migrated schema. -/
def Json.lint (document : Json) : LintReport :=
  { schemaId := ((document.get? "$id").bind Json.asString?).getD ""
    findings := Contract.check .root document ++ Contract.checkRoot document }

end Relayout
