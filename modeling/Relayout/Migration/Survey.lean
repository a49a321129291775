/-
  Relayout/Migration/Survey.lean
  ==============================
  **What visiting a schema involves, step by step.**

  Visiting a schema first applies the rules to its own extensions, then visits the keywords
  that hold schemas, in a fixed order of keywords and in document order below each, and last
  follows its own reference.  `survey` lists these steps by recursion on the value.

  These are the effects that the walker's `walk_node`, `walk_keyword` and `walk_elements` have
  beside what they return.
-/
import Relayout.Json.Printer
import Relayout.Migration.Event
import Relayout.Migration.Structural

namespace Relayout

/-- A step of a visit. -/
inductive Step where
  /-- Log an event. -/
  | note (event : Event)
  /-- Give up. -/
  | fail (error : MigrationError)
  /-- Follow a reference that the node at a pointer carries. -/
  | follow (ref : String) (source : Pointer)
deriving DecidableEq, Repr

namespace Dialect

/-- Apply the rules to the extensions of a node. -/
def ruleSteps (d : Dialect) (p : Pointer) (node : Members) : List Step :=
  let m := d.mapping p.text node
  m.applied.map (fun rule => .note (.applyingRule p.text rule)) ++
    match m.result with
    | .ok _ => []
    | .error e => [.fail e]

/-- Follow the reference of a node, which has to be a string. -/
def refSteps (p : Pointer) (node : Members) : List Step :=
  match node.get? "$ref" with
  | none => []
  | some (.str ref) => [.follow ref p]
  | some v => [.fail (.unresolvedRef v.compact p.fragment)]

/-- Tell what is done about the label of an element. -/
def labelSteps (p : Pointer) : Json → List Step
  | .obj element =>
    match labelling element with
    | .keep => []
    | .attach label => [.note (.attachingLabel p.text label)]
    | .ambiguous => [.note (.ambiguousLabel p.text)]
  | _ => []

/-- Tell what is done about the labels of elements from an index on. -/
def allLabelSteps (p : Pointer) : Nat → List Json → List Step
  | _, [] => []
  | i, x :: xs => labelSteps (p.element i) x ++ allLabelSteps p (i + 1) xs

/-- Put what is found under keywords into the order in which keywords are visited. -/
def inTraversalOrder {α : Type} (found : List (String × List α)) : List α :=
  traversalOrder.flatMap (fun keyword => (found.lookup keyword).getD [])

mutual

/-- The steps of visiting a value in a role. -/
def survey (d : Dialect) : Role → Pointer → Json → List Step
  | .schema, p, .obj ms =>
    d.ruleSteps p ms ++ inTraversalOrder (d.surveyMembers p ms) ++ refSteps p ms
  | .schemaOrList, p, .obj ms =>
    d.ruleSteps p ms ++ inTraversalOrder (d.surveyMembers p ms) ++ refSteps p ms
  | .schemaMap, p, .obj ms => d.surveyEntries p ms
  | .schemaList, p, .arr xs => d.surveyElements p 0 xs
  | .schemaOrList, p, .arr xs => d.surveyElements p 0 xs
  | .labelledList, p, .arr xs =>
    d.surveyElements p 0 xs ++ allLabelSteps p 0 (d.migrateElements xs)
  | _, _, _ => []

/-- The steps under each keyword of a schema. -/
def surveyMembers (d : Dialect) (p : Pointer) : Members → List (String × List Step)
  | [] => []
  | (k, v) :: ms => (k, d.survey (Role.ofKeyword k) (p.push k) v) :: d.surveyMembers p ms

/-- The steps of visiting members whose values are schemas. -/
def surveyEntries (d : Dialect) (p : Pointer) : Members → List Step
  | [] => []
  | (k, v) :: ms => d.survey .schema (p.member k) v ++ d.surveyEntries p ms

/-- The steps of visiting elements that are schemas, from an index on. -/
def surveyElements (d : Dialect) (p : Pointer) : Nat → List Json → List Step
  | _, [] => []
  | i, x :: xs => d.survey .schema (p.element i) x ++ d.surveyElements p (i + 1) xs

end

end Dialect

end Relayout
