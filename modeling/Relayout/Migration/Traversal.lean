/-
  Relayout/Migration/Traversal.lean
  =================================
  **Migrating a document in one pass.**

  One recursion visits a node and builds what it is migrated to: it maps the extensions of the
  node, rebuilds the values of its keywords in the order of traversal, follows its reference, and
  only then puts the new node together.  A reference into the definitions begins the same
  recursion at its target.  The reference texts that were met, those whose targets were reached,
  and the definitions migrated so far are a state that each node takes over from the one before.
  This is how the walker goes about it: `Dialect.rebuild` has the shape of its `walk_node`,
  `walk_keyword` and `walk_elements`, `Walk.followRef` that of its `resolve_ref`, and
  `Dialect.traverse` that of its `walk`.

  `Dialect.walk` keeps apart what is done here at once: the value is `Dialect.migrate`, and the
  state is what the steps of `Dialect.survey` make of it.  The two are the same
  (`Dialect.traverse_eq_walk`).
-/
import Relayout.Migration.Walk

namespace Relayout

/-- How far a traversal has come. -/
structure Traversal where
  /-- The reference texts that were met, whether or not their targets needed a visit. -/
  visited : List String := []
  /-- The references whose targets are migrated, in the order in which they were met. -/
  reached : List String := []
  /-- What those targets are migrated to, in the order in which their visits ended. -/
  arena : List (Pointer × Json) := []
deriving DecidableEq, Repr

namespace Traversal

/-- A reference text has been met. -/
def meet (s : Traversal) (ref : String) : Traversal := { s with visited := ref :: s.visited }

/-- The target of a reference is going to be migrated. -/
def reach (s : Traversal) (ref : String) : Traversal := { s with reached := s.reached ++ [ref] }

/-- What a target is migrated to is kept. -/
def store (s : Traversal) (p : Pointer) (schema : Json) : Traversal :=
  { s with arena := s.arena ++ [(p, schema)] }

end Traversal

instance : Monad Trace where
  pure := Trace.pure
  bind := Trace.bind

/-- A part of a traversal: it takes over a state, logs, and fails or hands on a state. -/
abbrev Walk := StateT Traversal Trace

namespace Walk

/-- Log an event. -/
def log (event : Event) : Walk Unit := fun s => ⟨[event], .ok ((), s)⟩

/-- Give up. -/
def fail {α : Type} (error : MigrationError) : Walk α := fun _ => .fail error

/-- Log the rules that were applied for a mapping, and go on with what it gives. -/
def ofMapping (path : String) (m : Mapping) : Walk Mapped :=
  fun s => ⟨m.applied.map (.applyingRule path), m.result.map (·, s)⟩

/-- Follow a reference. Its text is noted before its target is looked up; the target is visited
    if it is in the definitions, and otherwise it is migrated where it stands. -/
def followRef (visit : Pointer → Json → Walk Unit) (document : Json) (ref : String)
    (source : Pointer) : Walk Unit :=
  match internalFragment? ref with
  | none => log (.externalRef ref source.fragment)
  | some fragment => do
    let s ← get
    if ref ∈ s.visited then pure ()
    else do
      set (s.meet ref)
      match locate? document fragment with
      | none => fail (.unresolvedRef ref source.fragment)
      | some (p, target) =>
        if p.isLazy then do
          log (.migratingDefinition ref)
          modify (·.reach ref)
          visit p target
        else pure ()

/-- Follow the reference of a node, which has to be a string. -/
def followRefOf (follow : String → Pointer → Walk Unit) (p : Pointer) (node : Members) :
    Walk Unit :=
  match node.get? "$ref" with
  | none => pure ()
  | some (.str ref) => follow ref p
  | some v => fail (.unresolvedRef v.compact p.fragment)

/-- Rebuild the values of some keywords, in the order given. -/
def inOrder (values : List (String × Walk Json)) : List String → Walk Members
  | [] => pure []
  | keyword :: rest =>
    match values.lookup keyword with
    | none => inOrder values rest
    | some rebuild => do
      let v ← rebuild
      let later ← inOrder values rest
      return (keyword, v) :: later

/-- Give an element the label of its choice, if it is to have one. -/
def labelElement (p : Pointer) : Json → Walk Json
  | .obj element =>
    match labelling element with
    | .keep => pure (.obj element)
    | .attach label => do
      log (.attachingLabel p.text label)
      return .obj (Members.insert element "oneOfLayout" (OneOfLayout.mk label).toJson)
    | .ambiguous => do
      log (.ambiguousLabel p.text)
      return .obj element
  | v => pure v

/-- Give elements their labels, from an index on. -/
def labelElements (p : Pointer) : Nat → List Json → Walk (List Json)
  | _, [] => pure []
  | i, x :: xs => do
    let y ← labelElement (p.element i) x
    let ys ← labelElements p (i + 1) xs
    return y :: ys

end Walk

/-- Put a node together: the members that are not consumed, rewritten where they were rebuilt,
    and the layout. -/
def Mapped.assemble (mapped : Mapped) (rewritten node : Members) : Members :=
  let kept : Members := node.filterMap fun m =>
    if mapped.consumed.contains m.1 then none else some (m.1, (rewritten.get? m.1).getD m.2)
  match mapped.layout with
  | some layout => Members.insert kept "layout" layout.toJson
  | none => kept

namespace Dialect

/-- Rebuild a node from the ways to rebuild the values of its members. -/
def rebuildNode (d : Dialect) (follow : String → Pointer → Walk Unit) (p : Pointer)
    (node : Members) (values : List (String × Walk Json)) : Walk Json := do
  let mapped ← Walk.ofMapping p.text (d.mapping p.text node)
  let rewritten ← Walk.inOrder values traversalOrder
  Walk.followRefOf follow p node
  return .obj (mapped.assemble rewritten node)

mutual

/-- Rebuild a value in a role, and follow the references in it. -/
def rebuild (d : Dialect) (follow : String → Pointer → Walk Unit) :
    Role → Pointer → Json → Walk Json
  | .schema, p, .obj ms => d.rebuildNode follow p ms (d.rebuildMembers follow p ms)
  | .schemaOrList, p, .obj ms => d.rebuildNode follow p ms (d.rebuildMembers follow p ms)
  | .schemaMap, p, .obj ms => do
    let entries ← d.rebuildEntries follow p ms
    return .obj entries
  | .schemaList, p, .arr xs => do
    let elements ← d.rebuildElements follow p 0 xs
    return .arr elements
  | .schemaOrList, p, .arr xs => do
    let elements ← d.rebuildElements follow p 0 xs
    return .arr elements
  | .labelledList, p, .arr xs => do
    let elements ← d.rebuildElements follow p 0 xs
    let labelled ← Walk.labelElements p 0 elements
    return .arr labelled
  | _, _, v => pure v

/-- How to rebuild the value of each member of a schema. -/
def rebuildMembers (d : Dialect) (follow : String → Pointer → Walk Unit) (p : Pointer) :
    Members → List (String × Walk Json)
  | [] => []
  | (k, v) :: ms =>
    (k, d.rebuild follow (Role.ofKeyword k) (p.push k) v) :: d.rebuildMembers follow p ms

/-- Rebuild members whose values are schemas. -/
def rebuildEntries (d : Dialect) (follow : String → Pointer → Walk Unit) (p : Pointer) :
    Members → Walk Members
  | [] => pure []
  | (k, v) :: ms => do
    let w ← d.rebuild follow .schema (p.member k) v
    let rest ← d.rebuildEntries follow p ms
    return (k, w) :: rest

/-- Rebuild elements that are schemas, from an index on. -/
def rebuildElements (d : Dialect) (follow : String → Pointer → Walk Unit) (p : Pointer) :
    Nat → List Json → Walk (List Json)
  | _, [] => pure []
  | i, x :: xs => do
    let y ← d.rebuild follow .schema (p.element i) x
    let rest ← d.rebuildElements follow p (i + 1) xs
    return y :: rest

end

/-- Visit a value as a schema, with visits of definitions inside each other to a depth. Every
    visit begins with a text that was not met yet, so a depth of as many visits as there are such
    texts is never used up. -/
def visitTo (d : Dialect) (document : Json) : Nat → Pointer → Json → Walk Json
  | 0, p, v => d.rebuild (Walk.followRef (fun _ _ => pure ()) document) .schema p v
  | depth + 1, p, v =>
    let visitDefinition := fun q target => do
      let schema ← d.visitTo document depth q target
      modify (·.store q schema)
    d.rebuild (Walk.followRef visitDefinition document) .schema p v

/-- Visit a document from its root and put the definitions migrated on the way back in place. -/
def traverse (d : Dialect) (document : Json) : Trace Migration := do
  let depth := document.refTexts.eraseDups.length
  let (root, s) ← (d.visitTo document depth .root document).run {}
  let (events, schema) := splice (byDepth s.arena) root
  ⟨events, .ok ⟨schema, s.reached⟩⟩

end Dialect

end Relayout
