/-
  Relayout/Extension/Table.lean
  =============================
  **Mapping the extensions of one node with an ordered table of rules.**

  Those rules of a table that claim a key of the node are applied in order to one layout,
  and every claimed key is consumed.  A node without claimed keys maps to nothing, and one
  with claimed keys must not carry a layout already.

  `Table` is the mapper's `ExtensionTable`, `Table.map` its `map_node` and `Table.recognizes` its
  `is_recognized`.
-/
import Relayout.Extension.Rule

namespace Relayout

/-- An ordered list of rules; a rule may stand in it more than once. -/
structure Table where
  rules : List Rule
deriving DecidableEq, Repr

/-- What the extensions of a node map to: a layout, and the keys that are consumed. -/
structure Mapped where
  layout : Option Layout := none
  consumed : List String := []
deriving DecidableEq, Repr

/-- A mapping with the rules that were applied for it, in order, the last of which failed if
    the mapping did. -/
structure Mapping where
  applied : List Rule
  result : Except MigrationError Mapped

namespace Table

/-- The built-in rules. An explicit component comes after the items, so that it overrides the
    select that they imply. -/
def builtin : Table := ⟨[.itemSource, .display, .condition, .presentation]⟩

/-- Every claimed key, in the order of the rules. -/
def recognizedKeys (t : Table) : List String := t.rules.flatMap Rule.keys

/-- Whether some rule claims a key. -/
def recognizes (t : Table) (key : String) : Bool := t.rules.any (fun r => r.keys.contains key)

/-- The claimed keys of a node, in its order. -/
def consumed (t : Table) (node : Members) : List String := node.keys.filter t.recognizes

/-- The rules that claim a key of a node. -/
def applicable (t : Table) (node : Members) : List Rule :=
  t.rules.filter (fun r => r.keys.any node.has)

/-- Apply rules in order up to the first that fails. -/
def applyRules (s : Site) : List Rule → LayoutNode → List Rule × Except MigrationError LayoutNode
  | [], layout => ([], .ok layout)
  | rule :: rest, layout =>
    match rule.apply s layout with
    | ⟨_, some e⟩ => ([rule], .error e)
    | ⟨layout', none⟩ => (rule :: (applyRules s rest layout').1, (applyRules s rest layout').2)

/-- Map the extensions of a node. -/
def map (t : Table) (s : Site) : Mapping :=
  let consumed := t.consumed s.node
  if consumed.isEmpty then ⟨[], .ok {}⟩
  else if s.node.has "layout" then
    let keys := consumed.mergeSort (fun a b => decide (a ≤ b)) ++ ["layout"]
    ⟨[], .error (.unsupportedCombination keys s.place .layoutPresent)⟩
  else
    let outcome := applyRules s (t.applicable s.node) {}
    ⟨outcome.1, outcome.2.map (fun layout => ⟨layout.finalize, consumed⟩)⟩

/-- The layout of a node, if its extensions map to one. -/
def layout? (t : Table) (s : Site) : Option Layout :=
  match (t.map s).result with
  | .ok mapped => mapped.layout
  | .error _ => none

end Table

end Relayout
