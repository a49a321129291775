/-
  Relayout/Layout/Basic.lean
  ==========================
  **Layout metadata: what a migrated schema carries beside its constraints.**

  A layout names the component that shows a value and, where they are given, the source of
  the items to choose from, a condition, and how the entries of a list are shown.  A layout
  that names nothing but its component is written as the bare name.

  These are the layout types of the program, with `finalize`, `is_empty` and `is_comp_only`.
-/
import Relayout.Json.Basic

namespace Relayout

/-- How the text of a descriptor is evaluated. -/
inductive ExprType where
  | expression
  | template
deriving DecidableEq, Repr

/-- A text to evaluate. Only templates claim to be pure, since an expression may read other
    data of the form. -/
structure Descriptor where
  expr : String
  type : Option ExprType := none
  pure : Option Bool := none
deriving DecidableEq, Repr

/-- The descriptor of an expression. -/
def Descriptor.ofExpression (expr : String) : Descriptor :=
  { expr := expr, type := some .expression }

/-- The descriptor of a template. -/
def Descriptor.ofTemplate (expr : String) : Descriptor :=
  { expr := expr, type := some .template, pure := some true }

/-- Where items come from: fetched from a URL, perhaps from one property of the response, or
    evaluated. -/
inductive ItemOrigin where
  | url (url : Descriptor) (itemsProp : Option String)
  | expr (expr : String)
deriving DecidableEq, Repr

/-- A source of items and the properties that identify and name an item. -/
structure ItemSource where
  origin : ItemOrigin
  itemKey : Option String := none
  itemTitle : Option String := none
deriving DecidableEq, Repr

/-- The layout of one schema. -/
structure LayoutNode where
  comp : Option String := none
  getItems : Option ItemSource := none
  label : Option String := none
  cond : Option Descriptor := none
  itemTitle : Option String := none
  itemKey : Option String := none
  props : Option Members := none
  cols : Option Json := none
deriving DecidableEq, Repr

/-- The layout that says nothing. -/
def LayoutNode.empty : LayoutNode := {}

/-- Whether a layout says nothing. -/
def LayoutNode.isEmpty (node : LayoutNode) : Bool := decide (node = LayoutNode.empty)

/-- Whether a layout names a component and nothing else. -/
def LayoutNode.isCompOnly (node : LayoutNode) : Bool :=
  node.comp.isSome && { node with comp := none }.isEmpty

/-- A layout as it is written: a bare component name or a full node. -/
inductive Layout where
  | comp (name : String)
  | node (node : LayoutNode)
deriving DecidableEq, Repr

/-- The label of a choice, kept beside the alternatives it belongs to. -/
structure OneOfLayout where
  label : String
deriving DecidableEq, Repr

/-- How a layout is written: one that says nothing not at all, and one with nothing but a
    component as the bare name. -/
def LayoutNode.finalize (node : LayoutNode) : Option Layout :=
  if node.isEmpty then none
  else if node.isCompOnly then node.comp.map .comp
  else some (.node node)

end Relayout
