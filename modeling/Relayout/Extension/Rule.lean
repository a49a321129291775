/-
  Relayout/Extension/Rule.lean
  ============================
  **The rules that turn legacy extensions into layout.**

  | Extensions                                                | Layout                |
  |-----------------------------------------------------------|-----------------------|
  | `x-display`                                               | `comp`                |
  | `x-fromData` or `x-fromUrl`, `x-itemsProp`, `x-itemKey`, `x-itemTitle` | `comp`, `getItems` |
  | `x-itemKey`, `x-itemTitle` of a list without a source     | `itemKey`, `itemTitle` |
  | `x-if`                                                    | `cond`                |
  | `x-props`, `x-cols`                                       | `props`, `cols`       |

  Each rule claims some keys and edits a layout.  A rule that fails leaves in place what it
  had set before, which only shows where rules are applied one by one.

  The rules are the built-in handlers of the mapper, for display, item sources, conditions and
  presentation; `Rule.apply` is their `apply`, and `Site` the `MapContext` that it sees.
-/
import Relayout.Layout.Basic
import Relayout.Migration.Error
import Relayout.Template.Detector

namespace Relayout

/-- A rule for some extensions. -/
inductive Rule where
  | itemSource
  | display
  | condition
  | presentation
deriving DecidableEq, Repr

/-- What a rule sees: where the node is, its members, and which markers are promoted. -/
structure Site where
  path : String
  node : Members
  detector : Template.Detector

/-- A layout after a rule, and the error if the rule failed. -/
structure Edited where
  layout : LayoutNode
  error : Option MigrationError := none
deriving DecidableEq, Repr

namespace Site

/-- The place of the node in an error. -/
def place (s : Site) : String := "#" ++ s.path

/-- An extension has a value of the wrong kind. -/
def invalid (s : Site) (key : String) (expected : ExpectedValue) : MigrationError :=
  .invalidValue key s.place expected

/-- Those of these extensions that the node has do not go together. -/
def unsupported (s : Site) (keys : List String) (reason : Incompatibility) : MigrationError :=
  .unsupportedCombination (keys.filter s.node.has) s.place reason

/-- The text of an extension, if the node has it. -/
def string (s : Site) (key : String) : Except MigrationError (Option String) :=
  match s.node.get? key with
  | none => .ok none
  | some (.str text) => .ok (some text)
  | some _ => .error (s.invalid key .string)

/-- Whether the node describes a list: its `type` says so, or it has no readable `type` but
    has `items`. -/
def isArray (s : Site) : Bool :=
  match s.node.get? "type" with
  | some (.str t) => t = "array"
  | some (.arr ts) => ts.any (· = .str "array")
  | _ => s.node.has "items"

end Site

namespace Rule

/-- The name of a rule. -/
def name : Rule → String
  | .itemSource => "item-source"
  | .display => "display"
  | .condition => "condition"
  | .presentation => "presentation"

/-- The extensions that a rule claims. -/
def keys : Rule → List String
  | .itemSource => ["x-fromData", "x-fromUrl", "x-itemsProp", "x-itemKey", "x-itemTitle"]
  | .display => ["x-display"]
  | .condition => ["x-if"]
  | .presentation => ["x-props", "x-cols"]

/-! ### Items -/

/-- The extensions about items, each a text if it is there. -/
structure ItemExtensions where
  fromData : Option String
  fromUrl : Option String
  itemsProp : Option String
  itemKey : Option String
  itemTitle : Option String

/-- Read the extensions about items; the first that is not a text is an error. -/
def itemExtensions (s : Site) : Except MigrationError ItemExtensions := do
  let fromData ← s.string "x-fromData"
  let fromUrl ← s.string "x-fromUrl"
  let itemsProp ← s.string "x-itemsProp"
  let itemKey ← s.string "x-itemKey"
  let itemTitle ← s.string "x-itemTitle"
  return ⟨fromData, fromUrl, itemsProp, itemKey, itemTitle⟩

/-- The descriptor of a detected text. -/
def descriptor (d : Template.Detected) : Descriptor :=
  match d.classification with
  | .expression => .ofExpression d.expr
  | .literal | .template => .ofTemplate d.expr

/-- Where items come from, if a source is claimed. -/
def itemOrigin (s : Site) (x : ItemExtensions) : Except MigrationError (Option ItemOrigin) :=
  match x.fromData, x.fromUrl with
  | some _, some _ => .error (.conflictingSource s.place)
  | some expr, none =>
    if x.itemsProp.isSome then
      .error (s.unsupported ["x-fromData", "x-itemsProp"] .itemsPropOfExpression)
    else
      let detected := s.detector.detect expr .expression
      if detected.classification = .template then
        .error (s.invalid "x-fromData" .plainExpression)
      else .ok (some (.expr detected.expr))
  | none, some url =>
    .ok (some (.url (descriptor (s.detector.detect url .url)) x.itemsProp))
  | none, none =>
    if x.itemsProp.isSome then
      .error (s.unsupported ["x-itemsProp", "x-itemKey", "x-itemTitle"] .itemsPropWithoutUrl)
    else if !s.isArray then
      .error (s.unsupported ["x-itemKey", "x-itemTitle"] .itemsOutsideArray)
    else .ok none

/-- With a source the layout becomes a select over it; without one the extensions tell how
    the entries of a list are shown. -/
def applyItemSource (s : Site) (layout : LayoutNode) : Except MigrationError LayoutNode := do
  let x ← itemExtensions s
  match ← itemOrigin s x with
  | some origin =>
    return { layout with
      comp := some "select"
      getItems := some ⟨origin, x.itemKey, x.itemTitle⟩ }
  | none => return { layout with itemKey := x.itemKey, itemTitle := x.itemTitle }

/-! ### The other rules -/

/-- The component to show. -/
def applyDisplay (s : Site) (layout : LayoutNode) : Except MigrationError LayoutNode := do
  match ← s.string "x-display" with
  | some comp => return { layout with comp := some comp }
  | none => return layout

/-- The condition under which the node is shown. -/
def applyCondition (s : Site) (layout : LayoutNode) : Except MigrationError LayoutNode := do
  match ← s.string "x-if" with
  | some cond =>
    return { layout with cond := some (descriptor (s.detector.detect cond .expression)) }
  | none => return layout

/-- Properties handed to the component. -/
def applyProps (s : Site) (layout : LayoutNode) : Except MigrationError LayoutNode :=
  match s.node.get? "x-props" with
  | none => .ok layout
  | some (.obj props) => .ok { layout with props := some props }
  | some _ => .error (s.invalid "x-props" .object)

/-- The width: one number, or an object with a width for each size of screen. -/
def applyCols (s : Site) (layout : LayoutNode) : Except MigrationError LayoutNode :=
  match s.node.get? "x-cols" with
  | none => .ok layout
  | some (.num n) => .ok { layout with cols := some (.num n) }
  | some (.obj sizes) => .ok { layout with cols := some (.obj sizes) }
  | some _ => .error (s.invalid "x-cols" .numberOrObject)

/-- The edits that a rule makes, one after the other. -/
def edits : Rule → List (Site → LayoutNode → Except MigrationError LayoutNode)
  | .itemSource => [applyItemSource]
  | .display => [applyDisplay]
  | .condition => [applyCondition]
  | .presentation => [applyProps, applyCols]

/-- Make edits up to the first that fails. -/
def applyEdits (s : Site) :
    List (Site → LayoutNode → Except MigrationError LayoutNode) → LayoutNode → Edited
  | [], layout => ⟨layout, none⟩
  | edit :: rest, layout =>
    match edit s layout with
    | .ok layout' => applyEdits s rest layout'
    | .error e => ⟨layout, some e⟩

/-- Apply a rule to a layout. -/
def apply (rule : Rule) (s : Site) (layout : LayoutNode) : Edited :=
  applyEdits s rule.edits layout

/-- Apply rules one after the other, whether or not some of them fail, and tell what each
    one leaves. -/
def applyInTurn (s : Site) : List Rule → LayoutNode → List (Rule × Edited)
  | [], _ => []
  | rule :: rest, layout =>
    (rule, rule.apply s layout) :: applyInTurn s rest (rule.apply s layout).layout

end Rule

end Relayout
