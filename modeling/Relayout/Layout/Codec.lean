/-
  Relayout/Layout/Codec.lean
  ==========================
  **Layouts as JSON values.**

  `toJson` writes a layout type, leaving out what is absent, and `ofJson` reads it back.
  An item source is written flat: the members of its origin stand beside its own.  A layout
  and an origin are told apart by what can be read: the alternatives are tried in order.

  This is how the layout types of the program are serialized and deserialized.
-/
import Relayout.Layout.Basic
import Relayout.Json.Decode

namespace Relayout

/-- A member for a value that may be absent. -/
def optionalMember {α : Type} (key : String) (write : α → Json) : Option α → Members
  | none => []
  | some v => [(key, write v)]

/-! ### Descriptors -/

/-- The written name of a kind of evaluation. -/
def ExprType.name : ExprType → String
  | .expression => "js-expr"
  | .template => "js-tpl"

/-- The kind of evaluation with this name. -/
def ExprType.ofName (name : String) : Except DecodeError ExprType :=
  if name = "js-expr" then .ok .expression
  else if name = "js-tpl" then .ok .template
  else .error (.unknownVariant name "js-expr" "js-tpl")

def ExprType.toJson (t : ExprType) : Json := .str t.name

/-- A kind of evaluation is its name, or an object with its name as the only key and null
    as its value. -/
def ExprType.ofJson : Json → Except DecodeError ExprType
  | .str name => ExprType.ofName name
  | .obj [(name, v)] =>
    match ExprType.ofName name, v with
    | .ok t, .null => .ok t
    | .ok _, v => Decode.wrongType v "unit"
    | .error e, _ => .error e
  | .obj _ => .error (.invalidValue .map "map with a single key")
  | v => Decode.wrongType v "string or map"

namespace Descriptor

def toJson (d : Descriptor) : Json :=
  .obj (("expr", .str d.expr) ::
    (optionalMember "type" ExprType.toJson d.type ++ optionalMember "pure" .bool d.pure))

/-- The fields of a descriptor. -/
def record : Decode.Record Descriptor where
  name := "TemplateDescriptor"
  fields := ["expr", "type", "pure"]
  field := fun key v => match key with
    | "expr" => Decode.check (Decode.required (.missingField key) Decode.string) v
    | "type" => Decode.check (Decode.optional ExprType.ofJson) v
    | "pure" => Decode.check (Decode.optional Decode.boolean) v
    | _ => .ok ()
  build := fun missing ms => do
    let expr ← Decode.required missing Decode.string (ms.get? "expr")
    let type ← Decode.optional ExprType.ofJson (ms.get? "type")
    let isPure ← Decode.optional Decode.boolean (ms.get? "pure")
    return { expr := expr, type := type, pure := isPure }

def ofJson (v : Json) : Except DecodeError Descriptor := record.read v

end Descriptor

/-! ### Item sources -/

namespace ItemOrigin

def toMembers : ItemOrigin → Members
  | .url descriptor itemsProp =>
    ("url", descriptor.toJson) :: optionalMember "itemsProp" .str itemsProp
  | .expr text => [("expr", .str text)]

def toJson (o : ItemOrigin) : Json := .obj o.toMembers

/-- An origin that is fetched. -/
def urlOfMembers (ms : Members) : Except DecodeError ItemOrigin := do
  let descriptor ← Decode.required (.missingField "url") Descriptor.ofJson (ms.get? "url")
  let itemsProp ← Decode.optional Decode.string (ms.get? "itemsProp")
  return .url descriptor itemsProp

/-- An origin that is evaluated. -/
def exprOfMembers (ms : Members) : Except DecodeError ItemOrigin := do
  let text ← Decode.required (.missingField "expr") Decode.string (ms.get? "expr")
  return .expr text

/-- A fetched origin if the members make one, else an evaluated one. -/
def ofMembers (ms : Members) : Except DecodeError ItemOrigin :=
  match urlOfMembers ms, exprOfMembers ms with
  | .ok o, _ => .ok o
  | .error _, .ok o => .ok o
  | .error _, .error _ => .error (.noVariant "ItemOrigin")

def ofJson : Json → Except DecodeError ItemOrigin
  | .obj ms => ofMembers ms
  | _ => .error (.noVariant "ItemOrigin")

end ItemOrigin

namespace ItemSource

def toJson (s : ItemSource) : Json :=
  .obj (s.origin.toMembers ++ optionalMember "itemKey" .str s.itemKey ++
    optionalMember "itemTitle" .str s.itemTitle)

/-- The two fields beside the origin. -/
def checkField (key : String) (v : Json) : Except DecodeError Unit :=
  if key = "itemKey" || key = "itemTitle" then
    Decode.check (Decode.optional Decode.string) v
  else .ok ()

/-- An item source is read from an object only; its own fields are checked before its
    origin. -/
def ofJson : Json → Except DecodeError ItemSource
  | .obj ms => do
    Decode.checkMembers checkField ms
    let origin ← ItemOrigin.ofMembers ms
    let itemKey ← Decode.optional Decode.string (Members.get? ms "itemKey")
    let itemTitle ← Decode.optional Decode.string (Members.get? ms "itemTitle")
    return { origin := origin, itemKey := itemKey, itemTitle := itemTitle }
  | v => Decode.wrongType v "struct ItemSource"

end ItemSource

/-! ### Layouts -/

namespace LayoutNode

def toJson (node : LayoutNode) : Json :=
  .obj (optionalMember "comp" .str node.comp ++
    optionalMember "getItems" ItemSource.toJson node.getItems ++
    optionalMember "label" .str node.label ++
    optionalMember "cond" Descriptor.toJson node.cond ++
    optionalMember "itemTitle" .str node.itemTitle ++
    optionalMember "itemKey" .str node.itemKey ++
    optionalMember "props" .obj node.props ++
    optionalMember "cols" id node.cols)

/-- The fields of a layout, all of them optional. -/
def record : Decode.Record LayoutNode where
  name := "LayoutNode"
  fields := ["comp", "getItems", "label", "cond", "itemTitle", "itemKey", "props", "cols"]
  field := fun key v => match key with
    | "comp" | "label" | "itemTitle" | "itemKey" =>
      Decode.check (Decode.optional Decode.string) v
    | "getItems" => Decode.check (Decode.optional ItemSource.ofJson) v
    | "cond" => Decode.check (Decode.optional Descriptor.ofJson) v
    | "props" => Decode.check (Decode.optional Decode.object) v
    | _ => .ok ()
  build := fun _ ms => do
    let comp ← Decode.optional Decode.string (ms.get? "comp")
    let getItems ← Decode.optional ItemSource.ofJson (ms.get? "getItems")
    let label ← Decode.optional Decode.string (ms.get? "label")
    let cond ← Decode.optional Descriptor.ofJson (ms.get? "cond")
    let itemTitle ← Decode.optional Decode.string (ms.get? "itemTitle")
    let itemKey ← Decode.optional Decode.string (ms.get? "itemKey")
    let props ← Decode.optional Decode.object (ms.get? "props")
    let cols ← Decode.optional Decode.any (ms.get? "cols")
    return { comp := comp, getItems := getItems, label := label, cond := cond,
             itemTitle := itemTitle, itemKey := itemKey, props := props, cols := cols }

def ofJson (v : Json) : Except DecodeError LayoutNode := record.read v

end LayoutNode

namespace Layout

def toJson : Layout → Json
  | .comp component => .str component
  | .node n => n.toJson

/-- A string is a component name; anything else has to be a node. -/
def ofJson : Json → Except DecodeError Layout
  | .str component => .ok (.comp component)
  | v =>
    match LayoutNode.ofJson v with
    | .ok n => .ok (.node n)
    | .error _ => .error (.noVariant "Layout")

end Layout

namespace OneOfLayout

def toJson (l : OneOfLayout) : Json := .obj [("label", .str l.label)]

/-- The one field of a choice label. -/
def record : Decode.Record OneOfLayout where
  name := "OneOfLayout"
  fields := ["label"]
  field := fun key v => match key with
    | "label" => Decode.check (Decode.required (.missingField key) Decode.string) v
    | _ => .ok ()
  build := fun missing ms => do
    let label ← Decode.required missing Decode.string (ms.get? "label")
    return { label := label }

def ofJson (v : Json) : Except DecodeError OneOfLayout := record.read v

end OneOfLayout

end Relayout
