/-
  Relayout/Layout/Root.lean
  =========================
  **The identity of a document and the labels of its choices.**

  A migrated root without `$id` is given one, as its last member.  An element of an `allOf`
  that holds a choice (`oneOf`) is given the title of the discriminant: the one property of
  the first alternative that has both a `const` and a title.

  `stampRootId` is the program's `stamp_root_id`; `labelling` and `attachLabel` are its
  `attach_one_of_label`, and `discriminantTitles` is what its `discriminant_label` counts.
-/
import Relayout.Layout.Codec

namespace Relayout

/-- The identity given to a root by default. -/
def defaultRootId : String := "_jl"

/-- Give a root an identity unless it declares one. -/
def stampRootId (root : Members) (id : String) : Members :=
  if root.has "$id" then root else root ++ [("$id", .str id)]

/-! ### Choice labels -/

/-- The title of a property that is a discriminant: an object with a `const` and a title. -/
def discriminantTitle? : Json → Option String
  | .obj prop =>
    if Members.has prop "const" then (Members.get? prop "title").bind Json.asString? else none
  | _ => none

/-- The properties of the first alternative of a choice. -/
def firstBranchProperties? (element : Members) : Option Members := do
  let branches ← (← element.get? "oneOf").asElements?
  let first ← branches.head?
  (← first.get? "properties").asMembers?

/-- The titles of the discriminants of a choice. -/
def discriminantTitles (element : Members) : List String :=
  match firstBranchProperties? element with
  | some properties => properties.filterMap (fun p => discriminantTitle? p.2)
  | none => []

/-- What is done about the label of an element. -/
inductive Labelling where
  /-- It has a label, or there is no discriminant to name. -/
  | keep
  /-- It is given this label. -/
  | attach (label : String)
  /-- Several discriminants could name it, so none does. -/
  | ambiguous
deriving DecidableEq, Repr

/-- What is to be done about the label of an element. -/
def labelling (element : Members) : Labelling :=
  if element.has "oneOfLayout" then .keep
  else
    match discriminantTitles element with
    | [] => .keep
    | [label] => .attach label
    | _ => .ambiguous

/-- The label to be given, if there is one. -/
def Labelling.label? : Labelling → Option String
  | .attach label => some label
  | .keep | .ambiguous => none

/-- An element with its label, if it is to have one. -/
def attachLabel (element : Members) : Members :=
  match (labelling element).label? with
  | some label => element ++ [("oneOfLayout", (OneOfLayout.mk label).toJson)]
  | none => element

/-- A value with its label, if it is an object and is to have one. -/
def Json.withLabel : Json → Json
  | .obj element => .obj (attachLabel element)
  | v => v

end Relayout
