/-
  Relayout/Migration/Structural.lean
  ==================================
  **What a schema is migrated to, references left aside.**

  A schema loses the members whose keys the table claims, has the values of the keywords
  that hold schemas migrated in place, keeps all its other members as they are, and gets the
  layout that its extensions map to as its last member.  This is a recursion on the value;
  references and definitions play no part in it.

  `Dialect.migrate` is what the walker's `walk_node` returns, with `walk_keyword` and
  `walk_elements` for what is below the node, all that these do beside returning left out.
-/
import Relayout.Extension.Table
import Relayout.Layout.Root
import Relayout.Migration.Role

namespace Relayout

/-- The rules of a migration and the markers that it promotes. -/
structure Dialect where
  table : Table
  detector : Template.Detector

namespace Dialect

/-- The extensions of a node at a path, seen by the rules. -/
def mapping (d : Dialect) (path : String) (node : Members) : Mapping :=
  d.table.map ⟨path, node, d.detector⟩

/-- The member for the layout that the extensions of a node map to, if there is one. -/
def layoutMember (d : Dialect) (node : Members) : Members :=
  optionalMember "layout" Layout.toJson (d.table.layout? ⟨"", node, d.detector⟩)

mutual

/-- Migrate a value in a role. -/
def migrate (d : Dialect) : Role → Json → Json
  | .schema, .obj ms => .obj (d.migrateMembers ms ++ d.layoutMember ms)
  | .schemaOrList, .obj ms => .obj (d.migrateMembers ms ++ d.layoutMember ms)
  | .schemaMap, .obj ms => .obj (d.migrateEntries ms)
  | .schemaList, .arr xs => .arr (d.migrateElements xs)
  | .schemaOrList, .arr xs => .arr (d.migrateElements xs)
  | .labelledList, .arr xs => .arr ((d.migrateElements xs).map Json.withLabel)
  | _, v => v

/-- The members of a schema that stay, each in the role of its keyword. -/
def migrateMembers (d : Dialect) : Members → Members
  | [] => []
  | (k, v) :: ms =>
    if d.table.recognizes k then d.migrateMembers ms
    else (k, d.migrate (Role.ofKeyword k) v) :: d.migrateMembers ms

/-- Members whose values are schemas. -/
def migrateEntries (d : Dialect) : Members → Members
  | [] => []
  | (k, v) :: ms => (k, d.migrate .schema v) :: d.migrateEntries ms

/-- Elements that are schemas. -/
def migrateElements (d : Dialect) : List Json → List Json
  | [] => []
  | x :: xs => d.migrate .schema x :: d.migrateElements xs

end

end Dialect

end Relayout
