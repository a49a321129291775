/-
  Relayout/Migration/Transformer.lean
  ===================================
  **Running a migration with settings.**

  A run checks its input first, if it has been told how, walks the document, and gives the
  result an identity last.  The threshold for markers and the identity come from settings.

  `Transformer.run` is `run` of a transformer, `Transformer.ofSettings` makes one as `new` does
  with `with_table` and `with_validator`, and `Validator` is the check that a caller may bring.
-/
import Relayout.Migration.Walk
import Relayout.Settings.Basic

namespace Relayout

/-- A check of the input: what is wrong with it, if it is to be rejected. -/
abbrev Validator := Json → Except (List String) Unit

/-- A check that rejects everything for the same reasons. -/
def Validator.rejecting (errors : List String) : Validator := fun _ => .error errors

/-- A way to migrate documents. -/
structure Transformer where
  dialect : Dialect
  rootId : String
  validator : Option Validator := none

/-- Check the input of a run. -/
def Transformer.precheck (t : Transformer) (document : Json) : Except MigrationError Unit :=
  match t.validator with
  | none => .ok ()
  | some validate =>
    match validate document with
    | .ok _ => .ok ()
    | .error errors => .error (.invalidInput errors)

/-- A value with an identity, if it is an object. -/
def Json.stamped (id : String) : Json → Json
  | .obj root => .obj (stampRootId root id)
  | v => v

/-- Migrate a document. -/
def Transformer.run (t : Transformer) (document : Json) : Trace Migration :=
  Trace.after [.started t.rootId] <|
    match t.precheck document with
    | .error e => .fail e
    | .ok _ =>
      (t.dialect.walk document).bind fun m =>
        ⟨[.migrated m.resolved.length], .ok { m with schema := m.schema.stamped t.rootId }⟩

/-- Rules together with the threshold of some settings. -/
def Settings.dialect (s : Settings) (table : Table) : Dialect :=
  ⟨table, Template.Detector.ofMin s.minPathSegments⟩

/-- A way to migrate documents with some settings. -/
def Transformer.ofSettings (s : Settings) (table : Table) (validator : Option Validator) :
    Transformer :=
  { dialect := s.dialect table, rootId := s.rootId, validator := validator }

end Relayout
