/-
  Relayout/Session.lean
  =====================
  **Working on one document in several steps.**

  A step that changes the document hands the changed one to the next step; a migration that
  fails leaves it as it was.

  The steps are `run` of a transformer, `lint` of the linter, `validate` of the validator,
  `stamp_root_id` and `attach_one_of_label`.
-/
import Relayout.Draft07.Compilation
import Relayout.Lint.Contract
import Relayout.Migration.Transformer

namespace Relayout

/-- A step of the work on a document. -/
inductive SessionStep where
  /-- Migrate the document. -/
  | migrate (t : Transformer)
  /-- Check it against the contract of migrated schemas. -/
  | lint
  /-- Check that it is a schema. -/
  | validate
  /-- Give it an identity. -/
  | stamp (id : String)
  /-- Give it the label of its choice. -/
  | label

/-- What a step answers. -/
inductive SessionAnswer where
  | migrated (outcome : Except MigrationError Migration)
  | linted (report : LintReport)
  | validated (outcome : Except (List String) Unit)
  /-- Whether the document was given an identity, if it is an object. -/
  | stamped (changed : Option Bool)
  /-- Whether the document was given a label, if it is an object. -/
  | labelled (changed : Option Bool)

namespace Json

/-- Whether a document is to be given an identity, if it can have one. -/
def lacksId? (document : Json) : Option Bool :=
  document.asMembers?.map (fun root => !root.has "$id")

/-- Whether a document is to be given a label, if it can have one. -/
def takesLabel? (document : Json) : Option Bool :=
  document.asMembers?.map (fun element => (labelling element).label?.isSome)

/-- Take a step: its answer, and the document for the next step. -/
def perform (document : Json) : SessionStep → SessionAnswer × Json
  | .migrate t =>
    match (t.run document).result with
    | .ok m => (.migrated (.ok m), m.schema)
    | .error e => (.migrated (.error e), document)
  | .lint => (.linted document.lint, document)
  | .validate => (.validated (Draft07.validate document), document)
  | .stamp id => (.stamped document.lacksId?, document.stamped id)
  | .label => (.labelled document.takesLabel?, document.withLabel)

end Json

end Relayout
