import Relayout.Migration.Transformer
import Relayout.Proofs.Draft07.Precheck
import Relayout.Proofs.Draft07.Revalidation
import Relayout.Proofs.Json.Reader
import Relayout.Proofs.Lint.Migrated
import Relayout.Proofs.Migration.Conservation
import Relayout.Proofs.Migration.Dangling
import Relayout.Proofs.Migration.Idempotence
import Relayout.Proofs.Migration.Identity
import Relayout.Proofs.Migration.Interference
import Relayout.Proofs.Migration.KeyOrder
import Relayout.Proofs.Migration.Overlap
import Relayout.Proofs.Migration.Referenced
import Relayout.Proofs.Migration.Spelling
import Relayout.Session
import Relayout.Settings.Save
import Relayout.Proofs.Json.Address
import Relayout.Proofs.Migration.Course
import Relayout.Proofs.Migration.Origin
import Relayout.Proofs.Extension.Fault
import Relayout.Proofs.Migration.Offender
import Relayout.Proofs.Migration.Applications
import Relayout.Proofs.Migration.Log
import Relayout.Proofs.Json.Occurrence
import Relayout.Proofs.Lint.Located
import Relayout.Proofs.Layout.Canonical
import Relayout.Proofs.Lint.Shape
import Relayout.Proofs.Settings.Layering
import Relayout.Proofs.Settings.Override
import Relayout.Proofs.Settings.Saved
import Relayout.Proofs.Toml.Written
import Relayout.Proofs.Template.Rereading
import Relayout.Proofs.Extension.Refusal
import Relayout.Proofs.Extension.Composition
import Relayout.Proofs.Layout.RoundTrip
import Relayout.Proofs.Migration.ChoiceLabel
import Relayout.Proofs.Draft07.Nesting
import Relayout.Proofs.Migration.Confluence
import Relayout.Proofs.Migration.MainTree
import Relayout.Proofs.Migration.Refinement
