/-
  Relayout/Migration/Walk.lean
  ============================
  **Migrating a document.**

  The root is visited, the references met on the way are followed, and what the reached
  definitions are migrated to is put back where they stand, shallow pointers first, so that
  a definition inside another lands in it.

  `Dialect.walk` is the walker's `walk`, and `Migration` what it returns.
-/
import Relayout.Migration.Resolve

namespace Relayout

/-- A migrated document and the references whose targets were migrated. -/
structure Migration where
  schema : Json
  resolved : List String
deriving DecidableEq, Repr

/-- Put migrated definitions into a document in the order given. One whose place is gone is
    left out and logged. -/
def splice : List (Pointer × Json) → Json → List Event × Json
  | [], document => ([], document)
  | (p, v) :: rest, document =>
    match document.replace? p v with
    | some document' => splice rest document'
    | none =>
      ((.definitionWithoutSlot p.text) :: (splice rest document).1, (splice rest document).2)

/-- Put a migrated definition before the first that is not shallower. -/
def insertByDepth (entry : Pointer × Json) : List (Pointer × Json) → List (Pointer × Json)
  | [] => [entry]
  | e :: rest =>
    if entry.1.depth ≤ e.1.depth then entry :: e :: rest else e :: insertByDepth entry rest

/-- Migrated definitions with shallow pointers first, equally deep ones in their order. -/
def byDepth (arena : List (Pointer × Json)) : List (Pointer × Json) :=
  arena.foldr insertByDepth []

/-- Visit a document from its root and put the reached definitions back in place. -/
def Dialect.walk (d : Dialect) (document : Json) : Trace Migration :=
  let steps := d.survey .schema .root document
  let start : Progress := { unseen := document.refTexts.eraseDups }
  (d.resolve document start.unseen.length steps start).bind fun progress =>
    let (events, schema) := splice (byDepth progress.arena) (d.migrate .schema document)
    ⟨events, .ok ⟨schema, progress.reached⟩⟩

end Relayout
