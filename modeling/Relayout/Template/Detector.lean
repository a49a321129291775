/-
  Relayout/Template/Detector.lean
  ===============================
  **Which markers are references, and what kind of text they make.**

  A marker whose content is a dotted path of identifiers refers to the context of a form and
  is promoted to an interpolation `${…}`; any other marker, such as a placeholder of one
  segment, belongs to whoever receives the text and stays as it is.  A text with an
  interpolation is a template; without one it is read as its role says.

  `Detector.detect` is `detect` of the program's template detector, `Detector.isPromotable` its
  `is_promotable`, and `hasUnpromoted` what the linter looks for in a text.
-/
import Relayout.Template.Marker
import Relayout.Text.Basic
import Relayout.Text.Split

namespace Relayout.Template

/-! ### Paths -/

/-- A character that may begin an identifier. -/
def isIdentifierStart (c : Char) : Bool :=
  ('A' ≤ c && c ≤ 'Z') || ('a' ≤ c && c ≤ 'z') || c = '_' || c = '$'

/-- A character that may stand in an identifier. -/
def isIdentifierChar (c : Char) : Bool :=
  isIdentifierStart c || ('0' ≤ c && c ≤ '9')

/-- An ASCII identifier, in which the dollar sign counts as a letter. -/
def isIdentifier : List Char → Bool
  | [] => false
  | c :: cs => isIdentifierStart c && cs.all isIdentifierChar

/-- The parts of a text between dots. -/
def segments (cs : List Char) : List (List Char) := Text.split '.' cs

/-- Identifiers with a dot between each two. -/
def isPath (cs : List Char) : Bool := (segments cs).all isIdentifier

/-- How many segments a path needs by default to be promoted. -/
def defaultMinSegments : Nat := 2

/-- Decides which markers are promoted. -/
structure Detector where
  /-- How many segments a path needs to be promoted. -/
  minSegments : Nat := defaultMinSegments
  one_le_minSegments : 1 ≤ minSegments := by decide

/-- A detector with a threshold, which is at least one. -/
def Detector.ofMin (n : Nat) : Detector := ⟨max n 1, Nat.le_max_right n 1⟩

/-- Whether the content of a marker refers to the context. -/
def Detector.isPromotable (d : Detector) (token : List Char) : Bool :=
  isPath (Text.trim token) && d.minSegments ≤ (segments (Text.trim token)).length

/-! ### Detection -/

/-- Where a text comes from. -/
inductive Role where
  /-- It is evaluated. -/
  | expression
  /-- It is fetched. -/
  | url
deriving DecidableEq, Repr

/-- What kind of text was found. -/
inductive Classification where
  /-- No interpolation; used as it stands. -/
  | literal
  /-- No interpolation; evaluated. -/
  | expression
  /-- At least one interpolation. -/
  | template
deriving DecidableEq, Repr

/-- A text after its markers have been promoted, and its kind. -/
structure Detected where
  classification : Classification
  expr : String
deriving DecidableEq, Repr

/-- A marker that refers to the context becomes an interpolation, without blanks in it. -/
def Detector.promote (d : Detector) : Piece → Piece
  | .marker false token =>
    if d.isPromotable token then .marker true (Text.trim token) else .marker false token
  | p => p

/-- Whether a piece is an interpolation. -/
def Piece.isInterpolation : Piece → Bool
  | .marker true _ => true
  | _ => false

/-- The kind of a text without interpolations. -/
def Role.plain : Role → Classification
  | .expression => .expression
  | .url => .literal

/-- Promote the markers of a text and tell its kind. -/
def Detector.detect (d : Detector) (raw : String) (role : Role) : Detected :=
  let ps := (pieces raw.toList).map d.promote
  { classification := if ps.any Piece.isInterpolation then .template else role.plain
    expr := String.ofList (render ps) }

/-! ### Markers that were left -/

/-- Whether a text goes on with a path of at least two segments and a closing brace. -/
def startsWithPath (cs : List Char) : Bool :=
  match closing? cs with
  | some (token, _) => isPath token && 2 ≤ (segments token).length
  | none => false

/-- Whether a text has a marker that holds exactly a path of at least two segments and has no
    dollar sign before it. The first argument is the character before the text. -/
def hasUnpromotedAfter : Option Char → List Char → Bool
  | _, [] => false
  | before, c :: cs =>
    (c = '{' && before ≠ some '$' && startsWithPath cs) || hasUnpromotedAfter (some c) cs

/-- Whether a text has an unpromoted reference in it. -/
def hasUnpromoted (text : String) : Bool := hasUnpromotedAfter none text.toList

end Relayout.Template
