/-
  Relayout/Yaml/Line.lean
  =======================
  **The lines of a YAML text.**

  Indentation tells what belongs to a mapping or a sequence, so a text is taken apart into
  lines that know their indentation.  A document is the lines between two lines of three
  hyphens.
-/
import Relayout.Yaml.Scalar

namespace Relayout.Yaml

/-- A line that holds more than a comment: its number, counted from one, how many blanks it
    begins with, and the text behind them. -/
structure Line where
  number : Nat
  indent : Nat
  text : List Char
deriving DecidableEq, Repr

namespace Line

/-- The line with a number and a text. -/
def ofText (number : Nat) (cs : List Char) : Line :=
  ⟨number, (cs.takeWhile (· = ' ')).length, Scalar.trimEnd (cs.dropWhile (· = ' '))⟩

/-- A line that holds nothing, or a comment at most. -/
def isBlank (line : Line) : Bool := onlyComment (' ' :: line.text)

/-- Whether a line begins another document. -/
def beginsDocument (line : Line) : Bool :=
  line.indent = 0 && line.text.take 3 = ['-', '-', '-'] && onlyComment (line.text.drop 3)

/-- Whether a line is an item of a sequence. -/
def isItem (line : Line) : Bool :=
  line.text.head? = some '-' && Scalar.endsHere (line.text.drop 1)

/-- The key that a line begins with and the text behind its colon, if it is a pair. -/
def pair? (line : Line) : Option (String × List Char) :=
  match scalar false line.text with
  | .ok (key, rest) =>
    (afterColon? false key rest).map (fun rest => (key.key, Scalar.skipSpaces rest))
  | .error _ => none

/-- The line with what is left of it behind a hyphen. -/
def behindHyphen (line : Line) : Line :=
  let rest := Scalar.skipSpaces (line.text.drop 1)
  { line with indent := line.indent + (line.text.length - rest.length), text := rest }

end Line

/-- The lines before, between and after the marks of documents. -/
def betweenMarks : List Line → List (List Line)
  | [] => [[]]
  | l :: ls =>
    if l.beginsDocument then [] :: betweenMarks ls
    else
      match betweenMarks ls with
      | first :: others => (l :: first) :: others
      | [] => [[l]]

/-- The lines of each document. Before the first mark there is a document only if lines stand
    there. -/
def documents (ls : List Line) : List (List Line) :=
  match betweenMarks ls with
  | [] :: others => others
  | all => all

end Relayout.Yaml
