/-
  Relayout/Toml/Reader.lean
  =========================
  **Reading TOML text.**

  A statement stands on a line of its own, with blanks and a comment around it at most; only
  arrays and strings of several lines may run on.  Each statement is carried out as soon as
  it has been read, so of two faults the one that stands first is reported.

  Settings are read in this way from files that end in `.toml`.
-/
import Relayout.Toml.Text
import Relayout.Toml.Scalar
import Relayout.Toml.Document

namespace Relayout.Toml

namespace Reader

/-- A blank inside a line. -/
def isSpace (c : Char) : Bool := c = ' ' || c = '\t'

/-- Drop blanks. -/
def skipSpaces (cs : List Char) : List Char := cs.dropWhile isSpace

/-- Drop blanks, line ends and comments; the flag says that a comment has begun. -/
def skipLines : Bool → List Char → List Char
  | _, [] => []
  | inComment, c :: cs =>
    if c = '\n' then skipLines false cs
    else if c = '\r' && cs.head? = some '\n' then skipLines false cs
    else if inComment then (if isControl c then c :: cs else skipLines true cs)
    else if isSpace c then skipLines false cs
    else if c = '#' then skipLines true cs
    else c :: cs

/-- The end of a line, perhaps after a comment. -/
def lineEnd (cs : List Char) : Except Fault (List Char) :=
  let rest := match skipSpaces cs with
    | '#' :: rest => rest.dropWhile (fun c => !isControl c)
    | rest => rest
  match rest with
  | [] => .ok []
  | '\n' :: rest => .ok rest
  | '\r' :: '\n' :: rest => .ok rest
  | rest => .error ⟨.ofExpected ["newline", "`#`"], rest, false⟩

/-- A sign that has to stand here, or else one of those that could have. -/
def sign (c : Char) (cause : Cause) (cs : List Char) : Except Fault (List Char) :=
  if cs.head? = some c then .ok (cs.drop 1) else .error ⟨cause, cs, false⟩

/-! ### Keys -/

/-- A character of a key without quotes. -/
def isBare (c : Char) : Bool := c.isAlphanum || c = '_' || c = '-'

/-- A part of a dotted key. -/
def simpleKey (cs : List Char) : Except Fault (String × List Char) :=
  match cs with
  | '"' :: rest => (Form.basic.read (.plain 0) rest).map (fun r => (String.ofList r.1, r.2))
  | '\'' :: rest => (Form.literal.read (.plain 0) rest).map (fun r => (String.ofList r.1, r.2))
  | _ =>
    let name := cs.takeWhile isBare
    if name.isEmpty then .error ⟨.ofLabel "key", cs, true⟩
    else .ok (String.ofList name, cs.dropWhile isBare)

/-- A dotted key and the blanks after it. A point after which no part follows does not belong
    to it. The first argument bounds the number of its parts. -/
def key : Nat → List Char → Except Fault (List String × List Char)
  | 0, cs => .error ⟨.ofLabel "key", cs, true⟩
  | rounds + 1, cs => do
    let (name, rest) ← simpleKey (skipSpaces cs)
    match skipSpaces rest with
    | '.' :: more =>
      match key rounds more with
      | .ok (path, rest) => return (name :: path, rest)
      | .error fault => if fault.soft then return ([name], '.' :: more) else .error fault
    | rest => return ([name], rest)

/-- The sign between key and value. -/
def equalsSign (cs : List Char) : Except Fault (List Char) := sign '=' (.ofExpected ["`.`", "`=`"]) cs

/-! ### Values -/

/-- How deep values may nest. -/
def depthLimit : Nat := 80

/-- The closing sign of an array is missing. -/
def noArrayEnd (cs : List Char) : Fault := ⟨⟨some "array", ["`]`"], none⟩, cs, false⟩

/-- The closing sign of an inline table is missing. -/
def noTableEnd (cs : List Char) : Fault := ⟨⟨some "inline table", ["`\x7d`"], none⟩, cs, false⟩

/-- What may be missing is taken to be missing: then something else is at fault. -/
def orElse {α : Type} (r : Except Fault α) (instead : Fault) : Except Fault α :=
  r.mapError (fun fault => if fault.soft then instead else fault)

/-- One more level of nesting. -/
def deeper (depth : Nat) (cs : List Char) : Except Fault Nat :=
  if depth ≤ 1 then .error ⟨.ofReason .nestedTooDeeply, cs, false⟩ else .ok (depth - 1)

mutual

/-- A value, at a depth that may still grow by the second argument. In all these functions the
    first argument bounds the rounds. -/
def value : Nat → Nat → List Char → Except Fault (Value × List Char)
  | 0, _, cs => .error ⟨{}, cs, false⟩
  | rounds + 1, depth, cs =>
    match form? cs with
    | some (form, rest) =>
      (form.read (.plain 0) rest).map (fun r => (.str (String.ofList r.1), r.2))
    | none =>
      match cs with
      | '[' :: rest => do
        let (vs, rest) ← elements rounds (← deeper depth cs) rest
        return (.array vs, rest)
      | '{' :: rest => do
        let (assignments, after) ← firstPair rounds (← deeper depth cs) rest
        match inlineTable assignments with
        | .ok v => return (v, ← sign '}' (noTableEnd after).cause after)
        | .error reason => .error ⟨.ofReason reason, rest, false⟩
      | _ => scalar cs

/-- The elements of an array up to its end. -/
def elements : Nat → Nat → List Char → Except Fault (List Value × List Char)
  | 0, _, cs => .error (noArrayEnd cs)
  | rounds + 1, depth, cs =>
    match skipLines false cs with
    | ']' :: rest => .ok ([], rest)
    | start => do
      let (v, rest) ← orElse (value rounds depth start) (noArrayEnd start)
      match skipLines false rest with
      | ',' :: rest => do
        let (vs, rest) ← elements rounds depth rest
        return (v :: vs, rest)
      | ']' :: rest => return ([v], rest)
      | rest => .error (noArrayEnd rest)

/-- The assignments of an inline table, none of which has been read yet. -/
def firstPair : Nat → Nat → List Char → Except Fault (List (List String × Value) × List Char)
  | 0, _, cs => .error (noTableEnd cs)
  | rounds + 1, depth, cs =>
    match skipSpaces cs with
    | '}' :: rest => .ok ([], '}' :: rest)
    | start => orElse (pairs rounds depth start) (noTableEnd start)

/-- The assignments of an inline table up to what no longer belongs to them. -/
def pairs : Nat → Nat → List Char → Except Fault (List (List String × Value) × List Char)
  | 0, _, cs => .error (noTableEnd cs)
  | rounds + 1, depth, cs => do
    let (path, rest) ← key rounds cs
    let rest ← equalsSign rest
    let (v, rest) ← (value rounds depth (skipSpaces rest)).mapError Scalar.firm
    match skipSpaces rest with
    | ',' :: more => do
      let (others, rest) ← orElse (pairs rounds depth more) (noTableEnd (',' :: more))
      return ((path, v) :: others, rest)
    | rest => return ([(path, v)], rest)

end

/-! ### Statements -/

/-- What could have closed the header of a table. -/
def noHeaderEnd (closing : String) : Cause := .ofExpected ["`.`", closing]

/-- A statement and the end of its line. -/
def statement (rounds : Nat) (cs : List Char) : Except Fault (Statement × List Char) :=
  match cs with
  | '[' :: '[' :: rest =>
    Except.mapError (Fault.inside "table header") do
      let (path, rest) ← key rounds rest
      match rest with
      | ']' :: ']' :: rest => return (.element path, ← lineEnd rest)
      | rest => .error ⟨noHeaderEnd "`]]`", rest, false⟩
  | '[' :: rest =>
    Except.mapError (Fault.inside "table header") do
      let (path, rest) ← key rounds rest
      let rest ← sign ']' (noHeaderEnd "`]`") rest
      return (.table path, ← lineEnd rest)
  | cs => do
    let (path, rest) ← key rounds cs
    let rest ← equalsSign rest
    let (v, rest) ← value rounds depthLimit (skipSpaces rest)
    return (.assign path v, ← lineEnd rest)

/-- The fault of a statement that cannot be carried out. -/
def refusal (s : Statement) (reason : Reason) (start : List Char) : Fault :=
  match s with
  | .assign _ _ => ⟨.ofReason reason, start, false⟩
  | .table _ | .element _ => ⟨(Cause.ofReason reason).inside "table header", start, false⟩

/-- The statements of a text, carried out one after the other. The first argument bounds
    their number. -/
def lines : Nat → Document → List Char → Except Fault Document
  | 0, d, _ => .ok d
  | rounds + 1, d, cs =>
    match skipLines false cs with
    | [] => .ok d
    | start => do
      let (s, rest) ← statement (2 * start.length + 2) start
      match d.apply s with
      | .ok d => lines rounds d rest
      | .error reason => .error (refusal s reason start)

end Reader

/-- The mark that may stand at the very start of a text. -/
def byteOrderMark : Char := Char.ofNat 0xFEFF

/-- The document that a text holds. -/
def readChars (text : List Char) : Except Fault Document :=
  let body := if text.head? = some byteOrderMark then text.drop 1 else text
  Reader.lines (body.length + 1) Document.empty body

/-- The entries of the table that a text holds, or the wording of its first fault. -/
def read (text : String) : Except String (List (String × Value)) :=
  match readChars text.toList with
  | .ok d => .ok d.values
  | .error fault => .error (fault.message text.toList)

end Relayout.Toml
