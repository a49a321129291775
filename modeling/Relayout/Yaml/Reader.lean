/-
  Relayout/Yaml/Reader.lean
  =========================
  **Reading YAML text.**

  This reads the part of YAML in which settings are written: mappings and sequences told by
  their indentation or in brackets, and scalars, each on one line.  Anchors, tags and scalars
  of several lines are refused.

  Settings are read in this way from files that end in `.yaml` or `.yml`.
-/
import Relayout.Text.Split
import Relayout.Yaml.Line

namespace Relayout.Yaml

/-- A fault and the number of its line, if it has one. -/
structure Fault where
  cause : Cause
  line : Option Nat
deriving DecidableEq, Repr

namespace Reader

/-! ### Inside brackets -/

mutual

/-- A value inside brackets. In these functions the first argument bounds the rounds. -/
def flow : Nat → List Char → Except Cause (Json × List Char)
  | 0, _ => .error .expectedValue
  | rounds + 1, cs =>
    match Scalar.skipSpaces cs with
    | '[' :: rest => (flowItems rounds rest).map (fun r => (.arr r.1, r.2))
    | '{' :: rest => (flowPairs rounds rest).map (fun r => (.obj (Members.ofList r.1), r.2))
    | cs => do
      let (written, rest) ← scalar true cs
      return (← written.value, rest)

/-- The items of a sequence in brackets and its end. -/
def flowItems : Nat → List Char → Except Cause (List Json × List Char)
  | 0, _ => .error .expectedListEnd
  | rounds + 1, cs =>
    match Scalar.skipSpaces cs with
    | ']' :: rest => .ok ([], rest)
    | cs => do
      let (v, rest) ← flow rounds cs
      match Scalar.skipSpaces rest with
      | ']' :: rest => return ([v], rest)
      | ',' :: rest => (flowItems rounds rest).map (fun r => (v :: r.1, r.2))
      | _ => .error .expectedListEnd

/-- The pairs of a mapping in brackets and its end. A key may stand alone. -/
def flowPairs : Nat → List Char → Except Cause (List (String × Json) × List Char)
  | 0, _ => .error .expectedMappingEnd
  | rounds + 1, cs =>
    match Scalar.skipSpaces cs with
    | '}' :: rest => .ok ([], rest)
    | cs => do
      let (key, rest) ← scalar true cs
      let (v, rest) ← match afterColon? true key rest with
        | none => pure (Json.null, rest)
        | some rest =>
          if (Scalar.skipSpaces rest).head?.any (fun c => c = ',' || c = '}') then
            pure (.null, rest)
          else flow rounds rest
      match Scalar.skipSpaces rest with
      | '}' :: rest => return ([(key.key, v)], rest)
      | ',' :: rest => (flowPairs rounds rest).map (fun r => ((key.key, v) :: r.1, r.2))
      | _ => .error .expectedMappingEnd

end

/-! ### Lines -/

/-- A value that has the rest of its line for itself. -/
def inline (number : Nat) (cs : List Char) : Except Fault Json :=
  let r : Except Cause (Json × List Char) :=
    if cs.head? = some '[' || cs.head? = some '{' then flow (cs.length + 1) cs
    else do
      let (written, rest) ← scalar false cs
      return (← written.value, rest)
  match r with
  | .error cause => .error ⟨cause, some number⟩
  | .ok (v, rest) => if onlyComment rest then .ok v else .error ⟨.trailingText, some number⟩

mutual

/-- The value in the lines that are indented at least so far, and the lines behind it. Where
    no line is, it is null. In these functions the first argument bounds the rounds. -/
def block : Nat → Nat → List Line → Except Fault (Json × List Line)
  | 0, _, ls => .error ⟨.expectedValue, (ls.head?).map Line.number⟩
  | _, _, [] => .ok (.null, [])
  | rounds + 1, least, l :: ls =>
    if l.indent < least then .ok (.null, l :: ls)
    else if l.isItem then
      (items rounds l.indent (l :: ls)).map (fun r => (.arr r.1, r.2))
    else if l.pair?.isSome then
      (pairs rounds l.indent (l :: ls)).map (fun r => (.obj (Members.ofList r.1), r.2))
    else do return (← inline l.number l.text, ls)

/-- The items of a sequence with this indentation. -/
def items : Nat → Nat → List Line → Except Fault (List Json × List Line)
  | 0, _, ls => .error ⟨.expectedValue, (ls.head?).map Line.number⟩
  | _, _, [] => .ok ([], [])
  | rounds + 1, indent, l :: ls =>
    if indent < l.indent then .error ⟨.indentation, some l.number⟩
    else if l.indent < indent || !l.isItem then .ok ([], l :: ls)
    else do
      let rest := if onlyComment (l.text.drop 1) then ls else l.behindHyphen :: ls
      let (v, rest) ← block rounds (indent + 1) rest
      let (vs, rest) ← items rounds indent rest
      return (v :: vs, rest)

/-- The pairs of a mapping with this indentation. A sequence that is the value of a key may
    have the indentation of the key. -/
def pairs : Nat → Nat → List Line → Except Fault (List (String × Json) × List Line)
  | 0, _, ls => .error ⟨.expectedKey, (ls.head?).map Line.number⟩
  | _, _, [] => .ok ([], [])
  | rounds + 1, indent, l :: ls =>
    if indent < l.indent then .error ⟨.indentation, some l.number⟩
    else if l.indent < indent || l.isItem then .ok ([], l :: ls)
    else
      match l.pair? with
      | none => .error ⟨.expectedKey, some l.number⟩
      | some (key, text) => do
        let (v, rest) ←
          if text.isEmpty || text.head? = some '#' then
            if ls.head?.any (fun next => next.indent = indent && next.isItem) then
              block rounds indent ls
            else block rounds (indent + 1) ls
          else do pure (← inline l.number text, ls)
        let (others, rest) ← pairs rounds indent rest
        return ((key, v) :: others, rest)

end

/-- The value of a whole document. -/
def document (ls : List Line) : Except Fault Json := do
  let size := ls.foldl (fun size l => size + (l.text.length + 2)) 0
  let (v, rest) ← block (2 * size + 2) 0 ls
  match rest with
  | [] => return v
  | l :: _ => .error ⟨.trailingText, some l.number⟩

end Reader

/-- The wording of a cause. -/
def Cause.message : Cause → String
  | .expectedValue => "while parsing a node, did not find expected node content"
  | .expectedKey => "simple key expected ':'"
  | .expectedListEnd => "while parsing a flow sequence, expected ',' or ']'"
  | .expectedMappingEnd => "while parsing a flow mapping, did not find expected ',' or '\x7d'"
  | .unclosedQuote => "while scanning a quoted scalar, found unexpected end of stream"
  | .unknownEscape => "while parsing a quoted scalar, found unknown escape character"
  | .trailingText => "did not find expected <document start>"
  | .indentation => "mapping values are not allowed in this context"
  | .unreadableFloat text => "Parsing " ++ text ++ " as floating point number failed"

/-- The wording of a fault. -/
def Fault.message (fault : Fault) : String :=
  match fault.cause, fault.line with
  | .unreadableFloat _, _ | _, none => fault.cause.message
  | _, some number => fault.cause.message ++ " at line " ++ toString number

/-- The values of the documents that a text holds, or the wording of the first fault. -/
def read (text : String) : Except String (List Json) :=
  let lines := (Text.split '\n' text.toList).mapIdx (fun i cs => Line.ofText (i + 1) cs)
  ((documents (lines.filter (fun l => !l.isBlank))).mapM Reader.document).mapError Fault.message

end Relayout.Yaml
