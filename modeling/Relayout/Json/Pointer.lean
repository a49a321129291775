/-
  Relayout/Json/Pointer.lean
  ==========================
  **JSON pointers: places inside a value.**

  A pointer is kept as the list of its segments as they are written, that is, with `~1`
  for a slash and `~0` for a tilde.  `text` and `ofText?` go between the list and the
  written pointer.  `find?` looks a pointer up, `replace?` puts another value in its
  place; a segment names a member of an object by its unescaped text and an element of an
  array by its decimal index, written without sign and without leading zeros.

  `find?` and `replace?` are the lookups of the walker's `resolve_ref` and of the splice in its
  `walk`, and `escape` is its `escape_segment`.
-/
import Relayout.Json.Basic
import Relayout.Text.Split

namespace Relayout

/-- A JSON pointer, as its segments in their escaped spelling. -/
structure Pointer where
  segments : List String
deriving DecidableEq, Repr, Inhabited

namespace Pointer

/-- The pointer to the whole value. -/
def root : Pointer := ⟨[]⟩

/-- Put escapes for the tilde and the slash of a name. -/
def escapeChars : List Char → List Char
  | [] => []
  | c :: cs =>
    if c = '~' then '~' :: '0' :: escapeChars cs
    else if c = '/' then '~' :: '1' :: escapeChars cs
    else c :: escapeChars cs

/-- The segment that names a member. -/
def escape (name : String) : String :=
  String.ofList (escapeChars name.toList)

/-- Read every `~1` as a slash. -/
def unescapeSlashes : List Char → List Char
  | '~' :: '1' :: cs => '/' :: unescapeSlashes cs
  | c :: cs => c :: unescapeSlashes cs
  | [] => []

/-- Read every `~0` as a tilde. -/
def unescapeTildes : List Char → List Char
  | '~' :: '0' :: cs => '~' :: unescapeTildes cs
  | c :: cs => c :: unescapeTildes cs
  | [] => []

/-- The name that a segment stands for: slashes are read first, then tildes. -/
def unescape (segment : String) : String :=
  String.ofList (unescapeTildes (unescapeSlashes segment.toList))

/-- One segment further down. -/
def push (p : Pointer) (segment : String) : Pointer := ⟨p.segments ++ [segment]⟩

/-- The member with this name. -/
def member (p : Pointer) (name : String) : Pointer := p.push (escape name)

/-- The element at this index. -/
def element (p : Pointer) (i : Nat) : Pointer := p.push (toString i)

/-- How many segments a pointer has. -/
def depth (p : Pointer) : Nat := p.segments.length

/-- The written pointer: every segment after a slash. -/
def text (p : Pointer) : String :=
  p.segments.foldl (fun acc s => acc ++ "/" ++ s) ""

/-- The written pointer as a fragment: after a number sign, which alone is the root. -/
def fragment (p : Pointer) : String := "#" ++ p.text

/-- Read a written pointer: the empty text, or segments that each follow a slash. -/
def ofText? (t : String) : Option Pointer :=
  match t.toList with
  | [] => some root
  | '/' :: cs => some ⟨(Text.split '/' cs).map String.ofList⟩
  | _ => none

/-- An array index: decimal digits without a leading zero. -/
def index? (name : String) : Option Nat :=
  match name.toList with
  | [] => none
  | ['0'] => some 0
  | '0' :: _ => none
  | cs =>
    if cs.all Char.isDigit then
      some (cs.foldl (fun n c => 10 * n + (c.toNat - 48)) 0)
    else none

end Pointer

namespace Json

/-- The value one segment further down. -/
def step? (segment : String) : Json → Option Json
  | .obj ms => Members.get? ms (Pointer.unescape segment)
  | .arr xs => (Pointer.index? (Pointer.unescape segment)).bind (xs[·]?)
  | _ => none

/-- The value at the end of a list of segments. -/
def findFrom? : List String → Json → Option Json
  | [], v => some v
  | s :: ss, v => (v.step? s).bind (findFrom? ss)

/-- The value at a pointer. -/
def find? (v : Json) (p : Pointer) : Option Json := findFrom? p.segments v

/-- Another value for the member or element that one segment names. -/
def setStep : Json → String → Json → Json
  | .obj ms, segment, new => .obj (Members.insert ms (Pointer.unescape segment) new)
  | .arr xs, segment, new =>
    match Pointer.index? (Pointer.unescape segment) with
    | some i => .arr (xs.set i new)
    | none => .arr xs
  | v, _, _ => v

/-- Put a value at the end of a list of segments, if there is a value already. -/
def replaceFrom? (new : Json) : List String → Json → Option Json
  | [], _ => some new
  | s :: ss, v => do
    let child ← v.step? s
    let child' ← replaceFrom? new ss child
    return v.setStep s child'

/-- Put a value at a pointer, if there is a value already. -/
def replace? (v : Json) (p : Pointer) (new : Json) : Option Json :=
  replaceFrom? new p.segments v

end Json

end Relayout
