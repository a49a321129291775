/-
  Relayout/Pattern/Parser.lean
  ============================
  **Reading regular expressions.**

  The notation has groups, named groups, looks ahead and behind, atomic groups, references to
  groups, flags, and greedy, lazy and possessive repetitions.  A brace that does not begin a
  repetition stands for itself.

  `isValid` tells which keys of `patternProperties` the program's validator can compile, and
  `isScriptPattern` which texts it takes for the format `regex`.
-/
import Relayout.Pattern.Basic
import Relayout.Pattern.Escape

namespace Relayout.Pattern

/-- The rest of a text after a comment, whose opening has been read. -/
def afterComment : List Char → Option (List Char)
  | [] => none
  | '\\' :: _ :: rest => afterComment rest
  | ')' :: rest => some rest
  | _ :: rest => afterComment rest

/-- Skip comments, and blanks where they do not count. The first argument bounds the rounds;
    every round reads at least one character. -/
def skipFrom (scan : Scan) : Nat → List Char → Option (List Char)
  | 0, cs => some cs
  | rounds + 1, '(' :: '?' :: '#' :: rest => do skipFrom scan rounds (← afterComment rest)
  | rounds + 1, c :: rest =>
    if scan.spaced && c = '#' then skipFrom scan rounds ((rest.dropWhile (· ≠ '\n')).drop 1)
    else if scan.spaced && (c = ' ' || c = '\r' || c = '\n' || c = '\t') then
      skipFrom scan rounds rest
    else some (c :: rest)
  | _ + 1, [] => some []

/-- Skip comments, and blanks where they do not count. -/
def skip (scan : Scan) (cs : List Char) : Option (List Char) := skipFrom scan (cs.length + 1) cs

/-- The limits of a repetition whose opening brace has been read. -/
def repetitionLimits? (scan : Scan) (cs : List Char) :
    Option (Nat × Option Nat × List Char) := do
  let cs ← skip scan cs
  let (least, cs) ← match cs with
    | ',' :: _ => some (0, cs)
    | _ => decimal? cs
  match ← skip scan cs with
  | '}' :: rest => return (least, some least, rest)
  | ',' :: rest =>
    let rest ← skip scan rest
    let (greatest, rest) := match decimal? rest with
      | some (n, rest) => (some n, rest)
      | none => (none, rest)
    match ← skip scan rest with
    | '}' :: rest => return (least, greatest, rest)
    | _ => none
  | _ => none

/-- The limits of the repetition sign at the start of a text. -/
def repetitionSign? (scan : Scan) : List Char → Option (Nat × Option Nat × List Char)
  | '?' :: rest => some (0, some 1, rest)
  | '*' :: rest => some (0, none, rest)
  | '+' :: rest => some (1, none, rest)
  | '{' :: rest => repetitionLimits? scan rest
  | _ => none

/-- What may follow the letters of flags. -/
inductive FlagsEnd where
  | closed
  | colon

/-- The letters of flags; the first argument says whether a letter has been read since the
    start or the minus sign, the second whether there was a minus sign. -/
def flags? : Bool → Bool → Scan → List Char → Option (FlagsEnd × Scan × List Char)
  | _, _, _, [] => none
  | started, minus, scan, c :: rest =>
    if "imsU".toList.contains c then flags? true minus scan rest
    else if c = 'x' then flags? true minus { scan with spaced := !minus } rest
    else if c = 'u' then if minus then none else flags? true minus scan rest
    else if c = '-' then if minus then none else flags? false true scan rest
    else if c = ')' then if started then some (.closed, scan, rest) else none
    else if c = ':' then if started || !minus then some (.colon, scan, rest) else none
    else none

/-- One or no items as themselves, and more one after the other. -/
def sequence : List Pattern → Pattern
  | [] => .empty
  | [p] => p
  | ps => .concat ps

/-- How deeply groups may nest. -/
def nestingLimit : Nat := 64

/-- A closing parenthesis. -/
def close? (scan : Scan) (cs : List Char) : Option (List Char) := do
  match ← skip scan cs with
  | ')' :: rest => some rest
  | _ => none

mutual

/-- Branches between bars. In all these functions the first argument bounds the rounds, and
    the second is the depth of nesting. -/
def branches? : Nat → Nat → Scan → List Char → Option (Pattern × Scan × List Char)
  | 0, _, _, _ => none
  | rounds + 1, depth, scan, cs => do
    let (first, scan, rest) ← branch? rounds depth scan cs
    let rest ← skip scan rest
    match rest with
    | '|' :: _ =>
      let (more, scan, rest) ← moreBranches? rounds depth scan rest
      return (.alternation (first :: more), scan, rest)
    | _ => if scan.numbered && !scan.names.isEmpty then none else return (first, scan, rest)

/-- The branches that each follow a bar. -/
def moreBranches? : Nat → Nat → Scan → List Char → Option (List Pattern × Scan × List Char)
  | 0, _, _, _ => none
  | rounds + 1, depth, scan, '|' :: cs => do
    let (p, scan, rest) ← branch? rounds depth scan cs
    let rest ← skip scan rest
    let (ps, scan, rest) ← moreBranches? rounds depth scan rest
    return (p :: ps, scan, rest)
  | _ + 1, _, scan, cs => some ([], scan, cs)

/-- One branch. -/
def branch? : Nat → Nat → Scan → List Char → Option (Pattern × Scan × List Char)
  | 0, _, _, _ => none
  | rounds + 1, depth, scan, cs => do
    let (items, scan, rest) ← pieces? rounds depth scan cs
    return (sequence items, scan, rest)

/-- The pieces of a branch. -/
def pieces? : Nat → Nat → Scan → List Char → Option (List Pattern × Scan × List Char)
  | 0, _, _, _ => none
  | rounds + 1, depth, scan, cs =>
    if cs.isEmpty then some ([], scan, cs)
    else do
      let (p, scan, rest) ← piece? rounds depth scan cs
      if rest.length = cs.length then return ([], scan, rest)
      else
        let (ps, scan, rest) ← pieces? rounds depth scan rest
        return (match p with | .empty => ps | _ => p :: ps, scan, rest)

/-- An item with its repetition sign. -/
def piece? : Nat → Nat → Scan → List Char → Option (Pattern × Scan × List Char)
  | 0, _, _, _ => none
  | rounds + 1, depth, scan, cs => do
    let (p, scan, rest) ← atom? rounds depth scan cs
    let rest ← skip scan rest
    match repetitionSign? scan rest with
    | none => return (p, scan, rest)
    | some (least, greatest, rest) =>
      if !p.isRepeatable then none
      else
        let rest ← skip scan rest
        let rest := if rest.head? = some '?' then rest.drop 1 else rest
        let rest := if rest.head? = some '+' then rest.drop 1 else rest
        return (.repetition p least greatest, scan, rest)

/-- An item. -/
def atom? : Nat → Nat → Scan → List Char → Option (Pattern × Scan × List Char)
  | 0, _, _, _ => none
  | rounds + 1, depth, scan, cs => do
    match ← skip scan cs with
    | [] => return (.empty, scan, [])
    | c :: rest =>
      if c = '^' || c = '$' then return (.assertion, scan, rest)
      else if c = '(' then group? rounds (depth + 1) scan rest
      else if c = '\\' then
        let (e, scan, rest) ← escape? scan rest
        let p := match e with
          | .literal _ | .set | .spelled _ => Pattern.single
          | .assertion => .assertion
          | .backref n => .backref n
        return (p, scan, rest)
      else if c = '+' || c = '*' || c = '?' || c = '|' || c = ')' then
        return (.empty, scan, c :: rest)
      else if c = '[' then
        let (scan, rest) ← class? scan rest
        return (.single, scan, rest)
      else return (.single, scan, rest)

/-- A group whose opening parenthesis has been read. -/
def group? : Nat → Nat → Scan → List Char → Option (Pattern × Scan × List Char)
  | 0, _, _, _ => none
  | rounds + 1, depth, scan, cs =>
    if nestingLimit ≤ depth then none
    else do
      match ← skip scan cs with
      | '?' :: '=' :: rest => look? rounds depth scan false rest
      | '?' :: '!' :: rest => look? rounds depth scan false rest
      | '?' :: '<' :: '=' :: rest => look? rounds depth scan true rest
      | '?' :: '<' :: '!' :: rest => look? rounds depth scan true rest
      | '?' :: '<' :: rest => named? rounds depth scan rest
      | '?' :: 'P' :: '<' :: rest => named? rounds depth scan rest
      | '?' :: 'P' :: '=' :: rest =>
        let (name, rest) ← groupName? ')' rest
        match ← backref? scan (← namedGroup? scan name) with
        | .backref n => return (.backref n, scan, rest)
        | _ => none
      | '?' :: '>' :: rest => inner? rounds depth scan rest
      | '?' :: rest =>
        match ← flags? false false scan rest with
        | (.closed, scan, rest) => return (.empty, scan, rest)
        | (.colon, inside, rest) =>
          let (p, after, rest) ← branches? rounds depth inside rest
          let rest ← close? after rest
          return (p, { after with spaced := scan.spaced }, rest)
      | rest => inner? rounds depth { scan with groups := scan.groups + 1 } rest

/-- What a group holds, and its closing parenthesis. -/
def inner? : Nat → Nat → Scan → List Char → Option (Pattern × Scan × List Char)
  | 0, _, _, _ => none
  | rounds + 1, depth, scan, cs => do
    let (p, scan, rest) ← branches? rounds depth scan cs
    let rest ← close? scan rest
    return (.group p, scan, rest)

/-- A look ahead or behind. -/
def look? : Nat → Nat → Scan → Bool → List Char → Option (Pattern × Scan × List Char)
  | 0, _, _, _, _ => none
  | rounds + 1, depth, scan, behind, cs => do
    let (p, scan, rest) ← branches? rounds depth scan cs
    let rest ← close? scan rest
    return (.look behind p, scan, rest)

/-- A group with a name. -/
def named? : Nat → Nat → Scan → List Char → Option (Pattern × Scan × List Char)
  | 0, _, _, _ => none
  | rounds + 1, depth, scan, cs => do
    let (name, rest) ← groupName? '>' cs
    let opened := scan.groups + 1
    inner? rounds depth { scan with groups := opened, names := (name, opened) :: scan.names } rest

end

/-- Read a whole text as a pattern. -/
def parse? (cs : List Char) : Option Pattern := do
  let bytes := cs.foldl (fun n c => n + c.utf8Size) 0
  let (p, _, rest) ← branches? (10 * cs.length + 10) 0 { length := bytes } cs
  if rest.isEmpty then some p else none

/-- Whether a text is a valid pattern. -/
def isValid (cs : List Char) : Bool := (parse? cs).any isSound

/-! ### The script dialect -/

/-- Write control escapes as the characters that they stand for. -/
def expandControls : List Char → List Char
  | '\\' :: 'c' :: c :: rest =>
    if c.isAlpha then Char.ofNat (c.toUpper.toNat - 64) :: expandControls rest
    else '\\' :: 'c' :: expandControls (c :: rest)
  | c :: rest => c :: expandControls rest
  | [] => []

/-- The class that an escape for several characters stands for in the script dialect, in
    which these classes hold only characters of a fixed list. -/
def scriptClass? (c : Char) : Option (List Char) :=
  let blanks := [' ', '\t', '\n', '\r'] ++ [0x0B, 0x0C, 0x2003, 0xFEFF, 0x2029].map Char.ofNat
  match c with
  | 'd' => some "[0-9]".toList
  | 'D' => some "[^0-9]".toList
  | 'w' => some "[A-Za-z0-9_]".toList
  | 'W' => some "[^A-Za-z0-9_]".toList
  | 's' => some ('[' :: (blanks ++ [']']))
  | 'S' => some ('[' :: '^' :: (blanks ++ [']']))
  | _ => none

/-- Write the classes of the script dialect out. -/
def expandClasses : List Char → List Char
  | '\\' :: c :: rest =>
    (match scriptClass? c with
      | some cs => cs
      | none => ['\\', c]) ++ expandClasses rest
  | c :: rest => c :: expandClasses rest
  | [] => []

/-- Whether a text is a valid pattern of the script dialect. -/
def isScriptPattern (text : String) : Bool :=
  isValid (expandClasses (expandControls text.toList))

end Relayout.Pattern
