/-
  Relayout/Pattern/Class.lean
  ===========================
  **Character classes in brackets.**

  The items of a class are read from tokens, in which an escaped character is told apart from
  a bare one.  The ends of a range have to be characters in order; a bracket opens a class
  inside the class, unless it begins a named class such as `[:alpha:]`.
-/

namespace Relayout.Pattern

/-- A piece of the text of a class. -/
inductive ClassToken where
  /-- A character as it stands, which may be a sign of the notation of classes. -/
  | bare (c : Char)
  /-- A character that only stands for itself. -/
  | literal (c : Char)
  /-- Several characters, such as the digits. -/
  | set
  /-- Something that no class can hold. -/
  | invalid
deriving DecidableEq, Repr

/-- The names of the ASCII classes. -/
def asciiClassNames : List String :=
  ["alnum", "alpha", "ascii", "blank", "cntrl", "digit", "graph", "lower", "print", "punct",
   "space", "upper", "word", "xdigit"]

/-- The characters of a run of bare tokens up to a colon, and what follows it. -/
def takeName : List ClassToken → List Char × List ClassToken
  | .bare c :: rest =>
    if c = ':' then ([], .bare c :: rest) else (c :: (takeName rest).1, (takeName rest).2)
  | rest => ([], rest)

/-- What follows a named class whose opening bracket has been read. -/
def asciiClass? (tokens : List ClassToken) : Option (List ClassToken) :=
  match tokens with
  | .bare ':' :: rest =>
    let (name, after) := takeName rest
    let name := if name.head? = some '^' then name.drop 1 else name
    match after with
    | .bare ':' :: .bare ']' :: after =>
      if asciiClassNames.contains (String.ofList name) then some after else none
    | _ => none
  | _ => none

/-- What follows the bracket that opens a class: a sign of negation, hyphens, and a closing
    bracket that stands first are not items like the others. -/
def afterOpening (tokens : List ClassToken) : List ClassToken :=
  let tokens := if tokens.head? = some (.bare '^') then tokens.drop 1 else tokens
  let inner := tokens.dropWhile (· == .bare '-')
  if inner.length = tokens.length && inner.head? = some (.bare ']') then inner.drop 1 else inner

/-- The character of a token that can end a range. -/
def ClassToken.char? : ClassToken → Option Char
  | .bare c => some c
  | .literal c => some c
  | _ => none

/-- Read the items of classes nested to a depth. The first argument bounds the rounds; every
    round reads at least one token. -/
def readItems : Nat → Nat → List ClassToken → Bool
  | 0, _, _ => false
  | _, _, [] => false
  | _, _, .invalid :: _ => false
  | rounds + 1, depth, .bare '[' :: rest =>
    match asciiClass? rest with
    | some after => readItems rounds depth after
    | none => readItems rounds (depth + 1) (afterOpening rest)
  | rounds + 1, depth, .bare ']' :: rest =>
    if depth ≤ 1 then true else readItems rounds (depth - 1) rest
  | rounds + 1, depth, .bare '&' :: .bare '&' :: rest => readItems rounds depth rest
  | rounds + 1, depth, .bare '-' :: .bare '-' :: rest => readItems rounds depth rest
  | rounds + 1, depth, .bare '~' :: .bare '~' :: rest => readItems rounds depth rest
  | rounds + 1, depth, _ :: .bare '-' :: .bare ']' :: rest =>
    readItems rounds depth (.bare ']' :: rest)
  | rounds + 1, depth, _ :: .bare '-' :: .bare '-' :: rest => readItems rounds depth rest
  | rounds + 1, depth, low :: .bare '-' :: high :: rest =>
    match low.char?, high.char? with
    | some a, some b => a ≤ b && readItems rounds depth rest
    | _, _ => false
  | rounds + 1, depth, _ :: rest => readItems rounds depth rest

/-- Whether the tokens after an opening bracket make a class. -/
def isClass (tokens : List ClassToken) : Bool :=
  readItems (tokens.length + 1) 1 (afterOpening tokens)

end Relayout.Pattern
