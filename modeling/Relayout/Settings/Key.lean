/-
  Relayout/Settings/Key.lean
  ==========================
  **Keys that reach into tables and lists.**

  At its top level a source may name a setting by a path such as `a.b[2].c`.  Laying a value
  at a path makes every table and list on the way that is not there yet, and replaces what
  is in the way.  A key that is no path is a plain name.

  `Given.Entries.layers` puts the sources of the program's `load_from` over each other.
-/
import Relayout.Settings.Given
import Relayout.Text.Basic

namespace Relayout

/-- A step into a value. -/
inductive Access where
  | child (name : String)
  | element (index : Int)
deriving DecidableEq, Repr

/-- A name at the top level, and the steps below it. -/
structure SettingPath where
  first : String
  steps : List Access
deriving DecidableEq, Repr

namespace SettingPath

/-- A character of a name in a path. -/
def isNameChar (c : Char) : Bool := c.isAlphanum || c = ' ' || c = '_' || c = '-'

/-- A name and what follows it. -/
def name? (cs : List Char) : Option (String × List Char) :=
  let name := cs.takeWhile isNameChar
  if name.isEmpty then none else some (String.ofList name, cs.dropWhile isNameChar)

/-- Drop blanks around an index. -/
def skipSpaces (cs : List Char) : List Char := cs.dropWhile (fun c => c = ' ' || c = '\t')

/-- An index that fits 64 bits, with the bracket after it. -/
def index? (cs : List Char) : Option (Int × List Char) :=
  let (neg, body) := match skipSpaces cs with
    | '-' :: rest => (true, rest)
    | rest => (false, rest)
  match skipSpaces (body.dropWhile Char.isDigit) with
  | ']' :: rest => do
    let size ← Text.digits? (body.takeWhile Char.isDigit)
    return (← Text.fitting? (Text.withSign neg size), rest)
  | _ => none

/-- The steps of a path. The first argument bounds their number. -/
def steps? : Nat → List Char → Option (List Access)
  | _, [] => some []
  | rounds + 1, '.' :: cs => do
    let (name, rest) ← name? cs
    return .child name :: (← steps? rounds rest)
  | rounds + 1, '[' :: cs => do
    let (index, rest) ← index? cs
    return .element index :: (← steps? rounds rest)
  | _, _ => none

/-- The path that a key writes, if it writes one. -/
def ofKey? (key : String) : Option SettingPath := do
  let (first, rest) ← name? key.toList
  return ⟨first, ← steps? rest.length rest⟩

end SettingPath

namespace Given

/-- The place in a list of some length that an index means; a negative one counts from the
    end. -/
def position (index : Int) (length : Nat) : Nat :=
  if 0 ≤ index then index.toNat else length - index.natAbs

/-- Change the item at a place, after making the list long enough. -/
def changeItem (items : List Given) (place : Nat) (change : Given → Given) : List Given :=
  let items := items ++ List.replicate (place + 1 - items.length) nothing
  items.modify place change

/-- Lay a value over another at the end of some steps. -/
def layBelow (value : Given) : List Access → Given → Given
  | [], _ => value
  | [.child name], here => here.withEntries (layAt name value here.entries)
  | .child name :: steps, here =>
    let inner := (Entries.get? here.entries name).getD nothing
    here.withEntries (Entries.set here.entries name (layBelow value steps inner))
  | .element index :: steps, here =>
    here.withItems
      (changeItem here.items (position index here.items.length) (layBelow value steps))

/-- Lay a value over entries at a path. -/
def layAtPath (path : SettingPath) (value : Given) (entries : Entries) : Entries :=
  match path.steps with
  | [] => layAt path.first value entries
  | steps =>
    entries.set path.first (layBelow value steps ((entries.get? path.first).getD nothing))

/-- Lay a value over entries at a key. -/
def layAtKey (key : String) (value : Given) (entries : Entries) : Entries :=
  match SettingPath.ofKey? key with
  | some path => layAtPath path value entries
  | none => layAt key value entries

/-- Lay one source over what the sources before it gave. -/
def layer (below above : Entries) : Entries :=
  above.foldl (fun entries e => layAtKey e.1 e.2 entries) below

/-- What several sources give together, the first one lowest. -/
def layers (sources : List Entries) : Entries := sources.foldl layer []

end Given

end Relayout
