/-
  Relayout/Settings/Given.lean
  ============================
  **What a source of settings gives, and how sources are laid over each other.**

  A source gives a tree of tables and lists with scalars at the leaves, and every part of it
  remembers where it was given.  Laying a value over a table at a key replaces what the key
  held, unless the value is itself a table: then its entries are laid over what the key
  held, one by one, so that tables merge field by field.  Keys are compared in lower case.

  This is the value that the program's `load_from` builds from its sources.
-/
import Relayout.Decimal.Double

namespace Relayout

/-- A value without parts. -/
inductive Scalar where
  | null
  | bool (b : Bool)
  | int (n : Int)
  | float (x : Double)
  | text (s : String)
deriving DecidableEq, Repr, Inhabited

/-- A value with the name of the source that gave it. Tables that were merged have none. -/
inductive Given where
  | scalar (origin : Option String) (value : Scalar)
  | list (origin : Option String) (items : List Given)
  | table (origin : Option String) (entries : List (String × Given))
deriving Inhabited, Repr

mutual

/-- Equality of given values. -/
def Given.decEq : (a b : Given) → Decidable (a = b)
  | .scalar o v, .scalar p w =>
    if h : o = p ∧ v = w then isTrue (by rw [h.1, h.2]) else isFalse (fun e => h (by cases e; simp))
  | .list o as, .list p bs =>
    match Given.decEqItems as bs with
    | isTrue h => if ho : o = p then isTrue (by rw [ho, h]) else isFalse (fun e => ho (by cases e; rfl))
    | isFalse h => isFalse (fun e => h (by cases e; rfl))
  | .table o as, .table p bs =>
    match Given.decEqEntries as bs with
    | isTrue h => if ho : o = p then isTrue (by rw [ho, h]) else isFalse (fun e => ho (by cases e; rfl))
    | isFalse h => isFalse (fun e => h (by cases e; rfl))
  | .scalar _ _, .list _ _ | .scalar _ _, .table _ _ | .list _ _, .scalar _ _
  | .list _ _, .table _ _ | .table _ _, .scalar _ _ | .table _ _, .list _ _ =>
    isFalse (fun e => by cases e)

/-- Equality of lists of items. -/
def Given.decEqItems : (as bs : List Given) → Decidable (as = bs)
  | [], [] => isTrue rfl
  | [], _ :: _ => isFalse (fun e => by cases e)
  | _ :: _, [] => isFalse (fun e => by cases e)
  | a :: as, b :: bs =>
    match Given.decEq a b, Given.decEqItems as bs with
    | isTrue h, isTrue hs => isTrue (by rw [h, hs])
    | isFalse h, _ => isFalse (fun e => h (List.cons.inj e).1)
    | _, isFalse hs => isFalse (fun e => hs (List.cons.inj e).2)

/-- Equality of lists of entries. -/
def Given.decEqEntries : (as bs : List (String × Given)) → Decidable (as = bs)
  | [], [] => isTrue rfl
  | [], _ :: _ => isFalse (fun e => by cases e)
  | _ :: _, [] => isFalse (fun e => by cases e)
  | (k, a) :: as, (l, b) :: bs =>
    if hk : k = l then
      match Given.decEq a b, Given.decEqEntries as bs with
      | isTrue h, isTrue hs => isTrue (by rw [hk, h, hs])
      | isFalse h, _ => isFalse (fun e => h (Prod.mk.inj (List.cons.inj e).1).2)
      | _, isFalse hs => isFalse (fun e => hs (List.cons.inj e).2)
    else isFalse (fun e => hk (Prod.mk.inj (List.cons.inj e).1).1)

end

instance : DecidableEq Given := Given.decEq

namespace Given

/-- The entries of a table. -/
abbrev Entries := List (String × Given)

/-- Nothing, given by nobody. -/
def nothing : Given := .scalar none .null

/-- The table of merged entries. -/
def merged (entries : Entries) : Given := .table none entries

/-- The source that gave a value. -/
def origin : Given → Option String
  | .scalar origin _ => origin
  | .list origin _ => origin
  | .table origin _ => origin

/-- The entries of a table, or none where no table is. -/
def entries : Given → Entries
  | .table _ entries => entries
  | _ => []

/-- The same table with other entries; in the place of anything else, a new table. -/
def withEntries : Given → Entries → Given
  | .table origin _, entries => .table origin entries
  | _, entries => merged entries

/-- The items of a list, or none where no list is. -/
def items : Given → List Given
  | .list _ items => items
  | _ => []

/-- The same list with other items; in the place of anything else, a new list. -/
def withItems : Given → List Given → Given
  | .list origin _, items => .list origin items
  | _, items => .list none items

end Given

/-- The lower case of a key. The names of all settings are ASCII, and no other letter has a
    lower case among theirs. -/
def foldKey (key : String) : String := String.ofList (key.toList.map Char.toLower)

namespace Given.Entries

/-- The value of a key. -/
def get? : Entries → String → Option Given
  | [], _ => none
  | (k, v) :: entries, key => if k = key then some v else get? entries key

/-- Give a key another value, or add it. -/
def set : Entries → String → Given → Entries
  | [], key, value => [(key, value)]
  | (k, v) :: entries, key, value =>
    if k = key then (k, value) :: entries else (k, v) :: set entries key value

end Given.Entries

namespace Given

mutual

/-- Lay a value over entries at a key. -/
def layAt (key : String) : Given → Entries → Entries
  | .table _ incoming, entries =>
    entries.set (foldKey key)
      (layAll incoming ((entries.get? (foldKey key)).getD (merged [])))
  | value, entries => entries.set (foldKey key) value

/-- Lay entries over a value, one by one. -/
def layAll : List (String × Given) → Given → Given
  | [], target => target
  | (k, v) :: incoming, target =>
    layAll incoming (target.withEntries (layAt k v target.entries))

end

end Given

end Relayout
