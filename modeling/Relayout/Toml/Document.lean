/-
  Relayout/Toml/Document.lean
  ===========================
  **The tables that statements build.**

  A table comes to be in one of three ways: a header states it, a longer header implies it,
  or a dotted key opens it.  An implied table may still be stated once; a table opened by
  dotted keys takes more of them, but no header; and no key is given a value twice.
-/
import Relayout.Toml.Value
import Relayout.Toml.Fault

namespace Relayout.Toml

/-- How a table came to be. -/
inductive Standing where
  | stated
  | implied
  | dotted
deriving DecidableEq, Repr

/-- A part of a document. -/
inductive Node where
  | value (v : Value)
  | table (standing : Standing) (entries : List (String × Node))
  | elements (tables : List (List (String × Node)))
deriving Inhabited

/-- The entries of a table. -/
abbrev Entries := List (String × Node)

namespace Entries

/-- The part with a key. -/
def get? (entries : Entries) (key : String) : Option Node :=
  (entries.find? (fun e => e.1 == key)).map Prod.snd

/-- Give a key another part, or add it. -/
def set : Entries → String → Node → Entries
  | [], key, node => [(key, node)]
  | (k, n) :: entries, key, node =>
    if k = key then (k, node) :: entries else (k, n) :: set entries key node

/-- Change the last of several tables. -/
def inLast (act : Entries → Except Reason Entries) :
    List Entries → Except Reason (List Entries)
  | [] => .ok []
  | [t] => do return [← act t]
  | t :: ts => do return t :: (← inLast act ts)

/-- Change the table that a header path leads to. Tables on the way that are missing are
    implied, and an array of tables stands for its last element. The first argument is the
    way that has been gone. -/
def within (gone : List String) :
    List String → (Entries → Except Reason Entries) → Entries → Except Reason Entries
  | [], act, entries => act entries
  | key :: path, act, entries =>
    let act := within (gone ++ [key]) path act
    match entries.get? key with
    | none => do return entries.set key (.table .implied (← act []))
    | some (.table standing inner) => do return entries.set key (.table standing (← act inner))
    | some (.elements tables) => do return entries.set key (.elements (← inLast act tables))
    | some (.value v) => .error (.notTable (gone ++ [key]) v.typeName)

/-- Give a dotted key a value. The flag says whether the table takes keys itself; `gone` is
    the part of the key that has led to it. -/
def assign (table : Option (List String)) (isOpen : Bool) (gone : List String) :
    List String → Value → Entries → Except Reason Entries
  | [], _, entries => .ok entries
  | [key], v, entries =>
    if !isOpen then .error (.duplicate key none)
    else
      match entries.get? key with
      | none => .ok (entries.set key (.value v))
      | some _ => .error (.duplicate key table)
  | key :: path, v, entries =>
    let gone := gone ++ [key]
    match entries.get? key with
    | none => do return entries.set key (.table .dotted (← assign table true gone path v []))
    | some (.table .dotted inner) => do
      return entries.set key (.table .dotted (← assign table true gone path v inner))
    | some (.table .implied inner) => do
      return entries.set key (.table .implied (← assign table false gone path v inner))
    | some (.table .stated _) => .error (.duplicate key none)
    | some (.elements tables) => do
      return entries.set key (.elements (← inLast (assign table false gone path v) tables))
    | some (.value w) => .error (.notTable gone w.typeName)

/-- State a table, which may have been implied before. -/
def state (parent : List String) (key : String) (entries : Entries) : Except Reason Entries :=
  match entries.get? key with
  | none => .ok (entries.set key (.table .stated []))
  | some (.table .implied inner) => .ok (entries.set key (.table .stated inner))
  | some _ => .error (.duplicate key (some parent))

/-- Begin another element of an array of tables. -/
def begin (parent : List String) (key : String) (entries : Entries) : Except Reason Entries :=
  match entries.get? key with
  | none => .ok (entries.set key (.elements [[]]))
  | some (.elements tables) => .ok (entries.set key (.elements (tables ++ [[]])))
  | some _ => .error (.duplicate key (some parent))

end Entries

mutual

/-- The value of a part of a document. -/
def Node.toValue : Node → Value
  | .value v => v
  | .table _ entries => .table (Node.entryValues entries)
  | .elements tables => .array (Node.tableValues tables)

/-- The values of entries. -/
def Node.entryValues : List (String × Node) → List (String × Value)
  | [] => []
  | (k, n) :: entries => (k, n.toValue) :: Node.entryValues entries

/-- The values of tables. -/
def Node.tableValues : List (List (String × Node)) → List Value
  | [] => []
  | t :: ts => .table (Node.entryValues t) :: Node.tableValues ts

end

/-- A document under construction: what has been built, and the table in which assignments
    are made. -/
structure Document where
  root : Entries
  current : List String

namespace Document

def empty : Document := ⟨[], []⟩

/-- Carry out a statement. -/
def apply (d : Document) : Statement → Except Reason Document
  | .table path => do
    let parent := path.dropLast
    let root ← Entries.within [] parent (Entries.state parent (path.getLastD "")) d.root
    return ⟨root, path⟩
  | .element path => do
    let parent := path.dropLast
    let root ← Entries.within [] parent (Entries.begin parent (path.getLastD "")) d.root
    return ⟨root, path⟩
  | .assign path v => do
    let root ← Entries.within [] d.current (Entries.assign (some d.current) true [] path v) d.root
    return ⟨root, d.current⟩

/-- The values of a document. -/
def values (d : Document) : List (String × Value) := Node.entryValues d.root

end Document

/-- The inline table that assignments make. -/
def inlineTable (assignments : List (List String × Value)) : Except Reason Value := do
  let entries ← assignments.foldlM
    (fun entries (a : List String × Value) => Entries.assign none true [] a.1 a.2 entries) []
  return .table (Node.entryValues entries)

end Relayout.Toml
