/-
  Relayout/Pattern/Basic.lean
  ===========================
  **Regular expressions, as far as their validity is concerned.**

  Which character an item matches plays no part in whether a pattern is valid; what counts is
  how items are put together, what may be repeated, and whether what is looked back over has
  a fixed size.
-/

namespace Relayout

/-- The shape of a regular expression. -/
inductive Pattern where
  /-- Nothing at all. -/
  | empty
  /-- One character. -/
  | single
  /-- A condition on a position. -/
  | assertion
  /-- What a group matched before. -/
  | backref (group : Nat)
  /-- One after the other. -/
  | concat (items : List Pattern)
  /-- One of several. -/
  | alternation (branches : List Pattern)
  /-- A group in parentheses. -/
  | group (inner : Pattern)
  /-- A look ahead or behind. -/
  | look (behind : Bool) (inner : Pattern)
  /-- A repetition, unbounded if it has no upper limit. -/
  | repetition (inner : Pattern) (least : Nat) (greatest : Option Nat)
deriving Inhabited, Repr

namespace Pattern

/-- Whether a pattern can be followed by a repetition sign. -/
def isRepeatable : Pattern → Bool
  | .empty => false
  | .look _ _ => false
  | _ => true

mutual

/-- The number of characters that a pattern matches, if it is always the same. -/
def size? : Pattern → Option Nat
  | .empty => some 0
  | .single => some 1
  | .assertion => some 0
  | .backref _ => none
  | .look _ _ => some 0
  | .group inner => size? inner
  | .repetition inner least greatest =>
    if greatest = some least then (size? inner).map (least * ·) else none
  | .concat items => sumOfSizes items
  | .alternation branches => commonSize branches

/-- The sum of fixed sizes. -/
def sumOfSizes : List Pattern → Option Nat
  | [] => some 0
  | p :: ps => do return (← size? p) + (← sumOfSizes ps)

/-- The size that all branches share. -/
def commonSize : List Pattern → Option Nat
  | [] => none
  | [p] => size? p
  | p :: ps => do
    let n ← size? p
    let m ← commonSize ps
    if n = m then some n else none

end

/-- Whether what is looked back over has a fixed size; each branch may have its own. -/
def canLookBack : Pattern → Bool
  | .alternation branches => (branches.map size?).all Option.isSome
  | p => (size? p).isSome

/-- The largest number of repetitions that can be asked for. -/
def repetitionLimit : Nat := Nat.pow 2 32 - 1

mutual

/-- Whether a pattern that can be read is also sound: limits of repetitions are in order, and
    what is looked back over has a fixed size. -/
def isSound : Pattern → Bool
  | .empty | .single | .assertion | .backref _ => true
  | .group inner => isSound inner
  | .look behind inner => isSound inner && (!behind || canLookBack inner)
  | .repetition inner least greatest =>
    isSound inner && least ≤ repetitionLimit &&
      greatest.all (fun n => least ≤ n && n ≤ repetitionLimit)
  | .concat items => allSound items
  | .alternation branches => allSound branches

/-- Whether every one of these is sound. -/
def allSound : List Pattern → Bool
  | [] => true
  | p :: ps => isSound p && allSound ps

end

end Pattern

end Relayout
