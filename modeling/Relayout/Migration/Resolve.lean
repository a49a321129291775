/-
  Relayout/Migration/Resolve.lean
  ===============================
  **Following references.**

  The steps of a visit are taken one after the other.  At a reference into the definitions the
  steps of its target are taken before those that are left, so definitions are visited depth
  first, each reference text once: the texts not met yet are part of the state, and every
  target visited makes them fewer.  That is why following references ends on every document,
  however its references run in circles.

  `takeSteps` at a reference is the walker's `resolve_ref`: `internalFragment?` and `locate?`
  find the target, `Progress` is the state that the walker keeps.
-/
import Relayout.Migration.Survey
import Relayout.Text.Percent

namespace Relayout

mutual

/-- The texts that stand under the key `$ref` anywhere in a value. -/
def Json.refTexts : Json → List String
  | .arr xs => elementRefTexts xs
  | .obj ms => memberRefTexts ms
  | _ => []

/-- The reference texts in elements. -/
def Json.elementRefTexts : List Json → List String
  | [] => []
  | x :: xs => Json.refTexts x ++ elementRefTexts xs

/-- The reference texts in members. -/
def Json.memberRefTexts : Members → List String
  | [] => []
  | (k, v) :: ms =>
    (if k = "$ref" then v.asString?.toList else []) ++ Json.refTexts v ++ memberRefTexts ms

end

/-- The fragment of a reference into the same document: the text after a number sign. -/
def internalFragment? (ref : String) : Option String :=
  match ref.toList with
  | '#' :: fragment => some (String.ofList fragment)
  | _ => none

/-- The pointer that a fragment stands for once its percent escapes are decoded. -/
def fragmentPointer? (fragment : String) : Option Pointer :=
  Pointer.ofText? (Text.percentDecode fragment)

/-- Where in a document a fragment leads, and the value there. -/
def locate? (document : Json) (fragment : String) : Option (Pointer × Json) := do
  let p ← fragmentPointer? fragment
  let target ← document.find? p
  return (p, target)

/-- How far the references of a document have been followed. -/
structure Progress where
  /-- The reference texts that have not been met. -/
  unseen : List String
  /-- The references whose targets are migrated, in the order in which they were met. -/
  reached : List String := []
  /-- What those targets are migrated to, in the order in which their visits ended. -/
  arena : List (Pointer × Json) := []
deriving DecidableEq, Repr

namespace Progress

/-- A reference text has been met. -/
def meet (progress : Progress) (ref : String) : Progress :=
  { progress with unseen := progress.unseen.filter (· ≠ ref) }

/-- The target of a reference is going to be migrated. -/
def reach (progress : Progress) (ref : String) : Progress :=
  { progress with reached := progress.reached ++ [ref] }

/-- What a target is migrated to is kept. -/
def store (progress : Progress) (p : Pointer) (schema : Json) : Progress :=
  { progress with arena := progress.arena ++ [(p, schema)] }

/-- A text that was not met yet makes those not met fewer. -/
theorem length_unseen_meet_lt {progress : Progress} {ref : String} (h : ref ∈ progress.unseen) :
    (progress.meet ref).unseen.length < progress.unseen.length :=
  List.length_filter_lt_length_iff_exists.2 ⟨ref, h, by simp⟩

end Progress

/-- Take steps until none is left or one fails. What is done about the target of a reference
    into the definitions, when its text is met for the first time, is the first argument. -/
def takeSteps (visit : Pointer → Json → Progress → Trace Progress) (document : Json) :
    List Step → Progress → Trace Progress
  | [], progress => .pure progress
  | .note event :: todo, progress => (takeSteps visit document todo progress).after [event]
  | .fail error :: _, _ => .fail error
  | .follow ref source :: todo, progress =>
    match internalFragment? ref with
    | none => (takeSteps visit document todo progress).after [.externalRef ref source.fragment]
    | some fragment =>
      if ref ∈ progress.unseen then
        match locate? document fragment with
        | none => .fail (.unresolvedRef ref source.fragment)
        | some (p, target) =>
          if p.isLazy then
            Trace.after [.migratingDefinition ref] <|
              (visit p target ((progress.meet ref).reach ref)).bind fun progress =>
                takeSteps visit document todo progress
          else takeSteps visit document todo (progress.meet ref)
      else takeSteps visit document todo progress

namespace Dialect

/-- Visit a definition by resolving the steps of its own visit, and keep what it is migrated
    to. -/
def visitWith (d : Dialect) (resolve : List Step → Progress → Trace Progress) (p : Pointer)
    (target : Json) (progress : Progress) : Trace Progress :=
  (resolve (d.survey .schema p target) progress).bind fun progress =>
    .pure (progress.store p (d.migrate .schema target))

/-- Take steps, visiting definitions inside each other to a depth. Every visit begins with a
    text that was not met yet, so a depth of as many visits as there are such texts is never
    used up. -/
def resolve (d : Dialect) (document : Json) : Nat → List Step → Progress → Trace Progress
  | 0 => takeSteps (fun _ _ progress => .pure progress) document
  | depth + 1 => takeSteps (d.visitWith (d.resolve document depth)) document

end Dialect

end Relayout
