/-
  Relayout/Migration/Event.lean
  =============================
  **What a run logs.**

  A trace is what a computation gives together with the events that it logged on the way;
  a computation that fails keeps the events logged before the failure.

  The events are those that `run`, `walk`, `resolve_ref`, `map_node` and `attach_one_of_label` log,
  each with its level, its message and its fields.
-/
import Relayout.Extension.Rule
import Relayout.Json.Pointer

namespace Relayout

/-- An event of a run. -/
inductive Event where
  /-- A run begins that stamps this identity. -/
  | started (rootId : String)
  /-- A rule is about to be applied to the node at this path. -/
  | applyingRule (path : String) (rule : Rule)
  /-- The definition behind a reference is about to be migrated. -/
  | migratingDefinition (pointer : String)
  /-- An element is given a label. -/
  | attachingLabel (path label : String)
  /-- Several discriminants could name an element. -/
  | ambiguousLabel (path : String)
  /-- A reference leaves the document. -/
  | externalRef (pointer place : String)
  /-- There is no place left in the output for a migrated definition. -/
  | definitionWithoutSlot (pointer : String)
  /-- The run has succeeded and migrated this many definitions. -/
  | migrated (resolved : Nat)
deriving DecidableEq, Repr

/-- How much an event matters. -/
inductive Event.Level where
  | trace
  | debug
  | warn
deriving DecidableEq, Repr

namespace Event

/-- The name of a level. -/
def Level.name : Level → String
  | .trace => "trace"
  | .debug => "debug"
  | .warn => "warn"

/-- The level of an event; the beginning of a run spans all that follows and has none. -/
def level? : Event → Option Level
  | .started _ => none
  | .applyingRule _ _ => some .trace
  | .migratingDefinition _ => some .debug
  | .attachingLabel _ _ => some .debug
  | .ambiguousLabel _ => some .warn
  | .externalRef _ _ => some .warn
  | .definitionWithoutSlot _ => some .warn
  | .migrated _ => some .debug

/-- The wording of an event. -/
def message : Event → String
  | .started _ => "transform"
  | .applyingRule _ _ => "applying extension rule"
  | .migratingDefinition _ => "migrating referenced definition"
  | .attachingLabel _ _ => "attaching oneOf discriminant label"
  | .ambiguousLabel _ =>
    "several const+title properties in first oneOf branch, no label attached"
  | .externalRef _ _ => "leaving external $ref untouched"
  | .definitionWithoutSlot _ => "migrated definition has no slot in output"
  | .migrated _ => "schema migrated"

/-- The fields of an event. -/
def fields : Event → Members
  | .started rootId => [("root_id", .str rootId)]
  | .applyingRule path rule => [("path", .str path), ("handler", .str rule.name)]
  | .migratingDefinition pointer => [("pointer", .str pointer)]
  | .attachingLabel path label => [("path", .str path), ("label", .str label)]
  | .ambiguousLabel path => [("path", .str path)]
  | .externalRef pointer place => [("pointer", .str pointer), ("path", .str place)]
  | .definitionWithoutSlot pointer => [("pointer", .str pointer)]
  | .migrated resolved => [("resolved", .num (.int resolved))]

end Event

/-- The events of a computation and what it gives. -/
structure Trace (α : Type) where
  events : List Event
  result : Except MigrationError α

namespace Trace

/-- A result without events. -/
def pure {α : Type} (a : α) : Trace α := ⟨[], .ok a⟩

/-- A failure without events. -/
def fail {α : Type} (e : MigrationError) : Trace α := ⟨[], .error e⟩

/-- Events that come before those of a computation. -/
def after {α : Type} (events : List Event) (t : Trace α) : Trace α :=
  ⟨events ++ t.events, t.result⟩

/-- Go on with the result of a computation, if it has one. -/
def bind {α β : Type} (t : Trace α) (f : α → Trace β) : Trace β :=
  match t.result with
  | .ok a => (f a).after t.events
  | .error e => ⟨t.events, .error e⟩

end Trace

end Relayout
