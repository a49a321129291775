/-
  Relayout/Proofs/Migration/Walk.lean
  ===================================
  **What a walk does to the places of a document.**

  What a walk shows at a place of the document is what the visit of the deepest start at or
  above it makes of the value there (`Dialect.shape_eq_of_deepest`).  The place is missing from
  the result exactly if a key that the table claims was on the way there, in an object that
  this visit treats as a schema (`Dialect.lost_iff_consumed`).
-/
import Relayout.Proofs.Migration.Reached

namespace Relayout

namespace Migration

/-- The object at a place of the document was visited as a schema, in the visit of a start. -/
def Visited (m : Migration) (document : Json) (place : Place) (node : Members) : Prop :=
  document.at? place = some (.obj node) ∧
    ∃ start ∈ m.starts, ∃ target, document.at? start = some target ∧
      ⟨place, node⟩ ∈ target.visits .schema start

/-- The place is, or lies below, a claimed member of an object that is a schema to the visit of the
    deepest start at or above it. -/
inductive Consumed (m : Migration) (table : Table) (document : Json) : Place → Prop where
  | member {start below rest : Place} {name : String} {target : Json} {node : Members} :
    m.Deepest start below → document.at? start = some target →
    target.at? below = some (.obj node) →
    ((Treatment.inRole .schema).below target below).visits = true →
    table.recognizes name = true → Consumed m table document (start ++ below ++ name :: rest)

end Migration

namespace Dialect

variable {d : Dialect} {document : Json} {m : Migration}

/-- What the visit of a start treats as a schema was visited. -/
theorem visited_of_below {start : Place} (hstart : start ∈ m.starts) {target : Json}
    (htarget : document.at? start = some target) {place : Place} {node : Members}
    (hnode : target.at? place = some (.obj node))
    (hvisits : ((Treatment.inRole .schema).below target place).visits = true) :
    m.Visited document (start ++ place) node :=
  ⟨(Json.at?_append_of_eq_some htarget place).trans hnode, start, hstart, target, htarget,
    Json.mem_visits_of_below start hnode hvisits⟩

/-- What the result shows at a place of the document is what the visit of the deepest start makes
    of the value there. -/
theorem shape_eq_of_deepest (h : (d.walk document).result = .ok m) {start below : Place}
    (hdeepest : m.Deepest start below) {target v w : Json}
    (htarget : document.at? start = some target) (hv : target.at? below = some v)
    (hw : m.schema.at? (start ++ below) = some w) :
    w.shape = (d.treat ((Treatment.inRole .schema).below target below) v).shape := by
  have hplace : m.schema.at? (start ++ below) ≠ none := by simp [hw]
  have hshape := shapeAt_walk h hdeepest htarget (Json.at?_ne_none_of_append hplace)
  rcases d.at?_treat (t := .inRole .schema) hv with hkept | ⟨hlost, -⟩
  · rw [treat] at hkept
    simpa [Json.shapeAt, hw, hkept] using hshape
  · rw [treat] at hlost
    simp [Json.shapeAt, hw, hlost] at hshape

theorem exists_treated_of_walk (h : (d.walk document).result = .ok m) {place : Place}
    {v w : Json} (hv : document.at? place = some v) (hw : m.schema.at? place = some w) :
    ∃ start ∈ m.starts, ∃ target below, place = start ++ below ∧
      document.at? start = some target ∧ target.at? below = some v ∧
      w.shape = (d.treat ((Treatment.inRole .schema).below target below) v).shape := by
  obtain ⟨start, below, rfl, hdeepest⟩ := m.exists_deepest place
  obtain ⟨target, htarget⟩ := exists_target_of_mem_starts h hdeepest.1
  rw [Json.at?_append_of_eq_some htarget] at hv
  exact ⟨start, hdeepest.1, target, below, rfl, htarget, hv,
    shape_eq_of_deepest h hdeepest htarget hv hw⟩

/-! ### Places that are lost -/

/-- What is missing from the result was consumed: it was, or was below, a claimed member. -/
theorem consumed_of_lost (h : (d.walk document).result = .ok m) {place : Place} {v : Json}
    (hv : document.at? place = some v) (hlost : m.schema.at? place = none) :
    m.Consumed d.table document place := by
  induction place using List.reverseRecOn generalizing v with
  | nil => cases hlost
  | append_singleton parent name ih =>
    rw [Json.at?_append, Option.bind_eq_some_iff] at hv
    obtain ⟨w, hw, hchild⟩ := hv
    rw [Json.at?_singleton] at hchild
    cases hout : m.schema.at? parent with
    | none =>
      -- the place was lost further up already
      cases ih hw hout with
      | @member start below rest key _ _ hdeepest htarget hnode hvisits hclaimed =>
        rw [List.append_assoc, List.cons_append]
        exact .member hdeepest htarget hnode hvisits hclaimed
    | some out =>
      obtain ⟨start, below, rfl, hdeepest⟩ := m.exists_deepest parent
      obtain ⟨target, htarget⟩ := exists_target_of_mem_starts h hdeepest.1
      rw [Json.at?_append_of_eq_some htarget] at hw
      rw [Json.at?_append_of_eq_some hout, Json.at?_singleton] at hlost
      -- the parent has the children that the visit of the start leaves it
      have hshape := shape_eq_of_deepest h hdeepest htarget hw hout
      have hgone := Json.child?_eq_none_of_shape_eq hshape hlost
      rcases d.child?_treat _ hchild with hkept | ⟨-, hvisits, ⟨node, rfl⟩, hclaimed⟩
      · rw [hgone] at hkept
        cases hkept
      · exact .member hdeepest htarget hw hvisits hclaimed

/-- A place is lost exactly if it was consumed. -/
theorem lost_iff_consumed (h : (d.walk document).result = .ok m) {place : Place}
    (hplace : document.at? place ≠ none) :
    m.schema.at? place = none ↔ m.Consumed d.table document place := by
  constructor
  · intro hlost
    obtain ⟨v, hv⟩ := Option.ne_none_iff_exists'.1 hplace
    exact consumed_of_lost h hv hlost
  · rintro @⟨start, below, rest, name, target, node, hdeepest, htarget, hnode, hvisits, hclaimed⟩
    cases hout : m.schema.at? (start ++ below) with
    | none => rw [Json.at?_append, hout, Option.bind_none]
    | some out =>
      have hshape := shape_eq_of_deepest h hdeepest htarget hnode hout
      have hat : document.at? (start ++ below) = some (.obj node) :=
        (Json.at?_append_of_eq_some htarget below).trans hnode
      rw [Json.at?_append_of_eq_some hat, Json.at?_cons] at hplace
      rw [Json.at?_append_of_eq_some hout, Json.at?_cons]
      cases hchild : (Json.obj node).child? name with
      | none =>
        rw [hchild] at hplace
        exact absurd rfl hplace
      | some v =>
        have hgone := d.child?_treat_of_visits hvisits hchild
        rw [if_pos hclaimed] at hgone
        rw [Json.child?_eq_none_of_shape_eq hshape.symm hgone, Option.bind_none]

/-- What is missing from the result was, or was below, a claimed member of a visited object. -/
theorem exists_claimed_of_lost (h : (d.walk document).result = .ok m) {place : Place}
    {v : Json} (hv : document.at? place = some v) (hlost : m.schema.at? place = none) :
    ∃ above name node, above ++ [name] <+: place ∧ m.Visited document above node ∧
      d.table.recognizes name = true := by
  obtain ⟨hdeepest, htarget, hnode, hvisits, hclaimed⟩ := consumed_of_lost h hv hlost
  exact ⟨_, _, _, by simp, visited_of_below hdeepest.1 htarget hnode hvisits, hclaimed⟩

end Dialect

end Relayout
