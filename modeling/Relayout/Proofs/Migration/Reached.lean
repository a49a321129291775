/-
  Relayout/Proofs/Migration/Reached.lean
  ======================================
  **What a walk shows at each place.**

  A walk that succeeds keeps one migrated definition for each reference that it reached,
  and nothing else (`exists_arena_of_walk`).  The root and the reached definitions are the
  starts.  After the definitions are put back, every place shows what the deepest start at
  or above it is migrated to (`shapeAt_walk`), and every place has such a start
  (`exists_deepest`).
-/
import Relayout.Proofs.Migration.Following
import Relayout.Proofs.Migration.Splice

namespace Relayout

/-- The pointer that a reference into the same document stands for. -/
def Pointer.ofRef? (ref : String) : Option Pointer :=
  (internalFragment? ref).bind fragmentPointer?

/-- The places that references lead to. -/
def placesOf (refs : List String) : List Place :=
  refs.filterMap (fun ref => (Pointer.ofRef? ref).map Pointer.place)

theorem mem_placesOf {refs : List String} {place : Place} :
    place ∈ placesOf refs ↔ ∃ ref ∈ refs, ∃ p, Pointer.ofRef? ref = some p ∧ p.place = place := by
  simp [placesOf, List.mem_filterMap, Option.map_eq_some_iff]

/-- A target that was located is where the reference says. -/
theorem locate?_eq_some {document target : Json} {ref fragment : String} {p : Pointer}
    (hfragment : internalFragment? ref = some fragment)
    (h : locate? document fragment = some (p, target)) :
    Pointer.ofRef? ref = some p ∧ document.at? p.place = some target := by
  simp only [locate?, Option.bind_eq_bind, Option.bind_eq_some_iff, Option.pure_def,
    Option.some.injEq, Prod.mk.injEq] at h
  obtain ⟨q, hq, found, hfound, rfl, rfl⟩ := h
  exact ⟨by simp [Pointer.ofRef?, hfragment, hq], by rw [← Json.find?_eq_at?, hfound]⟩

namespace Migration

/-- The places where a walk started: the root, and the reached definitions. -/
def starts (m : Migration) : List Place := [] :: placesOf m.resolved

/-- No start lies strictly between one of them and a place below it, nor at that place. -/
def Deepest (m : Migration) (start below : Place) : Prop :=
  start ∈ m.starts ∧
    ∀ other ∈ m.starts, start <+: other → other <+: start ++ below → other = start

theorem deepest_nil {m : Migration} {start : Place} (hstart : start ∈ m.starts) :
    m.Deepest start [] := by
  refine ⟨hstart, fun other _ hbelow hupto => ?_⟩
  rw [List.append_nil] at hupto
  exact hupto.eq_of_length_le hbelow.length_le

/-- A start stays the deepest one further down as long as no other is met on the way. -/
theorem Deepest.append {m : Migration} {start below : Place} (h : m.Deepest start below)
    {deeper : Place} (hnone : ∀ above, above <+: deeper → above ≠ [] →
      start ++ below ++ above ∉ placesOf m.resolved) : m.Deepest start (below ++ deeper) := by
  obtain ⟨hstart, hdeepest⟩ := h
  refine ⟨hstart, fun other hother hbelow hupto => ?_⟩
  rw [← List.append_assoc] at hupto
  rcases List.prefix_or_prefix_of_prefix hupto (List.prefix_append (start ++ below) deeper) with
    hshort | ⟨above, rfl⟩
  · exact hdeepest other hother hbelow hshort
  · rw [List.prefix_append_right_inj] at hupto
    by_cases hnil : above = []
    · exact hdeepest _ hother hbelow (by simp [hnil])
    · rcases List.mem_cons.1 hother with hroot | hreached
      · simp [hnil] at hroot
      · exact absurd hreached (hnone above hupto hnil)

/-- Every place has a deepest start at or above it. -/
theorem exists_deepest (m : Migration) (place : Place) :
    ∃ start below, place = start ++ below ∧ m.Deepest start below := by
  induction place using List.reverseRecOn with
  | nil => exact ⟨[], [], rfl, deepest_nil List.mem_cons_self⟩
  | append_singleton above name ih =>
    obtain ⟨start, below, rfl, hdeepest⟩ := ih
    by_cases hplace : start ++ below ++ [name] ∈ placesOf m.resolved
    · exact ⟨start ++ below ++ [name], [], by simp, deepest_nil (List.mem_cons_of_mem _ hplace)⟩
    · refine ⟨start, below ++ [name], by simp, hdeepest.append ?_⟩
      intro above habove hne
      rcases List.prefix_cons_iff.1 habove with rfl | ⟨rest, rfl, hrest⟩
      · exact absurd rfl hne
      · obtain rfl := List.prefix_nil.1 hrest
        exact hplace

/-- Below a start, the deepest start is that one or lies below it. -/
theorem exists_deepest_below {m : Migration} {place : Place} (hplace : place ∈ m.starts)
    (below : Place) :
    ∃ down rest, below = down ++ rest ∧ m.Deepest (place ++ down) rest := by
  obtain ⟨start, rest, heq, hdeepest⟩ := m.exists_deepest (place ++ below)
  have hstart : place <+: start := by
    rcases List.prefix_or_prefix_of_prefix (List.prefix_append place below)
        (heq ▸ List.prefix_append start rest) with hbelow | habove
    · exact hbelow
    · obtain rfl := hdeepest.2 place hplace habove (heq ▸ List.prefix_append place below)
      exact List.prefix_rfl
  obtain ⟨down, rfl⟩ := hstart
  rw [List.append_assoc, List.append_cancel_left_eq] at heq
  exact ⟨down, rest, heq, hdeepest⟩

end Migration

namespace Dialect

variable {d : Dialect} {document : Json}

/-- What is kept for a reference: its target in definitions, migrated. -/
def KeptFor (d : Dialect) (document : Json) (ref : String) (entry : Pointer × Json) : Prop :=
  Pointer.ofRef? ref = some entry.1 ∧ entry.1.isLazy = true ∧
    ∃ target, document.at? entry.1.place = some target ∧ entry.2 = d.migrate .schema target

/-- What is kept for a place does not depend on the reference. -/
theorem KeptFor.value_eq {ref ref' : String} {a b : Pointer × Json}
    (ha : KeptFor d document ref a) (hb : KeptFor d document ref' b)
    (hplace : a.1.place = b.1.place) : a.2 = b.2 := by
  obtain ⟨-, -, target, hat, hvalue⟩ := ha
  obtain ⟨-, -, target', hat', hvalue'⟩ := hb
  rw [hplace, hat'] at hat
  cases hat
  rw [hvalue, hvalue']

/-- Some references and what is kept for them. -/
def KeptForAll (d : Dialect) (document : Json) (refs : List String)
    (entries : List (Pointer × Json)) : Prop :=
  (∀ ref ∈ refs, ∃ entry ∈ entries, KeptFor d document ref entry) ∧
    ∀ entry ∈ entries, ∃ ref ∈ refs, KeptFor d document ref entry

theorem KeptForAll.nil : KeptForAll d document [] [] := by
  constructor <;> simp

theorem KeptForAll.append {refs refs' : List String} {entries entries' : List (Pointer × Json)}
    (h : KeptForAll d document refs entries) (h' : KeptForAll d document refs' entries') :
    KeptForAll d document (refs ++ refs') (entries ++ entries') := by
  constructor
  · intro ref href
    rcases List.mem_append.1 href with href | href
    · obtain ⟨entry, hentry, hkept⟩ := h.1 ref href
      exact ⟨entry, List.mem_append_left _ hentry, hkept⟩
    · obtain ⟨entry, hentry, hkept⟩ := h'.1 ref href
      exact ⟨entry, List.mem_append_right _ hentry, hkept⟩
  · intro entry hentry
    rcases List.mem_append.1 hentry with hentry | hentry
    · obtain ⟨ref, href, hkept⟩ := h.2 entry hentry
      exact ⟨ref, List.mem_append_left _ href, hkept⟩
    · obtain ⟨ref, href, hkept⟩ := h'.2 entry hentry
      exact ⟨ref, List.mem_append_right _ href, hkept⟩

/-- A reference is put first when it is reached, and what is kept for it last. -/
theorem KeptForAll.enclose {refs : List String} {entries : List (Pointer × Json)} {ref : String}
    {entry : Pointer × Json} (h : KeptForAll d document refs entries)
    (hentry : KeptFor d document ref entry) :
    KeptForAll d document (ref :: refs) (entries ++ [entry]) := by
  constructor
  · intro r hr
    rcases List.mem_cons.1 hr with rfl | hr
    · exact ⟨entry, by simp, hentry⟩
    · obtain ⟨e, he, hkept⟩ := h.1 r hr
      exact ⟨e, by simp [he], hkept⟩
  · intro e he
    rcases List.mem_append.1 he with he | he
    · obtain ⟨r, hr, hkept⟩ := h.2 e he
      exact ⟨r, List.mem_cons_of_mem ref hr, hkept⟩
    · obtain rfl := List.mem_singleton.1 he
      exact ⟨ref, List.mem_cons_self, hentry⟩

/-- Steps reach further references and keep what their targets are migrated to. -/
theorem Followed.exists_kept {steps : List Step} {s t : Progress}
    (h : Followed d document steps s t) :
    ∃ refs entries, t.reached = s.reached ++ refs ∧ t.arena = s.arena ++ entries ∧
      KeptForAll d document refs entries := by
  induction h with
  | done s => exact ⟨[], [], by simp, by simp, .nil⟩
  | note _ ih => exact ih
  | external _ _ ih => exact ih
  | again _ _ _ ih => exact ih
  | inPlace _ _ _ _ _ ih => exact ih
  | @visit ref _ _ p target _ _ _ _ hfragment _ hlocate hlazy _ _ ihTarget ihTodo =>
    obtain ⟨inner, innerEntries, hreached, harena, hinner⟩ := ihTarget
    obtain ⟨later, laterEntries, hreached', harena', hlater⟩ := ihTodo
    obtain ⟨hpointer, hat⟩ := locate?_eq_some hfragment hlocate
    have hentry : KeptFor d document ref (p, d.migrate .schema target) :=
      ⟨hpointer, hlazy, target, hat, rfl⟩
    refine ⟨ref :: inner ++ later, innerEntries ++ [(p, d.migrate .schema target)] ++ laterEntries,
      ?_, ?_, (hinner.enclose hentry).append hlater⟩
    · rw [hreached', Progress.store, hreached]
      simp [Progress.reach, Progress.meet]
    · rw [harena', Progress.store, harena]
      simp [Progress.reach, Progress.meet]

/-- What a walk puts back in place: one migrated definition for each reached reference. -/
theorem exists_arena_of_walk {m : Migration} (h : (d.walk document).result = .ok m) :
    ∃ arena, m.schema = (splice (byDepth arena) (d.migrate .schema document)).2 ∧
      KeptForAll d document m.resolved arena := by
  obtain ⟨t, hfollowed, hresolved, hschema⟩ := exists_followed_of_walk h
  obtain ⟨refs, entries, hreached, harena, hkept⟩ := hfollowed.exists_kept
  have hrefs : m.resolved = refs := by rw [hresolved, hreached]; rfl
  have hentries : t.arena = entries := by rw [harena]; rfl
  exact ⟨t.arena, hschema, hrefs ▸ hentries ▸ hkept⟩

/-! ### Reached places -/

section Walk

variable {m : Migration}

/-- A reached place lies in definitions, and the document has a value there. -/
theorem reached_place (h : (d.walk document).result = .ok m) {place : Place}
    (hplace : place ∈ placesOf m.resolved) :
    throughDefinitions place = true ∧ ∃ target, document.at? place = some target := by
  obtain ⟨arena, -, hkept, -⟩ := exists_arena_of_walk h
  obtain ⟨ref, href, p, hp, rfl⟩ := mem_placesOf.1 hplace
  obtain ⟨⟨q, w⟩, -, hq, hlazy, target, hat, -⟩ := hkept ref href
  obtain rfl : p = q := by simpa [hp] using hq
  exact ⟨by rw [← Pointer.isLazy_eq_throughDefinitions, hlazy], target, hat⟩

/-- Where no reached definition is at or above, the migrated root is seen. -/
theorem shapeAt_walk_of_not_reached (h : (d.walk document).result = .ok m) {place : Place}
    (hplace : ∀ above ∈ placesOf m.resolved, ¬ above <+: place) :
    m.schema.shapeAt place = (d.migrate .schema document).shapeAt place := by
  obtain ⟨arena, hschema, -, hentries⟩ := exists_arena_of_walk h
  rw [hschema]
  refine shapeAt_splice_of_untouched _ _ ?_
  intro entry hentry
  obtain ⟨ref, href, hpointer, -⟩ := hentries entry (mem_byDepth.1 hentry)
  exact hplace _ (mem_placesOf.2 ⟨ref, href, entry.1, hpointer, rfl⟩)

/-- At and below a reached definition that still has its place, it is seen migrated, down to
    the next reached one. -/
theorem shapeAt_walk_of_reached (h : (d.walk document).result = .ok m) {place : Place}
    (hplace : place ∈ placesOf m.resolved) {target : Json}
    (htarget : document.at? place = some target) (hslot : m.schema.at? place ≠ none)
    {below : Place}
    (hdeepest : ∀ other ∈ placesOf m.resolved, place <+: other → other <+: place ++ below →
      other = place) :
    m.schema.shapeAt (place ++ below) = (d.migrate .schema target).shapeAt below := by
  obtain ⟨arena, hschema, hrefs, hentries⟩ := exists_arena_of_walk h
  obtain ⟨ref, href, p, hp, rfl⟩ := mem_placesOf.1 hplace
  obtain ⟨⟨q, w⟩, hmem, hq, -, target', htarget', hw⟩ := hrefs ref href
  obtain rfl : p = q := by simpa [hp] using hq
  obtain rfl : target = target' := by simpa [htarget] using htarget'
  obtain rfl : w = d.migrate .schema target := hw
  have hsame : ∀ a ∈ byDepth arena, ∀ b ∈ byDepth arena,
      a.1.place = b.1.place → a.2 = b.2 := by
    intro a ha b hb heq
    obtain ⟨ref, -, hfor⟩ := hentries a (mem_byDepth.1 ha)
    obtain ⟨ref', -, hfor'⟩ := hentries b (mem_byDepth.1 hb)
    exact hfor.value_eq hfor' heq
  rw [hschema] at hslot ⊢
  refine shapeAt_splice_of_mem _ (pairwise_byDepth arena) hsame (mem_byDepth.2 hmem) hslot ?_
  intro entry hentry hbelow hupto
  obtain ⟨ref', href', hpointer, -⟩ := hentries entry (mem_byDepth.1 hentry)
  exact hdeepest _ (mem_placesOf.2 ⟨ref', href', entry.1, hpointer, rfl⟩) hbelow hupto

theorem exists_target_of_mem_starts (h : (d.walk document).result = .ok m) {start : Place}
    (hstart : start ∈ m.starts) : ∃ target, document.at? start = some target := by
  rcases List.mem_cons.1 hstart with rfl | hreached
  · exact ⟨document, rfl⟩
  · exact (reached_place h hreached).2

/-- A place shows what the deepest start at or above it is migrated to, if that start still
    has its place. -/
theorem shapeAt_walk (h : (d.walk document).result = .ok m) {start below : Place}
    (hdeepest : m.Deepest start below) {target : Json}
    (htarget : document.at? start = some target) (hslot : m.schema.at? start ≠ none) :
    m.schema.shapeAt (start ++ below) = (d.migrate .schema target).shapeAt below := by
  obtain ⟨hstart, hdeepest⟩ := hdeepest
  rcases List.mem_cons.1 hstart with rfl | hreached
  · cases htarget
    refine shapeAt_walk_of_not_reached h (fun above habove hupto => ?_)
    have hroot := hdeepest above (List.mem_cons_of_mem _ habove) List.nil_prefix hupto
    subst hroot
    cases (reached_place h habove).1
  · exact shapeAt_walk_of_reached h hreached htarget hslot
      (fun other hother => hdeepest other (List.mem_cons_of_mem _ hother))

end Walk

end Dialect

end Relayout
