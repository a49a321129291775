/-
  Relayout/Proofs/Migration/DepthFirst.lean
  =========================================
  **Following references depth first.**

  `Tour` is a walk along references that remembers nothing but those whose targets it is in
  the middle of: it enters a target each time that it meets a reference to it.  `Search`
  remembers all that it has met and enters no target twice.  They are related by an
  invariant of the search (`Closed`): what it has met and is no longer in the middle of has
  only references that it has met as well.  So entering such a target again would bring
  nothing new, and a search lists what a tour meets, in the order in which the tour meets it
  first (`Search.eq_meetAll`).  As a set, that is what can be reached (`Search.mem_iff_reachable`).
-/
namespace Relayout.DepthFirst

variable (next : String → List String)

/-- What can be reached from some references along the references of targets. -/
inductive Reachable (roots : List String) : String → Prop where
  | root {ref : String} : ref ∈ roots → Reachable roots ref
  | step {ref found : String} : Reachable roots ref → found ∈ next ref → Reachable roots found

/-- A walk along references in order that enters each target before it goes on. What it has met
    before does not matter, but it does not enter a target that it is in the middle of. -/
inductive Tour : (following todo met : List String) → Prop where
  | done (following : List String) : Tour following [] []
  | again {following todo met : List String} {ref : String} : ref ∈ following →
    Tour following todo met → Tour following (ref :: todo) (ref :: met)
  | enter {following todo inner met : List String} {ref : String} : ref ∉ following →
    Tour (ref :: following) (next ref) inner → Tour following todo met →
    Tour following (ref :: todo) (ref :: inner ++ met)

/-- A walk along references in order that enters each target once. What it has met before comes
    second, and what it has met in the end third. -/
inductive Search : (todo seen seen' : List String) → Prop where
  | done (seen : List String) : Search [] seen seen
  | again {todo seen seen' : List String} {ref : String} : ref ∈ seen →
    Search todo seen seen' → Search (ref :: todo) seen seen'
  | enter {todo seen mid seen' : List String} {ref : String} : ref ∉ seen →
    Search (next ref) (seen ++ [ref]) mid → Search todo mid seen' →
    Search (ref :: todo) seen seen'

/-- Whatever was met and is not being followed has only references that were met. -/
def Closed (following seen : List String) : Prop :=
  ∀ ref ∈ seen, ref ∉ following → next ref ⊆ seen

/-- Put what is met for the first time last. -/
def meetAll (seen met : List String) : List String :=
  met.foldl (fun seen ref => if ref ∈ seen then seen else seen ++ [ref]) seen

variable {next}

/-! ### What a search meets -/

theorem Closed.mono {following following' seen : List String} (h : Closed next following seen)
    (hfollowing : following ⊆ following') : Closed next following' seen :=
  fun ref href hnot => h ref href (fun hmem => hnot (hfollowing hmem))

theorem Closed.enter {following seen : List String} (h : Closed next following seen)
    {ref : String} : Closed next (ref :: following) (seen ++ [ref]) := by
  intro r hr hfollowing found hfound
  rw [List.mem_cons, not_or] at hfollowing
  have hmem : r ∈ seen := by simpa [hfollowing.1] using hr
  exact List.mem_append_left _ (h r hmem hfollowing.2 hfound)

namespace Search

variable {todo seen seen' : List String}

theorem seen_subset (h : Search next todo seen seen') : seen ⊆ seen' := by
  induction h with
  | done seen => exact List.Subset.refl seen
  | again _ _ ih => exact ih
  | enter _ _ _ ihTarget ihTodo =>
    exact fun r hr => ihTodo (ihTarget (List.mem_append_left _ hr))

theorem todo_subset (h : Search next todo seen seen') : todo ⊆ seen' := by
  induction h with
  | done seen => exact List.nil_subset seen
  | again hmem hrest ih => exact List.cons_subset.2 ⟨hrest.seen_subset hmem, ih⟩
  | enter _ htarget hrest _ ihTodo =>
    refine List.cons_subset.2 ⟨hrest.seen_subset (htarget.seen_subset ?_), ihTodo⟩
    exact List.mem_append_right _ List.mem_cons_self

theorem nodup (h : Search next todo seen seen') (hseen : seen.Nodup) : seen'.Nodup := by
  induction h with
  | done _ => exact hseen
  | again _ _ ih => exact ih hseen
  | enter hnew _ _ ihTarget ihTodo =>
    refine ihTodo (ihTarget (List.nodup_append.2 ⟨hseen, by simp, fun r hr found hfound heq => ?_⟩))
    rw [heq, List.mem_singleton.1 hfound] at hr
    exact hnew hr

/-- A target that has been entered counts as followed until it is left. -/
theorem closed (h : Search next todo seen seen') {following : List String}
    (hclosed : Closed next following seen) : Closed next following seen' := by
  induction h generalizing following with
  | done _ => exact hclosed
  | again _ _ ih => exact ih hclosed
  | @enter _ _ _ _ ref _ htarget _ ihTarget ihTodo =>
    refine ihTodo (fun r hr hfollowing => ?_)
    by_cases heq : r = ref
    · exact heq ▸ htarget.todo_subset
    · exact ihTarget hclosed.enter r hr (by simp [heq, hfollowing])

/-- A search depends on nothing but the references of the targets that it enters. -/
theorem congr (h : Search next todo seen seen') {next' : String → List String}
    (heq : ∀ ref ∈ seen', next' ref = next ref) : Search next' todo seen seen' := by
  induction h with
  | done seen => exact .done seen
  | again hmem _ ih => exact .again hmem (ih heq)
  | @enter todo seen mid seen' ref hnew htarget hrest ihTarget ihTodo =>
    have href : ref ∈ seen' :=
      hrest.seen_subset (htarget.seen_subset (List.mem_append_right _ List.mem_cons_self))
    have hinner := ihTarget (fun r hr => heq r (hrest.seen_subset hr))
    rw [← heq ref href] at hinner
    exact .enter hnew hinner (ihTodo heq)

theorem unique (h : Search next todo seen seen') {other : List String}
    (h' : Search next todo seen other) : other = seen' := by
  induction h generalizing other with
  | done _ =>
    cases h'
    rfl
  | again hmem _ ih =>
    cases h' with
    | again _ hrest => exact ih hrest
    | enter hnew _ _ => exact absurd hmem hnew
  | enter hnew _ _ ihTarget ihTodo =>
    cases h' with
    | again hmem _ => exact absurd hmem hnew
    | enter _ htarget hrest =>
      rw [ihTarget htarget] at hrest
      exact ihTodo hrest

end Search

theorem Reachable.trans {roots roots' : List String} {ref : String}
    (h : Reachable next roots' ref) (hroots : ∀ root ∈ roots', Reachable next roots root) :
    Reachable next roots ref := by
  induction h with
  | root hmem => exact hroots _ hmem
  | step _ hfound ih => exact ih.step hfound

theorem Reachable.mono {roots : List String} {ref : String} (h : Reachable next roots ref)
    {next' : String → List String} {roots' : List String} (hroots : roots ⊆ roots')
    (hnext : ∀ ref, next ref ⊆ next' ref) : Reachable next' roots' ref := by
  induction h with
  | root hmem => exact .root (hroots hmem)
  | step _ hfound ih => exact ih.step (hnext _ hfound)

theorem Search.sound {todo seen seen' : List String} (h : Search next todo seen seen')
    {ref : String} (href : ref ∈ seen') : ref ∈ seen ∨ Reachable next todo ref := by
  induction h with
  | done _ => exact Or.inl href
  | again _ _ ih =>
    exact (ih href).imp_right (fun hreach =>
      hreach.trans (fun root hroot => .root (List.mem_cons_of_mem _ hroot)))
  | @enter todo _ _ _ entered _ _ _ ihTarget ihTodo =>
    have hentered : Reachable next (entered :: todo) entered := .root List.mem_cons_self
    rcases ihTodo href with hmid | hreach
    · rcases ihTarget hmid with hseen | hreach
      · rcases List.mem_append.1 hseen with hseen | hnew
        · exact Or.inl hseen
        · exact Or.inr (List.mem_singleton.1 hnew ▸ hentered)
      · exact Or.inr (hreach.trans (fun root hroot => hentered.step hroot))
    · exact Or.inr (hreach.trans (fun root hroot => .root (List.mem_cons_of_mem _ hroot)))

/-- A search from nothing meets exactly what can be reached. -/
theorem Search.mem_iff_reachable {roots seen : List String} (h : Search next roots [] seen)
    {ref : String} : ref ∈ seen ↔ Reachable next roots ref := by
  constructor
  · intro href
    exact (h.sound href).resolve_left List.not_mem_nil
  · intro hreach
    have hclosed : Closed next [] seen :=
      h.closed (fun r hr => absurd hr List.not_mem_nil)
    induction hreach with
    | root hmem => exact h.todo_subset hmem
    | step _ hfound ih => exact hclosed _ ih List.not_mem_nil hfound

/-! ### Meeting for the first time -/

theorem meetAll_append (seen met met' : List String) :
    meetAll seen (met ++ met') = meetAll (meetAll seen met) met' :=
  List.foldl_append

theorem meetAll_cons_of_mem {seen : List String} {ref : String} (h : ref ∈ seen)
    (met : List String) : meetAll seen (ref :: met) = meetAll seen met := by
  rw [meetAll, List.foldl_cons, if_pos h]
  rfl

theorem meetAll_cons_of_not_mem {seen : List String} {ref : String} (h : ref ∉ seen)
    (met : List String) : meetAll seen (ref :: met) = meetAll (seen ++ [ref]) met := by
  rw [meetAll, List.foldl_cons, if_neg h]
  rfl

theorem meetAll_of_subset {seen met : List String} (h : met ⊆ seen) : meetAll seen met = seen := by
  induction met with
  | nil => rfl
  | cons ref met ih =>
    obtain ⟨href, hmet⟩ := List.cons_subset.1 h
    rw [meetAll_cons_of_mem href, ih hmet]

theorem meetAll_eq_append (seen met : List String) :
    meetAll seen met = seen ++ (met.filter (· ∉ seen)).eraseDups := by
  induction met generalizing seen with
  | nil => simp [meetAll]
  | cons ref met ih =>
    by_cases href : ref ∈ seen
    · rw [meetAll_cons_of_mem href, ih, List.filter_cons_of_neg (by simpa using href)]
    · rw [meetAll_cons_of_not_mem href, ih, List.filter_cons_of_pos (by simpa using href),
        List.eraseDups_cons, List.filter_filter, List.append_assoc, List.singleton_append]
      congr 3
      refine List.filter_congr (fun found _ => ?_)
      by_cases heq : found = ref <;> simp [heq]

/-- From nothing, what is met for the first time is what is met without repetition. -/
theorem meetAll_nil (met : List String) : meetAll [] met = met.eraseDups := by
  rw [meetAll_eq_append, List.nil_append, List.filter_eq_self.2 (by simp)]

/-! ### Searches and tours -/

/-- A tour from what was met stays with what was met. -/
theorem Tour.subset {following todo met : List String} (h : Tour next following todo met)
    {seen : List String} (hclosed : Closed next following seen) (htodo : todo ⊆ seen) :
    met ⊆ seen := by
  induction h with
  | done _ => exact List.nil_subset seen
  | again _ _ ih =>
    obtain ⟨href, htodo⟩ := List.cons_subset.1 htodo
    exact List.cons_subset.2 ⟨href, ih hclosed htodo⟩
  | enter hnot _ _ ihTarget ihTodo =>
    obtain ⟨href, htodo⟩ := List.cons_subset.1 htodo
    refine List.append_subset.2 ⟨List.cons_subset.2 ⟨href, ?_⟩, ihTodo hclosed htodo⟩
    exact ihTarget (hclosed.mono (List.subset_cons_self _ _)) (hclosed _ href hnot)

/-- A search lists what a tour meets, in the order in which the tour meets it first. -/
theorem Search.eq_meetAll {todo seen seen' : List String} (h : Search next todo seen seen')
    {following met : List String} (htour : Tour next following todo met)
    (hfollowing : following ⊆ seen) (hclosed : Closed next following seen) :
    seen' = meetAll seen met := by
  induction h generalizing following met with
  | done _ =>
    cases htour
    rfl
  | @again _ seen _ ref hmem _ ih =>
    cases htour with
    | again _ hrest =>
      rw [meetAll_cons_of_mem hmem]
      exact ih hrest hfollowing hclosed
    | @enter _ _ inner _ _ hnot hinner hrest =>
      -- the target was left before, so the tour finds nothing new in it
      have hinnerSeen : ref :: inner ⊆ seen := by
        refine List.cons_subset.2 ⟨hmem, hinner.subset ?_ (hclosed ref hmem hnot)⟩
        exact hclosed.mono (List.subset_cons_self ref following)
      rw [meetAll_append, meetAll_of_subset hinnerSeen]
      exact ih hrest hfollowing hclosed
  | @enter _ seen mid _ ref hnew htarget _ ihTarget ihTodo =>
    cases htour with
    | again hmem _ => exact absurd (hfollowing hmem) hnew
    | @enter _ _ inner _ _ _ hinner hrest =>
      have hfollowing' : ref :: following ⊆ seen ++ [ref] := by
        refine List.cons_subset.2 ⟨List.mem_append_right _ List.mem_cons_self, fun r hr => ?_⟩
        exact List.mem_append_left _ (hfollowing hr)
      have hmid : mid = meetAll (seen ++ [ref]) inner :=
        ihTarget hinner hfollowing' hclosed.enter
      have hclosedMid : Closed next following mid :=
        (Search.enter hnew htarget (.done mid)).closed hclosed
      have hfollowingMid : following ⊆ mid :=
        fun r hr => htarget.seen_subset (List.mem_append_left _ (hfollowing hr))
      rw [List.cons_append, meetAll_cons_of_not_mem hnew, meetAll_append, ← hmid]
      exact ihTodo hrest hfollowingMid hclosedMid

/-- A search from nothing lists what a tour meets, without repetition. -/
theorem Search.eq_eraseDups {roots seen met : List String} (h : Search next roots [] seen)
    (htour : Tour next [] roots met) : seen = met.eraseDups := by
  rw [← meetAll_nil]
  exact h.eq_meetAll htour (List.nil_subset _) (fun r hr => absurd hr List.not_mem_nil)

/-- There is a tour along references of which there are finitely many. -/
theorem exists_tour {all : List String} (hnext : ∀ ref, next ref ⊆ all)
    {following todo : List String} (htodo : todo ⊆ all) : ∃ met, Tour next following todo met := by
  -- every target that is entered leaves fewer that are not being followed
  induction hn : (all.filter (· ∉ following)).length using Nat.strongRecOn
    generalizing following todo with
  | _ n ih =>
    induction todo with
    | nil => exact ⟨[], .done following⟩
    | cons ref todo ihTodo =>
      obtain ⟨href, htodo⟩ := List.cons_subset.1 htodo
      obtain ⟨met, hmet⟩ := ihTodo htodo
      by_cases hfollowing : ref ∈ following
      · exact ⟨ref :: met, .again hfollowing hmet⟩
      · have hfewer : (all.filter (· ∉ ref :: following)).length < n := by
          have hwithout : all.filter (· ∉ ref :: following)
              = (all.filter (· ∉ following)).filter (· ≠ ref) := by
            rw [List.filter_filter]
            exact List.filter_congr (fun r _ => by simp [not_or])
          rw [hwithout, ← hn]
          exact List.length_filter_lt_length_iff_exists.2
            ⟨ref, List.mem_filter.2 ⟨href, by simpa using hfollowing⟩, by simp⟩
        obtain ⟨inner, hinner⟩ := ih _ hfewer (hnext ref) rfl
        exact ⟨ref :: inner ++ met, .enter hfollowing hinner hmet⟩

end Relayout.DepthFirst
