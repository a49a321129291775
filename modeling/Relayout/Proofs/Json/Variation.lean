/-
  Relayout/Proofs/Json/Variation.lean
  ===================================
  **Values that differ at one place.**

  `Json.Varies` relates two values that are built in the same way down to a place, at which they
  have one value each.  This is what putting a value at a pointer does (`varies_of_replace?`,
  `Varies.replace?_eq`), told without pointers: everything off the way to the place is the same in
  both, the order of members included.

  What two such values have at another place are `Counterparts`: the same value, or, above the
  place, two values that vary further down.  Counterparts can be put into both values, and what
  comes out varies at the place as before (`Varies.replace?_cases`).
-/
import Relayout.Proofs.Json.Place

namespace Relayout

namespace Members

/-! ### A member among others -/

theorem get?_append_cons {pre post : Members} {name : String} (h : name ∉ pre.keys) (v : Json)
    (key : String) : get? (pre ++ (name, v) :: post) key
      = if name = key then some v else get? (pre ++ post) key := by
  rw [get?_append, get?_append, get?]
  split
  · rename_i hname
    rw [(get?_eq_none_iff pre key).2 (hname ▸ h), Option.none_or]
  · rfl

theorem insert_append_of_not_mem {pre : Members} {key : String} (h : key ∉ pre.keys)
    (rest : Members) (value : Json) :
    insert (pre ++ rest) key value = pre ++ insert rest key value := by
  induction pre with
  | nil => rfl
  | cons m pre ih =>
    obtain ⟨k, v⟩ := m
    obtain ⟨hne, hrest⟩ : ¬ key = k ∧ key ∉ keys pre := by simpa [keys] using h
    simp [insert, Ne.symm hne, ih hrest]

theorem insert_append_cons {pre post : Members} {name : String} (h : name ∉ pre.keys)
    (v value : Json) :
    insert (pre ++ (name, v) :: post) name value = pre ++ (name, value) :: post := by
  rw [insert_append_of_not_mem h, insert, if_pos rfl]

theorem exists_append_cons_of_get? {ms : Members} {name : String} {v : Json}
    (h : ms.get? name = some v) :
    ∃ pre post : Members, ms = pre ++ (name, v) :: post ∧ name ∉ pre.keys := by
  induction ms with
  | nil => cases h
  | cons m ms ih =>
    obtain ⟨k, w⟩ := m
    by_cases hk : k = name
    · subst hk
      obtain rfl : w = v := by simpa [get?] using h
      exact ⟨[], ms, rfl, by simp [keys]⟩
    · obtain ⟨pre, post, rfl, hpre⟩ := ih (by simpa [get?, hk] using h)
      exact ⟨(k, w) :: pre, post, rfl, by simp_all [keys, eq_comm]⟩

end Members

namespace Json

/-- Two values that are the same but for a place, at which one has `a` and the other has `b`. -/
inductive Varies (a b : Json) : Place → Json → Json → Prop where
  | here : Varies a b [] a b
  | member {pre post : Members} {name : String} {place : Place} {v w : Json} :
    name ∉ pre.keys → Varies a b place v w →
      Varies a b (name :: place) (.obj (pre ++ (name, v) :: post)) (.obj (pre ++ (name, w) :: post))
  | element {pre post : List Json} {place : Place} {v w : Json} :
    Varies a b place v w →
      Varies a b (toString pre.length :: place) (.arr (pre ++ v :: post)) (.arr (pre ++ w :: post))

variable {a b v w : Json} {name : String} {place : Place}

/-! ### Looking down -/

theorem child?_element (pre post : List Json) (v : Json) :
    (arr (pre ++ v :: post)).child? (toString pre.length) = some v := by
  rw [child?_toString]
  simp

theorem child?_element_of_ne {pre post : List Json} (v w : Json)
    (h : toString pre.length ≠ name) :
    (arr (pre ++ v :: post)).child? name = (arr (pre ++ w :: post)).child? name := by
  simp only [child?]
  cases hi : Pointer.index? name with
  | none => rfl
  | some i =>
    have hne : pre.length ≠ i := by
      rintro rfl
      exact h (Pointer.eq_toString_of_index? hi).symm
    simp only [Option.bind_some, List.getElem?_append, List.getElem?_cons]
    split
    · rfl
    · rw [if_neg (by omega), if_neg (by omega)]

/-- Two values that vary further down have two children that do, and their other children are the
    same. -/
theorem Varies.child? (h : Varies a b (name :: place) v w) :
    (∃ x y, v.child? name = some x ∧ w.child? name = some y ∧ Varies a b place x y) ∧
      ∀ other, name ≠ other → v.child? other = w.child? other := by
  cases h with
  | @member pre post _ _ x y hpre hxy =>
    simp only [Json.child?, Members.get?_append_cons hpre]
    refine ⟨⟨x, y, by simp, by simp, hxy⟩, fun other hother => ?_⟩
    rw [if_neg hother, if_neg hother]
  | element hxy =>
    exact ⟨⟨_, _, child?_element _ _ _, child?_element _ _ _, hxy⟩,
      fun other hother => child?_element_of_ne _ _ hother⟩

theorem Varies.at? (h : Varies a b place v w) : v.at? place = some a ∧ w.at? place = some b := by
  induction place generalizing v w with
  | nil =>
    cases h
    exact ⟨rfl, rfl⟩
  | cons name place ih =>
    obtain ⟨⟨x, y, hx, hy, hxy⟩, -⟩ := h.child?
    rw [at?_cons, at?_cons, hx, hy]
    exact ih hxy

/-- What two values show of themselves is the same if they vary further down. -/
theorem Varies.shape_eq (h : Varies a b place v w) (hplace : place ≠ []) : v.shape = w.shape := by
  cases h with
  | here => exact absurd rfl hplace
  | member => simp [shape, Members.keys]
  | element => simp [shape]

/-! ### Putting a value at the place -/

theorem setStep_member {pre post : Members} {segment : String}
    (h : Pointer.unescape segment ∉ pre.keys) (v new : Json) :
    (obj (pre ++ (Pointer.unescape segment, v) :: post)).setStep segment new
      = obj (pre ++ (Pointer.unescape segment, new) :: post) := by
  rw [setStep, Members.insert_append_cons h]

theorem setStep_element {pre post : List Json} {segment : String}
    (h : Pointer.unescape segment = toString pre.length) (v new : Json) :
    (arr (pre ++ v :: post)).setStep segment new = arr (pre ++ new :: post) := by
  rw [setStep, h, Pointer.index?_toString]
  simp

theorem replaceFrom?_cons (new : Json) (segment : String) (segments : List String) (v : Json) :
    replaceFrom? new (segment :: segments) v
      = (v.child? (Pointer.unescape segment)).bind
          (fun child => (replaceFrom? new segments child).map (v.setStep segment)) := by
  rw [replaceFrom?, step?_eq_child?]
  simp only [Option.bind_eq_bind, Option.pure_def]
  congr 1
  funext child
  cases replaceFrom? new segments child <;> rfl

theorem exists_append_cons_of_getElem? {xs : List Json} {i : Nat} {x : Json}
    (h : xs[i]? = some x) : ∃ pre post, xs = pre ++ x :: post ∧ pre.length = i := by
  obtain ⟨hlt, rfl⟩ := List.getElem?_eq_some_iff.1 h
  refine ⟨xs.take i, xs.drop (i + 1), ?_, ?_⟩
  · rw [List.getElem_cons_drop, List.take_append_drop]
  · rw [List.length_take]
    omega

theorem varies_setStep {segment : String} {x y : Json}
    (hx : v.child? (Pointer.unescape segment) = some x) (hxy : Varies a b place x y) :
    Varies a b (Pointer.unescape segment :: place) v (v.setStep segment y) := by
  cases v with
  | obj ms =>
    obtain ⟨pre, post, rfl, hpre⟩ := Members.exists_append_cons_of_get? hx
    rw [setStep_member hpre]
    exact .member hpre hxy
  | arr xs =>
    obtain ⟨i, hi, hget⟩ := Option.bind_eq_some_iff.1 hx
    obtain ⟨pre, post, rfl, rfl⟩ := exists_append_cons_of_getElem? hget
    have hname := Pointer.eq_toString_of_index? hi
    rw [setStep_element hname, hname]
    exact .element hxy
  | null | bool | num | str => cases hx

theorem varies_of_replaceFrom? {segments : List String} (h : replaceFrom? b segments v = some w) :
    ∃ a, Varies a b (segments.map Pointer.unescape) v w := by
  induction segments generalizing v w with
  | nil =>
    cases h
    exact ⟨v, .here⟩
  | cons segment segments ih =>
    obtain ⟨x, y, hx, hy, rfl⟩ := replaceFrom?_cons_eq_some h
    obtain ⟨a, hxy⟩ := ih hy
    exact ⟨a, varies_setStep hx hxy⟩

/-- Putting a value at a pointer makes the place of the pointer vary, -/
theorem varies_of_replace? {p : Pointer} (h : v.replace? p b = some w) :
    ∃ a, Varies a b p.place v w :=
  varies_of_replaceFrom? h

theorem Varies.replaceFrom?_eq {segments : List String}
    (h : Varies a b (segments.map Pointer.unescape) v w) :
    replaceFrom? b segments v = some w := by
  induction segments generalizing v w with
  | nil =>
    cases h
    rfl
  | cons segment segments ih =>
    rw [replaceFrom?_cons]
    rw [List.map_cons] at h
    generalize hname : Pointer.unescape segment = name at h
    cases h with
    | member hpre hxy =>
      subst hname
      simp [Json.child?, Members.get?_append_cons hpre, ih hxy, setStep_member hpre]
    | element hxy =>
      rw [child?_element, Option.bind_some, ih hxy, Option.map_some, setStep_element hname]

/-- and nothing else does. -/
theorem Varies.replace?_eq {p : Pointer} (h : Varies a b p.place v w) : v.replace? p b = some w :=
  h.replaceFrom?_eq

/-! ### Counterparts -/

/-- What two values that vary at `d` have at a place that is not below `d`. -/
inductive Counterparts (a b : Json) (d : Place) : Place → Json → Json → Prop where
  | aside {place : Place} (v : Json) : ¬ place <+: d → ¬ d <+: place →
    Counterparts a b d place v v
  | above {place below : Place} {v w : Json} : place ++ below = d → Varies a b below v w →
    Counterparts a b d place v w

theorem Varies.counterparts (h : Varies a b place v w) : Counterparts a b place [] v w :=
  .above rfl h

theorem Counterparts.cons {d : Place} (h : Counterparts a b d place v w) (name : String) :
    Counterparts a b (name :: d) (name :: place) v w := by
  cases h with
  | aside _ habove hbelow => exact .aside v (by simpa using habove) (by simpa using hbelow)
  | above hd hvaries => exact .above (by rw [List.cons_append, hd]) hvaries

theorem Counterparts.of_cons {d : Place} (h : Counterparts a b (name :: d) (name :: place) v w) :
    Counterparts a b d place v w := by
  cases h with
  | aside _ habove hbelow => exact .aside v (by simpa using habove) (by simpa using hbelow)
  | above hd hvaries => exact .above (by simpa using hd) hvaries

theorem Varies.at?_cases {d : Place} (h : Varies a b d v w) (hplace : ¬ d <+: place) :
    (v.at? place = none ∧ w.at? place = none) ∨
      ∃ x y, v.at? place = some x ∧ w.at? place = some y ∧ Counterparts a b d place x y := by
  induction place generalizing d v w with
  | nil => exact Or.inr ⟨v, w, rfl, rfl, h.counterparts⟩
  | cons name place ih =>
    cases d with
    | nil => exact absurd List.nil_prefix hplace
    | cons other d =>
      obtain ⟨⟨x, y, hx, hy, hxy⟩, haside⟩ := h.child?
      rw [at?_cons, at?_cons]
      by_cases hname : other = name
      · subst hname
        rw [hx, hy, Option.bind_some, Option.bind_some]
        rcases ih hxy (by simpa using hplace) with hnone | ⟨x', y', hx', hy', hcounterparts⟩
        · exact Or.inl hnone
        · exact Or.inr ⟨x', y', hx', hy', hcounterparts.cons other⟩
      · rw [haside name hname]
        cases hat : (w.child? name).bind (fun child => child.at? place) with
        | none => exact Or.inl ⟨rfl, rfl⟩
        | some x =>
          have hother : ¬ name :: place <+: other :: d := by simp [Ne.symm hname]
          exact Or.inr ⟨x, x, rfl, rfl, .aside x hother hplace⟩

theorem Varies.shapeAt_eq {d : Place} (h : Varies a b d v w) (hplace : ¬ d <+: place) :
    v.shapeAt place = w.shapeAt place := by
  rcases h.at?_cases hplace with ⟨hv, hw⟩ | ⟨x, y, hx, hy, hcounterparts⟩
  · rw [shapeAt, shapeAt, hv, hw]
  · rw [shapeAt, shapeAt, hx, hy]
    cases hcounterparts with
    | aside => rfl
    | above hd hxy =>
      refine congrArg some (hxy.shape_eq ?_)
      rintro rfl
      rw [List.append_nil] at hd
      exact hplace (hd ▸ List.prefix_rfl)

theorem Varies.setStep_self {segment : String} {x y : Json}
    (h : Varies a b (Pointer.unescape segment :: place) v w) (hxy : Varies a b place x y) :
    Varies a b (Pointer.unescape segment :: place) (v.setStep segment x)
      (w.setStep segment y) := by
  generalize hname : Pointer.unescape segment = name at h
  cases h with
  | member hpre =>
    subst hname
    rw [setStep_member hpre, setStep_member hpre]
    exact .member hpre hxy
  | element =>
    rw [setStep_element hname, setStep_element hname]
    exact .element hxy

/-- A child off the way to the place can be set in both values. -/
theorem Varies.setStep_other {segment : String} (h : Varies a b (name :: place) v w)
    (hname : name ≠ Pointer.unescape segment) (hchild : v.child? (Pointer.unescape segment) ≠ none)
    (new : Json) :
    Varies a b (name :: place) (v.setStep segment new) (w.setStep segment new) := by
  cases h with
  | @member pre post _ _ x y hpre hxy =>
    simp only [setStep]
    by_cases hmem : Pointer.unescape segment ∈ pre.keys
    · have hpre' : name ∉ (pre.insert (Pointer.unescape segment) new).keys := by
        rwa [Members.keys_insert, if_pos ((Members.has_iff_mem_keys _ _).2 hmem)]
      rw [Members.insert_append_of_mem hmem, Members.insert_append_of_mem hmem]
      exact .member hpre' hxy
    · rw [Members.insert_append_of_not_mem hmem, Members.insert_append_of_not_mem hmem,
        Members.insert, Members.insert, if_neg hname, if_neg hname]
      exact .member hpre hxy
  | @element pre post _ x y hxy =>
    obtain ⟨i, hi, -⟩ : ∃ i, Pointer.index? (Pointer.unescape segment) = some i ∧ True := by
      simp only [Json.child?] at hchild
      cases hi : Pointer.index? (Pointer.unescape segment) with
      | none => simp [hi] at hchild
      | some i => exact ⟨i, rfl, trivial⟩
    have hne : pre.length ≠ i := by
      rintro rfl
      exact hname (Pointer.eq_toString_of_index? hi).symm
    simp only [setStep, hi, List.set_append]
    by_cases hlt : i < pre.length
    · rw [if_pos hlt, if_pos hlt]
      have hset : Varies a b (toString (pre.set i new).length :: place)
          (.arr (pre.set i new ++ x :: post)) (.arr (pre.set i new ++ y :: post)) := .element hxy
      rwa [List.length_set] at hset
    · obtain ⟨j, hj⟩ : ∃ j, i - pre.length = j + 1 := ⟨i - pre.length - 1, by omega⟩
      rw [if_neg hlt, if_neg hlt, hj, List.set_cons_succ, List.set_cons_succ]
      exact .element hxy

theorem Varies.replaceFrom?_cases {d : Place} {segments : List String} {x y : Json}
    (h : Varies a b d v w) (hxy : Counterparts a b d (segments.map Pointer.unescape) x y) :
    (replaceFrom? x segments v = none ∧ replaceFrom? y segments w = none) ∨
      ∃ v' w', replaceFrom? x segments v = some v' ∧ replaceFrom? y segments w = some w' ∧
        Varies a b d v' w' := by
  induction segments generalizing d v w with
  | nil =>
    cases hxy with
    | aside _ habove => exact absurd List.nil_prefix habove
    | above hd hvaries =>
      obtain rfl : _ = d := hd
      exact Or.inr ⟨x, y, rfl, rfl, hvaries⟩
  | cons segment segments ih =>
    cases d with
    | nil =>
      cases hxy with
      | aside _ _ hbelow => exact absurd List.nil_prefix hbelow
      | above hd => simp at hd
    | cons name d =>
      obtain ⟨⟨v₁, w₁, hv₁, hw₁, h₁⟩, haside⟩ := h.child?
      rw [replaceFrom?_cons, replaceFrom?_cons]
      by_cases hname : name = Pointer.unescape segment
      · subst hname
        rw [hv₁, hw₁, Option.bind_some, Option.bind_some]
        rcases ih h₁ hxy.of_cons with ⟨hx, hy⟩ | ⟨v₂, w₂, hx, hy, h₂⟩
        · exact Or.inl ⟨by rw [hx]; rfl, by rw [hy]; rfl⟩
        · exact Or.inr ⟨_, _, by rw [hx]; rfl, by rw [hy]; rfl, h.setStep_self h₂⟩
      · -- the values are put off the way to the place, so they are the same
        obtain rfl : x = y := by
          cases hxy with
          | aside => rfl
          | above hd => exact absurd (List.cons.inj hd).1.symm hname
        rw [← haside _ hname]
        cases hchild : v.child? (Pointer.unescape segment) with
        | none => exact Or.inl ⟨rfl, rfl⟩
        | some child =>
          rw [Option.bind_some, Option.bind_some]
          cases replaceFrom? x segments child with
          | none => exact Or.inl ⟨rfl, rfl⟩
          | some new =>
            exact Or.inr ⟨_, _, rfl, rfl, h.setStep_other hname (by simp [hchild]) new⟩

/-- Counterparts are put into both values or into none, and leave the place as it was. -/
theorem Varies.replace?_cases {d : Place} {p : Pointer} {x y : Json} (h : Varies a b d v w)
    (hxy : Counterparts a b d p.place x y) :
    (v.replace? p x = none ∧ w.replace? p y = none) ∨
      ∃ v' w', v.replace? p x = some v' ∧ w.replace? p y = some w' ∧ Varies a b d v' w' :=
  h.replaceFrom?_cases hxy

end Json

end Relayout
