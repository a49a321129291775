/-
  Relayout/Proofs/Json/Place.lean
  ===============================
  **Places inside a value, and what a value shows there.**

  A pointer can spell one place in several ways; a place is what the spelling stands for:
  the names of members and the decimal indices of elements.  What a value shows at a place
  is its *shape*: a scalar, the number of elements, or the keys of the members in order.
  Two values that show the same shape at every place outside some cuts differ at most in or
  below the cuts, which is how "the same except at …" is said throughout; without cuts, and
  without repeated keys, they are equal (`agreeOutside_nowhere_iff`).

  Putting a value at a pointer (`replace?`) changes what is shown at and below the place of
  the pointer and nowhere else.
-/
import Relayout.Proofs.Json.Index

namespace Relayout

/-- A place inside a value: names of members and decimal indices of elements. -/
abbrev Place := List String

/-- The place that a pointer spells. -/
def Pointer.place (p : Pointer) : Place := p.segments.map Pointer.unescape

/-- What a value shows of itself: a scalar, the number of elements, or the keys. -/
inductive Shape where
  | null
  | bool (value : Bool)
  | num (value : Number)
  | str (value : String)
  | arr (length : Nat)
  | obj (keys : List String)
deriving DecidableEq, Repr

namespace Json

/-- What a value shows of itself. -/
def shape : Json → Shape
  | .null => .null
  | .bool b => .bool b
  | .num n => .num n
  | .str s => .str s
  | .arr xs => .arr xs.length
  | .obj ms => .obj (Members.keys ms)

/-- The value one name or index further down. -/
def child? (name : String) : Json → Option Json
  | .obj ms => Members.get? ms name
  | .arr xs => (Pointer.index? name).bind (xs[·]?)
  | _ => none

/-- The value at a place. -/
def at? : Json → Place → Option Json
  | v, [] => some v
  | v, name :: place => (v.child? name).bind (fun child => child.at? place)

/-- What is shown at a place. -/
def shapeAt (v : Json) (place : Place) : Option Shape := (v.at? place).map shape

/-- Two values show the same at every place that is neither cut nor below a cut. -/
def AgreeOutside (cut : Place → Prop) (v w : Json) : Prop :=
  ∀ place, (∀ above, above <+: place → ¬ cut above) → v.shapeAt place = w.shapeAt place

/-! ### Looking up places -/

@[simp] theorem at?_nil (v : Json) : v.at? [] = some v := rfl

theorem at?_cons (v : Json) (name : String) (place : Place) :
    v.at? (name :: place) = (v.child? name).bind (fun child => child.at? place) := rfl

@[simp] theorem at?_singleton (v : Json) (name : String) : v.at? [name] = v.child? name := by
  cases h : v.child? name <;> simp [at?_cons, h]

/-- An element stands under its index. -/
theorem child?_toString (xs : List Json) (i : Nat) : (arr xs).child? (toString i) = xs[i]? := by
  rw [child?, Pointer.index?_toString, Option.bind_some]

theorem at?_append (v : Json) (place below : Place) :
    v.at? (place ++ below) = (v.at? place).bind (fun w => w.at? below) := by
  induction place generalizing v with
  | nil => rfl
  | cons name place ih =>
    simp only [List.cons_append, at?_cons, Option.bind_assoc]
    congr 1
    funext child
    exact ih child

theorem at?_append_of_eq_some {v w : Json} {place : Place} (h : v.at? place = some w)
    (below : Place) : v.at? (place ++ below) = w.at? below := by
  rw [at?_append, h]
  rfl

theorem shapeAt_append_of_eq_some {v w : Json} {place : Place} (h : v.at? place = some w)
    (below : Place) : v.shapeAt (place ++ below) = w.shapeAt below := by
  simp only [shapeAt, at?_append_of_eq_some h]

theorem shapeAt_eq_none_iff {v : Json} {place : Place} :
    v.shapeAt place = none ↔ v.at? place = none := by
  simp [shapeAt]

theorem at?_ne_none_of_append {v : Json} {place below : Place}
    (h : v.at? (place ++ below) ≠ none) : v.at? place ≠ none := by
  intro hnone
  rw [at?_append, hnone] at h
  exact h rfl

/-- Which children a value has can be read off its shape. -/
theorem child?_eq_none_of_shape_eq {v w : Json} (h : v.shape = w.shape) {name : String}
    (hv : v.child? name = none) : w.child? name = none := by
  cases v <;> cases w <;> simp only [shape, reduceCtorEq, Shape.arr.injEq, Shape.obj.injEq] at h
    <;> try rfl
  · rename_i xs ys
    cases hi : Pointer.index? name with
    | none => simp [child?, hi]
    | some i =>
      simp only [child?, hi, Option.bind_some, List.getElem?_eq_none_iff] at hv ⊢
      omega
  · rename_i ms ns
    simp only [child?, Members.get?_eq_none_iff] at hv ⊢
    exact h ▸ hv

/-- Whether there is a place one further down can be read off what is shown. -/
theorem at?_append_singleton_eq_none {v w : Json} {place : Place}
    (h : v.shapeAt place = w.shapeAt place) {name : String}
    (hv : v.at? (place ++ [name]) = none) : w.at? (place ++ [name]) = none := by
  rw [at?_append] at hv ⊢
  cases hw : w.at? place with
  | none => rfl
  | some b =>
    rw [shapeAt, shapeAt, hw] at h
    obtain ⟨a, ha, hshape⟩ := Option.map_eq_some_iff.1 h
    rw [ha, Option.bind_some, at?_singleton] at hv
    rw [Option.bind_some, at?_singleton]
    exact child?_eq_none_of_shape_eq hshape hv

/-! ### Values told apart -/

mutual

/-- A value without repeated keys is known when it is known what it shows at every place. -/
theorem eq_of_shapeAt_eq : ∀ v w : Json, v.WellFormed → w.WellFormed →
    (∀ place, v.shapeAt place = w.shapeAt place) → v = w
  | .obj ms, w, hv, hw, h => by
    have hroot : w.shape = .obj (Members.keys ms) := (Option.some.inj (h [])).symm
    cases w with
    | obj ns =>
      have hkeys : Members.keys ns = Members.keys ms := Shape.obj.inj hroot
      exact congrArg Json.obj
        (members_eq_of_shapeAt_eq ms ns hv.1 hv.2 hw.2 hkeys.symm
          (fun name place => h (name :: place)))
    | null | bool | num | str | arr => cases hroot
  | .arr xs, w, hv, hw, h => by
    have hroot : w.shape = .arr xs.length := (Option.some.inj (h [])).symm
    cases w with
    | arr ys =>
      have hlength : ys.length = xs.length := Shape.arr.inj hroot
      refine congrArg Json.arr (elements_eq_of_shapeAt_eq xs ys hv hw hlength.symm ?_)
      intro i place
      have hplace := h (toString i :: place)
      simpa only [shapeAt, at?_cons, child?, Pointer.index?_toString, Option.bind_some]
        using hplace
    | null | bool | num | str | obj => cases hroot
  | .null, w, _, _, h => by cases w <;> first | rfl | cases h []
  | .bool _, w, _, _, h => by cases w <;> first | cases h []; rfl | cases h []
  | .num _, w, _, _, h => by cases w <;> first | cases h []; rfl | cases h []
  | .str _, w, _, _, h => by cases w <;> first | cases h []; rfl | cases h []

theorem members_eq_of_shapeAt_eq : ∀ ms ns : Members, (Members.keys ms).Nodup →
    MembersWellFormed ms → MembersWellFormed ns → Members.keys ms = Members.keys ns →
    (∀ name place, (obj ms).shapeAt (name :: place) = (obj ns).shapeAt (name :: place)) →
    ms = ns
  | [], ns, _, _, _, hkeys, _ => by
    cases ns with
    | nil => rfl
    | cons n ns => cases hkeys
  | (k, v) :: ms, ns, hnodup, hms, hns, hkeys, h => by
    cases ns with
    | nil => cases hkeys
    | cons n ns =>
      obtain ⟨l, w⟩ := n
      obtain ⟨rfl, hrest⟩ : k = l ∧ Members.keys ms = Members.keys ns := by
        simpa [Members.keys] using hkeys
      obtain ⟨hnew, hnodup'⟩ : k ∉ Members.keys ms ∧ (Members.keys ms).Nodup := by
        simpa [Members.keys] using hnodup
      have hvalue : v = w := by
        refine eq_of_shapeAt_eq v w hms.1 hns.1 (fun place => ?_)
        simpa [shapeAt, at?_cons, child?, Members.get?] using h k place
      have hmembers : ms = ns := by
        refine members_eq_of_shapeAt_eq ms ns hnodup' hms.2 hns.2 hrest (fun name place => ?_)
        by_cases hname : k = name
        · subst hname
          have hms' := (Members.get?_eq_none_iff ms k).2 hnew
          have hns' := (Members.get?_eq_none_iff ns k).2 (hrest ▸ hnew)
          simp [shapeAt, at?_cons, child?, hms', hns']
        · simpa [shapeAt, at?_cons, child?, Members.get?, hname] using h name place
      rw [hvalue, hmembers]

theorem elements_eq_of_shapeAt_eq : ∀ xs ys : List Json, ElementsWellFormed xs →
    ElementsWellFormed ys → xs.length = ys.length →
    (∀ (i : Nat) place, (xs[i]?.bind (fun x => x.at? place)).map shape
      = (ys[i]?.bind (fun y => y.at? place)).map shape) → xs = ys
  | [], ys, _, _, hlength, _ => by
    cases ys with
    | nil => rfl
    | cons y ys => cases hlength
  | x :: xs, ys, hxs, hys, hlength, h => by
    cases ys with
    | nil => cases hlength
    | cons y ys =>
      have hvalue : x = y :=
        eq_of_shapeAt_eq x y hxs.1 hys.1 (fun place => by simpa [shapeAt] using h 0 place)
      have helements : xs = ys :=
        elements_eq_of_shapeAt_eq xs ys hxs.2 hys.2 (by simpa using hlength)
          (fun i place => by simpa using h (i + 1) place)
      rw [hvalue, helements]

end

/-- Without cuts, two values that agree are equal. -/
theorem agreeOutside_nowhere_iff {v w : Json} (hv : v.WellFormed) (hw : w.WellFormed) :
    AgreeOutside (fun _ => False) v w ↔ v = w := by
  constructor
  · intro h
    exact eq_of_shapeAt_eq v w hv hw (fun place => h place (fun _ _ hcut => hcut))
  · rintro rfl place -
    rfl

end Json

/-! ### Members and elements after a change -/

namespace Members

theorem get?_insert (ms : Members) (key name : String) (value : Json) :
    get? (insert ms key value) name = if key = name then some value else get? ms name := by
  induction ms with
  | nil => rfl
  | cons m ms ih =>
    obtain ⟨k, v⟩ := m
    by_cases hk : k = key
    · subst hk
      by_cases hname : k = name <;> simp [insert, get?, hname]
    · by_cases hname : k = name
      · subst hname
        have hk' : ¬ key = k := fun h => hk h.symm
        rw [if_neg hk']
        simp [insert, get?, hk]
      · simp [insert, get?, hk, hname, ih]

theorem has_of_get?_eq_some {ms : Members} {key : String} {value : Json}
    (h : get? ms key = some value) : has ms key = true := by
  cases hhas : has ms key with
  | true => rfl
  | false =>
    have hmem : key ∉ keys ms := by simp [← has_iff_mem_keys, hhas]
    rw [(get?_eq_none_iff ms key).2 hmem] at h
    cases h

theorem get?_append (ms ns : Members) (key : String) :
    get? (ms ++ ns) key = (get? ms key).or (get? ns key) := by
  induction ms with
  | nil => rfl
  | cons m ms ih =>
    obtain ⟨k, v⟩ := m
    by_cases hk : k = key <;> simp [get?, hk, ih]

/-- What is found for members one by one is found under a key for the first that has it. -/
theorem lookup_eq_map_get? {α : Type} (found : Members → List (String × α))
    (f : String → Json → α) (hnil : found [] = [])
    (hcons : ∀ k v ms, found ((k, v) :: ms) = (k, f k v) :: found ms) (ms : Members)
    (key : String) : (found ms).lookup key = (get? ms key).map (f key) := by
  induction ms with
  | nil => rw [hnil]; rfl
  | cons m ms ih =>
    obtain ⟨k, v⟩ := m
    rw [hcons]
    by_cases hk : k = key
    · subst hk
      simp [get?]
    · have hne : (key == k) = false := beq_eq_false_iff_ne.2 (Ne.symm hk)
      rw [List.lookup_cons, hne, get?, if_neg hk]
      exact ih

@[simp] theorem keys_append (ms ns : Members) : keys (ms ++ ns) = keys ms ++ keys ns := by
  simp [keys]

theorem insert_append_of_mem {ms ns : Members} {key : String} (h : key ∈ keys ms) (value : Json) :
    insert (ms ++ ns) key value = insert ms key value ++ ns := by
  induction ms with
  | nil => cases h
  | cons m ms ih =>
    obtain ⟨k, v⟩ := m
    by_cases hk : k = key
    · simp [insert, hk]
    · have hrest : key ∈ keys ms := (List.mem_cons.1 h).resolve_left (fun heq => hk heq.symm)
      simp [insert, hk, ih hrest]

end Members

namespace Json

theorem step?_eq_child? (segment : String) (v : Json) :
    v.step? segment = v.child? (Pointer.unescape segment) := by
  cases v <;> rfl

theorem shape_setStep {v child : Json} {segment : String}
    (h : v.child? (Pointer.unescape segment) = some child) (new : Json) :
    (v.setStep segment new).shape = v.shape := by
  cases v with
  | obj ms =>
    simp [setStep, shape, Members.keys_insert, Members.has_of_get?_eq_some h]
  | arr xs =>
    cases hi : Pointer.index? (Pointer.unescape segment) <;> simp [setStep, hi, shape]
  | null | bool | num | str => cases h

/-- Setting a child changes that child and no other. -/
theorem child?_setStep {v child : Json} {segment : String}
    (h : v.child? (Pointer.unescape segment) = some child) (new : Json) (name : String) :
    (v.setStep segment new).child? name
      = if Pointer.unescape segment = name then some new else v.child? name := by
  cases v with
  | obj ms => exact Members.get?_insert ms _ name new
  | arr xs =>
    simp only [child?, Option.bind_eq_some_iff] at h
    obtain ⟨i, hi, hxs⟩ := h
    have hlt : i < xs.length := (List.getElem?_eq_some_iff.1 hxs).1
    simp only [setStep, hi, child?]
    by_cases hname : Pointer.unescape segment = name
    · simp [← hname, hi, List.getElem?_set_self hlt]
    · rw [if_neg hname]
      cases hj : Pointer.index? name with
      | none => rfl
      | some j =>
        have hne : i ≠ j := by
          rintro rfl
          exact hname ((Pointer.eq_toString_of_index? hi).trans
            (Pointer.eq_toString_of_index? hj).symm)
        simp [List.getElem?_set_ne hne]
  | null | bool | num | str => cases h

/-! ### Putting a value at a pointer -/

theorem findFrom?_eq_at? (segments : List String) (v : Json) :
    findFrom? segments v = v.at? (segments.map Pointer.unescape) := by
  induction segments generalizing v with
  | nil => rfl
  | cons s ss ih =>
    simp only [findFrom?, List.map_cons, at?_cons, step?_eq_child?]
    congr 1
    funext child
    exact ih child

theorem find?_eq_at? (v : Json) (p : Pointer) : v.find? p = v.at? p.place :=
  findFrom?_eq_at? p.segments v

theorem replaceFrom?_cons_eq_some {new v v' : Json} {segment : String} {segments : List String}
    (h : replaceFrom? new (segment :: segments) v = some v') :
    ∃ child child', v.child? (Pointer.unescape segment) = some child ∧
      replaceFrom? new segments child = some child' ∧ v' = v.setStep segment child' := by
  simp only [replaceFrom?, step?_eq_child?, Option.bind_eq_bind, Option.bind_eq_some_iff,
    Option.pure_def, Option.some.injEq] at h
  obtain ⟨child, hchild, child', hchild', rfl⟩ := h
  exact ⟨child, child', hchild, hchild', rfl⟩

theorem replaceFrom?_eq_none_iff (new : Json) (segments : List String) (v : Json) :
    replaceFrom? new segments v = none ↔ v.at? (segments.map Pointer.unescape) = none := by
  induction segments generalizing v with
  | nil => simp [replaceFrom?]
  | cons s ss ih =>
    simp only [replaceFrom?, step?_eq_child?, List.map_cons, at?_cons, Option.bind_eq_bind]
    cases v.child? (Pointer.unescape s) with
    | none => simp
    | some child =>
      rw [Option.bind_some, Option.bind_some, ← ih child]
      cases replaceFrom? new ss child <;> simp

/-- A value can be put exactly where there is one already. -/
theorem replace?_eq_none_iff (v : Json) (p : Pointer) (new : Json) :
    v.replace? p new = none ↔ v.at? p.place = none :=
  replaceFrom?_eq_none_iff new p.segments v

theorem at?_replaceFrom? {new v v' : Json} {segments : List String}
    (h : replaceFrom? new segments v = some v') (below : Place) :
    v'.at? (segments.map Pointer.unescape ++ below) = new.at? below := by
  induction segments generalizing v v' with
  | nil =>
    cases h
    rfl
  | cons s ss ih =>
    obtain ⟨child, child', hchild, hrest, rfl⟩ := replaceFrom?_cons_eq_some h
    simp only [List.map_cons, List.cons_append, at?_cons, child?_setStep hchild, if_true,
      Option.bind_some]
    exact ih hrest

/-- At and below its place, the new value is found. -/
theorem at?_replace? {v v' new : Json} {p : Pointer} (h : v.replace? p new = some v')
    (below : Place) : v'.at? (p.place ++ below) = new.at? below :=
  at?_replaceFrom? h below

theorem shapeAt_replaceFrom? {new v v' : Json} {segments : List String}
    (h : replaceFrom? new segments v = some v') {place : Place}
    (hplace : ¬ segments.map Pointer.unescape <+: place) :
    v'.shapeAt place = v.shapeAt place := by
  induction segments generalizing v v' place with
  | nil => exact absurd List.nil_prefix hplace
  | cons s ss ih =>
    obtain ⟨child, child', hchild, hrest, rfl⟩ := replaceFrom?_cons_eq_some h
    cases place with
    | nil => simp [shapeAt, shape_setStep hchild]
    | cons name place =>
      simp only [shapeAt, at?_cons, child?_setStep hchild]
      by_cases hname : Pointer.unescape s = name
      · subst hname
        rw [if_pos rfl, hchild]
        refine ih hrest (fun hprefix => hplace ?_)
        simpa using hprefix
      · rw [if_neg hname]

/-- Everywhere else, what is shown stays: above its place too, since a child that is set
    leaves the shape of its parent. -/
theorem shapeAt_replace? {v v' new : Json} {p : Pointer} (h : v.replace? p new = some v')
    {place : Place} (hplace : ¬ p.place <+: place) : v'.shapeAt place = v.shapeAt place :=
  shapeAt_replaceFrom? h hplace

end Json

end Relayout
