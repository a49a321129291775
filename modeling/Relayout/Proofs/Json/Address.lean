/-
  Relayout/Proofs/Json/Address.lean
  =================================
  **Pointers that can be written down and read again.**

  A pointer that a run or a check reports is a text.  The text is read as the pointer that was
  meant exactly when no segment has a slash in it (`Pointer.ofText?_text`), whatever else the
  names on the way hold: `Pointer.escape` leaves no slash and is undone by `Pointer.unescape`.  So
  a pointer that is built down from a read one, by keywords, member names and indices, leads to
  the place that these name (`Pointer.place_member`, `Pointer.place_element`).
-/
import Relayout.Proofs.Migration.Definitions

namespace Relayout

namespace Pointer

/-! ### Names and their segments -/

theorem unescapeSlashes_cons_of_ne {c : Char} (h : c ≠ '~') (cs : List Char) :
    unescapeSlashes (c :: cs) = c :: unescapeSlashes cs := by
  rw [unescapeSlashes]
  rintro rest rfl
  exact absurd rfl h

theorem unescapeTildes_cons_of_ne {c : Char} (h : c ≠ '~') (cs : List Char) :
    unescapeTildes (c :: cs) = c :: unescapeTildes cs := by
  rw [unescapeTildes]
  rintro rest rfl
  exact absurd rfl h

theorem unescapeTildes_unescapeSlashes_escapeChars (cs : List Char) :
    unescapeTildes (unescapeSlashes (escapeChars cs)) = cs := by
  induction cs with
  | nil => rfl
  | cons c cs ih =>
    by_cases htilde : c = '~'
    · subst htilde
      have hread : unescapeSlashes ('~' :: '0' :: escapeChars cs)
          = '~' :: '0' :: unescapeSlashes (escapeChars cs) := rfl
      simp only [escapeChars, if_true, hread, unescapeTildes, ih]
    · by_cases hslash : c = '/'
      · subst hslash
        simp only [escapeChars, htilde, if_false, if_true, unescapeSlashes,
          unescapeTildes_cons_of_ne htilde, ih]
      · simp only [escapeChars, htilde, hslash, if_false, unescapeSlashes_cons_of_ne htilde,
          unescapeTildes_cons_of_ne htilde, ih]

/-- The segment for a name stands for it, whatever characters it has. -/
@[simp] theorem unescape_escape (name : String) : unescape (escape name) = name := by
  rw [unescape, escape, String.toList_ofList, unescapeTildes_unescapeSlashes_escapeChars,
    String.ofList_toList]

theorem slash_not_mem_escape (name : String) : '/' ∉ (escape name).toList := by
  rw [escape, String.toList_ofList]
  induction name.toList with
  | nil => exact List.not_mem_nil
  | cons c cs ih =>
    rw [escapeChars]
    split
    · simpa using ih
    · split
      · simpa using ih
      · rename_i hslash
        simpa [ih] using Ne.symm hslash

theorem not_mem_toString_of_not_isDigit {c : Char} (hc : c.isDigit = false) (i : Nat) :
    c ∉ (toString i).toList := by
  have hlist : (toString i).toList = Nat.toDigits 10 i := Nat.toList_repr
  intro hmem
  rw [hlist] at hmem
  have hdigit : c.isDigit = true := Nat.isDigit_of_mem_toDigits (by decide) (by decide) hmem
  rw [hc] at hdigit
  cases hdigit

/-- A numeral is its own segment. -/
@[simp] theorem unescape_toString (i : Nat) : unescape (toString i) = toString i :=
  (unescape_eq_iff (not_mem_toString_of_not_isDigit (by decide) i)
    (not_mem_toString_of_not_isDigit (by decide) i)).2 rfl

/-- A segment stands for itself and can be written. -/
def IsPlain (segment : String) : Prop := '/' ∉ segment.toList ∧ unescape segment = segment

instance (segment : String) : Decidable (IsPlain segment) := inferInstanceAs (Decidable (_ ∧ _))

/-! ### Places further down -/

theorem place_push (p : Pointer) (segment : String) :
    (p.push segment).place = p.place ++ [unescape segment] := by
  simp [push, place]

@[simp] theorem place_member (p : Pointer) (name : String) :
    (p.member name).place = p.place ++ [name] := by
  rw [member, place_push, unescape_escape]

@[simp] theorem place_element (p : Pointer) (i : Nat) :
    (p.element i).place = p.place ++ [toString i] := by
  rw [element, place_push, unescape_toString]

/-! ### Written pointers -/

theorem toList_text (p : Pointer) :
    p.text.toList = (p.segments.map String.toList).flatMap (fun segment => '/' :: segment) := by
  have hfold (acc : String) (segments : List String) :
      (segments.foldl (fun acc s => acc ++ "/" ++ s) acc).toList
        = acc.toList ++ (segments.map String.toList).flatMap (fun segment => '/' :: segment) := by
    induction segments generalizing acc with
    | nil => simp
    | cons s segments ih =>
      rw [List.foldl_cons, ih]
      simp
  exact hfold "" p.segments

/-- No segment of a pointer has a slash in it. -/
def SlashFree (p : Pointer) : Prop := ∀ segment ∈ p.segments, '/' ∉ segment.toList

theorem slashFree_root : root.SlashFree := fun _ h => absurd h List.not_mem_nil

theorem SlashFree.push {p : Pointer} (hp : p.SlashFree) {segment : String}
    (hsegment : '/' ∉ segment.toList) : (p.push segment).SlashFree := by
  intro other hother
  rcases List.mem_append.1 hother with hbefore | hlast
  · exact hp other hbefore
  · rw [List.mem_singleton.1 hlast]
    exact hsegment

theorem SlashFree.member {p : Pointer} (hp : p.SlashFree) (name : String) :
    (p.member name).SlashFree :=
  hp.push (slash_not_mem_escape name)

theorem SlashFree.element {p : Pointer} (hp : p.SlashFree) (i : Nat) : (p.element i).SlashFree :=
  hp.push (not_mem_toString_of_not_isDigit (by decide) i)

/-- A pointer without slashes in its segments is read from its text. -/
theorem ofText?_text {p : Pointer} (hp : p.SlashFree) : ofText? p.text = some p := by
  unfold ofText?
  rw [toList_text]
  obtain ⟨segments⟩ := p
  cases segments with
  | nil => rfl
  | cons s segments =>
    have hparts : Text.split '/' (s.toList ++
        (segments.map String.toList).flatMap (fun segment => '/' :: segment))
          = (s :: segments).map String.toList := by
      rw [List.map_cons]
      apply Text.split_flatMap (hp s List.mem_cons_self)
      intro part hpart
      obtain ⟨segment, hsegment, rfl⟩ := List.mem_map.1 hpart
      exact hp segment (List.mem_cons_of_mem _ hsegment)
    simp only [List.map_cons, List.flatMap_cons, List.cons_append, hparts, Option.some.injEq,
      mk.injEq, List.map_map]
    simp [Function.comp_def]

theorem exists_split_of_ofText? {t : String} {p : Pointer} (h : ofText? t = some p) :
    (t.toList = [] ∧ p = root) ∨
      ∃ cs, t.toList = '/' :: cs ∧ p = ⟨(Text.split '/' cs).map String.ofList⟩ := by
  unfold ofText? at h
  split at h
  · rename_i hnil
    exact Or.inl ⟨hnil, (Option.some.inj h).symm⟩
  · rename_i cs hcs
    exact Or.inr ⟨cs, hcs, (Option.some.inj h).symm⟩
  · cases h

/-- A pointer that was read has no slashes in its segments. -/
theorem slashFree_of_ofText? {t : String} {p : Pointer} (h : ofText? t = some p) :
    p.SlashFree := by
  obtain ⟨-, rfl⟩ | ⟨cs, -, rfl⟩ := exists_split_of_ofText? h
  · exact slashFree_root
  · intro segment hsegment
    obtain ⟨part, hpart, rfl⟩ := List.mem_map.1 hsegment
    rw [String.toList_ofList]
    exact Text.not_mem_of_mem_split hpart

/-- What is written after a further slash adds segments to a pointer. -/
theorem ofText?_append {t : String} {p : Pointer} (h : ofText? t = some p) (more : String) :
    ofText? (t ++ "/" ++ more)
      = some ⟨p.segments ++ (Text.split '/' more.toList).map String.ofList⟩ := by
  have hlist : (t ++ "/" ++ more).toList = t.toList ++ '/' :: more.toList := by simp
  unfold ofText?
  rw [hlist]
  obtain ⟨hnil, rfl⟩ | ⟨cs, hcs, rfl⟩ := exists_split_of_ofText? h
  · rw [hnil]
    rfl
  · rw [hcs, List.cons_append]
    simp only [Text.split_append_split, List.map_append]

/-- A pointer that was read is written as it was. -/
theorem text_of_ofText? {t : String} {p : Pointer} (h : ofText? t = some p) : p.text = t := by
  rw [← String.toList_inj, toList_text]
  obtain ⟨hnil, rfl⟩ | ⟨cs, hcs, rfl⟩ := exists_split_of_ofText? h
  · exact hnil.symm
  · have hparts : ((Text.split '/' cs).map String.ofList).map String.toList
        = Text.split '/' cs := by
      simp [Function.comp_def]
    rw [hparts, Text.flatMap_eq_join (Text.split_ne_nil '/' cs), Text.join_split, hcs]

end Pointer

namespace Json

/-- The value at a written pointer. -/
def atText? (v : Json) (text : String) : Option Json := (Pointer.ofText? text).bind v.find?

/-- What is at the place of a pointer is found through its text. -/
theorem atText?_text (v : Json) {p : Pointer} (hp : p.SlashFree) :
    v.atText? p.text = v.at? p.place := by
  rw [atText?, Pointer.ofText?_text hp, Option.bind_some, find?_eq_at?]

example : (obj [("a/b", .arr [.null, .obj [("~", .bool true)]])]).atText? "/a~1b/1/~0"
    = some (.bool true) := by decide

/-- A pointer that can be written down leads to a value in a document. -/
structure LeadsTo (document : Json) (p : Pointer) (v : Json) : Prop where
  slashFree : p.SlashFree
  found : document.at? p.place = some v

namespace LeadsTo

variable {document v w : Json} {p : Pointer}

theorem root (document : Json) : document.LeadsTo .root document :=
  ⟨Pointer.slashFree_root, rfl⟩

theorem atText? (h : document.LeadsTo p v) : document.atText? p.text = some v := by
  rw [document.atText?_text h.slashFree, h.found]

theorem push (h : document.LeadsTo p v) {segment : String} (hsegment : Pointer.IsPlain segment)
    (hchild : v.child? segment = some w) : document.LeadsTo (p.push segment) w where
  slashFree := h.slashFree.push hsegment.1
  found := by
    rw [Pointer.place_push, hsegment.2, at?_append_of_eq_some h.found, at?_singleton, hchild]

theorem member {ms : Members} (h : document.LeadsTo p (.obj ms)) {name : String}
    (hget : ms.get? name = some v) : document.LeadsTo (p.member name) v where
  slashFree := h.slashFree.member name
  found := by
    rw [Pointer.place_member, at?_append_of_eq_some h.found, at?_singleton]
    exact hget

theorem element {xs : List Json} (h : document.LeadsTo p (.arr xs)) {i : Nat}
    (hx : xs[i]? = some v) : document.LeadsTo (p.element i) v where
  slashFree := h.slashFree.element i
  found := by
    rw [Pointer.place_element, at?_append_of_eq_some h.found, at?_singleton, child?_toString, hx]

end LeadsTo

end Json

end Relayout
