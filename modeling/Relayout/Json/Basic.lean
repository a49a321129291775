/-
  Relayout/Json/Basic.lean
  ========================
  **JSON values with the order of object members kept.**

  Schemas are read, migrated and printed with their members in the order in which
  they were written, so an object is a list of members and not a finite map.  The
  readers of this library build only objects without a repeated key; that property
  is the predicate `WellFormed`, stated beside the type rather than inside it, so
  that the recursive definitions of the library stay plain structural recursions.

  A number is either an integer or a double, and never both: `2` and `2.0` are
  different values and print differently.

  `Json` is the `Value` of the program, whose maps keep the order in which keys are set.
-/
import Relayout.Decimal.Double

namespace Relayout

/-- A JSON number: written without fraction and exponent, or a double. -/
inductive Number where
  | int (value : Int)
  | double (value : Double)
deriving DecidableEq, Repr, Inhabited

/-- A JSON value. Object members keep their order. -/
inductive Json where
  | null
  | bool (value : Bool)
  | num (value : Number)
  | str (value : String)
  | arr (elements : List Json)
  | obj (members : List (String × Json))
deriving Repr, Inhabited

/-- The members of an object, in order. -/
abbrev Members := List (String × Json)

/-! ### Equality -/

mutual

/-- Equality of values, order of members included, is decided by recursion. -/
def Json.decEq : (a b : Json) → Decidable (a = b)
  | .null, .null => isTrue rfl
  | .bool a, .bool b =>
    if h : a = b then isTrue (by rw [h]) else isFalse (fun e => h (Json.bool.inj e))
  | .num a, .num b =>
    if h : a = b then isTrue (by rw [h]) else isFalse (fun e => h (Json.num.inj e))
  | .str a, .str b =>
    if h : a = b then isTrue (by rw [h]) else isFalse (fun e => h (Json.str.inj e))
  | .arr a, .arr b =>
    match Json.decEqElements a b with
    | isTrue h => isTrue (by rw [h])
    | isFalse h => isFalse (fun e => h (Json.arr.inj e))
  | .obj a, .obj b =>
    match Json.decEqMembers a b with
    | isTrue h => isTrue (by rw [h])
    | isFalse h => isFalse (fun e => h (Json.obj.inj e))
  | .null, .bool _ | .null, .num _ | .null, .str _ | .null, .arr _ | .null, .obj _
  | .bool _, .null | .bool _, .num _ | .bool _, .str _ | .bool _, .arr _ | .bool _, .obj _
  | .num _, .null | .num _, .bool _ | .num _, .str _ | .num _, .arr _ | .num _, .obj _
  | .str _, .null | .str _, .bool _ | .str _, .num _ | .str _, .arr _ | .str _, .obj _
  | .arr _, .null | .arr _, .bool _ | .arr _, .num _ | .arr _, .str _ | .arr _, .obj _
  | .obj _, .null | .obj _, .bool _ | .obj _, .num _ | .obj _, .str _ | .obj _, .arr _ =>
    isFalse (fun e => by cases e)

/-- Equality of element lists. -/
def Json.decEqElements : (as bs : List Json) → Decidable (as = bs)
  | [], [] => isTrue rfl
  | [], _ :: _ => isFalse (fun e => by cases e)
  | _ :: _, [] => isFalse (fun e => by cases e)
  | a :: as, b :: bs =>
    match Json.decEq a b, Json.decEqElements as bs with
    | isTrue h, isTrue hs => isTrue (by rw [h, hs])
    | isFalse h, _ => isFalse (fun e => h (List.cons.inj e).1)
    | _, isFalse hs => isFalse (fun e => hs (List.cons.inj e).2)

/-- Equality of member lists. -/
def Json.decEqMembers : (as bs : Members) → Decidable (as = bs)
  | [], [] => isTrue rfl
  | [], _ :: _ => isFalse (fun e => by cases e)
  | _ :: _, [] => isFalse (fun e => by cases e)
  | (k, a) :: as, (l, b) :: bs =>
    if hk : k = l then
      match Json.decEq a b, Json.decEqMembers as bs with
      | isTrue h, isTrue hs => isTrue (by rw [hk, h, hs])
      | isFalse h, _ => isFalse (fun e => h (Prod.mk.inj (List.cons.inj e).1).2)
      | _, isFalse hs => isFalse (fun e => hs (List.cons.inj e).2)
    else isFalse (fun e => hk (Prod.mk.inj (List.cons.inj e).1).1)

end

instance : DecidableEq Json := Json.decEq

/-! ### Members by key -/

namespace Members

/-- The value of the first member with this key. -/
def get? : Members → String → Option Json
  | [], _ => none
  | (k, v) :: ms, key => if k = key then some v else get? ms key

/-- Whether some member has this key. -/
def has (ms : Members) (key : String) : Bool :=
  ms.any (fun m => m.1 == key)

/-- The keys, in order. -/
def keys (ms : Members) : List String :=
  ms.map Prod.fst

/-- Give the first member with this key another value, or append a member. -/
def insert : Members → String → Json → Members
  | [], key, value => [(key, value)]
  | (k, v) :: ms, key, value =>
    if k = key then (k, value) :: ms else (k, v) :: insert ms key value

/-- Collect members in which a repeated key keeps its first place and takes its last value. -/
def ofList (ms : List (String × Json)) : Members :=
  ms.foldl (fun acc m => insert acc m.1 m.2) []

theorem has_iff_mem_keys (ms : Members) (key : String) : has ms key = true ↔ key ∈ keys ms := by
  simp [has, keys]

theorem get?_eq_none_iff (ms : Members) (key : String) : get? ms key = none ↔ key ∉ keys ms := by
  induction ms with
  | nil => simp [get?, keys]
  | cons m ms ih =>
    obtain ⟨k, v⟩ := m
    by_cases h : k = key
    · simp [get?, keys, h]
    · have h' : ¬ key = k := fun e => h e.symm
      simpa [get?, keys, h, h'] using ih

/-- The keys after an insertion are the old ones, followed by the new one if it was absent. -/
theorem keys_insert (ms : Members) (key : String) (value : Json) :
    keys (insert ms key value) = if has ms key then keys ms else keys ms ++ [key] := by
  induction ms with
  | nil => simp [insert, keys, has]
  | cons m ms ih =>
    obtain ⟨k, v⟩ := m
    by_cases h : k = key
    · simp [insert, keys, has, h]
    · have ih' : List.map Prod.fst (insert ms key value)
          = if ms.any (fun m => m.1 == key) then List.map Prod.fst ms
            else List.map Prod.fst ms ++ [key] := ih
      simp only [insert, keys, has, h, if_false, List.map_cons, List.any_cons, ih']
      by_cases hb : ms.any (fun m => m.1 == key) = true <;> simp [h, hb]

end Members

namespace Json

/-- The member of an object with this key. -/
def get? : Json → String → Option Json
  | .obj ms, key => Members.get? ms key
  | _, _ => none

/-- The text of a string. -/
def asString? : Json → Option String
  | .str s => some s
  | _ => none

/-- The members of an object. -/
def asMembers? : Json → Option Members
  | .obj ms => some ms
  | _ => none

/-- The elements of an array. -/
def asElements? : Json → Option (List Json)
  | .arr xs => some xs
  | _ => none

/-! ### Values without repeated keys -/

mutual

/-- No object at any depth has two members with one key. -/
def WellFormed : Json → Prop
  | .arr xs => ElementsWellFormed xs
  | .obj ms => (Members.keys ms).Nodup ∧ MembersWellFormed ms
  | _ => True

/-- Every element is well formed. -/
def ElementsWellFormed : List Json → Prop
  | [] => True
  | x :: xs => WellFormed x ∧ ElementsWellFormed xs

/-- The value of every member is well formed. -/
def MembersWellFormed : Members → Prop
  | [] => True
  | (_, v) :: ms => WellFormed v ∧ MembersWellFormed ms

end

end Json

end Relayout
