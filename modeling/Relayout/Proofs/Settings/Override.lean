/-
  Relayout/Proofs/Settings/Override.lean
  ======================================
  **What a variable of the environment does to a setting.**

  The environment is laid over everything else.  A variable with the key of a setting replaces
  whatever was there, and a variable that does not reach the setting leaves it alone
  (`field?_layAtPath_of_not_reaches`), so of all that was given only this variable counts
  (`SettingField.get_override`).  Its text is not taken as it stands: it is read as a truth
  value, an integer or a float first, and a setting that is a text gets what was read, written
  in the plainest way (`Environment.shown`).  A migration with these settings gives the root
  exactly this text (`SettingsSources.load_override`).
-/
import Relayout.Migration.Transformer
import Relayout.Proofs.Decimal.Texts
import Relayout.Proofs.Draft07.Revalidation
import Relayout.Proofs.Settings.Layering

namespace Relayout

/-! ### What a path reaches -/

/-- What is laid at the end of some steps into a group can change what a name there has. -/
def Access.Lead (name : String) : List Access → Prop
  | [.child last] => foldKey last = name
  | .child next :: _ => next = name
  | _ => True

instance (name : String) (steps : List Access) : Decidable (Access.Lead name steps) :=
  match steps with
  | [.child last] => inferInstanceAs (Decidable (foldKey last = name))
  | .child next :: _ :: _ => inferInstanceAs (Decidable (next = name))
  | [] | .element _ :: _ => isTrue trivial

/-- What is laid at a path can change what a name in a group has. -/
def SettingPath.Reaches (group name : String) (path : SettingPath) : Prop :=
  (if path.steps = [] then foldKey path.first else path.first) = group ∧ Access.Lead name path.steps

instance (group name : String) (path : SettingPath) : Decidable (path.Reaches group name) :=
  inferInstanceAs (Decidable (_ ∧ _))

namespace Given

/-- Steps that do not lead to a name leave it alone, and lead into a table. -/
theorem get?_layBelow_of_not_lead {name : String} {steps : List Access}
    (h : ¬ Access.Lead name steps) (value here : Given) :
    (layBelow value steps here).entries.get? name = here.entries.get? name ∧
    (layBelow value steps here).isTable = true := by
  match steps, h with
  | [], h => exact absurd trivial h
  | .element _ :: _, h => exact absurd trivial h
  | [.child last], h =>
    have hlast : foldKey last ≠ name := h
    obtain ⟨w, hw⟩ := exists_layAt_eq_set last value here.entries
    rw [layBelow, entries_withEntries, hw, Entries.get?_set, if_neg hlast]
    exact ⟨rfl, isTable_withEntries _ _⟩
  | .child next :: step :: steps, h =>
    have hnext : next ≠ name := h
    rw [layBelow, entries_withEntries, Entries.get?_set, if_neg hnext]
    · exact ⟨rfl, isTable_withEntries _ _⟩
    · exact List.cons_ne_nil _ _

theorem layAtPath_of_ne_nil {path : SettingPath} (h : path.steps ≠ []) (value : Given)
    (entries : Entries) :
    layAtPath path value entries = entries.set path.first
      (layBelow value path.steps ((entries.get? path.first).getD nothing)) := by
  rw [layAtPath]
  split
  · contradiction
  · rfl

theorem field?_layAtPath_of_not_reaches {group name : String} {path : SettingPath}
    (h : ¬ path.Reaches group name) (value : Given) (entries : Entries) :
    (layAtPath path value entries).field? group name = entries.field? group name ∧
    (entries.HasTable group → (layAtPath path value entries).HasTable group) := by
  obtain ⟨first, steps⟩ := path
  by_cases hgroup : (if steps = [] then foldKey first else first) = group
  · -- the path leads into the group, and past the name there
    have hlead : ¬ Access.Lead name steps := fun hlead => h ⟨hgroup, hlead⟩
    have hsteps : steps ≠ [] := by
      rintro rfl
      exact hlead trivial
    rw [if_neg hsteps] at hgroup
    subst hgroup
    have hget : (layAtPath ⟨first, steps⟩ value entries).get? first =
        some (layBelow value steps ((entries.get? first).getD nothing)) := by
      rw [layAtPath_of_ne_nil hsteps, Entries.get?_set, if_pos rfl]
    obtain ⟨hkept, htable⟩ :=
      get?_layBelow_of_not_lead hlead value ((entries.get? first).getD nothing)
    constructor
    · rw [Entries.field?, hget]
      exact hkept
    · intro _ v hv
      rw [hget] at hv
      cases hv
      exact htable
  · have hget : (layAtPath ⟨first, steps⟩ value entries).get? group = entries.get? group := by
      apply get?_layAtPath_of_ne
      · intro hnil hfirst
        exact hgroup ((if_pos hnil).trans hfirst)
      · intro hsteps hfirst
        exact hgroup ((if_neg hsteps).trans hfirst)
    rw [Entries.field?, Entries.HasTable, Entries.HasTable, hget]
    exact ⟨rfl, id⟩

/-- After a source of which only one entry reaches a name, the name has the value of this
    entry, if the source has the entry or the name had the value before. -/
theorem field?_layer_eq_some {group name key last : String} {value : Given}
    (hvalue : value.isScalar = true) (hkey : SettingPath.ofKey key = ⟨group, [.child last]⟩)
    (hlast : foldKey last = name) {above : Entries}
    (honly : ∀ e ∈ above, (SettingPath.ofKey e.1).Reaches group name → e = (key, value))
    {below : Entries} (h : (key, value) ∈ above ∨
      below.field? group name = some value ∧ below.HasTable group) :
    (layer below above).field? group name = some value ∧ (layer below above).HasTable group := by
  rw [layer]
  induction above generalizing below with
  | nil => exact h.resolve_left List.not_mem_nil
  | cons e above ih =>
    obtain ⟨he, hrest⟩ := List.forall_mem_cons.1 honly
    rw [List.foldl_cons, layAtKey_eq_layAtPath]
    have hlaid : (layAtPath (SettingPath.ofKey key) value below).field? group name = some value ∧
        (layAtPath (SettingPath.ofKey key) value below).HasTable group := by
      rw [hkey]
      obtain ⟨hgets, htable⟩ := layAtPath_child hvalue group last name below
      exact ⟨by rw [hgets, if_pos hlast], htable⟩
    -- once laid, the value stays; an entry that does not reach the name leaves what was there
    apply ih hrest
    by_cases hreaches : (SettingPath.ofKey e.1).Reaches group name
    · rw [he hreaches]
      exact Or.inr hlaid
    · obtain ⟨hkept, htable⟩ := field?_layAtPath_of_not_reaches hreaches e.2 below
      rcases h with hmem | ⟨hhas, hbelow⟩
      · rcases List.mem_cons.1 hmem with heq | hmem
        · subst heq
          exact Or.inr hlaid
        · exact Or.inl hmem
      · exact Or.inr ⟨hkept.trans hhas, htable hbelow⟩

end Given

/-! ### Variables -/

namespace Environment

/-- The text that stands for the text of a variable where a text is wanted: a truth value, an
    integer or a float in its plainest form, and any other text itself. -/
def shown (text : String) : String :=
  if foldKey text = "true" then "true"
  else if foldKey text = "false" then "false"
  else
    match Decimal.integer? text.toList, Decimal.float? text.toList with
    | some n, _ => toString n
    | none, some x => Decimal.Style.plain.write x
    | none, none => text

/-- A text reads neither as a truth value nor as a number. -/
structure IsPlainText (text : String) : Prop where
  not_true : foldKey text ≠ "true"
  not_false : foldKey text ≠ "false"
  not_integer : Decimal.integer? text.toList = none
  not_float : Decimal.float? text.toList = none

/-- A text with a character of no number and of no word for one is plain. -/
theorem IsPlainText.of_mem {text : String} {c : Char} (hc : Decimal.IsForeign c)
    (hmem : c ∈ text.toList) : IsPlainText text where
  not_true := hc.map_toLower_ne hmem (by decide)
  not_false := hc.map_toLower_ne hmem (by decide)
  not_integer := hc.integer?_eq_none hmem
  not_float := hc.float?_eq_none hmem

theorem IsPlainText.shown_eq {text : String} (h : IsPlainText text) : shown text = text := by
  rw [shown, if_neg h.not_true, if_neg h.not_false, h.not_integer, h.not_float]

theorem toText?_scalar (origin : Option String) (text : String) :
    (Given.scalar origin (scalar text)).toText? = some (shown text) := by
  rw [scalar, shown]
  split
  · rfl
  · split
    · rfl
    · cases Decimal.integer? text.toList with
      | some n => rfl
      | none => cases Decimal.float? text.toList <;> rfl

theorem isScalar_scalar (origin : Option String) (text : String) :
    (Given.scalar origin (scalar text)).isScalar = true := by
  cases hscalar : scalar text with
  | null =>
    have htext := toText?_scalar origin text
    rw [hscalar] at htext
    cases htext
  | bool | int | float | text => rfl

theorem isBlankText_shown {text : String} (h : Text.isBlankText text = false) :
    Text.isBlankText (shown text) = false := by
  rw [shown]
  split
  · decide
  · split
    · decide
    · split
      · exact Text.isBlankText_toString_int _
      · exact Decimal.Style.isBlankText_write_plain _
      · exact h

theorem mem_given {settings : List (String × String)} {e : String × Given} :
    e ∈ given settings ↔
      ∃ v ∈ settings, ∃ key, key? v.1 = some key ∧ (key, .scalar (some origin) (scalar v.2)) = e := by
  simp [given]

end Environment

/-! ### Settings -/

/-- Where the environment has a variable with the key of a setting and no other variable that
    reaches it, nothing else counts for the setting. -/
theorem SettingField.get_override {α : Type} (f : SettingField α) {name key text : String}
    {settings : List (String × String)} (hmem : (name, text) ∈ settings)
    (hname : Environment.key? name = some key)
    (hkey : SettingPath.ofKey key = ⟨f.group, [.child f.name]⟩) (hfold : foldKey f.name = f.name)
    (honly : ∀ v ∈ settings, ∀ other ∈ Environment.key? v.1,
      (SettingPath.ofKey other).Reaches f.group f.name → v = (name, text))
    (below : List Given.Entries) :
    f.get (Given.layers (below ++ [Environment.given settings])) =
      f.read f.key (.scalar (some Environment.origin) (Environment.scalar text)) := by
  have hlayers : Given.layers (below ++ [Environment.given settings]) =
      Given.layer (Given.layers below) (Environment.given settings) := by
    rw [Given.layers, List.foldl_append]
    rfl
  have honlyEntry : ∀ e ∈ Environment.given settings,
      (SettingPath.ofKey e.1).Reaches f.group f.name →
        e = (key, .scalar (some Environment.origin) (Environment.scalar text)) := by
    intro e he hreaches
    obtain ⟨v, hv, other, hother, rfl⟩ := Environment.mem_given.1 he
    obtain rfl := honly v hv other hother hreaches
    rw [hname] at hother
    cases hother
    rfl
  have hentry : (key, Given.scalar (some Environment.origin) (Environment.scalar text)) ∈
      Environment.given settings :=
    Environment.mem_given.2 ⟨_, hmem, key, hname, rfl⟩
  have hvalue := Environment.isScalar_scalar (some Environment.origin) text
  rw [hlayers]
  obtain ⟨hfield, htable⟩ :=
    Given.field?_layer_eq_some hvalue hkey hfold honlyEntry (Or.inl hentry)
  rw [f.get_eq_of_hasTable htable, hfield]

/-- What a run makes of an object without an identity is an object that ends with the identity
    of the settings. -/
theorem Transformer.schema_run_of_not_mem {settings : Settings} {table : Table}
    {validator : Option Validator} {root : Members} {m : Migration}
    (h : ((ofSettings settings table validator).run (.obj root)).result = .ok m)
    (hnone : "$id" ∉ root.keys) :
    ∃ ns : Members, "$id" ∉ ns.keys ∧ m.schema = .obj (ns ++ [("$id", .str settings.rootId)]) := by
  obtain ⟨schema, hwalk, hstamped⟩ := exists_walk_of_run h
  have hyields := Dialect.yields_walk hwalk
  obtain ⟨ns, rfl⟩ := hyields.exists_obj
  have hfresh : "$id" ∉ Members.keys ns := fun hmem => hnone (hyields.id_mem_iff.1 hmem)
  exact ⟨ns, hfresh, hstamped.trans ((Json.stamped_cases settings.rootId _).1 ns rfl hfresh)⟩

namespace SettingsSources

/-- **The identity that a variable of the environment gives.**  Whatever the files say and
    whatever other variables give, loading succeeds if the text of the variable is not blank,
    no other variable reaches the setting and the count is acceptable.  The identity is the text
    as it is shown, which is the text itself if it reads neither as a truth value nor as a
    number, as no text does with a character that is foreign to them.  A migration gives
    exactly this identity to every object without one. -/
theorem load_override {s : SettingsSources} (r : s.Readings) {text : String} {count : Nat}
    (hmem : ("LAYOUT_COMPAT__TRANSFORM__ROOT_ID", text) ∈ s.environment)
    (honly : ∀ v ∈ s.environment, ∀ key ∈ Environment.key? v.1,
      (SettingPath.ofKey key).Reaches "transform" "root_id" →
        v = ("LAYOUT_COMPAT__TRANSFORM__ROOT_ID", text))
    (htext : Text.isBlankText text = false)
    (hcount : Settings.minPathSegmentsField.get (Given.layers r.fromHighest.reverse) = .ok count)
    (hzero : count ≠ 0) :
    s.load = .ok ⟨Environment.shown text, count⟩ ∧
    (Environment.IsPlainText text → Environment.shown text = text) ∧
    ((∃ c ∈ text.toList, Decimal.IsForeign c) → Environment.IsPlainText text) ∧
    ∀ (table : Table) (validator : Option Validator) (root : Members) (m : Migration),
      ((Transformer.ofSettings ⟨Environment.shown text, count⟩ table validator).run
          (.obj root)).result = .ok m →
        "$id" ∉ root.keys →
          ∃ ns : Members, "$id" ∉ ns.keys ∧
            m.schema = .obj (ns ++ [("$id", .str (Environment.shown text))]) := by
  have hrootId : Settings.rootIdField.get (Given.layers r.fromHighest.reverse)
      = .ok (Environment.shown text) := by
    have hreverse : r.fromHighest.reverse =
        [r.project, r.hidden, r.nested, r.user, r.explicit] ++ [Environment.given s.environment] :=
      rfl
    have hname : Environment.key? "LAYOUT_COMPAT__TRANSFORM__ROOT_ID" = some "transform.root_id" := by
      decide
    rw [hreverse, Settings.rootIdField.get_override hmem hname (by decide) (by decide) honly]
    simp [SettingField.read, Settings.rootIdField, Environment.toText?_scalar]
  refine ⟨?_, Environment.IsPlainText.shown_eq, ?_, ?_⟩
  · rw [load_eq_ok_iff r.given_eq]
    exact ⟨hrootId, hcount, Environment.isBlankText_shown htext, hzero⟩
  · rintro ⟨c, hmem, hc⟩
    exact .of_mem hc hmem
  · intro table validator root m hrun hnone
    exact Transformer.schema_run_of_not_mem hrun hnone

/-- A file, a variable with a float for the identity and a variable for the count. -/
def overriddenSources : SettingsSources where
  files := [("layout-compat.toml", "[transform]\nroot_id = \"base\"\n")]
  user := none
  explicit := none
  environment := [("LAYOUT_COMPAT__TRANSFORM__ROOT_ID", "+1.50"),
    ("layout_compat__templates__min_path_segments", "3")]

def overriddenReadings : overriddenSources.Readings where
  project := [("transform", .table (some "layout-compat.toml")
    [("root_id", .scalar (some "layout-compat.toml") (.text "base"))])]
  hidden := []
  nested := []
  user := []
  explicit := []
  project_eq := by decide +kernel
  hidden_eq := by decide +kernel
  nested_eq := by decide +kernel
  user_eq := rfl
  explicit_eq := rfl

/-- The identity is the float in its plainest form, and a run gives it to the empty object. -/
theorem load_override_overriddenSources :
    overriddenSources.load = .ok ⟨"1.5", 3⟩ ∧
    ((Transformer.ofSettings ⟨"1.5", 3⟩ Table.builtin none).run (.obj [])).result
      = .ok ⟨.obj [("$id", .str "1.5")], []⟩ ∧
    ∃ ns : Members, "$id" ∉ ns.keys ∧
      Json.obj [("$id", .str "1.5")] = .obj (ns ++ [("$id", .str "1.5")]) := by
  have hshown : Environment.shown "+1.50" = "1.5" := by decide +kernel
  have hrun : ((Transformer.ofSettings ⟨"1.5", 3⟩ Table.builtin none).run (.obj [])).result
      = .ok ⟨.obj [("$id", .str "1.5")], []⟩ := Trace.result_eq_ok_of_toOption (by decide +kernel)
  have hmem : ("LAYOUT_COMPAT__TRANSFORM__ROOT_ID", "+1.50") ∈ overriddenSources.environment := by
    decide
  have hcount : Settings.minPathSegmentsField.get
      (Given.layers overriddenReadings.fromHighest.reverse) = .ok 3 := by
    decide +kernel
  have hloaded := load_override overriddenReadings hmem (by decide +kernel) (by decide) hcount
    (by decide)
  rw [hshown] at hloaded
  exact ⟨hloaded.1, hrun, hloaded.2.2.2 _ _ _ _ hrun (by decide)⟩

/-- A text of digits that begins with zeros is not kept. -/
theorem load_leading_zeros :
    Text.isBlankText "007" = false ∧
    SettingsSources.load ⟨[], none, none, [("LAYOUT_COMPAT__TRANSFORM__ROOT_ID", "007")]⟩
      = .ok ⟨"7", 2⟩ ∧
    ((Transformer.ofSettings ⟨"7", 2⟩ Table.builtin none).run (.obj [])).result
      = .ok ⟨.obj [("$id", .str "7")], []⟩ ∧
    "7" ≠ "007" :=
  ⟨by decide, by decide +kernel, Trace.result_eq_ok_of_toOption (by decide +kernel), by decide⟩

end SettingsSources

end Relayout
