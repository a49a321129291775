/-
  Relayout/Proofs/Settings/Layering.lean
  ======================================
  **What settings come out of sources that are laid over each other.**

  A source says something of a setting in two ways: with a table for its group, or with a
  path that ends in its name.  Where a source makes nothing but tables of scalars of the group,
  laying one of its entries over what is there gives the setting the last value that the entry
  says, and leaves it alone if the entry says none (`field?_layAtPath`).  So after all sources
  the last value that any of them says is left (`field?_layers`): each setting is decided by
  the highest source that says it, whatever the others say (`SettingsSources.load_layered`).
-/
import Mathlib.Data.List.Induction
import Relayout.Proofs.Outcome
import Relayout.Settings.Sources

namespace Relayout

/-! ### Entries -/

namespace Given

theorem Entries.get?_set (entries : Entries) (key : String) (value : Given) (other : String) :
    (entries.set key value).get? other = if key = other then some value else entries.get? other := by
  induction entries with
  | nil => rfl
  | cons e entries ih =>
    obtain ⟨k, v⟩ := e
    rw [Entries.set]
    by_cases hk : k = key
    · subst hk
      by_cases ho : k = other <;> simp [Entries.get?, ho]
    · rw [if_neg hk, Entries.get?, Entries.get?, ih]
      by_cases ho : k = other
      · subst ho
        simp [Ne.symm hk]
      · simp [ho]

def isTable : Given → Bool
  | .table _ _ => true
  | _ => false

/-- A value has no parts and is not null. -/
def isScalar : Given → Bool
  | .scalar _ value => value ≠ .null
  | _ => false

theorem entries_withEntries (v : Given) (entries : Entries) :
    (v.withEntries entries).entries = entries := by
  cases v <;> rfl

theorem isTable_withEntries (v : Given) (entries : Entries) : (v.withEntries entries).isTable = true := by
  cases v <;> rfl

theorem layAt_of_isScalar {value : Given} (h : value.isScalar = true) (key : String) (entries : Entries) :
    layAt key value entries = entries.set (foldKey key) value := by
  cases value with
  | scalar origin s => rw [layAt]; simp
  | list origin items => cases h
  | table origin inner => cases h

theorem exists_layAt_eq_set (key : String) (value : Given) (entries : Entries) :
    ∃ w, layAt key value entries = entries.set (foldKey key) w := by
  cases value with
  | scalar origin s => exact ⟨_, by rw [layAt]; simp⟩
  | list origin items => exact ⟨_, by rw [layAt]; simp⟩
  | table origin inner => exact ⟨_, by rw [layAt]⟩

end Given

/-! ### Keys and settings -/

/-- The path that a key at the top level of a source stands for: a key that writes no path is a
    plain name. -/
def SettingPath.ofKey (key : String) : SettingPath := (SettingPath.ofKey? key).getD ⟨key, []⟩

namespace SettingPath

/-- A value at a path makes nothing but a table of scalars of a group: it is a table of scalars
    for the group, or a scalar for one name in it, or has to do with something else. -/
def Tabular (group : String) (value : Given) : SettingPath → Prop
  | ⟨first, []⟩ =>
    foldKey first = group → value.isTable = true ∧ ∀ i ∈ value.entries, i.2.isScalar = true
  | ⟨first, [.child _]⟩ => first = group → value.isScalar = true
  | ⟨first, _⟩ => first ≠ group

instance (group : String) (value : Given) (path : SettingPath) :
    Decidable (path.Tabular group value) :=
  match path with
  | ⟨first, []⟩ =>
    inferInstanceAs (Decidable (foldKey first = group →
      value.isTable = true ∧ ∀ i ∈ value.entries, i.2.isScalar = true))
  | ⟨first, [.child _]⟩ => inferInstanceAs (Decidable (first = group → value.isScalar = true))
  | ⟨first, .child _ :: _ :: _⟩ | ⟨first, .element _ :: _⟩ =>
    inferInstanceAs (Decidable (first ≠ group))

/-- The values that a value at a path says for a name in a group, in their order. Names are
    compared in lower case, but on a path all except the last one as they are written. -/
def said (group name : String) (value : Given) : SettingPath → List Given
  | ⟨first, []⟩ =>
    if foldKey first = group then
      (value.entries.filter (fun i => foldKey i.1 = name)).map Prod.snd
    else []
  | ⟨first, [.child last]⟩ => if first = group ∧ foldKey last = name then [value] else []
  | _ => []

theorem said_eq_nil {first group : String} {steps : List Access} (hsteps : steps ≠ [])
    (hfirst : first ≠ group) (name : String) (value : Given) :
    said group name value ⟨first, steps⟩ = [] := by
  unfold said
  split <;> simp_all

end SettingPath

theorem Given.layAtKey_eq_layAtPath (key : String) (value : Given) (entries : Given.Entries) :
    layAtKey key value entries = layAtPath (SettingPath.ofKey key) value entries := by
  rw [layAtKey, SettingPath.ofKey]
  cases SettingPath.ofKey? key <;> rfl

namespace Given

def Entries.field? (entries : Entries) (group name : String) : Option Given :=
  ((entries.get? group).getD nothing).entries.get? name

def Entries.HasTable (entries : Entries) (group : String) : Prop :=
  ∀ v, entries.get? group = some v → v.isTable = true

theorem get?_layAtPath_of_ne {path : SettingPath} {group : String} (hplain : path.steps = [] →
    foldKey path.first ≠ group) (hpath : path.steps ≠ [] → path.first ≠ group) (value : Given)
    (entries : Entries) : (layAtPath path value entries).get? group = entries.get? group := by
  obtain ⟨first, steps⟩ := path
  cases steps with
  | nil =>
    obtain ⟨w, hw⟩ := exists_layAt_eq_set first value entries
    rw [layAtPath, hw, Entries.get?_set, if_neg (hplain rfl)]
  | cons step steps =>
    rw [layAtPath, Entries.get?_set, if_neg (hpath (List.cons_ne_nil _ _))]

/-- Laying entries with scalars over a table gives each name the last value that they say. -/
theorem layAll_spec {incoming : Entries} (hscalar : ∀ i ∈ incoming, i.2.isScalar = true) (target : Given)
    (name : String) :
    (layAll incoming target).entries.get? name =
      ((incoming.filter (fun i => foldKey i.1 = name)).map Prod.snd).getLast?.or
        (target.entries.get? name) ∧
    (target.isTable = true → (layAll incoming target).isTable = true) := by
  induction incoming generalizing target with
  | nil => exact ⟨by simp [layAll], fun h => by rwa [layAll]⟩
  | cons i incoming ih =>
    obtain ⟨k, v⟩ := i
    obtain ⟨hv, hrest⟩ := List.forall_mem_cons.1 hscalar
    obtain ⟨hget, htable⟩ := ih hrest (target.withEntries (layAt k v target.entries))
    rw [layAll]
    refine ⟨?_, fun _ => htable (isTable_withEntries _ _)⟩
    rw [hget, entries_withEntries, layAt_of_isScalar hv, Entries.get?_set, List.filter_cons]
    by_cases hk : foldKey k = name
    · simp [hk, List.getLast?_cons]
    · simp [hk]

/-- Laying a scalar at the path of a name gives the name this value and makes the group a
    table, whatever it was. -/
theorem layAtPath_child {value : Given} (h : value.isScalar = true) (group last name : String)
    (entries : Entries) :
    (layAtPath ⟨group, [.child last]⟩ value entries).field? group name =
      (if foldKey last = name then some value else entries.field? group name) ∧
    (layAtPath ⟨group, [.child last]⟩ value entries).HasTable group := by
  have hget : (layAtPath ⟨group, [.child last]⟩ value entries).get? group =
      some (((entries.get? group).getD nothing).withEntries
        (layAt last value ((entries.get? group).getD nothing).entries)) := by
    rw [layAtPath, Entries.get?_set, if_pos rfl, layBelow]
  constructor
  · rw [Entries.field?, hget, Option.getD_some, entries_withEntries, layAt_of_isScalar h,
      Entries.get?_set]
    rfl
  · intro v hv
    rw [hget] at hv
    cases hv
    exact isTable_withEntries _ _

/-- Laying a table of scalars at a group gives each name the last value that the table says. -/
theorem layAtPath_table {value : Given} {first : String} (htable : value.isTable = true)
    (hscalar : ∀ i ∈ value.entries, i.2.isScalar = true) (name : String) {entries : Entries}
    (hhas : entries.HasTable (foldKey first)) :
    (layAtPath ⟨first, []⟩ value entries).field? (foldKey first) name =
      ((value.entries.filter (fun i => foldKey i.1 = name)).map Prod.snd).getLast?.or
        (entries.field? (foldKey first) name) ∧
    (layAtPath ⟨first, []⟩ value entries).HasTable (foldKey first) := by
  cases value with
  | scalar origin s => cases htable
  | list origin items => cases htable
  | table origin inner =>
    have hget : (layAtPath ⟨first, []⟩ (.table origin inner) entries).get? (foldKey first) =
        some (layAll inner ((entries.get? (foldKey first)).getD (merged []))) := by
      rw [layAtPath, layAt, Entries.get?_set, if_pos rfl]
    have hinner : ∀ i ∈ inner, i.2.isScalar = true := hscalar
    obtain ⟨hvalue, hkeeps⟩ :=
      layAll_spec hinner ((entries.get? (foldKey first)).getD (merged [])) name
    constructor
    · rw [Entries.field?, hget, Option.getD_some, hvalue, Entries.field?]
      cases entries.get? (foldKey first) <;> rfl
    · intro v hv
      rw [hget] at hv
      cases hv
      apply hkeeps
      cases hold : entries.get? (foldKey first) with
      | none => rfl
      | some old => exact hhas old hold

theorem field?_layAtPath {group : String} {value : Given} {path : SettingPath}
    (h : path.Tabular group value) (name : String) {entries : Entries}
    (hhas : entries.HasTable group) :
    (layAtPath path value entries).field? group name =
      (path.said group name value).getLast?.or (entries.field? group name) ∧
    (layAtPath path value entries).HasTable group := by
  obtain ⟨first, steps⟩ := path
  have hother (hplain : steps = [] → foldKey first ≠ group) (hpath : steps ≠ [] → first ≠ group) :
      (layAtPath ⟨first, steps⟩ value entries).field? group name = entries.field? group name ∧
      (layAtPath ⟨first, steps⟩ value entries).HasTable group := by
    rw [Entries.field?, Entries.HasTable, get?_layAtPath_of_ne hplain hpath]
    exact ⟨rfl, hhas⟩
  cases steps with
  | nil =>
    by_cases hfirst : foldKey first = group
    · subst hfirst
      obtain ⟨htable, hscalar⟩ := h rfl
      simpa [SettingPath.said] using layAtPath_table htable hscalar name hhas
    · simpa [SettingPath.said, hfirst] using hother (fun _ => hfirst) (fun hne => absurd rfl hne)
  | cons step steps =>
    by_cases hfirst : first = group
    · subst hfirst
      match step, steps, h with
      | .child last, [], h =>
        obtain ⟨hvalue, hkeeps⟩ := layAtPath_child (h rfl) first last name entries
        refine ⟨?_, hkeeps⟩
        rw [hvalue]
        by_cases hlast : foldKey last = name <;> simp [SettingPath.said, hlast]
      | .child _, _ :: _, h => exact absurd rfl h
      | .element _, _, h => exact absurd rfl h
    · rw [SettingPath.said_eq_nil (List.cons_ne_nil _ _) hfirst]
      exact hother (fun hnil => nomatch hnil) (fun _ => hfirst)

/-! ### Sources -/

/-- A source makes nothing but a table of scalars of a group. -/
def Entries.Tabular (group : String) (source : Entries) : Prop :=
  ∀ e ∈ source, (SettingPath.ofKey e.1).Tabular group e.2

instance (group : String) (source : Entries) : Decidable (source.Tabular group) :=
  inferInstanceAs (Decidable (∀ e ∈ source, _))

/-- The values that a source says for a name in a group, in their order. -/
def Entries.said (group name : String) (source : Entries) : List Given :=
  source.flatMap (fun e => (SettingPath.ofKey e.1).said group name e.2)

/-- Laying a source over what is there gives a name the last value that the source says. -/
theorem field?_layer {group : String} {above : Entries} (h : above.Tabular group) (name : String)
    {below : Entries} (hhas : below.HasTable group) :
    (layer below above).field? group name =
      (above.said group name).getLast?.or (below.field? group name) ∧
    (layer below above).HasTable group := by
  rw [layer]
  -- each entry takes over from the one before it, and leaves a table
  induction above generalizing below with
  | nil => exact ⟨rfl, hhas⟩
  | cons e above ih =>
    obtain ⟨he, hrest⟩ := List.forall_mem_cons.1 h
    rw [List.foldl_cons, layAtKey_eq_layAtPath]
    obtain ⟨hvalue, hkeeps⟩ := field?_layAtPath he name hhas
    obtain ⟨hlast, hkept⟩ := ih hrest hkeeps
    refine ⟨?_, hkept⟩
    rw [hlast, hvalue, Entries.said, Entries.said, List.flatMap_cons, List.getLast?_append,
      Option.or_assoc]

/-- After all sources, a name has the last value that any of them says. -/
theorem field?_layers {group : String} {sources : List Entries}
    (h : ∀ source ∈ sources, source.Tabular group) (name : String) :
    (layers sources).field? group name =
      (sources.flatMap (Entries.said group name)).getLast? ∧
    (layers sources).HasTable group := by
  rw [layers]
  induction sources using List.reverseRecOn with
  | nil => exact ⟨rfl, fun v hv => nomatch hv⟩
  | append_singleton sources source ih =>
    obtain ⟨hvalue, hkeeps⟩ := ih (fun other hmem => h other (List.mem_append_left _ hmem))
    rw [List.foldl_append, List.flatMap_append, List.flatMap_singleton, List.getLast?_append,
      ← hvalue]
    exact field?_layer (h source (by simp)) name hkeeps

/-- Where no source says a name twice, the last value that is said is that of the first source
    that says one, counted from the highest. -/
theorem getLast?_flatMap_eq_findSome? {sources : List Entries} {group name : String}
    (h : ∀ source ∈ sources, (source.said group name).length ≤ 1) :
    (sources.flatMap (Entries.said group name)).getLast? =
      sources.reverse.findSome? (fun source => (source.said group name).head?) := by
  induction sources using List.reverseRecOn with
  | nil => rfl
  | append_singleton sources source ih =>
    have hlast : (source.said group name).getLast? = (source.said group name).head? := by
      have hlength := h source (by simp)
      match source.said group name, hlength with
      | [], _ => rfl
      | [v], _ => rfl
    rw [List.flatMap_append, List.flatMap_singleton, List.getLast?_append, hlast,
      ih (fun other hmem => h other (List.mem_append_left _ hmem)), List.reverse_concat,
      List.findSome?_cons]
    cases (source.said group name).head? <;> rfl

end Given

/-! ### Settings -/

namespace SettingField

variable {α : Type} (f : SettingField α)

/-- A source says a setting in a table of scalars, and not twice. -/
structure IsOrderly (source : Given.Entries) : Prop where
  tabular : source.Tabular f.group
  once : (source.said f.group f.name).length ≤ 1

instance (source : Given.Entries) : Decidable (f.IsOrderly source) :=
  decidable_of_iff (source.Tabular f.group ∧ (source.said f.group f.name).length ≤ 1)
    ⟨fun h => ⟨h.1, h.2⟩, fun h => ⟨h.tabular, h.once⟩⟩

/-- The value that decides a setting: that of the first of the sources that says one. -/
def deciding? (sources : List Given.Entries) : Option Given :=
  sources.findSome? (fun source => (source.said f.group f.name).head?)

/-- What a setting is by sources, the highest one first: the value that decides it, converted,
    or its default. -/
def decided (sources : List Given.Entries) : Except String α :=
  match f.deciding? sources with
  | some v => f.convert v
  | none => .ok f.default

def key : String := f.group ++ "." ++ f.name

/-- Where a group is a table, only the value of the setting in it counts. -/
theorem get_eq_of_hasTable {entries : Given.Entries} (h : entries.HasTable f.group) :
    f.get entries =
      match entries.field? f.group f.name with
      | some v => f.read f.key v
      | none => .ok f.default := by
  rw [get, Given.Entries.field?]
  cases hgroup : entries.get? f.group with
  | none => rfl
  | some v =>
    cases v with
    | scalar origin s => exact absurd (h _ hgroup) (by simp [Given.isTable])
    | list origin items => exact absurd (h _ hgroup) (by simp [Given.isTable])
    | table origin inner => rfl

/-- Each setting is decided by the highest source that says it. -/
theorem get_layers {sources : List Given.Entries}
    (h : ∀ source ∈ sources, f.IsOrderly source) :
    f.get (Given.layers sources) =
      match f.deciding? sources.reverse with
      | some v => f.read f.key v
      | none => .ok f.default := by
  obtain ⟨hvalue, htable⟩ := Given.field?_layers (fun source hs => (h source hs).tabular) f.name
  rw [f.get_eq_of_hasTable htable, hvalue,
    Given.getLast?_flatMap_eq_findSome? (fun source hs => (h source hs).once), deciding?]

theorem get_layers_eq_ok_iff {sources : List Given.Entries}
    (h : ∀ source ∈ sources, f.IsOrderly source) {a : α} :
    f.get (Given.layers sources) = .ok a ↔ f.decided sources.reverse = .ok a := by
  rw [f.get_layers h, decided]
  cases f.deciding? sources.reverse with
  | none => simp
  | some v =>
    simp only [read]
    cases f.convert v <;> simp

end SettingField

namespace SettingsSources

def ofUser (s : SettingsSources) : Except SettingsError Given.Entries :=
  s.user.elim (.ok []) (fun file => Format.toml.read file.1 file.2)

def ofExplicit (s : SettingsSources) : Except SettingsError Given.Entries :=
  s.explicit.elim (.ok []) s.files.required

theorem given_eq_bind (s : SettingsSources) :
    s.given = (projectFiles.mapM s.files.optional).bind fun project =>
      s.ofUser.bind fun user => s.ofExplicit.bind fun explicit =>
        .ok (project ++ [user, explicit, Environment.given s.environment]) := by
  rw [given, ofUser, ofExplicit]
  cases s.user <;> cases s.explicit <;> rfl

/-- What the files of some sources give, each of which can be read; the file that was asked for
    is there. -/
structure Readings (s : SettingsSources) where
  project : Given.Entries
  hidden : Given.Entries
  nested : Given.Entries
  user : Given.Entries
  explicit : Given.Entries
  project_eq : s.files.optional "layout-compat.toml" = .ok project
  hidden_eq : s.files.optional ".layout-compat.toml" = .ok hidden
  nested_eq : s.files.optional "config/layout-compat.toml" = .ok nested
  user_eq : s.ofUser = .ok user
  explicit_eq : s.ofExplicit = .ok explicit

/-- What each source gives, the highest one first. -/
def Readings.fromHighest {s : SettingsSources} (r : s.Readings) : List Given.Entries :=
  [Environment.given s.environment, r.explicit, r.user, r.nested, r.hidden, r.project]

theorem Readings.given_eq {s : SettingsSources} (r : s.Readings) :
    s.given = .ok r.fromHighest.reverse := by
  have hproject : projectFiles.mapM s.files.optional = .ok [r.project, r.hidden, r.nested] := by
    simp [projectFiles, r.project_eq, r.hidden_eq, r.nested_eq, bind, Except.bind, pure, Except.pure]
  rw [given_eq_bind, hproject, r.user_eq, r.explicit_eq]
  rfl

/-- Settings are loaded exactly if both of them are read and a migration can run with them. -/
theorem load_eq_ok_iff {s : SettingsSources} {sources : List Given.Entries}
    (h : s.given = .ok sources) {settings : Settings} :
    s.load = .ok settings ↔
      Settings.rootIdField.get (Given.layers sources) = .ok settings.rootId ∧
      Settings.minPathSegmentsField.get (Given.layers sources) = .ok settings.minPathSegments ∧
      Text.isBlankText settings.rootId = false ∧ settings.minPathSegments ≠ 0 := by
  simp only [load, h, Settings.ofGiven, bind_eq_ok_iff]
  constructor
  · rintro ⟨_, ⟨⟩, found, ⟨rootId, hrootId, count, hcount, ⟨⟩⟩, hcheck⟩
    unfold Settings.check at hcheck
    split at hcheck
    · cases hcheck
    · rename_i hblank
      split at hcheck
      · cases hcheck
      · rename_i hzero
        cases hcheck
        exact ⟨hrootId, hcount, by simpa using hblank, hzero⟩
  · rintro ⟨hrootId, hcount, hblank, hzero⟩
    refine ⟨_, rfl, settings, ⟨_, hrootId, _, hcount, rfl⟩, ?_⟩
    rw [Settings.check, if_neg (by simp [hblank]), if_neg hzero]

/-- The settings that sources give together: each is decided by the highest source that says it
    and by no other, and loading fails exactly if a value that decides does not convert, the
    identity is blank or the count is zero. -/
theorem load_layered {s : SettingsSources} (r : s.Readings)
    (hrootId : ∀ source ∈ r.fromHighest, Settings.rootIdField.IsOrderly source)
    (hcount : ∀ source ∈ r.fromHighest, Settings.minPathSegmentsField.IsOrderly source) :
    (∀ settings, s.load = .ok settings ↔
      Settings.rootIdField.decided r.fromHighest = .ok settings.rootId ∧
      Settings.minPathSegmentsField.decided r.fromHighest = .ok settings.minPathSegments ∧
      Text.isBlankText settings.rootId = false ∧ settings.minPathSegments ≠ 0) ∧
    ((∃ e, s.load = .error e) ↔
      (∃ expected, Settings.rootIdField.decided r.fromHighest = .error expected) ∨
      (∃ expected, Settings.minPathSegmentsField.decided r.fromHighest = .error expected) ∨
      (∃ rootId, Settings.rootIdField.decided r.fromHighest = .ok rootId ∧
        Text.isBlankText rootId = true) ∨
      Settings.minPathSegmentsField.decided r.fromHighest = .ok 0) := by
  have hsucceeds : ∀ settings, s.load = .ok settings ↔
      Settings.rootIdField.decided r.fromHighest = .ok settings.rootId ∧
      Settings.minPathSegmentsField.decided r.fromHighest = .ok settings.minPathSegments ∧
      Text.isBlankText settings.rootId = false ∧ settings.minPathSegments ≠ 0 := by
    intro settings
    rw [load_eq_ok_iff r.given_eq,
      SettingField.get_layers_eq_ok_iff _ (by simpa using hrootId),
      SettingField.get_layers_eq_ok_iff _ (by simpa using hcount), List.reverse_reverse]
  refine ⟨hsucceeds, ?_⟩
  rw [exists_eq_error_iff]
  cases hid : Settings.rootIdField.decided r.fromHighest with
  | error expected => simp [hsucceeds, hid]
  | ok rootId =>
    cases hmin : Settings.minPathSegmentsField.decided r.fromHighest with
    | error expected => simp [hsucceeds, hmin]
    | ok count =>
      constructor
      · intro hfails
        by_contra hnone
        simp only [reduceCtorEq, exists_false, false_or, not_or, Except.ok.injEq,
          exists_eq_left', Bool.not_eq_true] at hnone
        exact hfails ⟨rootId, count⟩ ((hsucceeds _).2 ⟨hid, hmin, hnone.1, hnone.2⟩)
      · intro hbad settings hloads
        obtain ⟨hid', hmin', hblank, hzero⟩ := (hsucceeds settings).1 hloads
        rw [hid] at hid'
        rw [hmin] at hmin'
        cases hid'
        cases hmin'
        simp_all

/-- Sources that say the two settings at different heights, one of them in a value that is no
    count. -/
def layeredSources : SettingsSources where
  files := [
    ("layout-compat.toml", "[transform]\nroot_id = \"base\"\n[templates]\nmin_path_segments = \"x\"\n"),
    ("config/layout-compat.toml", "[Templates]\nMin_Path_Segments = 5\n"),
    ("custom.toml", "[transform]\nroot_id = 12\n")]
  user := none
  explicit := some "custom.toml"
  environment := [("LAYOUT_COMPAT__TEMPLATES__MIN_PATH_SEGMENTS", "3")]

def layeredReadings : layeredSources.Readings where
  project := [
    ("transform", .table (some "layout-compat.toml")
      [("root_id", .scalar (some "layout-compat.toml") (.text "base"))]),
    ("templates", .table (some "layout-compat.toml")
      [("min_path_segments", .scalar (some "layout-compat.toml") (.text "x"))])]
  hidden := []
  nested := [("Templates", .table (some "config/layout-compat.toml")
    [("Min_Path_Segments", .scalar (some "config/layout-compat.toml") (.int 5))])]
  user := []
  explicit := [("transform", .table (some "custom.toml")
    [("root_id", .scalar (some "custom.toml") (.int 12))])]
  project_eq := by decide +kernel
  hidden_eq := by decide +kernel
  nested_eq := by decide +kernel
  user_eq := rfl
  explicit_eq := by decide +kernel

theorem load_layered_layeredSources :
    (∀ source ∈ layeredReadings.fromHighest,
      Settings.rootIdField.IsOrderly source ∧ Settings.minPathSegmentsField.IsOrderly source) ∧
    layeredSources.load = .ok ⟨"12", 3⟩ := by
  have horderly : ∀ source ∈ layeredReadings.fromHighest,
      Settings.rootIdField.IsOrderly source ∧ Settings.minPathSegmentsField.IsOrderly source := by
    decide +kernel
  refine ⟨horderly, ?_⟩
  refine ((load_layered layeredReadings (fun source h => (horderly source h).1)
    (fun source h => (horderly source h).2)).1 _).2 ?_
  decide +kernel

end SettingsSources

end Relayout
