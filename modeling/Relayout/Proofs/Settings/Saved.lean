/-
  Relayout/Proofs/Settings/Saved.lean
  ===================================
  **Settings that are saved are loaded back.**

  The text of saved settings is read line by line to a document with both groups
  (`Settings.read_textChars`).  The file may also be found where the files of a project are looked
  for, and then it is only laid over itself: each setting is decided by what was saved, whichever
  source says it first.  So reloading comes down to the check that all settings have to pass
  (`Settings.reload_save`).
-/
import Relayout.Proofs.Settings.Layering
import Relayout.Proofs.Toml.Written
import Relayout.Settings.Save

namespace Relayout

namespace Settings

/-! ### The text -/

def table (s : Settings) : List (String × Toml.Value) :=
  [("transform", .table [("root_id", .str s.rootId)]),
    ("templates", .table [("min_path_segments", .int s.minPathSegments)])]

open Toml Toml.Reader in
/-- The four lines of saved settings make a document with two tables. -/
theorem readChars_textChars {s : Settings} (h : s.minPathSegments ≤ greatestSaved) :
    ∃ d, readChars s.textChars = .ok d ∧ d.values = s.table := by
  have hn : s.minPathSegments < Nat.pow 2 63 := Nat.lt_of_le_pred (by decide) h
  have htransform : IsBareName "transform" := by decide
  have htemplates : IsBareName "templates" := by decide
  have hrootId : IsBareName "root_id" := by decide
  have hcount : IsBareName "min_path_segments" := by decide
  -- what is left of the text after each line, and what has been built by then
  let fourth := Writer.assignment "min_path_segments" (Nat.toDigits 10 s.minPathSegments) ++ []
  let third := Writer.header "templates" ++ fourth
  let second := Writer.assignment "root_id" (Writer.quoted s.rootId) ++ '\n' :: third
  let identity : String × Node := ("transform", .table .stated [("root_id", .value (.str s.rootId))])
  let count : String × Node :=
    ("templates", .table .stated [("min_path_segments", .value (.int s.minPathSegments))])
  have htext : s.textChars = Writer.header "transform" ++ second := by
    simp [textChars, second, third, fourth]
  have hfirst (rounds : Nat) : lines (rounds + 1) .empty s.textChars =
      lines rounds ⟨[("transform", .table .stated [])], ["transform"]⟩ second := by
    rw [htext]
    exact lines_step (skipLines_header _ _) (fun more => statement_header htransform more second) rfl
  have hsecond (rounds : Nat) :
      lines (rounds + 1) ⟨[("transform", .table .stated [])], ["transform"]⟩ second =
        lines rounds ⟨[identity], ["transform"]⟩ ('\n' :: third) :=
    lines_step (skipLines_assignment hrootId _ _) (fun more => statement_assignment hrootId more
      (fun _ => isSpace_head_quoted) (value_quoted more _ _ _)) rfl
  have hthird (rounds : Nat) : lines (rounds + 1) ⟨[identity], ["transform"]⟩ ('\n' :: third) =
      lines rounds ⟨[identity, ("templates", .table .stated [])], ["templates"]⟩ fourth :=
    lines_step (skipLines_header _ _) (fun more => statement_header htemplates more fourth) rfl
  have hfourth (rounds : Nat) :
      lines (rounds + 1) ⟨[identity, ("templates", .table .stated [])], ["templates"]⟩ fourth =
        lines rounds ⟨[identity, count], ["templates"]⟩ [] :=
    lines_step (skipLines_assignment hcount _ _) (fun more => statement_assignment hcount more
      (fun _ => isSpace_head_toDigits) (value_toDigits hn more _ _)) rfl
  obtain ⟨k, hk⟩ : ∃ k, s.textChars.length + 1 = k + 5 := by
    refine ⟨s.textChars.length - 4, ?_⟩
    have hlong : 4 ≤ s.textChars.length := by
      simp [htext, Writer.header]
    omega
  refine ⟨⟨[identity, count], ["templates"]⟩, ?_, rfl⟩
  have hhead : s.textChars.head? = some '[' := by
    rw [htext]
    rfl
  have hmark : ¬ some '[' = some byteOrderMark := by decide
  rw [readChars, hhead, if_neg hmark, hk, hfirst, hsecond, hthird, hfourth]
  rfl

/-- What a file with saved settings gives. -/
def entries (name : String) (s : Settings) : Given.Entries :=
  [("transform", .table (some name) [("root_id", .scalar (some name) (.text s.rootId))]),
    ("templates", .table (some name)
      [("min_path_segments", .scalar (some name) (.int s.minPathSegments))])]

theorem read_textChars {s : Settings} (h : s.minPathSegments ≤ greatestSaved) (name : String) :
    Format.toml.read name (String.ofList s.textChars) = .ok (s.entries name) := by
  obtain ⟨d, hread, hvalues⟩ := readChars_textChars h
  simp only [Format.read, Toml.read, String.toList_ofList, hread, hvalues]
  rfl

end Settings

/-! ### The file -/

namespace Files

theorem get?_singleton (name text other : String) :
    get? [(name, text)] other = if name = other then some text else none := by
  by_cases h : name = other <;> simp [get?, h]

/-- Of a single file, only its own text is found. -/
theorem find_singleton {name text wanted : String} {found : Format × String × String}
    (h : find [(name, text)] wanted = .ok found) :
    Format.ofName? name = some found.1 ∧ found.2 = (name, text) := by
  have hget {other t : String} (hother : get? [(name, text)] other = some t) :
      name = other ∧ text = t := by
    rw [get?_singleton] at hother
    split at hother
    · cases hother
      exact ⟨‹_›, rfl⟩
    · cases hother
  unfold find at h
  split at h
  · rename_i t ht
    obtain ⟨rfl, rfl⟩ := hget ht
    split at h
    · rename_i format hformat
      cases h
      exact ⟨hformat, rfl⟩
    · cases h
  · split at h
    · rename_i hfound
      cases h
      obtain ⟨other, -, hother⟩ := List.exists_of_findSome?_eq_some hfound
      simp only [Option.bind_eq_bind, Option.bind_eq_some_iff, Option.pure_def,
        Option.some.injEq] at hother
      obtain ⟨format, hformat, t, ht, rfl⟩ := hother
      obtain ⟨rfl, rfl⟩ := hget ht
      exact ⟨hformat, rfl⟩
    · cases h

variable {name : String} {s : Settings} (h : s.minPathSegments ≤ Settings.greatestSaved)
  (hname : Format.ofName? name = some .toml)
include h hname

/-- A file that may be missing is the file with saved settings, or it is missing. -/
theorem optional_saved (wanted : String) :
    ∃ source, optional [(name, String.ofList s.textChars)] wanted = .ok source ∧
      (source = [] ∨ source = s.entries name) := by
  unfold optional
  cases hfind : find [(name, String.ofList s.textChars)] wanted with
  | error e => exact ⟨[], rfl, Or.inl rfl⟩
  | ok found =>
    obtain ⟨format, file, text⟩ := found
    obtain ⟨hformat, hfile⟩ := find_singleton hfind
    rw [hname] at hformat
    cases hformat
    cases hfile
    exact ⟨_, Settings.read_textChars h name, Or.inr rfl⟩

theorem required_saved :
    required [(name, String.ofList s.textChars)] name = .ok (s.entries name) := by
  have hfind : find [(name, String.ofList s.textChars)] name =
      .ok (.toml, name, String.ofList s.textChars) := by
    rw [find, get?_singleton, if_pos rfl, hname]
  simp only [required, hfind, bind, Except.bind]
  exact Settings.read_textChars h name

end Files

/-! ### Reloading -/

namespace Settings

variable {name : String} {s : Settings}

theorem ofKey_group :
    SettingPath.ofKey "transform" = ⟨"transform", []⟩ ∧
    SettingPath.ofKey "templates" = ⟨"templates", []⟩ := by
  decide

theorem said_entries (name : String) (s : Settings) :
    (s.entries name).said "transform" "root_id" = [.scalar (some name) (.text s.rootId)] ∧
    (s.entries name).said "templates" "min_path_segments" =
      [.scalar (some name) (.int s.minPathSegments)] := by
  have hgroups : foldKey "transform" = "transform" ∧ foldKey "templates" = "templates" := by decide
  have hnames : foldKey "root_id" = "root_id" ∧ foldKey "min_path_segments" = "min_path_segments" := by
    decide
  simp [Given.Entries.said, entries, ofKey_group, SettingPath.said, hgroups, hnames, Given.entries]

theorem tabular_entries (name : String) (s : Settings) (group : String) :
    (s.entries name).Tabular group := by
  intro e he
  simp only [entries, List.mem_cons, List.not_mem_nil, or_false] at he
  rcases he with rfl | rfl
  · rw [ofKey_group.1]
    exact fun _ => ⟨rfl, by simp [Given.entries, Given.isScalar]⟩
  · rw [ofKey_group.2]
    exact fun _ => ⟨rfl, by simp [Given.entries, Given.isScalar]⟩

theorem isOrderly_of_saved {source : Given.Entries} (h : source = [] ∨ source = s.entries name) :
    rootIdField.IsOrderly source ∧ minPathSegmentsField.IsOrderly source := by
  rcases h with rfl | rfl
  · exact ⟨⟨nofun, Nat.zero_le _⟩, ⟨nofun, Nat.zero_le _⟩⟩
  · obtain ⟨hrootId, hcount⟩ := said_entries name s
    exact ⟨⟨tabular_entries name s _, Nat.le_of_eq (congrArg List.length hrootId)⟩,
      ⟨tabular_entries name s _, Nat.le_of_eq (congrArg List.length hcount)⟩⟩

/-- Where no variable says anything, the file that was asked for decides. -/
theorem deciding?_entries {α : Type} (f : SettingField α) {v : Given}
    (h : (s.entries name).said f.group f.name = [v]) (below : List Given.Entries) :
    f.deciding? ([] :: s.entries name :: below) = some v := by
  have hnothing : Given.Entries.said f.group f.name [] = [] := rfl
  simp [SettingField.deciding?, hnothing, h]

/-- Saved settings are read out of sources that say nothing else. -/
theorem ofGiven_layers_saved {below : List Given.Entries}
    (hbelow : ∀ source ∈ below, source = [] ∨ source = s.entries name) :
    ofGiven (Given.layers ([] :: s.entries name :: below).reverse) = .ok s := by
  obtain ⟨hsaidRootId, hsaidCount⟩ := said_entries name s
  have horderly : ∀ source ∈ ([] :: s.entries name :: below).reverse,
      rootIdField.IsOrderly source ∧ minPathSegmentsField.IsOrderly source := by
    intro source hsource
    apply isOrderly_of_saved
    rcases List.mem_cons.1 (List.mem_reverse.1 hsource) with rfl | hsource
    · exact Or.inl rfl
    · rcases List.mem_cons.1 hsource with rfl | hsource
      · exact Or.inr rfl
      · exact hbelow source hsource
  have hrootId : rootIdField.decided ([] :: s.entries name :: below) = .ok s.rootId := by
    rw [SettingField.decided, deciding?_entries rootIdField hsaidRootId]
    rfl
  have hcount : minPathSegmentsField.decided ([] :: s.entries name :: below)
      = .ok s.minPathSegments := by
    rw [SettingField.decided, deciding?_entries minPathSegmentsField hsaidCount]
    simp [minPathSegmentsField, Given.toCount]
  have hgetRootId := (rootIdField.get_layers_eq_ok_iff
    (fun source hs => (horderly source hs).1)).2 (by rwa [List.reverse_reverse])
  have hgetCount := (minPathSegmentsField.get_layers_eq_ok_iff
    (fun source hs => (horderly source hs).2)).2 (by rwa [List.reverse_reverse])
  rw [ofGiven, hgetRootId, hgetCount]
  rfl

/-- **Settings that are saved are loaded back**, from a file with the extension of its format,
    exactly if a migration can run with them. -/
theorem reload_save (s : Settings) (h : s.minPathSegments ≤ greatestSaved) {name : String}
    (hname : Format.ofName? name = some .toml) :
    ∃ text, s.save = .ok text ∧
      reload name text =
        if Text.isBlankText s.rootId then .error .blankRootId
        else if s.minPathSegments = 0 then .error .zeroMinPathSegments
        else .ok s := by
  refine ⟨String.ofList s.textChars, by rw [save, if_neg (Nat.not_lt.2 h)], ?_⟩
  let sources : SettingsSources := ⟨[(name, String.ofList s.textChars)], none, some name, []⟩
  -- the file may be one of the project too
  obtain ⟨project, hproject, hprojectCases⟩ :=
    Files.optional_saved h hname "layout-compat.toml"
  obtain ⟨hidden, hhidden, hhiddenCases⟩ :=
    Files.optional_saved h hname ".layout-compat.toml"
  obtain ⟨nested, hnested, hnestedCases⟩ :=
    Files.optional_saved h hname "config/layout-compat.toml"
  let r : sources.Readings :=
    { project := project, hidden := hidden, nested := nested, user := [], explicit := s.entries name
      project_eq := hproject, hidden_eq := hhidden, nested_eq := hnested, user_eq := rfl
      explicit_eq := Files.required_saved h hname }
  have hbelow : ∀ source ∈ [[], nested, hidden, project], source = [] ∨ source = s.entries name := by
    intro source hsource
    simp only [List.mem_cons, List.not_mem_nil, or_false] at hsource
    rcases hsource with rfl | rfl | rfl | rfl
    · exact Or.inl rfl
    · exact hnestedCases
    · exact hhiddenCases
    · exact hprojectCases
  have hgiven : ofGiven (Given.layers r.fromHighest.reverse) = .ok s := ofGiven_layers_saved hbelow
  change sources.load = _
  rw [SettingsSources.load, r.given_eq]
  simp only [bind, Except.bind, hgiven, check]

/-- An identity with both quotes, a backslash, a line end and a control character. -/
def trickySettings : Settings := ⟨"it's \"a\" \\\n\x01'", 3⟩

theorem reload_save_trickySettings :
    trickySettings.minPathSegments ≤ greatestSaved ∧
    Format.ofName? "custom.toml" = some .toml ∧
    ∃ text, trickySettings.save = .ok text ∧ reload "custom.toml" text = .ok trickySettings := by
  have hfits : trickySettings.minPathSegments ≤ greatestSaved := by decide
  have hname : Format.ofName? "custom.toml" = some .toml := by decide
  obtain ⟨text, hsave, hreload⟩ := reload_save trickySettings hfits hname
  have hrootId : Text.isBlankText trickySettings.rootId = false := by decide
  have hcount : trickySettings.minPathSegments ≠ 0 := by decide
  refine ⟨hfits, hname, text, hsave, ?_⟩
  rw [hreload, hrootId, if_neg Bool.false_ne_true, if_neg hcount]

end Settings

end Relayout
