/-
  Relayout/Proofs/Layout/RoundTrip.lean
  =====================================
  **Reading, writing and reading again gives the same value.**

  A type may be read in more spellings than it is written in: an array of the fields, members that
  are null or unknown, a kind of evaluation as an object.  `Decode.RoundTrips` says that none of
  these is lost or caught by another alternative on the way back.  Most types are read back whatever
  they hold.  A layout is not read back if its width is null, so that for layouts it has to be shown
  that there is no such width: none is read (`LayoutNode.cols_ne_null_of_ofJson`), and no rule
  writes one (`Rule.EditsTo.cols_ne_null`).
-/
import Relayout.Proofs.Extension.Edit
import Relayout.Proofs.Layout.Canonical
import Relayout.Proofs.Layout.Codec
import Relayout.Settings.Basic

namespace Relayout

/-! ### Round trips -/

/-- A value that was read is read back from what is written for it. So to read and write a second
    time changes nothing. -/
structure Decode.RoundTrips {α : Type} (read : Json → Except DecodeError α) (write : α → Json) :
    Prop where
  reread : ∀ v a, read v = .ok a → read (write a) = .ok a
  rewritten : ∀ v w, (read v).map write = .ok w → (read w).map write = .ok w

namespace Decode

variable {α : Type} {read : Json → Except DecodeError α} {write : α → Json}

theorem RoundTrips.of_reread (h : ∀ v a, read v = .ok a → read (write a) = .ok a) :
    RoundTrips read write := by
  refine ⟨h, ?_⟩
  intro v w hw
  cases hread : read v with
  | error e =>
    rw [hread] at hw
    cases hw
  | ok a =>
    rw [hread] at hw
    obtain rfl : write a = w := Except.ok.inj hw
    rw [h v a hread]
    rfl

theorem RoundTrips.of_inverse (h : ∀ a, read (write a) = .ok a) : RoundTrips read write :=
  .of_reread (fun _ a _ => h a)

theorem count_num (n : Nat) : count (.num (.int n)) = .ok n := by
  have hnonneg : ¬ (n : Int) < 0 := by omega
  rw [count, if_neg hnonneg, Int.toNat_natCast]

end Decode

open Decode

/-! ### Types without a width -/

theorem ItemOrigin.ofJson_toJson (origin : ItemOrigin) : ofJson origin.toJson = .ok origin := by
  have hmembers : ofMembers (origin.toMembers ++ []) = .ok origin :=
    origin.ofMembers_toMembers (fun _ _ => rfl)
  rw [List.append_nil] at hmembers
  rw [toJson, ofJson, hmembers]

theorem OneOfLayout.ofJson_toJson (l : OneOfLayout) : ofJson l.toJson = .ok l := rfl

theorem Settings.ofJson_toJson (s : Settings) : ofJson s.toJson = .ok s := by
  have htransform : transformRecord.read (.obj [("root_id", .str s.rootId)]) = .ok s.rootId := rfl
  have htemplates : templatesRecord.read
      (.obj [("min_path_segments", .num (.int s.minPathSegments))]) = .ok s.minPathSegments := by
    have hfield : templatesRecord.field "min_path_segments" (.num (.int s.minPathSegments))
        = .ok () := by
      simp [templatesRecord, check, orDefault, count_num, Except.map]
    have hmembers : checkMembers templatesRecord.field
        [("min_path_segments", .num (.int s.minPathSegments))] = .ok () :=
      checkMembers_cons_iff.2 ⟨hfield, rfl⟩
    rw [Record.read, Record.ofMembers, hmembers]
    simp [templatesRecord, Members.get?, orDefault, count_num, bind, Except.bind]
  have hfields : checkMembers record.field
      [("transform", .obj [("root_id", .str s.rootId)]),
        ("templates", .obj [("min_path_segments", .num (.int s.minPathSegments))])] = .ok () := by
    refine checkMembers_cons_iff.2 ⟨?_, checkMembers_cons_iff.2 ⟨?_, rfl⟩⟩
    · simp [record, check, orDefault, htransform, Except.map]
    · simp [record, check, orDefault, htemplates, Except.map]
  rw [ofJson, toJson, Record.read, Record.ofMembers, hfields]
  simp [record, Members.get?, orDefault, htransform, htemplates, bind, Except.bind, pure,
    Except.pure]

/-! ### Layouts -/

theorem LayoutNode.cols_ne_null_of_ofJson {v : Json} {node : LayoutNode}
    (h : ofJson v = .ok node) : node.cols ≠ some .null := by
  obtain ⟨fields, -, hfrom⟩ := exists_readFrom_of_ofJson h
  have hcols := hfrom.cols
  intro hnull
  rw [hnull] at hcols
  cases hget : fields.get? "cols" with
  | none =>
    rw [hget] at hcols
    cases hcols
  | some w =>
    rw [hget] at hcols
    by_cases hw : w = .null
    · subst hw
      cases hcols
    · obtain ⟨b, hb, hsome⟩ := read_of_optional hcols hw
      cases hb
      exact hw (Option.some.inj hsome).symm

/-- A component name is not taken for a layout in full, nor the other way round. -/
theorem Layout.ofJson_toJson {layout : Layout}
    (hcols : ∀ node, layout = .node node → node.cols ≠ some .null) :
    ofJson layout.toJson = .ok layout := by
  cases layout with
  | comp name => rfl
  | node node =>
    have hread : LayoutNode.ofJson node.toJson = .ok node :=
      LayoutNode.ofJson_toJson (hcols node rfl)
    obtain ⟨ms, hms⟩ : ∃ ms, node.toJson = .obj ms := ⟨_, rfl⟩
    rw [hms] at hread
    rw [toJson, hms, ofJson, hread]
    nofun

theorem Layout.cols_ne_null_of_ofJson {v : Json} {node : LayoutNode}
    (h : ofJson v = .ok (.node node)) : node.cols ≠ some .null := by
  unfold ofJson at h
  split at h
  · cases h
  · split at h
    · rename_i hread
      cases h
      exact LayoutNode.cols_ne_null_of_ofJson hread
    · cases h

/-! ### Layouts that rules make -/

namespace Rule

variable {s : Site}

theorem Edit.cols_ne_null {layout out : LayoutNode} (h : Edit s layout out)
    (hlayout : layout.cols ≠ some .null) : out.cols ≠ some .null := by
  cases h with
  | none | select | entries | comp | cond | props => exact hlayout
  | cols hget hkind =>
    rintro ⟨⟩
    obtain ⟨n, hn⟩ | ⟨sizes, hsizes⟩ := hkind
    · cases hn
    · cases hsizes

theorem EditsTo.cols_ne_null {layout out : LayoutNode} (h : EditsTo s layout out)
    (hlayout : layout.cols ≠ some .null) : out.cols ≠ some .null := by
  induction h with
  | refl => exact hlayout
  | tail _ hedit ih => exact hedit.cols_ne_null ih

/-- What a rule of a sequence leaves comes from the first layout by edits, also where rules before
    it fail. -/
theorem editsTo_of_mem_applyInTurn {rules : List Rule} {layout : LayoutNode}
    {left : Rule × Edited} (h : left ∈ applyInTurn s rules layout) :
    EditsTo s layout left.2.layout := by
  induction rules generalizing layout with
  | nil => cases h
  | cons rule rest ih =>
    have happlied : EditsTo s layout (rule.apply s layout).layout :=
      editsTo_applyEdits (List.Subset.refl _) layout
    rcases List.mem_cons.1 h with rfl | hrest
    · exact happlied
    · exact happlied.trans (ih hrest)

end Rule

/-- A layout without a width that is null is read back as it stands, and as it is written at a
    node. -/
theorem LayoutNode.reread_of_cols_ne_null {node : LayoutNode} (hcols : node.cols ≠ some .null) :
    ofJson node.toJson = .ok node ∧
      ∀ layout, node.finalize = some layout → Layout.ofJson layout.toJson = .ok layout := by
  refine ⟨ofJson_toJson hcols, ?_⟩
  intro layout hfinal
  apply Layout.ofJson_toJson
  rintro written rfl
  obtain ⟨_, -, hcomp⟩ | hnode := of_finalize_eq_some hfinal
  · cases hcomp
  · cases hnode
    exact hcols

/-- All that is written is read back: what was read before as a value of one of the types, and the
    layouts that rules make of a node one after the other, from none at all on. -/
theorem layoutTypes_roundTrip :
    RoundTrips Descriptor.ofJson Descriptor.toJson ∧
    RoundTrips ItemOrigin.ofJson ItemOrigin.toJson ∧
    RoundTrips ItemSource.ofJson ItemSource.toJson ∧
    RoundTrips LayoutNode.ofJson LayoutNode.toJson ∧
    RoundTrips Layout.ofJson Layout.toJson ∧
    RoundTrips OneOfLayout.ofJson OneOfLayout.toJson ∧
    RoundTrips Settings.ofJson Settings.toJson ∧
    ∀ (s : Site) (rules : List Rule),
      ∀ node ∈ .empty :: (Rule.applyInTurn s rules .empty).map (fun left => left.2.layout),
        LayoutNode.ofJson node.toJson = .ok node ∧
          ∀ layout, node.finalize = some layout → Layout.ofJson layout.toJson = .ok layout := by
  have hlayout : RoundTrips Layout.ofJson Layout.toJson := by
    apply RoundTrips.of_reread
    intro v layout hread
    apply Layout.ofJson_toJson
    rintro node rfl
    exact Layout.cols_ne_null_of_ofJson hread
  refine ⟨.of_inverse Descriptor.ofJson_toJson, .of_inverse ItemOrigin.ofJson_toJson,
    .of_inverse ItemSource.ofJson_toJson, .of_reread ?_, hlayout,
    .of_inverse OneOfLayout.ofJson_toJson, .of_inverse Settings.ofJson_toJson, ?_⟩
  · intro v node hread
    exact LayoutNode.ofJson_toJson (LayoutNode.cols_ne_null_of_ofJson hread)
  · intro s rules node hnode
    apply LayoutNode.reread_of_cols_ne_null
    have hedits : Rule.EditsTo s .empty node := by
      rcases List.mem_cons.1 hnode with rfl | hmem
      · exact .refl
      · obtain ⟨left, hleft, rfl⟩ := List.mem_map.1 hmem
        exact Rule.editsTo_of_mem_applyInTurn hleft
    exact hedits.cols_ne_null nofun

/-- A width that is null is the one value that is not read back, and nothing is read as it. -/
example : LayoutNode.ofJson (LayoutNode.toJson { cols := some .null }) = .ok {} := rfl

end Relayout
