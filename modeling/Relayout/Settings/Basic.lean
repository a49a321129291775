/-
  Relayout/Settings/Basic.lean
  ============================
  **The settings of a migration.**

  There are two: the identity given to roots that declare none, and how many segments a
  placeholder needs to be promoted.  Both have defaults, and a record that lacks them, or
  one of the two groups that they are kept in, stands for the defaults.

  `Settings` is the program's `CompatConfig` with its two groups, their names and their defaults.
-/
import Relayout.Layout.Root
import Relayout.Template.Detector

namespace Relayout

/-- The settings of a migration. -/
structure Settings where
  rootId : String := defaultRootId
  minPathSegments : Nat := Template.defaultMinSegments
deriving DecidableEq, Repr

namespace Settings

def toJson (s : Settings) : Json :=
  .obj [("transform", .obj [("root_id", .str s.rootId)]),
        ("templates", .obj [("min_path_segments", .num (.int s.minPathSegments))])]

/-- The group of settings about the output. -/
def transformRecord : Decode.Record String where
  name := "TransformConfig"
  fields := ["root_id"]
  field := fun key v => match key with
    | "root_id" => Decode.check (Decode.orDefault defaultRootId Decode.string) v
    | _ => .ok ()
  build := fun _ ms => Decode.orDefault defaultRootId Decode.string (ms.get? "root_id")

/-- The group of settings about placeholders. -/
def templatesRecord : Decode.Record Nat where
  name := "TemplateConfig"
  fields := ["min_path_segments"]
  field := fun key v => match key with
    | "min_path_segments" =>
      Decode.check (Decode.orDefault Template.defaultMinSegments Decode.count) v
    | _ => .ok ()
  build := fun _ ms =>
    Decode.orDefault Template.defaultMinSegments Decode.count (ms.get? "min_path_segments")

/-- Both groups. -/
def record : Decode.Record Settings where
  name := "CompatConfig"
  fields := ["transform", "templates"]
  field := fun key v => match key with
    | "transform" => Decode.check (Decode.orDefault defaultRootId transformRecord.read) v
    | "templates" =>
      Decode.check (Decode.orDefault Template.defaultMinSegments templatesRecord.read) v
    | _ => .ok ()
  build := fun _ ms => do
    let rootId ← Decode.orDefault defaultRootId transformRecord.read (ms.get? "transform")
    let minPathSegments ←
      Decode.orDefault Template.defaultMinSegments templatesRecord.read (ms.get? "templates")
    return { rootId := rootId, minPathSegments := minPathSegments }

def ofJson (v : Json) : Except DecodeError Settings := record.read v

end Settings

end Relayout
