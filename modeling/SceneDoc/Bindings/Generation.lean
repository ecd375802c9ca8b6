import SceneDoc.Bindings.Records
import SceneDoc.Bindings.Variants
import SceneDoc.Output.Basic
import SceneDoc.Schema.Registry

namespace SceneDoc

structure Generation where
  structs : Nat
  fields : Nat
  enums : Nat
  /-- File names and contents, in the order in which they are written. -/
  files : List (String × String)
deriving DecidableEq, Repr

def Registry.generation (r : Registry) : Generation where
  structs := r.classes.length
  fields := Records.fieldCount r.classes
  enums := r.enumerations.length
  files := [
    ("enums.rs", (Variants.file r.enumerations).text),
    ("values.rs", (Records.file r.classes).text),
    ("mod.rs", joining.text)]
where
  joining : SourceFile := {
    about := "Static mirror of the CZML " ++ Catalogue.formatVersion ++ " property catalogue."
    entries := [
      .line "pub mod enums;", .line "pub mod values;", .blank, .line "pub use enums::*;",
      .line "pub use values::*;"] }

def Generation.outputs (g : Generation) (folder : String) : List Output :=
  g.files.map fun (name, text) => ⟨Path.join folder name, text, true⟩

end SceneDoc
