import SceneDoc.Bindings.Generation
import SceneDoc.CommandLine.Options
import SceneDoc.CommandLine.Sample
import SceneDoc.Json.Writer

namespace SceneDoc

inductive Outcome where
  /-- The outputs are written, and then the text is shown. -/
  | done (outputs : List Output) (shown : String)
  | usage
  | failed
deriving DecidableEq, Repr

namespace Outcome

def exitCode : Outcome → Nat
  | .done _ _ => 0
  | .failed => 1
  | .usage => 2

/-- The outcome among files and folders, where it fails if an output cannot be written. -/
def amid (t : FileTree) (outcome : Outcome) : Outcome × FileTree :=
  match outcome with
  | .done outputs _ =>
    match Output.writeAll outputs t with
    | .ok t => (outcome, t)
    | .error _ => (.failed, t)
  | _ => (outcome, t)

end Outcome

def writtenLine (path : String) : String := "  Written: " ++ path ++ "\n"

namespace SampleCommand

def options : OptionTable := [("--out", .path), ("--compact", .flag), ("--indent", .size)]

def help : String :=
  "Write the sample CZML document\n\n" ++
  "Usage: czml-simple [OPTIONS]\n\n" ++
  "Options:\n      " ++
  "--out <OUT>        Output file; standard output when omitted\n      " ++
  "--compact          Render without whitespace\n      " ++
  "--indent <INDENT>  Spaces per indentation level for pretty output [default: 4]\n  " ++
  "-h, --help             Print help\n"

def layout (given : GivenOptions) : Layout :=
  if (given.lookup "--compact").isSome then .compact
  else
    match (given.lookup "--indent").bind fun value => OptionKind.size? value.toList with
    | some indent => .pretty indent
    | none => .default

def text? (layout : Layout) : Option String := do
  let registry ← Registry.standard.toOption
  let document ← (Sample.document registry).toOption
  (document.render.toText layout).toOption

def run (args : List String) : Outcome :=
  match options.read args with
  | .error .help => .done [] help
  | .error .usage => .usage
  | .ok given =>
    match text? (layout given), given.lookup "--out" with
    | none, _ => .failed
    | some text, none => .done [] (text ++ "\n")
    | some text, some path => .done [⟨path, text, false⟩] (writtenLine path)

end SampleCommand

namespace BuildCommand

def options : OptionTable := [("--out", .path)]

def help : String :=
  "Generate the CZML catalogue mirror module\n\n" ++
  "Usage: czml-build [OPTIONS]\n\n" ++
  "Options:\n      " ++
  "--out <OUT>  Output directory for generated sources [default: generated]\n  " ++
  "-h, --help       Print help\n"

def summary : String :=
  "CZML catalogue v" ++ Catalogue.formatVersion ++ ": " ++
    toString Catalogue.definitions.length ++ " classes, " ++
    toString (Catalogue.attributeCount Catalogue.definitions) ++ " attributes, " ++
    toString Enumeration.standard.length ++ " enumerations\n"

def countLine (g : Generation) : String :=
  "  " ++ toString g.structs ++ " structs, " ++ toString g.fields ++ " fields, " ++
    toString g.enums ++ " enums\n"

def run (args : List String) : Outcome :=
  match options.read args with
  | .error .help => .done [] help
  | .error .usage => .usage
  | .ok given =>
    match Registry.standard with
    | .error _ => .failed
    | .ok registry =>
      let outputs := registry.generation.outputs ((given.lookup "--out").getD "generated")
      .done outputs (summary ++ String.join (outputs.map fun o => writtenLine o.path) ++
        countLine registry.generation ++ "Build complete.\n")

end BuildCommand

/-- The command that the first argument names, run on the others. -/
def runCommand : List String → Outcome
  | "sample" :: args => SampleCommand.run args
  | "build" :: args => BuildCommand.run args
  | _ => .usage

end SceneDoc
