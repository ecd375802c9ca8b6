import SceneDoc.CommandLine.Commands

namespace SceneDoc

def Output.perform (o : Output) : IO Unit := do
  let folder := Path.folder o.path
  if o.makesFolders && folder ≠ "" then
    try IO.FS.createDirAll folder
    catch _ => throw (IO.userError (OutputError.folder folder).message)
  try IO.FS.writeFile o.path o.text
  catch _ => throw (IO.userError (OutputError.file o.path).message)

def Outcome.perform (outcome : Outcome) : IO UInt32 := do
  match outcome with
  | .done outputs text =>
    try
      outputs.forM Output.perform
      IO.print text
      return outcome.exitCode.toUInt32
    catch e =>
      IO.eprintln e
      return Outcome.failed.exitCode.toUInt32
  | _ => return outcome.exitCode.toUInt32

end SceneDoc

def main (args : List String) : IO UInt32 :=
  (SceneDoc.runCommand args).perform
