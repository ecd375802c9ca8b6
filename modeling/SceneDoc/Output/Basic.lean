import SceneDoc.Output.FileTree

namespace SceneDoc

structure Output where
  path : String
  text : String
  /-- Whether folders on the way are made. -/
  makesFolders : Bool
deriving DecidableEq, Repr

inductive OutputError where
  /-- A folder on the way cannot be made. -/
  | folder (path : String)
  | file (path : String)
deriving DecidableEq, Repr

def OutputError.message : OutputError → String
  | .folder path => "Failed to create directory " ++ path
  | .file path => "Failed to write " ++ path

namespace Output

def paved (o : Output) (t : FileTree) : Except OutputError FileTree :=
  let folder := Path.folder o.path
  if !o.makesFolders then .ok t
  else if (t.makeFolder folder).leadsToFolder folder then .ok (t.makeFolder folder)
  else .error (.folder folder)

def write (o : Output) (t : FileTree) : Except OutputError FileTree := do
  let t ← o.paved t
  match t.writeFile? o.path o.text with
  | some t => .ok t
  | none => .error (.file o.path)

def writeAll (outputs : List Output) (t : FileTree) : Except OutputError FileTree :=
  outputs.foldlM (fun t o => o.write t) t

end Output
end SceneDoc
