import SceneDoc.Output.Path

namespace SceneDoc

/-- Files with their texts, and folders, each at the names that lead there from the root. The root
itself always stands. -/
structure FileTree where
  /-- The folder from which paths lead that are not absolute. -/
  here : List String
  files : List (List String × String)
  folders : List (List String)
deriving DecidableEq, Repr

namespace FileTree

def isFolder (t : FileTree) (place : List String) : Bool :=
  place.isEmpty || t.folders.contains place

def isFile (t : FileTree) (place : List String) : Bool := (t.files.lookup place).isSome

/-- Whether a file or a folder can have the name: it has at most 255 bytes, and none of them is zero. -/
def canHold (name : String) : Bool := name.utf8ByteSize ≤ 255 && !name.toList.contains '\x00'

def step (place : List String) (name : String) : List String :=
  if name = ".." then place.dropLast else place ++ [name]

def start (t : FileTree) (path : String) : List String :=
  if Path.isAbsolute path then [] else t.here

def walk? (t : FileTree) (place : List String) : List String → Option (List String)
  | [] => some place
  | name :: rest =>
    if t.isFolder (step place name) then t.walk? (step place name) rest else none

/-- The tree with folders where names lead, up to the first at which a file stands or none can be. -/
def pave (t : FileTree) (place : List String) : List String → FileTree
  | [] => t
  | name :: rest =>
    let next := step place name
    if t.isFolder next then t.pave next rest
    else if t.isFile next || !canHold name then t
    else FileTree.pave { t with folders := next :: t.folders } next rest

def leadsToFolder (t : FileTree) (path : String) : Bool :=
  (t.walk? (t.start path) (Path.names path)).isSome

/-- Makes a folder and those on the way to it, as far as it can. With an idle dot at the end of the path,
the folder itself is not made. -/
def makeFolder (t : FileTree) (path : String) : FileTree :=
  let names := Path.names path
  t.pave (t.start path) (if Path.endsIdle path then names.dropLast else names)

def put (t : FileTree) (place : List String) (text : String) : FileTree :=
  { t with files := (place, text) :: t.files.filter (·.1 ≠ place) }

/-- Writes a file, if its folder stands and it is no folder itself. -/
def writeFile? (t : FileTree) (path text : String) : Option FileTree := do
  let name ← Path.fileName? path
  let place ← t.walk? (t.start path) (Path.names path).dropLast
  if canHold name && !t.isFolder (place ++ [name]) then t.put (place ++ [name]) text else none

def filesBelow (t : FileTree) (place : List String) : List (List String × String) :=
  (t.files.filter fun (file, _) => place.isPrefixOf file).map fun (file, text) =>
    (file.drop place.length, text)

end FileTree
end SceneDoc
