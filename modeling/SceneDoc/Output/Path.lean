namespace SceneDoc
namespace Path

/-- The parts between slashes, where `part` is the reversed beginning of the first. -/
def parts (part : List Char) : List Char → List String
  | [] => [.ofList part.reverse]
  | '/' :: rest => .ofList part.reverse :: parts [] rest
  | c :: rest => parts (c :: part) rest

def names (path : String) : List String :=
  (parts [] path.toList).filter fun name => name ≠ "" ∧ name ≠ "."

def isAbsolute (path : String) : Bool := ['/'].isPrefixOf path.toList

/-- The path of what stands in a folder. An absolute path leads away from the folder. -/
def join (folder path : String) : String :=
  if isAbsolute path then path
  else if folder = "" ∨ ['/'].isSuffixOf folder.toList then folder ++ path
  else folder ++ "/" ++ path

/-- A folder's path, read backwards, without slashes and idle dots at its end. -/
def trimFolder : List Char → List Char
  | '/' :: rest => trimFolder rest
  | '.' :: '/' :: rest => trimFolder rest
  | cs => cs

def folder (path : String) : String :=
  .ofList (trimFolder (path.toList.reverse.dropWhile (· ≠ '/'))).reverse

def endsIdle (path : String) : Bool :=
  (path.toList.reverse.dropWhile (· = '/')).takeWhile (· ≠ '/') == ['.']

/-- The name behind the last slash, if it can be a file's. -/
def fileName? (path : String) : Option String :=
  let name := String.ofList (path.toList.reverse.takeWhile (· ≠ '/')).reverse
  if name = "" ∨ name = "." ∨ name = ".." then none else some name

end Path
end SceneDoc
