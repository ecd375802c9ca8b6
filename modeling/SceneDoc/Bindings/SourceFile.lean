import SceneDoc.Bindings.Comment
import SceneDoc.Text.Split

namespace SceneDoc

/-- A stretch of a source file that ends with a line break. -/
inductive SourceEntry where
  | line (text : String)
  | blank
  | comment (indent : Nat) (text : String)
deriving DecidableEq, Repr

def SourceEntry.text : SourceEntry → List Char
  | .line text => text.toList ++ ['\n']
  | .blank => ['\n']
  | .comment indent text => (Comment.lines indent text.toList).flatMap (· ++ ['\n'])

structure SourceFile where
  about : String
  entries : List SourceEntry
deriving DecidableEq, Repr

namespace SourceFile

def banner : String := "// @generated by czml-codegen. Do not edit by hand."

/-- A line of the comment on the whole file, which keeps its white space. -/
def aboutLine (line : List Char) : List Char :=
  (if line.isEmpty then ['/', '/', '!'] else ['/', '/', '!', ' '] ++ line) ++ ['\n']

def opening (file : SourceFile) : List Char :=
  banner.toList ++ ['\n', '\n'] ++ (lines file.about.toList).flatMap aboutLine ++ ['\n']

def text (file : SourceFile) : String :=
  .ofList (trimEnd (file.opening ++ file.entries.flatMap SourceEntry.text) ++ ['\n'])

end SourceFile
end SceneDoc
