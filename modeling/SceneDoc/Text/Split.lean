namespace SceneDoc

def splitOnce? (sep : List Char) : List Char → Option (List Char × List Char)
  | [] => if sep.isEmpty then some ([], []) else none
  | c :: cs =>
    if sep.isPrefixOf (c :: cs) then some ([], (c :: cs).drop sep.length)
    else (splitOnce? sep cs).map fun (before, after) => (c :: before, after)

def afterLast? (sep : List Char) : List Char → Option (List Char)
  | [] => none
  | c :: cs =>
    match afterLast? sep cs with
    | some rest => some rest
    | none => if sep.isPrefixOf (c :: cs) then some ((c :: cs).drop sep.length) else none

/-- The last of the parts that `sep` separates. -/
def afterLast (sep cs : List Char) : List Char :=
  (afterLast? sep cs).getD cs

def dropStart? (start cs : List Char) : Option (List Char) :=
  if start.isPrefixOf cs then some (cs.drop start.length) else none

def dropEnd? (final cs : List Char) : Option (List Char) :=
  if final.isSuffixOf cs then some (cs.take (cs.length - final.length)) else none

/-- The lines of a text whose first line goes on from `line`, which is kept reversed. -/
def linesFrom (line : List Char) : List Char → List (List Char)
  | [] => if line.isEmpty then [] else [line.reverse]
  | '\n' :: rest =>
    let ended := match line with
      | '\r' :: before => before
      | _ => line
    ended.reverse :: linesFrom [] rest
  | c :: rest => linesFrom (c :: line) rest

/-- Lines end at a line feed; a carriage return before it belongs to the ending. The text after the
last line feed is a line unless it is empty. -/
def lines (cs : List Char) : List (List Char) := linesFrom [] cs

end SceneDoc
