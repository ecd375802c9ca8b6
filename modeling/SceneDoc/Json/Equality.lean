import SceneDoc.Json.Basic

namespace SceneDoc
namespace Json

variable {ν : Type}

def insertEntry (key : String) (value : Json ν) :
    List (String × Json ν) → List (String × Json ν)
  | [] => [(key, value)]
  | (k, v) :: rest =>
    if k ≤ key then (k, v) :: insertEntry key value rest else (key, value) :: (k, v) :: rest

mutual

def sorted : Json ν → Json ν
  | .array items => .array (sortedItems items)
  | .object entries => .object (sortedEntries [] entries)
  | v => v

def sortedItems : List (Json ν) → List (Json ν)
  | [] => []
  | v :: rest => sorted v :: sortedItems rest

def sortedEntries (done : List (String × Json ν)) :
    List (String × Json ν) → List (String × Json ν)
  | [] => done
  | (k, v) :: rest => sortedEntries (insertEntry k (sorted v) done) rest

end

mutual

def matchTrees (eq : ν → ν → Bool) : Json ν → Json ν → Bool
  | .null, .null => true
  | .bool a, .bool b => a == b
  | .number m, .number n => eq m n
  | .string s, .string t => s == t
  | .array xs, .array ys => matchItems eq xs ys
  | .object xs, .object ys => matchEntries eq xs ys
  | _, _ => false
termination_by structural x => x

def matchItems (eq : ν → ν → Bool) : List (Json ν) → List (Json ν) → Bool
  | [], [] => true
  | x :: xs, y :: ys => matchTrees eq x y && matchItems eq xs ys
  | _, _ => false
termination_by structural x => x

def matchEntries (eq : ν → ν → Bool) :
    List (String × Json ν) → List (String × Json ν) → Bool
  | [], [] => true
  | (j, x) :: xs, (k, y) :: ys => j == k && matchTrees eq x y && matchEntries eq xs ys
  | _, _ => false
termination_by structural x => x

end

/-- Equality that does not look at the order of an object's entries. -/
def equals (eq : ν → ν → Bool) (x y : Json ν) : Bool :=
  matchTrees eq x.sorted y.sorted

end Json
end SceneDoc
