import SceneDoc.Json.Equality
import SceneDoc.Object.Value

namespace SceneDoc

def Double.listEquals : List Double → List Double → Bool
  | [], [] => true
  | x :: xs, y :: ys => x.equals y && listEquals xs ys
  | _, _ => false

def TimeTag.equals : TimeTag → TimeTag → Bool
  | .at i, .at j => i == j
  | .seconds s, .seconds t => s.equals t
  | _, _ => false

def Sample.listEquals : List Sample → List Sample → Bool
  | [], [] => true
  | s :: ss, t :: ts =>
    s.time.equals t.time && Double.listEquals s.values t.values && listEquals ss ts
  | _, _ => false

def Samples.equals : Samples → Samples → Bool
  | .constant xs, .constant ys => Double.listEquals xs ys
  | .tagged ss, .tagged ts => Sample.listEquals ss ts
  | _, _ => false

namespace Value

mutual

def equals : Value → Value → Bool
  | .bool a, .bool b => a == b
  | .number x, .number y => x.equals y
  | .text s, .text t => s == t
  | .numbers xs, .numbers ys => Double.listEquals xs ys
  | .samples s, .samples t => s.equals t
  | .instant i, .instant j => i == j
  | .interval i, .interval j => i == j
  | .intervals is, .intervals js => is == js
  | .object ⟨c, xs⟩, .object ⟨d, ys⟩ => c.name == d.name && slotsEqual xs ys
  | .timed ⟨i, j, x⟩, .timed ⟨k, l, y⟩ => i == k && j == l && equals x y
  | .timedList xs, .timedList ys => timedEqual xs ys
  | .properties xs, .properties ys => entriesEqual xs ys
  | .json s, .json t => s.equals Number.equals t
  | _, _ => false
termination_by structural x => x

def slotsEqual : List (Option Value) → List (Option Value) → Bool
  | [], [] => true
  | none :: xs, none :: ys => slotsEqual xs ys
  | some x :: xs, some y :: ys => equals x y && slotsEqual xs ys
  | _, _ => false
termination_by structural xs => xs

def timedEqual : List (TimedOf Value) → List (TimedOf Value) → Bool
  | [], [] => true
  | ⟨i, j, x⟩ :: xs, ⟨k, l, y⟩ :: ys => i == k && j == l && equals x y && timedEqual xs ys
  | _, _ => false
termination_by structural xs => xs

def entriesEqual : List (String × Value) → List (String × Value) → Bool
  | [], [] => true
  | (j, x) :: xs, (k, y) :: ys => j == k && equals x y && entriesEqual xs ys
  | _, _ => false
termination_by structural xs => xs

end

end Value

def ObjectOf.equals (a b : Object) : Bool :=
  a.cls.name == b.cls.name && Value.slotsEqual a.slots b.slots

end SceneDoc
