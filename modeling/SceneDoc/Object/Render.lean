import SceneDoc.Json.Writer
import SceneDoc.Object.Value

namespace SceneDoc

def Double.render (x : Double) : Json Leaf := .number x.leaf

def TimeTag.render : TimeTag → Json Leaf
  | .at instant => .string instant.render
  | .seconds offset => offset.render

namespace Samples

/-- A constant of one number stands without a list around it. -/
def render : Samples → Json Leaf
  | .constant [x] => x.render
  | .constant xs => .array (xs.map Double.render)
  | .tagged samples =>
    .array (samples.flatMap fun s => s.time.render :: s.values.map Double.render)

end Samples

namespace Value

mutual

def render : Value → Json Leaf
  | .bool b => .bool b
  | .number x => x.render
  | .text s => .string s
  | .numbers xs => .array (xs.map Double.render)
  | .samples s => s.render
  | .instant i => .string i.render
  | .interval i => .string i.render
  | .intervals is => .array (is.map fun i => .string i.render)
  | .object ⟨cls, slots⟩ => .object (renderSlots cls.fields slots)
  | .timed t => .object (renderTimed t)
  | .timedList ts => .array (renderTimedList ts)
  | .properties entries => .object (renderProperties entries)
  | .json tree => tree.map .ok

def renderSlots : List Field → List (Option Value) → List (String × Json Leaf)
  | f :: fields, some v :: slots => (f.name, render v) :: renderSlots fields slots
  | _ :: fields, none :: slots => renderSlots fields slots
  | _, _ => []

def renderTimed : TimedOf Value → List (String × Json Leaf)
  | ⟨period, _, .object ⟨cls, slots⟩⟩ =>
    ("interval", .string period.render) :: renderSlots cls.fields slots
  | ⟨period, key, v⟩ => [("interval", .string period.render), (key, render v)]

def renderTimedList : List (TimedOf Value) → List (Json Leaf)
  | [] => []
  | t :: rest => .object (renderTimed t) :: renderTimedList rest

def renderProperties : List (String × Value) → List (String × Json Leaf)
  | [] => []
  | (name, v) :: rest => (name, render v) :: renderProperties rest

end

end Value

def ObjectOf.render (o : Object) : Json Leaf := (Value.object o).render

end SceneDoc
