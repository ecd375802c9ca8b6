namespace SceneDoc

inductive Json (ν : Type) where
  | null
  | bool (value : Bool)
  | number (value : ν)
  | string (value : String)
  | array (items : List (Json ν))
  | object (entries : List (String × Json ν))

namespace Json

variable {ν μ ε : Type}

mutual

def map (f : ν → μ) : Json ν → Json μ
  | .null => .null
  | .bool b => .bool b
  | .number n => .number (f n)
  | .string s => .string s
  | .array items => .array (mapItems f items)
  | .object entries => .object (mapEntries f entries)

def mapItems (f : ν → μ) : List (Json ν) → List (Json μ)
  | [] => []
  | v :: rest => map f v :: mapItems f rest

def mapEntries (f : ν → μ) : List (String × Json ν) → List (String × Json μ)
  | [] => []
  | (k, v) :: rest => (k, map f v) :: mapEntries f rest

end

mutual

/-- Converts each number from left to right, up to the first that fails. -/
def tryMap (f : ν → Except ε μ) : Json ν → Except ε (Json μ)
  | .null => .ok .null
  | .bool b => .ok (.bool b)
  | .number n => (f n).map .number
  | .string s => .ok (.string s)
  | .array items => (tryMapItems f items).map .array
  | .object entries => (tryMapEntries f entries).map .object

def tryMapItems (f : ν → Except ε μ) : List (Json ν) → Except ε (List (Json μ))
  | [] => .ok []
  | v :: rest => do
    let v ← tryMap f v
    let rest ← tryMapItems f rest
    return v :: rest

def tryMapEntries (f : ν → Except ε μ) :
    List (String × Json ν) → Except ε (List (String × Json μ))
  | [] => .ok []
  | (k, v) :: rest => do
    let v ← tryMap f v
    let rest ← tryMapEntries f rest
    return (k, v) :: rest

end

/-- Gives `key` the value `value`: where the key stands, or else at the end. -/
def put (entries : List (String × Json ν)) (key : String) (value : Json ν) :
    List (String × Json ν) :=
  match entries with
  | [] => [(key, value)]
  | (k, v) :: rest => if k = key then (k, value) :: rest else (k, v) :: put rest key value

mutual

/-- One entry per key: a repeated key keeps its first place and its last value. -/
def distinct : Json ν → Json ν
  | .array items => .array (distinctItems items)
  | .object entries => .object (distinctEntries [] entries)
  | v => v

def distinctItems : List (Json ν) → List (Json ν)
  | [] => []
  | v :: rest => distinct v :: distinctItems rest

def distinctEntries (done : List (String × Json ν)) :
    List (String × Json ν) → List (String × Json ν)
  | [] => done
  | (k, v) :: rest => distinctEntries (put done k (distinct v)) rest

end

def isObject : Json ν → Bool
  | .object _ => true
  | _ => false

def get? (key : String) : Json ν → Option (Json ν)
  | .object entries => entries.lookup key
  | _ => none

end Json
end SceneDoc
