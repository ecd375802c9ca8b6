import SceneDoc.Value.Error

namespace SceneDoc

/-- The first number that is not finite, as an error. -/
def checkFinite (values : List Double) : Except ValueError Unit :=
  match values.find? (!·.isFinite) with
  | some x => .error (.invalid (.notFinite x))
  | none => .ok ()

theorem checkFinite_eq_ok {values : List Double} :
    checkFinite values = .ok () ↔ ∀ x ∈ values, x.isFinite = true := by
  unfold checkFinite
  split
  · rename_i x hx
    constructor
    · intro h
      cases h
    · intro h
      have hm := List.mem_of_find?_eq_some hx
      have hp := List.find?_some hx
      simp [h x hm] at hp
  · rename_i hn
    simpa using hn

def isByteChannel (x : Double) : Bool := x.isIntegral && x.isUpTo 255

def isUnitChannel (x : Double) : Bool := x.isUpTo 1

inductive TupleShape where
  | cartesian2
  | cartesian3
  | cartographicDegrees
  | cartographicRadians
  | unitQuaternion
  | rgba
  | rgbaf
  | nearFarScalar
  | distanceDisplayCondition
  | boundingRectangle
  | wsen
  | wsenDegrees
deriving DecidableEq, Repr

namespace TupleShape

def all : List TupleShape :=
  [.cartesian2, .cartesian3, .cartographicDegrees, .cartographicRadians, .unitQuaternion, .rgba,
    .rgbaf, .nearFarScalar, .distanceDisplayCondition, .boundingRectangle, .wsen, .wsenDegrees]

def name : TupleShape → String
  | .cartesian2 => "Cartesian2"
  | .cartesian3 => "Cartesian3"
  | .cartographicDegrees => "CartographicDegrees"
  | .cartographicRadians => "CartographicRadians"
  | .unitQuaternion => "UnitQuaternion"
  | .rgba => "Rgba"
  | .rgbaf => "Rgbaf"
  | .nearFarScalar => "NearFarScalar"
  | .distanceDisplayCondition => "DistanceDisplayCondition"
  | .boundingRectangle => "BoundingRectangle"
  | .wsen => "Wsen"
  | .wsenDegrees => "WsenDegrees"

def ofName? (name : String) : Option TupleShape := all.find? (·.name == name)

def arity : TupleShape → Nat
  | .cartesian2 | .distanceDisplayCondition => 2
  | .cartesian3 | .cartographicDegrees | .cartographicRadians => 3
  | .unitQuaternion | .rgba | .rgbaf | .nearFarScalar | .boundingRectangle | .wsen
  | .wsenDegrees => 4

/-- The key that a value has inside an interval. -/
def key : TupleShape → String
  | .cartesian2 => "cartesian2"
  | .cartesian3 => "cartesian"
  | .cartographicDegrees => "cartographicDegrees"
  | .cartographicRadians => "cartographicRadians"
  | .unitQuaternion => "unitQuaternion"
  | .rgba => "rgba"
  | .rgbaf => "rgbaf"
  | .nearFarScalar => "nearFarScalar"
  | .distanceDisplayCondition => "distanceDisplayCondition"
  | .boundingRectangle => "boundingRectangle"
  | .wsen => "wsen"
  | .wsenDegrees => "wsenDegrees"

/-- What is wrong with finite numbers of the right count. -/
def domain? (shape : TupleShape) (values : List Double) : Option Reason :=
  match shape with
  | .rgba => if values.all isByteChannel then none else some (.rgbaChannels values)
  | .rgbaf => if values.all isUnitChannel then none else some (.rgbafChannels values)
  | .unitQuaternion => if values.all Double.isZero then some .zeroNorm else none
  | _ => none

def check (shape : TupleShape) (values : List Double) : Except ValueError Unit :=
  if values.length ≠ shape.arity then .error (.shape (.exactly shape.arity) values.length)
  else
    match checkFinite values with
    | .error e => .error e
    | .ok () =>
      match shape.domain? values with
      | some reason => .error (.invalid reason)
      | none => .ok ()

end TupleShape

inductive ListShape where
  | cartesian
  | cartographicDegrees
  | cartographicRadians
deriving DecidableEq, Repr

namespace ListShape

def all : List ListShape := [.cartesian, .cartographicDegrees, .cartographicRadians]

def name : ListShape → String
  | .cartesian => "CartesianList"
  | .cartographicDegrees => "CartographicDegreesList"
  | .cartographicRadians => "CartographicRadiansList"

def ofName? (name : String) : Option ListShape := all.find? (·.name == name)

def stride (_ : ListShape) : Nat := 3

def key : ListShape → String
  | .cartesian => "cartesian"
  | .cartographicDegrees => "cartographicDegrees"
  | .cartographicRadians => "cartographicRadians"

def check (shape : ListShape) (values : List Double) : Except ValueError Unit :=
  if values.isEmpty || values.length % shape.stride ≠ 0 then
    .error (.shape (.multipleOf shape.stride) values.length)
  else checkFinite values

end ListShape
end SceneDoc
