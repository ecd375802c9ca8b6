import SceneDoc.Schema.Vocabulary

namespace SceneDoc
namespace Capability

def attributes : Capability → List Attribute
  | .deletable => [
      .optional "delete" "Option<bool>"
        ("Whether the client should delete existing samples or interval data for this " ++
         "property. If true, all other properties in this property will be ignored.")]
  | .interpolatable => [
      .optional "epoch" "Option<Instant>"
        "The epoch to use for times specified as seconds since an epoch.",
      .enumerated "interpolationAlgorithm" Enumeration.interpolationAlgorithms
        "The interpolation algorithm to use when interpolating.",
      .optional "interpolationDegree" "Option<f64>"
        "The degree of interpolation to use when interpolating.",
      .enumerated "forwardExtrapolationType" Enumeration.extrapolationTypes
        ("The type of extrapolation to perform when a value is requested at a time after any " ++
         "available samples."),
      .optional "forwardExtrapolationDuration" "Option<f64>"
        "The amount of time to extrapolate forward before the property becomes undefined.",
      .enumerated "backwardExtrapolationType" Enumeration.extrapolationTypes
        ("The type of extrapolation to perform when a value is requested at a time before any " ++
         "available samples."),
      .optional "backwardExtrapolationDuration" "Option<f64>"
        "The amount of time to extrapolate backward before the property becomes undefined."]
  | .aligned => [
      .enumerated "horizontalOrigin" Enumeration.horizontalOrigins
        "Whether the object is left-, center-, or right-aligned with the position.",
      .enumerated "verticalOrigin" Enumeration.verticalOrigins
        "Whether the object is bottom-, center-, or top-aligned with the position."]

def rules : Capability → List Rule
  | .interpolatable => [
      .requires "interpolationDegree" "interpolationAlgorithm",
      .requires "forwardExtrapolationDuration" "forwardExtrapolationType",
      .requires "backwardExtrapolationDuration" "backwardExtrapolationType"]
  | .deletable | .aligned => []

end Capability

namespace Definition

/-- Every attribute of a class with the capability that it comes from. -/
def inherited (d : Definition) : List (Attribute × Option Capability) :=
  d.bases.flatMap (fun c => c.attributes.map (·, some c)) ++ d.attributes.map (·, none)

/-- The rules of the capabilities, and then the class's own. -/
def allRules (d : Definition) : List Rule :=
  d.bases.flatMap Capability.rules ++ d.rules

end Definition
end SceneDoc
