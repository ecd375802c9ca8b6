import SceneDoc.Schema.Definition

namespace SceneDoc
namespace Enumeration

def interpolationAlgorithms : Enumeration where
  name := "InterpolationAlgorithms"
  description := "The interpolation algorithm to use when interpolating."
  members := [
    ("Linear", "LINEAR"), ("Lagrange", "LAGRANGE"), ("Hermite", "HERMITE")]

def extrapolationTypes : Enumeration where
  name := "ExtrapolationTypes"
  description := "The type of extrapolation to perform outside the available samples."
  members := [
    ("None", "NONE"), ("Hold", "HOLD"), ("Extrapolate", "EXTRAPOLATE")]

def referenceFrames : Enumeration where
  name := "ReferenceFrames"
  description := "The reference frame in which cartesian positions are specified."
  members := [
    ("Fixed", "FIXED"), ("Inertial", "INERTIAL")]

def labelStyles : Enumeration where
  name := "LabelStyles"
  description := "The style of a label."
  members := [
    ("Fill", "FILL"), ("Outline", "OUTLINE"), ("FillAndOutline", "FILL_AND_OUTLINE")]

def clockRanges : Enumeration where
  name := "ClockRanges"
  description := "The behavior of a clock when its current time reaches its start or end time."
  members := [
    ("Unbounded", "UNBOUNDED"), ("Clamped", "CLAMPED"), ("LoopStop", "LOOP_STOP")]

def clockSteps : Enumeration where
  name := "ClockSteps"
  description := "How a clock advances each tick."
  members := [
    ("TickDependent", "TICK_DEPENDENT"), ("SystemClockMultiplier", "SYSTEM_CLOCK_MULTIPLIER"),
    ("SystemClock", "SYSTEM_CLOCK")]

def verticalOrigins : Enumeration where
  name := "VerticalOrigins"
  description := "The vertical location of an origin relative to an object."
  members := [
    ("Baseline", "BASELINE"), ("Bottom", "BOTTOM"), ("Center", "CENTER"), ("Top", "TOP")]

def horizontalOrigins : Enumeration where
  name := "HorizontalOrigins"
  description := "The horizontal location of an origin relative to an object."
  members := [
    ("Left", "LEFT"), ("Center", "CENTER"), ("Right", "RIGHT")]

def heightReferences : Enumeration where
  name := "HeightReferences"
  description := "The height reference of an object."
  members := [
    ("None", "NONE"), ("ClampToGround", "CLAMP_TO_GROUND"),
    ("RelativeToGround", "RELATIVE_TO_GROUND")]

def colorBlendModes : Enumeration where
  name := "ColorBlendModes"
  description := "How a model's color blends with the model's rendered color."
  members := [
    ("Highlight", "HIGHLIGHT"), ("Replace", "REPLACE"), ("Mix", "MIX")]

def shadowModes : Enumeration where
  name := "ShadowModes"
  description := "Whether an object casts or receives shadows."
  members := [
    ("Disabled", "DISABLED"), ("Enabled", "ENABLED"), ("CastOnly", "CAST_ONLY"),
    ("ReceiveOnly", "RECEIVE_ONLY")]

def classificationTypes : Enumeration where
  name := "ClassificationTypes"
  description := "Whether a classification affects terrain, 3D Tiles, or both."
  members := [
    ("Terrain", "TERRAIN"), ("Cesium3dTile", "CESIUM_3D_TILE"), ("Both", "BOTH")]

def arcTypes : Enumeration where
  name := "ArcTypes"
  description := "The type of an arc connecting consecutive positions."
  members := [
    ("None", "NONE"), ("Geodesic", "GEODESIC"), ("Rhumb", "RHUMB")]

def stripeOrientations : Enumeration where
  name := "StripeOrientations"
  description := "The orientation of stripes in a stripe material."
  members := [
    ("Horizontal", "HORIZONTAL"), ("Vertical", "VERTICAL")]

def standard : List Enumeration :=
  [interpolationAlgorithms, extrapolationTypes, referenceFrames, labelStyles, clockRanges,
  clockSteps, verticalOrigins, horizontalOrigins, heightReferences, colorBlendModes, shadowModes,
  classificationTypes, arcTypes, stripeOrientations]

end Enumeration
end SceneDoc
