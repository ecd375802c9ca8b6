import SceneDoc.Catalogue.Attributes

namespace SceneDoc
namespace Catalogue

def polyline : Definition where
  name := "Polyline"
  description := "A polyline, which is a line in the scene composed of multiple segments."
  bases := []
  attributes := [
    .shown,
    (Attribute.optional "positions" "PositionList"
      "The array of positions defining the polyline as a line strip.").mandatory,
    .enumerated "arcType" Enumeration.arcTypes
      "The type of arc that should connect the positions of the line.",
    .number "width" "The width of the polyline.",
    .number "granularity" "The sampling distance, in radians, if arcType is not NONE.",
    .optional "material" "Option<PolylineMaterial>" "The material to use to draw the polyline.",
    .shadows,
    .optional "depthFailMaterial" "Option<PolylineMaterial>"
      "The material to use to draw the polyline when it is below the terrain.",
    .distanceDisplayCondition,
    .flag "clampToGround" "Whether or not the polyline should be clamped to the ground.",
    .classificationType,
    .number "zIndex" "The z-index of the polyline, used for ordering ground geometry."]
  rules := []

def polygon : Definition where
  name := "Polygon"
  description := "A polygon, which is a closed figure on the surface of the Earth."
  bases := []
  attributes := [
    .shown,
    (Attribute.optional "positions" "PositionList"
      "The array of positions defining a simple polygon.").mandatory,
    .enumerated "arcType" Enumeration.arcTypes
      "The type of arc that should connect the positions of the polygon.",
    .number "height" "The height of the polygon when perPositionHeight is false.",
    .heightReference,
    .number "extrudedHeight" "The extruded height of the polygon.",
    .number "stRotation" "The rotation of any applied texture coordinates.",
    .number "granularity" "The sampling distance, in radians."] ++ Attribute.surface ++ [
    .flag "perPositionHeight" "Whether to use the height of each position to define the polygon.",
    .flag "closeTop" "Whether to close the top of the polygon when extruded.",
    .flag "closeBottom" "Whether to close the bottom of the polygon when extruded.",
    .shadows,
    .distanceDisplayCondition,
    .classificationType,
    .number "zIndex" "The z-index of the polygon."]
  rules := []

def box : Definition where
  name := "Box"
  description := "A box, which is a closed rectangular cuboid."
  bases := []
  attributes := [
    .shown,
    .optional "dimensions" "Option<BoxDimensions>" "The dimensions of the box.",
    .heightReference] ++ Attribute.surface ++ [
    .shadows,
    .distanceDisplayCondition]
  rules := []

def ellipsoid : Definition where
  name := "Ellipsoid"
  description := "A closed quadric surface that is a three-dimensional analogue of an ellipse."
  bases := []
  attributes := [
    .shown,
    (Attribute.optional "radii" "EllipsoidRadii" "The dimensions of the ellipsoid.").mandatory,
    .optional "innerRadii" "Option<EllipsoidRadii>" "The dimensions of the inner ellipsoid.",
    .heightReference] ++ Attribute.surface ++ [
    .number "stackPartitions" "The number of times to partition the ellipsoid into stacks.",
    .number "slicePartitions" "The number of times to partition the ellipsoid into radial slices.",
    .number "subdivisions" "The number of samples per outline ring.",
    .shadows,
    .distanceDisplayCondition]
  rules := []

def rectangle : Definition where
  name := "Rectangle"
  description :=
    "A cartographic rectangle, which conforms to the curvature of the globe and can be placed " ++
    "on the surface or at altitude."
  bases := []
  attributes := [
    .shown,
    .optional "coordinates" "Option<RectangleCoordinates>" "The coordinates of the rectangle.",
    .number "height" "The height of the rectangle.",
    .heightReference,
    .number "extrudedHeight" "The extruded height of the rectangle.",
    .number "rotation" "The rotation of the rectangle, clockwise from north.",
    .number "stRotation" "The rotation of any applied texture.",
    .number "granularity" "The sampling distance, in radians."] ++ Attribute.surface ++ [
    .shadows,
    .distanceDisplayCondition,
    .classificationType,
    .number "zIndex" "The z-index of the rectangle."]
  rules := []

end Catalogue
end SceneDoc
