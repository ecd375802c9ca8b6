import SceneDoc.Catalogue.Attributes

namespace SceneDoc
namespace Catalogue

def position : Definition where
  name := "Position"
  description := "Defines a position. The position can optionally vary over time."
  bases := [.deletable, .interpolatable]
  attributes := [
    .enumerated "referenceFrame" Enumeration.referenceFrames
      "The reference frame in which cartesian positions are specified.",
    (Attribute.optional "cartesian" "Option<czml::values::Cartesian3>"
      "The position specified as a three-dimensional Cartesian value, in meters.").interpolated,
    (Attribute.optional "cartographicRadians" "Option<czml::values::CartographicRadians>"
      ("The position specified in cartographic WGS84 coordinates, [Longitude, Latitude, " ++
       "Height], in radians and meters.")).interpolated,
    (Attribute.optional "cartographicDegrees" "Option<czml::values::CartographicDegrees>"
      ("The position specified in cartographic WGS84 coordinates, [Longitude, Latitude, " ++
       "Height], in degrees and meters.")).interpolated,
    .reference "The position specified as a reference to another property."]
  rules := [
    .exclusive ["cartesian", "cartographicRadians", "cartographicDegrees", "reference"]]

def positionList : Definition where
  name := "PositionList"
  description := "A list of positions."
  bases := [.deletable]
  attributes := [
    .enumerated "referenceFrame" Enumeration.referenceFrames
      "The reference frame in which cartesian positions are specified.",
    .optional "cartesian" "Option<CartesianList>"
      "The list of positions specified as three-dimensional Cartesian values.",
    .optional "cartographicRadians" "Option<CartographicRadiansList>"
      "The list of positions specified in cartographic WGS84 coordinates, in radians.",
    .optional "cartographicDegrees" "Option<CartographicDegreesList>"
      "The list of positions specified in cartographic WGS84 coordinates, in degrees."]
  rules := [
    .exclusive ["cartesian", "cartographicRadians", "cartographicDegrees"]]

def orientation : Definition where
  name := "Orientation"
  description :=
    "Defines an orientation. An orientation is a rotation that takes a vector expressed in " ++
    "the axes of the body and transforms it to the Earth fixed axes."
  bases := [.deletable, .interpolatable]
  attributes := [
    (Attribute.optional "unitQuaternion" "Option<UnitQuaternion>"
      "The orientation specified as a 4-dimensional unit magnitude quaternion, [X, Y, Z, W].").interpolated,
    .reference "The orientation specified as a reference to another property.",
    .optional "velocityReference" "Option<Reference>"
      "The orientation specified as the normalized velocity vector of a position property."]
  rules := [
    .exclusive ["unitQuaternion", "reference", "velocityReference"]]

def viewFrom : Definition where
  name := "ViewFrom"
  description :=
    "A suggested initial camera position offset when tracking an object, specified as a " ++
    "Cartesian position in the East (x), North (y), Up (z) reference frame relative to the " ++
    "object's position."
  bases := [.deletable, .interpolatable]
  attributes := [
    (Attribute.optional "cartesian" "Option<Cartesian3>"
      "The offset specified as a three-dimensional Cartesian value.").interpolated,
    .reference "The offset specified as a reference to another property."]
  rules := [
    .exclusive ["cartesian", "reference"]]

def boxDimensions : Definition where
  name := "BoxDimensions"
  description := "The width, depth, and height of a box."
  bases := [.deletable, .interpolatable]
  attributes := [
    (Attribute.optional "cartesian" "Option<Cartesian3>"
      "The value specified as a three-dimensional Cartesian value.").interpolated,
    .reference "The value specified as a reference to another property."]
  rules := [
    .exclusive ["cartesian", "reference"]]

def ellipsoidRadii : Definition where
  name := "EllipsoidRadii"
  description := "The radii of an ellipsoid."
  bases := [.deletable, .interpolatable]
  attributes := [
    (Attribute.optional "cartesian" "Option<Cartesian3>"
      "The value specified as a three-dimensional Cartesian value.").interpolated,
    .reference "The value specified as a reference to another property."]
  rules := [
    .exclusive ["cartesian", "reference"]]

def rectangleCoordinates : Definition where
  name := "RectangleCoordinates"
  description :=
    "A set of coordinates describing a cartographic rectangle on the surface of the ellipsoid."
  bases := [.deletable, .interpolatable]
  attributes := [
    (Attribute.optional "wsen" "Option<Wsen>"
      ("The set of coordinates specified as Cartographic values [WestLongitude, SouthLatitude, " ++
       "EastLongitude, NorthLatitude], in radians.")).interpolated,
    (Attribute.optional "wsenDegrees" "Option<WsenDegrees>"
      ("The set of coordinates specified as Cartographic values [WestLongitude, SouthLatitude, " ++
       "EastLongitude, NorthLatitude], in degrees.")).interpolated,
    .reference "The set of coordinates specified as a reference to another property."]
  rules := [
    .oneOf ["wsen", "wsenDegrees", "reference"]]

end Catalogue
end SceneDoc
