import SceneDoc.Catalogue.Attributes

namespace SceneDoc
namespace Catalogue

def formatVersion : String := "1.0"

def packet : Definition where
  name := "Packet"
  description :=
    "A packet describes the graphical properties of a single object in the scene, such as a " ++
    "single aircraft."
  bases := []
  attributes := [
    .optional "id" "Option<String>" "The ID of the object described by this packet.",
    .flag "delete" "Whether the client should delete all existing data for this object.",
    .optional "name" "Option<String>" "The name of the object.",
    .optional "parent" "Option<String>" "The ID of the parent object, if any.",
    .optional "description" "Option<String>" "An HTML description of the object.",
    .optional "availability" "Option<TimeInterval>"
      "The set of time intervals over which data for an object is available.",
    .optional "properties" "Option<Properties>" "A set of custom properties for this object.",
    .optional "position" "Option<Position>" "The position of the object.",
    .optional "orientation" "Option<Orientation>" "The orientation of the object in the world.",
    .optional "viewFrom" "Option<ViewFrom>"
      "A suggested initial camera position offset when tracking this object.",
    .optional "billboard" "Option<Billboard>"
      "A billboard, or viewport-aligned image, sometimes called a marker.",
    .optional "box" "Option<Box>" "A box, a closed rectangular cuboid.",
    .optional "ellipsoid" "Option<Ellipsoid>" "An ellipsoid, a closed quadric surface.",
    .optional "label" "Option<Label>" "A string of text.",
    .optional "model" "Option<Model>" "A 3D model.",
    .optional "path" "Option<Path>"
      "A path, a polyline defined by the motion of an object over time.",
    .optional "point" "Option<Point>" "A point, or viewport-aligned circle.",
    .optional "polygon" "Option<Polygon>" "A polygon, a closed figure on the surface of the Earth.",
    .optional "polyline" "Option<Polyline>"
      "A polyline, a line in the scene composed of multiple segments.",
    .optional "rectangle" "Option<Rectangle>"
      "A cartographic rectangle which conforms to the curvature of the globe."]
  rules := []

def preamble : Definition where
  name := "Preamble"
  description := "The preamble packet, which must be the first packet of a document."
  bases := []
  attributes := [
    (Attribute.optional "id" "String"
      "The ID of the preamble packet.").withDefault (.text "document"),
    (Attribute.optional "version" "String"
      "The document format version.").withDefault (.text formatVersion),
    .optional "name" "Option<String>" "The name of the document.",
    .optional "description" "Option<String>" "The description of the document.",
    .optional "clock" "Option<Clock>" "The clock settings for the entire data set."]
  rules := []

def clock : Definition where
  name := "Clock"
  description := "Initial settings for a simulated clock when a document is loaded."
  bases := []
  attributes := [
    .optional "interval" "Option<TimeInterval>" "The interval over which the clock is defined.",
    .optional "currentTime" "Option<Instant>" "The current time of the clock.",
    .number "multiplier"
      "The multiplier: seconds of scene time per tick or per second of wall time.",
    .enumerated "range" Enumeration.clockRanges
      "The behavior when the current time reaches its start or end times.",
    .enumerated "step" Enumeration.clockSteps "How the current time advances each tick."]
  rules := []

end Catalogue
end SceneDoc
