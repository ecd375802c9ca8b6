import SceneDoc.Catalogue.Packets
import SceneDoc.Catalogue.Positions
import SceneDoc.Catalogue.Materials
import SceneDoc.Catalogue.Marks
import SceneDoc.Catalogue.Extents

namespace SceneDoc
namespace Catalogue

-- Sums start from the zero of the core library, also where more algebra is in scope.
attribute [local instance (high)] Zero.ofOfNat0

def definitions : List Definition := [
  packet, preamble, clock, position, positionList, orientation, viewFrom, boxDimensions,
  ellipsoidRadii, rectangleCoordinates, color, material, solidColorMaterial, imageMaterial,
  gridMaterial, stripeMaterial, polylineMaterial, polylineOutline, polylineGlow, polylineArrow,
  polylineDash, billboard, label, point, path, polyline, polygon, box, ellipsoid, rectangle,
  model]

def definition? (name : String) : Option Definition :=
  definitions.find? (·.name == name)

/-- The attributes of all classes, where those of a capability count once per class that has it. -/
def attributeCount (definitions : List Definition) : Nat :=
  (definitions.map fun d =>
    d.attributes.length + (d.bases.map fun c => c.attributes.length).sum).sum

end Catalogue
end SceneDoc
