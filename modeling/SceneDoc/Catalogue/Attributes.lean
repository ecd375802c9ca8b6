import SceneDoc.Schema.Capability

namespace SceneDoc
namespace Attribute

def number (name description : String) : Attribute :=
  .optional name "Option<f64>" description

def flag (name description : String) : Attribute :=
  .optional name "Option<bool>" description

def color (name description : String) : Attribute :=
  .optional name "Option<Color>" description

/-- Values given by naming another property. -/
def reference (description : String) : Attribute :=
  .optional "reference" "Option<Reference>" description

def shown : Attribute :=
  .flag "show" "Whether or not the object is shown."

def distanceDisplayCondition : Attribute :=
  .optional "distanceDisplayCondition" "Option<DistanceDisplayCondition>"
    ("The display condition specifying the distance from the camera at which this object will " ++
     "be displayed.")

def heightReference : Attribute :=
  .enumerated "heightReference" Enumeration.heightReferences
    ("The height reference of the object, which indicates if the position is relative to " ++
     "terrain or not.")

def shadows : Attribute :=
  .enumerated "shadows" Enumeration.shadowModes
    "Whether or not the object casts or receives shadows from each light source."

def classificationType : Attribute :=
  .enumerated "classificationType" Enumeration.classificationTypes
    "Whether a classification affects terrain, 3D Tiles, or both."

/-- What closed figures have on their surface and along its edges. -/
def surface : List Attribute := [
  .flag "fill" "Whether or not the object is filled.",
  .optional "material" "Option<Material>" "The material to display on the surface of the object.",
  .flag "outline" "Whether or not the object is outlined.",
  .color "outlineColor" "The color of the outline.",
  .number "outlineWidth" "The width of the outline."]

end Attribute
end SceneDoc
