import SceneDoc.Catalogue.Attributes

namespace SceneDoc
namespace Catalogue

def billboard : Definition where
  name := "Billboard"
  description := "A billboard, or viewport-aligned image."
  bases := [.aligned]
  attributes := [
    .shown,
    .optional "image" "Option<Uri>" "The URI of the image displayed on the billboard.",
    .number "scale" "The scale of the billboard.",
    .optional "pixelOffset" "Option<Cartesian2>"
      "The billboard's pixel offset in screen space from the origin of this billboard.",
    .optional "eyeOffset" "Option<Cartesian3>" "The billboard's offset in eye coordinates.",
    .heightReference,
    .color "color" "The color of the billboard, multiplied with the image.",
    .number "rotation" "The rotation of the billboard, in radians, counter-clockwise.",
    .number "width" "The width of the billboard, in pixels.",
    .number "height" "The height of the billboard, in pixels.",
    .optional "scaleByDistance" "Option<NearFarScalar>"
      "How the billboard's scale should change based on the distance from the camera.",
    .optional "imageSubRegion" "Option<BoundingRectangle>"
      "A sub-region of the image which will be used for the billboard.",
    .distanceDisplayCondition]
  rules := []

def label : Definition where
  name := "Label"
  description := "A string of text."
  bases := [.aligned]
  attributes := [
    .shown,
    .optional "text" "Option<String>" "The text displayed by the label.",
    .optional "font" "Option<String>" "The font to use for the label.",
    .enumerated "style" Enumeration.labelStyles "The style of the label.",
    .number "scale" "The scale of the label.",
    .flag "showBackground" "Whether or not a background behind the label is shown.",
    .color "backgroundColor" "The color of the background behind the label.",
    .optional "pixelOffset" "Option<Cartesian2>"
      "The label's pixel offset in screen space from the origin of this label.",
    .optional "eyeOffset" "Option<Cartesian3>" "The label's offset in eye coordinates.",
    .heightReference,
    .color "fillColor" "The fill color of the label.",
    .color "outlineColor" "The outline color of the label.",
    .number "outlineWidth" "The outline width of the label.",
    .optional "translucencyByDistance" "Option<NearFarScalar>"
      "How the label's translucency should change based on the distance from the camera.",
    .distanceDisplayCondition]
  rules := []

def point : Definition where
  name := "Point"
  description := "A point, or viewport-aligned circle."
  bases := []
  attributes := [
    .shown,
    .number "pixelSize" "The size of the point, in pixels.",
    .heightReference,
    .color "color" "The color of the point.",
    .color "outlineColor" "The color of the outline of the point.",
    .number "outlineWidth" "The width of the outline of the point.",
    .optional "scaleByDistance" "Option<NearFarScalar>"
      "How the point's scale should change based on the distance from the camera.",
    .optional "translucencyByDistance" "Option<NearFarScalar>"
      "How the point's translucency should change based on the distance from the camera.",
    .distanceDisplayCondition]
  rules := []

def path : Definition where
  name := "Path"
  description := "A path, which is a polyline defined by the motion of an object over time."
  bases := []
  attributes := [
    .shown,
    .number "leadTime" "The number of seconds in front of the object to show the path.",
    .number "trailTime" "The number of seconds behind the object to show the path.",
    .number "width" "The width of the path line.",
    .number "resolution" "The maximum step-size, in seconds, used to sample the path.",
    .optional "material" "Option<PolylineMaterial>" "The material to use to draw the path.",
    .distanceDisplayCondition]
  rules := []

def model : Definition where
  name := "Model"
  description := "A 3D model."
  bases := []
  attributes := [
    .shown,
    (Attribute.optional "gltf" "Uri" "The URI of a glTF model.").mandatory,
    .number "scale" "The scale of the model.",
    .number "minimumPixelSize"
      "The approximate minimum pixel size of the model regardless of zoom.",
    .number "maximumScale" "The maximum scale size of the model.",
    .flag "incrementallyLoadTextures"
      "Whether or not the model can be rendered before all textures have loaded.",
    .flag "runAnimations" "Whether or not to run all animations defined in the glTF model.",
    .shadows,
    .heightReference,
    .color "silhouetteColor" "The color of the silhouette drawn around the model.",
    .number "silhouetteSize" "The size, in pixels, of the silhouette.",
    .color "color" "The color to blend with the model's rendered color.",
    .enumerated "colorBlendMode" Enumeration.colorBlendModes
      "The mode to use for blending between color and the model's color.",
    .number "colorBlendAmount" "The color strength when colorBlendMode is MIX.",
    .distanceDisplayCondition]
  rules := []

end Catalogue
end SceneDoc
