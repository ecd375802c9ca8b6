import SceneDoc.Catalogue.Attributes

namespace SceneDoc
namespace Catalogue

def color : Definition where
  name := "Color"
  description := "A color. The color can optionally vary over time."
  bases := [.deletable, .interpolatable]
  attributes := [
    (Attribute.optional "rgba" "Option<Rgba>"
      ("The color specified as an array of color components [Red, Green, Blue, Alpha] where " ++
       "each component is in the range 0-255.")).interpolated,
    (Attribute.optional "rgbaf" "Option<Rgbaf>"
      ("The color specified as an array of color components [Red, Green, Blue, Alpha] where " ++
       "each component is in the range 0.0-1.0.")).interpolated,
    .reference "The color specified as a reference to another property."]
  rules := [
    .exclusive ["rgba", "rgbaf", "reference"]]

def material : Definition where
  name := "Material"
  description := "A definition of how a surface is colored or shaded."
  bases := []
  attributes := [
    .optional "solidColor" "Option<SolidColorMaterial>"
      "A material that fills the surface with a solid color.",
    .optional "image" "Option<ImageMaterial>" "A material that fills the surface with an image.",
    .optional "grid" "Option<GridMaterial>" "A material that fills the surface with a grid.",
    .optional "stripe" "Option<StripeMaterial>"
      "A material that fills the surface with alternating colors."]
  rules := [
    .exclusive ["solidColor", "image", "grid", "stripe"]]

def solidColorMaterial : Definition where
  name := "SolidColorMaterial"
  description := "A material that fills the surface with a solid color."
  bases := []
  attributes := [
    .color "color" "The color of the surface."]
  rules := []

def imageMaterial : Definition where
  name := "ImageMaterial"
  description := "A material that fills the surface with an image."
  bases := []
  attributes := [
    (Attribute.optional "image" "Uri" "The image to display on the surface.").mandatory,
    .optional "repeat" "Option<Cartesian2>"
      "The number of times the image repeats along each axis.",
    .color "color" "The color of the image.",
    .flag "transparent" "Whether or not the image has transparency."]
  rules := []

def gridMaterial : Definition where
  name := "GridMaterial"
  description := "A material that fills the surface with a two-dimensional grid."
  bases := []
  attributes := [
    .color "color" "The color of the surface.",
    .number "cellAlpha" "The alpha value for the space between grid lines.",
    .optional "lineCount" "Option<Cartesian2>" "The number of grid lines along each axis.",
    .optional "lineThickness" "Option<Cartesian2>"
      "The thickness of grid lines along each axis, in pixels.",
    .optional "lineOffset" "Option<Cartesian2>"
      "The offset of grid lines along each axis, as a percentage from 0 to 1."]
  rules := []

def stripeMaterial : Definition where
  name := "StripeMaterial"
  description := "A material that fills the surface with alternating colors."
  bases := []
  attributes := [
    .enumerated "orientation" Enumeration.stripeOrientations
      "The value indicating if the stripes are horizontal or vertical.",
    .color "evenColor" "The even color.",
    .color "oddColor" "The odd color.",
    .number "offset" "The value indicating where in the pattern to begin drawing.",
    .number "repeat" "The number of times the stripes repeat."]
  rules := []

def polylineMaterial : Definition where
  name := "PolylineMaterial"
  description := "A definition of how a polyline is colored or shaded."
  bases := []
  attributes := [
    .optional "solidColor" "Option<SolidColorMaterial>"
      "A material that fills the line with a solid color.",
    .optional "image" "Option<ImageMaterial>" "A material that fills the line with an image.",
    .optional "grid" "Option<GridMaterial>" "A material that fills the line with a grid.",
    .optional "stripe" "Option<StripeMaterial>"
      "A material that fills the line with alternating colors.",
    .optional "polylineOutline" "Option<PolylineOutline>"
      "A material that fills the line with a color and outline.",
    .optional "polylineArrow" "Option<PolylineArrow>"
      "A material that fills the line with an arrow.",
    .optional "polylineDash" "Option<PolylineDash>"
      "A material that fills the line with a pattern of dashes.",
    .optional "polylineGlow" "Option<PolylineGlow>"
      "A material that fills the line with a glowing color."]
  rules := [
    .exclusive [
      "solidColor", "image", "grid", "stripe", "polylineOutline", "polylineArrow",
      "polylineDash", "polylineGlow"]]

def polylineOutline : Definition where
  name := "PolylineOutline"
  description := "A definition of a polyline outline material."
  bases := []
  attributes := [
    .color "color" "The color of the surface.",
    .color "outlineColor" "The color of the surface outline.",
    .number "outlineWidth" "The width of the outline, in pixels."]
  rules := []

def polylineGlow : Definition where
  name := "PolylineGlow"
  description := "A definition of a polyline glow material."
  bases := []
  attributes := [
    .color "color" "The color of the surface.",
    .number "glowPower" "The strength of the glow, as a percentage of the total line width.",
    .number "taperPower"
      "The strength of the tapering effect, as a percentage of the total line length."]
  rules := []

def polylineArrow : Definition where
  name := "PolylineArrow"
  description := "A definition of a polyline arrow material."
  bases := []
  attributes := [
    .color "color" "The color of the surface."]
  rules := []

def polylineDash : Definition where
  name := "PolylineDash"
  description := "A definition of a polyline dash material."
  bases := []
  attributes := [
    .color "color" "The color of the dashes on the line.",
    .color "gapColor" "The color of the gaps between dashes on the line.",
    .number "dashLength" "The length in screen-space pixels of a single dash and gap pattern.",
    .number "dashPattern"
      ("A 16-bit bitfield representing which portions along a single dash and gap pattern are " ++
       "dashes and which are gaps.")]
  rules := []

end Catalogue
end SceneDoc
