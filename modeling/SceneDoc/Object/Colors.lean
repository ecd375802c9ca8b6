import SceneDoc.Object.Build
import SceneDoc.Value.Color

namespace SceneDoc
namespace Registry

def color (r : Registry) (spelling : ColorSpelling) : Except Error Object :=
  match spelling.resolve with
  | .error e => .error (.refused "Color" "rgba" e)
  | .ok (.rgba c) => r.build "Color" [("rgba", .numbers c.toList)]
  | .ok (.rgbaf c) => r.build "Color" [("rgbaf", .numbers c.toList)]

def colorSamples (fractional : Bool) :
    List (TimeTag × ColorSpelling) → Except ValueError (List Sample)
  | [] => .ok []
  | (time, spelling) :: rest => do
    let color ← spelling.resolve
    let channels := if fractional then color.toRgbaf else color.toRgba
    let samples ← colorSamples fractional rest
    return ⟨time, channels.toList⟩ :: samples

def colorList (r : Registry) (times : List TimeTag) (colors : List ColorSpelling)
    (fractional : Bool) : Except Error Object :=
  let field := if fractional then "rgbaf" else "rgba"
  if colors.length ≠ times.length || colors.isEmpty then
    .error (.refused "Color" field (.invalid (.colorsUnpaired times.length colors.length)))
  else
    match colorSamples fractional (times.zip colors) with
    | .error e => .error (.refused "Color" field e)
    | .ok samples => r.build "Color" [(field, .samples samples)]

end Registry
end SceneDoc
