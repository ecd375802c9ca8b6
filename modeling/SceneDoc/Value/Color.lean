import SceneDoc.Text.Blank
import SceneDoc.Text.Hexadecimal
import SceneDoc.Text.Split
import SceneDoc.Value.Shape

namespace SceneDoc

structure Channels where
  red : Double
  green : Double
  blue : Double
  alpha : Double
deriving DecidableEq

namespace Channels

def toList (c : Channels) : List Double := [c.red, c.green, c.blue, c.alpha]

def map (f : Double → Double) (c : Channels) : Channels :=
  ⟨f c.red, f c.green, f c.blue, f c.alpha⟩

/-- Three channels take `opaqueAlpha` for the fourth. -/
def ofList (channels : List Double) (opaqueAlpha : Double) : Except ValueError Channels :=
  match channels with
  | [r, g, b] => .ok ⟨r, g, b, opaqueAlpha⟩
  | [r, g, b, a] => .ok ⟨r, g, b, a⟩
  | _ => .error (.shape .threeOrFour channels.length)

end Channels

/-- A color of whole channels up to 255, or of fractional channels up to 1. -/
inductive Color where
  | rgba (channels : Channels)
  | rgbaf (channels : Channels)
deriving DecidableEq

def isRgba (channels : List Double) : Bool :=
  (channels.length == 3 || channels.length == 4) && channels.all isByteChannel

def isRgbaf (channels : List Double) : Bool :=
  (channels.length == 3 || channels.length == 4) && channels.all isUnitChannel

def rgbaChannels (channels : List Double) : Except ValueError Channels := do
  let c ← Channels.ofList channels (.ofInt 255)
  if isRgba c.toList then return c
  else .error (.invalid (.rgbaChannels c.toList))

def rgbafChannels (channels : List Double) : Except ValueError Channels := do
  let c ← Channels.ofList channels .one
  if isRgbaf c.toList then return c
  else .error (.invalid (.rgbafChannels c.toList))

/-- Whole channels as fractions of 255. -/
def Channels.toFractions (c : Channels) : Channels := c.map (·.divNat 255)

/-- Fractional channels as whole ones; a half goes up. -/
def Channels.toBytes (c : Channels) : Channels := c.map fun x => (x.mulNat 255).roundAway

namespace Color

def toRgba : Color → Channels
  | .rgba c => c
  | .rgbaf c => c.toBytes

def toRgbaf : Color → Channels
  | .rgba c => c.toFractions
  | .rgbaf c => c

def ofBytes (r g b a : Nat) : Color :=
  .rgba ⟨.ofInt r, .ofInt g, .ofInt b, .ofInt a⟩

def ofRgb (packed : Nat) : Color :=
  ofBytes (packed / 0x10000 % 0x100) (packed / 0x100 % 0x100) (packed % 0x100) 255

def ofRgbAlpha (packed : Nat) : Color :=
  ofBytes (packed / 0x1000000 % 0x100) (packed / 0x10000 % 0x100) (packed / 0x100 % 0x100)
    (packed % 0x100)

def named : List (String × Nat) := [
  ("black", 0x000000),
  ("silver", 0xC0C0C0),
  ("gray", 0x808080),
  ("grey", 0x808080),
  ("white", 0xFFFFFF),
  ("maroon", 0x800000),
  ("red", 0xFF0000),
  ("purple", 0x800080),
  ("fuchsia", 0xFF00FF),
  ("green", 0x008000),
  ("lime", 0x00FF00),
  ("olive", 0x808000),
  ("yellow", 0xFFFF00),
  ("navy", 0x000080),
  ("blue", 0x0000FF),
  ("teal", 0x008080),
  ("aqua", 0x00FFFF),
  ("orange", 0xFFA500)]

end Color

inductive ColorSpelling where
  | rgba (channels : List Double)
  | rgbaf (channels : List Double)
  | packed (value : UInt32)
  | text (value : String)
deriving DecidableEq

namespace ColorSpelling

/-- Six or eight hexadecimal digits behind an optional `#`, or a name in any ASCII case, with white
space around either. -/
def resolveText (spelling : String) : Except ValueError Color :=
  let trimmed := trim spelling.toList
  let hex := (dropStart? ['#'] trimmed).getD trimmed
  match hex.length, hexNumber? hex with
  | 6, some n => .ok (.ofRgb n)
  | 8, some n => .ok (.ofRgbAlpha n)
  | _, _ =>
    match Color.named.lookup (String.ofList (trimmed.map Char.toLower)) with
    | some n => .ok (.ofRgb n)
    | none => .error (.invalid (.notColor spelling))

/-- A packed integer has an alpha byte if it takes more than three bytes. -/
def resolve : ColorSpelling → Except ValueError Color
  | .rgba channels => (rgbaChannels channels).map .rgba
  | .rgbaf channels => (rgbafChannels channels).map .rgbaf
  | .packed value =>
    if 0xFFFFFF < value.toNat then .ok (.ofRgbAlpha value.toNat) else .ok (.ofRgb value.toNat)
  | .text spelling => resolveText spelling

def isValid (c : ColorSpelling) : Bool :=
  match c.resolve with
  | .ok _ => true
  | .error _ => false

end ColorSpelling
end SceneDoc
