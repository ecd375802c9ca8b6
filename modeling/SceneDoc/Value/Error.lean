import SceneDoc.Number.Style

namespace SceneDoc

inductive Lengths where
  | exactly (n : Nat)
  | threeOrFour
  | someSamples
  /-- One value of `arity` numbers, or samples of a time and a value each. -/
  | flat (arity : Nat)
  | multipleOf (n : Nat)
deriving DecidableEq, Repr

def Lengths.describe : Lengths → String
  | .exactly n => toString n
  | .threeOrFour => "3 or 4"
  | .someSamples => "at least one sample"
  | .flat arity => toString arity ++ " or a multiple of " ++ toString (arity + 1)
  | .multipleOf n => "a non-empty multiple of " ++ toString n

def Lengths.Admits : Lengths → Nat → Prop
  | .exactly n, found => found = n
  | .threeOrFour, found => found = 3 ∨ found = 4
  | .someSamples, found => 0 < found
  | .flat arity, found => found = arity ∨ (0 < found ∧ (arity + 1) ∣ found)
  | .multipleOf n, found => 0 < found ∧ n ∣ found

inductive Reason where
  | notFinite (x : Double)
  | rgbaChannels (channels : List Double)
  | rgbafChannels (channels : List Double)
  | zeroNorm
  | notInstant (text : String)
  | notInterval (text : String)
  | notColor (text : String)
  | notUri (text : String)
  | notReference (text : String)
  | notMember (raw enumeration : String)
  | samplesNotAllowed
  | nestedIntervals
  | ownInterval (cls : String)
  | repeatedProperty (name : String)
  | colorsUnpaired (times colors : Nat)
deriving DecidableEq

def Reason.message : Reason → String
  | .notFinite x => x.special?.getD "" ++ " is not a finite number"
  | .rgbaChannels channels =>
    "rgba channels must be integers in 0..=255, got " ++ Double.listInMessage channels
  | .rgbafChannels channels =>
    "rgbaf channels must be in 0.0..=1.0, got " ++ Double.listInMessage channels
  | .zeroNorm => "a unit quaternion needs a non-zero norm"
  | .notInstant text => "`" ++ text ++ "` is not an ISO 8601 instant"
  | .notInterval text => "`" ++ text ++ "` is not an ISO 8601 interval"
  | .notColor text => "`" ++ text ++ "` is not a color"
  | .notUri text => "`" ++ text ++ "` is neither an absolute URI nor a data URL"
  | .notReference text => "`" ++ text ++ "` is not a reference of the form id#property"
  | .notMember raw enumeration => "`" ++ raw ++ "` is not a member of " ++ enumeration
  | .samplesNotAllowed => "time-tagged samples given for a field that is not interpolatable"
  | .nestedIntervals => "interval values cannot be nested"
  | .ownInterval cls =>
    "a " ++ cls ++ " with its own interval cannot be wrapped in an interval value"
  | .repeatedProperty name => "custom property `" ++ name ++ "` given more than once"
  | .colorsUnpaired times colors =>
    toString times ++ " timestamps for " ++ toString colors ++ " colors"

inductive ValueError where
  | shape (expected : Lengths) (found : Nat)
  | invalid (reason : Reason)
  | mismatch (expected found : String)
deriving DecidableEq

def ValueError.message : ValueError → String
  | .shape expected found =>
    "expected " ++ expected.describe ++ " numbers, got " ++ toString found
  | .invalid reason => reason.message
  | .mismatch expected found => "expected " ++ expected ++ ", got " ++ found

end SceneDoc
