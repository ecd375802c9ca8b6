import SceneDoc.Document.Assembly

namespace SceneDoc
namespace Sample

def accesses : String := "9927edc4-e87a-4e1f-9b8b-0bfb3b05b227"

/-- When one satellite sees the other. -/
def windows : List String := [
  "2012-03-15T10:16:06.97400000000198Z/2012-03-15T10:33:59.3549999999959Z",
  "2012-03-15T11:04:09.73799999999756Z/2012-03-15T11:21:04.51900000000023Z",
  "2012-03-15T11:52:06.94400000000314Z/2012-03-15T12:08:18.8840000000055Z",
  "2012-03-15T12:40:57.2069999999949Z/2012-03-15T12:54:39.301999999996Z",
  "2012-03-15T13:29:44.5040000000008Z/2012-03-15T13:41:05.96899999999732Z",
  "2012-03-15T14:20:16.8450000000012Z/2012-03-15T14:25:48.0559999999969Z",
  "2012-03-16T07:01:44.4309999999823Z/2012-03-16T07:06:19.6309999999939Z",
  "2012-03-16T07:46:00.457999999984168Z/2012-03-16T07:57:20.8470000000088Z",
  "2012-03-16T08:32:14.5289999999804Z/2012-03-16T08:46:17.0109999999986Z",
  "2012-03-16T09:18:28.4590000000026Z/2012-03-16T09:35:16.6410000000033Z"]

def facilityImage : String :=
  "data:image/png;base64,iVBORw0KGgoAAAANSUhEUgAAABAAAAAQCAYAAAAf8/9hAAAAAXNSR0IArs4c6Q" ++
  "AAAARnQU1BAACxjwv8YQUAAAAJcEhZcwAADsMAAA7DAcdvqGQAAACvSURBVDhPrZDRDcMgDAU9GqN0lIzijw" ++
  "6SUbJJygUeNQgSqepJTyHG91LVVpwDdfxM3T9TSl1EXZvDwii471fivK73cBFFQNTT/d2KoGpfGOpSIkhUpg" ++
  "UMxq9DFEsWv4IXhlyCnhBFnZcFEEuYqbiUlNwWgMTdrZ3JbQFoEVG53rd8ztG9aPJMnBUQf/VFraBJeWnLS0" ++
  "RfjbKyLJA8FkT5seDYS1Qwyv8t0B/5C2ZmH2/eTGNNBgMmAAAAAElFTkSuQmCC"

def satelliteImage : String :=
  "data:image/png;base64,iVBORw0KGgoAAAANSUhEUgAAABAAAAAQCAYAAAAf8/9hAAAAAXNSR0IArs4c6Q" ++
  "AAAARnQU1BAACxjwv8YQUAAAAJcEhZcwAADsMAAA7DAcdvqGQAAADJSURBVDhPnZHRDcMgEEMZjVEYpaNklI" ++
  "zSEfLfD4qNnXAJSFWfhO7w2Zc0Tf9QG2rXrEzSUeZLOGm47WoH95x3Hl3jEgilvDgsOQUTqsNl68ezEwn1va" ++
  "e6lceSEEYvvWNT/Rxc4CXQNGadho1NXoJ+9iaqc2xi2xbt23PJCDIB6TQjOC6Bho/sDy3fBQT8PrVhibU7yB" ++
  "FcEPaRxOoeTwbwByCOYf9VGp1BYI1BA+EeHhmfzKbBoJEQwn1yzUZtyspIQUha85MpkNIXB7GizqDEECsAAA" ++
  "AASUVORK5CYII="

def hour (year : Int) (month day hour : Nat) : Instant :=
  .moment (LocalTime.toMoment ⟨⟨year, month, day⟩, hour, 0, 0, 0, 0⟩)

def start : Instant := hour 2012 3 15 10

def stop : Instant := hour 2012 3 16 10

def day : TimeInterval := ⟨some start, some stop⟩

def numbers (literals : List String) : Input :=
  .numbers (literals.map Double.ofLiteral)

def label (r : Registry) (text : String) : Except Error Input := do
  let o ← r.build "Label" [
    ("horizontalOrigin", .member .horizontalOrigins "LEFT"), ("show", .bool true),
    ("style", .member .labelStyles "FILL_AND_OUTLINE"), ("outlineWidth", .number (.ofInt 2)),
    ("text", .text text), ("verticalOrigin", .member .verticalOrigins "CENTER")]
  return .object o

def billboard (r : Registry) (image : String) : Except Error Input := do
  let o ← r.build "Billboard" [
    ("horizontalOrigin", .member .horizontalOrigins "CENTER"), ("image", .text image),
    ("scale", .number (.ofLiteral "1.5")), ("show", .bool true),
    ("verticalOrigin", .member .verticalOrigins "CENTER")]
  return .object o

def fixedPosition (r : Registry) (literals : List String) : Except Error Input := do
  let o ← r.build "Position" [("cartesian", numbers literals)]
  return .object o

def packet (r : Registry) (id name : String) (inputs : List (String × Input)) :
    Except Error Packet :=
  r.identified ([("id", .text id), ("name", .text name)] ++ inputs)

def accessPackets (r : Registry) : Except Error (List Packet) := do
  let group := ("parent", Input.text accesses)
  let intervals ← (windows.mapM TimeInterval.parse).mapError (.refused "Packet" "availability")
  let all ← packet r accesses "Accesses" [("description", .text "List of Accesses")]
  let satellites ← packet r "Satellite/Geoeye1-to-Satellite/ISS" "Geoeye1 to ISS"
    [group, ("availability", .intervals intervals)]
  let facility ← packet r "Facility/AGI-to-Satellite/ISS" "AGI to ISS" [group]
  let sensor ← packet r "Facility/AGI-to-Satellite/Geoeye1/Sensor/Sensor" "AGI to Sensor"
    [group, ("description", .text "<h2>No accesses</h2>")]
  return [all, satellites, facility, sensor]

def area (r : Registry) : Except Error Packet := do
  packet r "AreaTarget/Pennsylvania" "Pennsylvania" [
    ("label", ← label r "Pennsylvania"),
    ("position", ← fixedPosition r
      ["1152255.80150063", "-4694317.951340558", "4147335.9067563135"])]

def facility (r : Registry) : Except Error Packet := do
  packet r "Facility/AGI" "AGI" [
    ("availability", .interval day),
    ("billboard", ← billboard r facilityImage),
    ("label", ← label r "AGI"),
    ("position", ← fixedPosition r
      ["1216469.9357990976", "-4736121.71856379", "4081386.8856866374"])]

def satellite (r : Registry) : Except Error Packet := do
  let path ← r.build "Path" [
    ("show", .timedList [(day, .bool true)]), ("width", .number (.ofInt 1)),
    ("resolution", .number (.ofInt 120))]
  let orbit ← r.build "Position" [
    ("interpolationAlgorithm", .member .interpolationAlgorithms "LAGRANGE"),
    ("interpolationDegree", .number (.ofInt 5)),
    ("referenceFrame", .member .referenceFrames "INERTIAL"), ("epoch", .instant start)]
  packet r "Satellite/Geoeye1" "Geoeye1" [
    ("availability", .interval day),
    ("billboard", ← billboard r satelliteImage),
    ("label", ← label r "Geoeye 1"),
    ("path", .object path), ("position", .object orbit)]

def preamble (r : Registry) : Except Error Packet := do
  let clock ← r.build "Clock" [
    ("interval", .interval day), ("currentTime", .instant start),
    ("multiplier", .number (.ofInt 60))]
  r.preamble [("name", .text "simple"), ("clock", .object clock)]

def document (r : Registry) : Except Error Document := do
  let first ← preamble r
  let accesses ← accessPackets r
  let area ← area r
  let facility ← facility r
  let satellite ← satellite r
  Document.ofPackets ([first] ++ accesses ++ [area, facility, satellite])

end Sample
end SceneDoc
