import SceneDoc.Object.Value

namespace SceneDoc

def isScheme : List Char → Bool
  | [] => false
  | c :: cs => c.isAlpha && (c :: cs).all fun c => c.isAlphanum || c == '+' || c == '-' || c == '.'

def isUri (s : String) : Bool :=
  let absolute := match splitOnce? "://".toList s.toList with
    | some (scheme, rest) => isScheme scheme && !rest.isEmpty
    | none => false
  absolute || "data:".toList.isPrefixOf s.toList

/-- Whether a text is `id#property` with neither part empty. -/
def isReference (s : String) : Bool :=
  match splitOnce? ['#'] s.toList with
  | some (id, property) => !id.isEmpty && !property.isEmpty
  | none => false

namespace Field

/-- The key that a value of the field has beside an interval. -/
def intervalKey (f : Field) : String :=
  match f.kind with
  | .boolean => "boolean"
  | .number => "number"
  | .text => "string"
  | .uri => "uri"
  | .reference => "reference"
  | .instant => "date"
  | .tuple shape => shape.key
  | .list shape => shape.key
  | .interval | .enumerated _ | .nested _ | .properties => f.name

end Field

mutual

/-- A custom property's value. Numbers have to be finite, and nothing may vary over time. -/
def Input.custom : Input → Except ValueError Value
  | .bool b => .ok (.bool b)
  | .number x => (checkFinite [x]).map fun _ => .number x
  | .text s => .ok (.text s)
  | .numbers xs => (checkFinite xs).map fun _ => .numbers xs
  | .instant i => .ok (.instant i)
  | .interval i => .ok (.interval i)
  | .intervals is => .ok (.intervals is)
  | .member _ raw => .ok (.text raw)
  | .object o => .ok (.object o)
  | .properties entries => (customEntries [] entries).map .properties
  | .json tree => .ok (.json tree)
  | .samples _ => .error (.mismatch "a custom property value" "time-tagged samples")
  | .timed _ _ => .error (.mismatch "a custom property value" "an interval value")
  | .timedList _ => .error (.mismatch "a custom property value" "interval values")

/-- A bag of custom properties, where `seen` are the names before them. -/
def Input.customEntries (seen : List String) :
    List (String × Input) → Except ValueError (List (String × Value))
  | [] => .ok []
  | (name, input) :: rest =>
    if seen.contains name then .error (.invalid (.repeatedProperty name))
    else do
      let value ← custom input
      let values ← customEntries (name :: seen) rest
      return (name, value) :: values

end

/-- Checks one sample: first its time, and then its values. -/
def Sample.check (valuesOk : List Double → Except ValueError Unit) (s : Sample) :
    Except ValueError Unit := do
  match s.time with
  | .seconds t => checkFinite [t]
  | .at _ => .ok ()
  valuesOk s.values

def Sample.checkAll (valuesOk : List Double → Except ValueError Unit) :
    List Sample → Except ValueError Unit
  | [] => .ok ()
  | s :: rest => do
    s.check valuesOk
    checkAll valuesOk rest

def checkScalar (values : List Double) : Except ValueError Unit :=
  if values.length ≠ 1 then .error (.shape (.exactly 1) values.length) else checkFinite values

namespace Field

def tagged (f : Field) (samples : List Sample)
    (valuesOk : List Double → Except ValueError Unit) : Except ValueError Value :=
  if !f.interpolatable then .error (.invalid .samplesNotAllowed)
  else if samples.isEmpty then .error (.shape .someSamples 0)
  else (Sample.checkAll valuesOk samples).map fun _ => .samples (.tagged samples)

/-- A tuple as a flat list: one value, or samples if the field takes them. -/
def tuple (f : Field) (shape : TupleShape) (values : List Double) : Except ValueError Value :=
  if values.length = shape.arity then
    (shape.check values).map fun _ =>
      if f.interpolatable then .samples (.constant values) else .numbers values
  else if !f.interpolatable then .error (.shape (.exactly shape.arity) values.length)
  else do
    let samples ← Samples.ofFlat values shape.arity
    match samples with
    | .tagged samples =>
      (Sample.checkAll shape.check samples).map fun _ => .samples (.tagged samples)
    | constant => return .samples constant

def member (e : Enumeration) (raw : String) : Except ValueError Value :=
  if e.contains raw then .ok (.text raw) else .error (.invalid (.notMember raw e.name))

def mismatch (f : Field) (input : Input) : Except ValueError Value :=
  .error (.mismatch f.kind.describe input.kindName)

def convertPlain (f : Field) (input : Input) : Except ValueError Value :=
  match f.kind, input with
  | .boolean, .bool b => .ok (.bool b)
  | .number, .number x =>
    (checkFinite [x]).map fun _ =>
      if f.interpolatable then .samples (.constant [x]) else .number x
  | .number, .numbers xs =>
    if f.interpolatable then do
      checkFinite xs
      let samples ← Samples.ofFlat xs 1
      return .samples samples
    else f.mismatch input
  | .number, .samples samples => f.tagged samples checkScalar
  | .text, .text s => .ok (.text s)
  | .uri, .text s => if isUri s then .ok (.text s) else .error (.invalid (.notUri s))
  | .reference, .text s =>
    if isReference s then .ok (.text s) else .error (.invalid (.notReference s))
  | .instant, .instant i => .ok (.instant i)
  | .instant, .text s => (Instant.parse s).map .instant
  | .interval, .interval i => .ok (.interval i)
  | .interval, .text s => (TimeInterval.parse s).map .interval
  | .interval, .intervals is => .ok (.intervals is)
  | .tuple shape, .numbers xs => f.tuple shape xs
  | .tuple shape, .samples samples => f.tagged samples shape.check
  | .list shape, .numbers xs => (shape.check xs).map fun _ => .numbers xs
  | .enumerated e, .member given raw =>
    if given.name = e.name then member e raw else f.mismatch input
  | .enumerated e, .text raw => member e raw
  | .nested cls, .object o => if o.cls.name = cls then .ok (.object o) else f.mismatch input
  | .properties, .properties entries => (Input.customEntries [] entries).map .properties
  | .properties, .json tree => if tree.isObject then .ok (.json tree) else f.mismatch input
  | _, _ => f.mismatch input

/-- Converts the value of one interval. An object that has an `interval` of its own is refused,
because both would stand under that key. -/
def convertTimed (f : Field) (period : TimeInterval) (input : Input) :
    Except ValueError Timed :=
  match input with
  | .timed _ _ => .error (.invalid .nestedIntervals)
  | .timedList _ => .error (.invalid .nestedIntervals)
  | _ => do
    let value ← f.convertPlain input
    match value with
    | .object o =>
      if o.isSet "interval" then .error (.invalid (.ownInterval o.cls.name))
      else return ⟨period, f.intervalKey, value⟩
    | _ => return ⟨period, f.intervalKey, value⟩

def convertTimedList (f : Field) :
    List (TimeInterval × Input) → Except ValueError (List Timed)
  | [] => .ok []
  | (period, input) :: rest => do
    let entry ← f.convertTimed period input
    let entries ← f.convertTimedList rest
    return entry :: entries

def convert (f : Field) (input : Input) : Except ValueError Value :=
  match input with
  | .timed period value => (f.convertTimed period value).map .timed
  | .timedList entries => (f.convertTimedList entries).map .timedList
  | _ => f.convertPlain input

end Field
end SceneDoc
