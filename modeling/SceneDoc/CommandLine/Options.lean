import SceneDoc.Number.Literal
import SceneDoc.Text.Split

namespace SceneDoc

-- Powers are those of the core library, also where more algebra is in scope.
attribute [local instance (high)] instPowNat

inductive Stop where
  | help
  | usage
deriving DecidableEq, Repr

inductive OptionKind where
  | flag
  | path
  | size
deriving DecidableEq, Repr

namespace OptionKind

/-- A size of up to 64 bits, in digits behind an optional plus. -/
def size? (cs : List Char) : Option Nat :=
  let digits := match cs with
    | '+' :: rest => rest
    | _ => cs
  if digits.isEmpty || !digits.all Char.isDigit || 2 ^ (64 : Nat) ≤ natOfDigits digits then none
  else some (natOfDigits digits)

def accepts (kind : OptionKind) (value : List Char) : Bool :=
  match kind with
  | .flag => false
  | .path => !value.isEmpty
  | .size => (size? value).isSome

end OptionKind

abbrev OptionTable := List (String × OptionKind)

/-- Options with their values, where a flag has the empty one. -/
abbrev GivenOptions := List (String × String)

namespace OptionTable

/-- Adds an option with its value, unless it was given before. -/
def add (table : OptionTable) (given : GivenOptions) (name value : String) :
    Except Stop GivenOptions :=
  match table.lookup name with
  | none => .error .usage
  | some kind =>
    if kind.accepts value.toList && (given.lookup name).isNone then .ok ((name, value) :: given)
    else .error .usage

def isValue (arg : String) : Bool :=
  match arg.toList with
  | '-' :: _ :: _ => false
  | _ => true

/-- Takes an option off the front, with its value behind an equals sign or as the next argument. -/
def readOne (table : OptionTable) (given : GivenOptions) (arg : String) (rest : List String) :
    Except Stop (GivenOptions × List String) :=
  match splitOnce? ['='] arg.toList, table.lookup arg, rest with
  | some (name, value), _, _ =>
    (table.add given (.ofList name) (.ofList value)).map (·, rest)
  | none, some .flag, _ =>
    if (given.lookup arg).isSome then .error .usage else .ok ((arg, "") :: given, rest)
  | none, some _, value :: rest =>
    if isValue value then (table.add given arg value).map (·, rest) else .error .usage
  | none, _, _ => .error .usage

def readWithin (table : OptionTable) (given : GivenOptions) :
    Nat → List String → Except Stop GivenOptions
  | _, [] => .ok given
  | 0, _ :: _ => .error .usage
  | fuel + 1, arg :: rest =>
    if arg = "--" then if rest.isEmpty then .ok given else .error .usage
    else if arg = "--help" ∨ "-h".toList.isPrefixOf arg.toList then .error .help
    else
      match table.readOne given arg rest with
      | .error stop => .error stop
      | .ok (given, rest) => table.readWithin given fuel rest

/-- The options that arguments give. Each takes at least one argument, so their number is fuel
enough. -/
def read (table : OptionTable) (args : List String) : Except Stop GivenOptions :=
  table.readWithin [] args.length args

end OptionTable
end SceneDoc
