import SceneDoc.Text.Split
import SceneDoc.Time.Grammar
import SceneDoc.Time.Moment
import SceneDoc.Value.Error

namespace SceneDoc

inductive Instant where
  | text (spelling : String)
  | moment (value : Moment)
deriving DecidableEq, Repr

namespace Instant

def earliest : String := "0000-00-00T00:00:00Z"

def latest : String := "9999-12-31T24:00:00Z"

def isSpelling (s : String) : Bool :=
  s == earliest || s == latest || (TimeGrammar.timestamp? s.toList).isSome ||
    TimeGrammar.isLocalDateTime s.toList || TimeGrammar.isDate s.toList

def parse (s : String) : Except ValueError Instant :=
  if isSpelling s then .ok (.text s) else .error (.invalid (.notInstant s))

def render : Instant → String
  | .text s => s
  | .moment m => .ofList m.text

end Instant

structure TimeInterval where
  start : Option Instant
  stop : Option Instant
deriving DecidableEq, Repr

namespace TimeInterval

def parse (s : String) : Except ValueError TimeInterval :=
  match splitOnce? ['/'] s.toList with
  | none => .error (.invalid (.notInterval s))
  | some (start, stop) =>
    if stop.contains '/' then .error (.invalid (.notInterval s))
    else do
      let start ← Instant.parse (.ofList start)
      let stop ← Instant.parse (.ofList stop)
      return ⟨some start, some stop⟩

def render (i : TimeInterval) : String :=
  (i.start.map Instant.render).getD Instant.earliest ++ "/" ++
    (i.stop.map Instant.render).getD Instant.latest

end TimeInterval
end SceneDoc
