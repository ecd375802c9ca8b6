import SceneDoc.Time.Instant
import SceneDoc.Value.Shape

namespace SceneDoc

/-- When a sample holds: at an instant, or some seconds after an epoch. -/
inductive TimeTag where
  | at (instant : Instant)
  | seconds (offset : Double)
deriving DecidableEq

structure Sample where
  time : TimeTag
  values : List Double
deriving DecidableEq

inductive Samples where
  | constant (values : List Double)
  | tagged (samples : List Sample)
deriving DecidableEq

namespace Samples

/-- Cuts a list into samples of a time and the values up to the next time; the last sample may be
short. -/
def chunks (arity : Nat) : List Double → List (Double × List Double)
  | [] => []
  | t :: rest => (t, rest.take arity) :: chunks arity (rest.drop arity)
termination_by values => values.length

/-- Reads `t, v₁ … vₙ, t, v₁ … vₙ, …`, whose length is a positive multiple of `arity + 1`. -/
def ofFlat (values : List Double) (arity : Nat) : Except ValueError Samples :=
  if values.isEmpty || values.length % (arity + 1) ≠ 0 then
    .error (.shape (.flat arity) values.length)
  else do
    let pairs := chunks arity values
    checkFinite (pairs.map (·.1))
    return .tagged (pairs.map fun (t, vs) => ⟨.seconds t, vs⟩)

/-- A constant counts as one sample. -/
def size : Samples → Nat
  | .constant _ => 1
  | .tagged samples => samples.length

end Samples
end SceneDoc
