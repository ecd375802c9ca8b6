import SceneDoc.Text.Padded

namespace SceneDoc

structure IdSource where
  stem : String
  next : UInt64
deriving DecidableEq, Repr

namespace IdSource

def start (stem : String) : IdSource := ⟨stem, 0⟩

/-- The stem with at least two digits behind it. -/
def numbered (stem : String) (n : Nat) : String :=
  stem ++ .ofList (padded 2 n)

def draw (ids : IdSource) : String × IdSource :=
  (numbered ids.stem ids.next.toNat, { ids with next := ids.next + 1 })

def drawMany (ids : IdSource) : Nat → List String
  | 0 => []
  | count + 1 => ids.draw.1 :: ids.draw.2.drawMany count

end IdSource
end SceneDoc
