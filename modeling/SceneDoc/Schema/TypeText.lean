import SceneDoc.Text.Blank
import SceneDoc.Text.Split

namespace SceneDoc
namespace TypeText

/-- Whether a wrapper is taken off, is missing its end, or is not there. -/
inductive Unwrapped where
  | inner (cs : List Char)
  | unclosed
  | plain
deriving DecidableEq, Repr

def between (opening closing : String) (cs : List Char) : Unwrapped :=
  match dropStart? opening.toList cs with
  | none => .plain
  | some rest =>
    match dropEnd? closing.toList rest with
    | none => .unclosed
    | some inner => .inner inner

def unwrapOnce (cs : List Char) : Unwrapped :=
  match between "Option<" ">" cs with
  | .plain =>
    match between "typing.Optional[" "]" cs with
    | .plain => between "Optional[" "]" cs
    | found => found
  | found => found

theorem length_between {opening closing : String} {cs inner : List Char}
    (hpos : 0 < opening.toList.length) (h : between opening closing cs = .inner inner) :
    inner.length < cs.length := by
  unfold between dropStart? dropEnd? at h
  by_cases hp : opening.toList.isPrefixOf cs = true
  · have hlen := (List.isPrefixOf_iff_prefix.mp hp).length_le
    by_cases hs : closing.toList.isSuffixOf (cs.drop opening.toList.length) = true
    · simp only [hp, hs, ↓reduceIte, Unwrapped.inner.injEq] at h
      subst h
      simp only [List.length_take, List.length_drop]
      omega
    · simp [hp, hs] at h
  · simp [hp] at h

theorem length_unwrapOnce {cs inner : List Char} (h : unwrapOnce cs = .inner inner) :
    inner.length < cs.length := by
  unfold unwrapOnce at h
  split at h
  · split at h
    · exact length_between (by decide) h
    · exact length_between (by decide) h
  · exact length_between (by decide) h

theorem length_trim_le (cs : List Char) : (trim cs).length ≤ cs.length := by
  unfold trim trimEnd trimStart
  rw [List.length_reverse]
  have h₁ := (List.dropWhile_sublist isBlank (l := (cs.dropWhile isBlank).reverse)).length_le
  have h₂ := (List.dropWhile_sublist isBlank (l := cs)).length_le
  rw [List.length_reverse] at h₁
  omega

/-- Takes off every wrapper, with the white space inside it. -/
def unwrap? (cs : List Char) : Option (List Char) :=
  match _h : unwrapOnce cs with
  | .plain => some cs
  | .unclosed => none
  | .inner inner => unwrap? (trim inner)
termination_by cs.length
decreasing_by
  have := length_unwrapOnce _h
  have := length_trim_le inner
  omega

def isNameChar (c : Char) : Bool := c.isAlphanum || c == '_'

/-- A type's own name: letters, digits and underscores, not starting with a digit. -/
def isBareName : List Char → Bool
  | [] => false
  | c :: cs => !c.isDigit && (c :: cs).all isNameChar

def bareType? (written : String) : Option String :=
  match unwrap? (trim written.toList) with
  | none => none
  | some ty =>
    let bare := afterLast ['.'] (afterLast [':', ':'] ty)
    if isBareName bare then some (.ofList bare) else none

end TypeText
end SceneDoc
