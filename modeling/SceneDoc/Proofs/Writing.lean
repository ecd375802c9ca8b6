import SceneDoc.Json.Writer
import SceneDoc.Proofs.JsonTrees
import SceneDoc.Proofs.Outcomes

namespace SceneDoc

variable {ν μ ε : Type}

def Piece.map (f : ν → μ) : Piece ν → Piece μ
  | .chars cs => .chars cs
  | .number n => .number (f n)

namespace Json

section Pieces

variable (layout : Layout) (f : ν → μ)

theorem itemPieces_map {items : List (Json ν)}
    (ih : ∀ t ∈ items, ∀ depth,
      (t.map f).pieces layout depth = (t.pieces layout depth).map (Piece.map f))
    (depth : Nat) :
    itemPieces layout depth (items.map (Json.map f)) =
      (itemPieces layout depth items).map (Piece.map f) := by
  induction items with
  | nil => rfl
  | cons t rest ihrest =>
    obtain ⟨ht, hrest⟩ := List.forall_mem_cons.mp ih
    simp [itemPieces, Piece.map, ht, ihrest hrest]

theorem entryPieces_map {entries : List (String × Json ν)}
    (ih : ∀ e ∈ entries, ∀ depth,
      (e.2.map f).pieces layout depth = (e.2.pieces layout depth).map (Piece.map f))
    (depth : Nat) :
    entryPieces layout depth (entries.map fun e => (e.1, e.2.map f)) =
      (entryPieces layout depth entries).map (Piece.map f) := by
  induction entries with
  | nil => rfl
  | cons e rest ihrest =>
    obtain ⟨he, hrest⟩ := List.forall_mem_cons.mp ih
    simp [entryPieces, Piece.map, he, ihrest hrest]

/-- Where pieces stand does not depend on the numbers. -/
theorem pieces_map (t : Json ν) (depth : Nat) :
    (t.map f).pieces layout depth = (t.pieces layout depth).map (Piece.map f) := by
  induction t generalizing depth with
  | null | number n | string s => rfl
  | bool b => cases b <;> rfl
  | array items ih =>
    rw [map_array]
    cases items with
    | nil => rfl
    | cons t rest =>
      obtain ⟨ht, hrest⟩ := List.forall_mem_cons.mp ih
      simp [pieces, Piece.map, ht, itemPieces_map layout f hrest]
  | object entries ih =>
    rw [map_object]
    cases entries with
    | nil => rfl
    | cons e rest =>
      obtain ⟨he, hrest⟩ := List.forall_mem_cons.mp ih
      simp [pieces, Piece.map, he, entryPieces_map layout f hrest]

end Pieces

/-- Pieces whose numbers are all finite are written to their end. -/
theorem written_ok (ps : List (Piece Number)) :
    written (ps.map (Piece.map .ok)) = (ps.flatMap (Piece.text Number.literal), none) := by
  induction ps with
  | nil => rfl
  | cons p rest ih =>
    cases p with
    | chars cs => simp [Piece.map, written, Piece.text, ih]
    | number n => simp [Piece.map, written, Piece.text, ih]

theorem text_map (f : ν → String) (ps : List (Piece ν)) :
    (ps.map (Piece.map f)).flatMap (Piece.text id) = ps.flatMap (Piece.text f) := by
  rw [List.flatMap_map]
  congr 1
  funext p
  cases p <;> rfl

def text (layout : Layout) (value : Json Number) : String :=
  Json.print layout (value.map Number.literal)

theorem toText_ok (layout : Layout) (value : Json Number) :
    (value.map .ok).toText layout = .ok (value.text layout) := by
  simp [toText, text, Json.print, pieces_map, written_ok, text_map]

theorem toTextWithin_ok (limit : Nat) (layout : Layout) (value : Json Number) :
    (value.map .ok).toTextWithin limit layout =
      if limit < (value.text layout).utf8ByteSize then .error .full
      else .ok (value.text layout) := by
  simp [toTextWithin, text, Json.print, pieces_map, written_ok, text_map]

theorem tryMapItems_ok {items : List (Json ν)}
    (ih : ∀ t ∈ items, tryMap id (t.map Except.ok) = (.ok t : Except ε (Json ν))) :
    tryMapItems id (items.map (Json.map Except.ok)) = (.ok items : Except ε (List (Json ν))) := by
  induction items with
  | nil => rfl
  | cons t rest ihrest =>
    obtain ⟨ht, hrest⟩ := List.forall_mem_cons.mp ih
    simp [tryMapItems, ht, ihrest hrest, except_ok_bind]

theorem tryMapEntries_ok {entries : List (String × Json ν)}
    (ih : ∀ e ∈ entries, tryMap id (e.2.map Except.ok) = (.ok e.2 : Except ε (Json ν))) :
    tryMapEntries id (entries.map fun e => (e.1, e.2.map Except.ok)) =
      (.ok entries : Except ε (List (String × Json ν))) := by
  induction entries with
  | nil => rfl
  | cons e rest ihrest =>
    obtain ⟨he, hrest⟩ := List.forall_mem_cons.mp ih
    simp [tryMapEntries, he, ihrest hrest, except_ok_bind]

/-- A tree of numbers is read back from its rendering. -/
theorem tryMap_ok (t : Json ν) : tryMap id (t.map Except.ok) = (.ok t : Except ε (Json ν)) := by
  induction t with
  | null | bool b | number n | string s => rfl
  | array items ih =>
    rw [map_array, tryMap, tryMapItems_ok ih]
    rfl
  | object entries ih =>
    rw [map_object, tryMap, tryMapEntries_ok ih]
    rfl

end Json

def Format.write (value : Json Number) : Format → Except WriteError String
  | .compact => .ok (value.text .compact)
  | .pretty indent => .ok (value.text (.pretty indent))
  | .within limit layout =>
    if limit < (value.text layout).utf8ByteSize then .error .full else .ok (value.text layout)
  | .distinct => .ok (value.distinct.text .compact)

/-- Writing finite numbers never fails, unless the destination is too small. -/
theorem Json.render_ok (value : Json Number) (format : Format) :
    (value.map .ok).render format = format.write value := by
  cases format with
  | compact => exact toText_ok .compact value
  | pretty indent => exact toText_ok (.pretty indent) value
  | within limit layout => exact toTextWithin_ok limit layout value
  | distinct => simp only [render, tryMap_ok, toText_ok, Format.write]

end SceneDoc
