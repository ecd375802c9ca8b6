import SceneDoc.Proofs.Distinct
import SceneDoc.Proofs.Sessions

namespace SceneDoc

namespace Json

variable {rest ps qs : List (Piece Leaf)}

/-- The characters of pieces, unless one of them is a number that cannot be written. -/
def characters (ps : List (Piece Leaf)) : Except WriteError (List Char) :=
  match written ps with
  | (text, none) => .ok text
  | (_, some x) => .error (.notFinite x)

theorem characters_chars (cs : List Char) :
    characters (.chars cs :: rest) = (characters rest).map (cs ++ ·) := by
  unfold characters
  rw [written]
  rcases written rest with ⟨text, _ | x⟩ <;> rfl

theorem characters_number (n : Number) :
    characters (.number (.ok n) :: rest) = (characters rest).map (n.literal.toList ++ ·) := by
  unfold characters
  rw [written]
  rcases written rest with ⟨text, _ | x⟩ <;> rfl

/-- Pieces are written in order, up to the first number that cannot be. -/
theorem characters_append :
    characters (ps ++ qs) = do
      let first ← characters ps
      let later ← characters qs
      return first ++ later := by
  have hmap (front : List Char) (x y : Except WriteError (List Char)) :
      (do let first ← x; let later ← y; return first ++ later : Except WriteError _).map
          (front ++ ·) =
        (do let first ← x.map (front ++ ·); let later ← y; return first ++ later) := by
    cases x <;> cases y <;> simp [Except.map, except_ok_bind, except_error_bind]
  induction ps with
  | nil =>
    rw [List.nil_append]
    change _ = (do let later ← characters qs; return [] ++ later)
    cases characters qs <;> rfl
  | cons p rest ih =>
    cases p with
    | chars cs => rw [List.cons_append, characters_chars, ih, hmap, characters_chars]
    | number leaf =>
      cases leaf with
      | ok n => rw [List.cons_append, characters_number, ih, hmap, characters_number]
      | error x => rfl

theorem render_compact (t : Json Leaf) :
    t.render .compact = (characters (t.pieces .compact 0)).map .ofList := by
  unfold characters
  rw [render, toText]
  rcases written (t.pieces .compact 0) with ⟨text, _ | x⟩ <;> rfl

/-- The items behind the first, each with a comma ahead of it. -/
theorem characters_items (depth : Nat) (items : List (Json Leaf)) :
    characters (itemPieces .compact depth items) =
      (items.mapM (render .compact)).map fun texts =>
        texts.flatMap (fun text => ',' :: text.toList) ++ [']'] := by
  induction items with
  | nil => rfl
  | cons t rest ih =>
    rw [itemPieces, List.cons_append, characters_chars, characters_append, pieces_compact, ih,
      List.mapM_cons, render_compact]
    cases characters (t.pieces .compact 0) with
    | error e => rfl
    | ok text =>
      cases rest.mapM (render .compact) with
      | error e => rfl
      | ok texts => simp [Except.map, except_ok_bind, Layout.break]

theorem intercalate_eq_flatMap {α : Type} (comma first : List α) (rest : List (List α)) :
    comma.intercalate (first :: rest) = first ++ rest.flatMap (comma ++ ·) := by
  induction rest generalizing first with
  | nil => simp
  | cons next rest ih => rw [List.intercalate_cons_cons, ih, List.flatMap_cons, List.append_assoc, List.append_assoc]

/-- The compact text of a list is that of its items, with commas between them and brackets around. -/
theorem array_compact (items : List (Json Leaf)) :
    (array items).render .compact =
      (items.mapM (render .compact)).map fun texts => "[" ++ String.intercalate "," texts ++ "]" := by
  rw [render_compact]
  cases items with
  | nil => rfl
  | cons t rest =>
    rw [pieces, List.cons_append, characters_chars, characters_append, pieces_compact,
      characters_items, List.mapM_cons, render_compact]
    cases characters (t.pieces .compact 0) with
    | error e => rfl
    | ok text =>
      cases rest.mapM (render .compact) with
      | error e => rfl
      | ok texts =>
        apply congrArg Except.ok
        apply String.toList_injective
        simp [Layout.break, intercalate_eq_flatMap, List.flatMap_map]

end Json

section First

variable {α : Type} {xs : List α} {q : α → Bool} {i : Nat} {x : α}

structure IsFirst (q : α → Bool) (xs : List α) (i : Nat) (x : α) : Prop where
  place : xs[i]? = some x
  passes : q x = true
  first : ∀ j y, j < i → xs[j]? = some y → q y = false

theorem findIdx?_eq_some_iff_isFirst : xs.findIdx? q = some i ↔ ∃ x, IsFirst q xs i x := by
  rw [List.findIdx?_eq_some_iff_getElem]
  constructor
  · intro h
    obtain ⟨hi, passes, first⟩ := h
    refine ⟨xs[i], List.getElem?_eq_getElem hi, passes, fun j y hj hy => ?_⟩
    obtain ⟨_, rfl⟩ := List.getElem?_eq_some_iff.mp hy
    simpa using first j hj
  · intro h
    obtain ⟨x, place, passes, first⟩ := h
    obtain ⟨hi, rfl⟩ := List.getElem?_eq_some_iff.mp place
    refine ⟨hi, passes, fun j hj => ?_⟩
    rw [first j _ hj (List.getElem?_eq_getElem (Nat.lt_trans hj hi))]
    exact Bool.false_ne_true

theorem find?_eq_some_iff_isFirst : xs.find? q = some x ↔ ∃ i, IsFirst q xs i x := by
  rw [List.find?_eq_some_iff_getElem]
  constructor
  · intro h
    obtain ⟨passes, i, hi, hx, first⟩ := h
    refine ⟨i, List.getElem?_eq_some_iff.mpr ⟨hi, hx⟩, passes, fun j y hj hy => ?_⟩
    obtain ⟨_, rfl⟩ := List.getElem?_eq_some_iff.mp hy
    simpa using first j hj
  · intro h
    obtain ⟨i, place, passes, first⟩ := h
    obtain ⟨hi, hx⟩ := List.getElem?_eq_some_iff.mp place
    refine ⟨passes, i, hi, hx, fun j hj => ?_⟩
    rw [first j _ hj (List.getElem?_eq_getElem (Nat.lt_trans hj hi))]
    rfl

end First

namespace Document

variable {ps : List Packet} {d : Document} {e : Error}

/-- The first preamble behind another packet stands in this place. -/
structure Misplaced (ps : List Packet) (i : Nat) : Prop where
  behind : 0 < i
  preamble : ∃ p, ps[i]? = some p ∧ p.isPreamble = true
  first : ∀ j p, 0 < j → j < i → ps[j]? = some p → p.isPreamble = false

/-- A place among the packets behind the first is one less than among all. -/
theorem findIdx?_behind {i : Nat} :
    (ps.drop 1).findIdx? Packet.isPreamble = some i ↔ Misplaced ps (i + 1) := by
  rw [findIdx?_eq_some_iff_isFirst]
  constructor
  · intro h
    obtain ⟨p, place, preamble, first⟩ := h
    refine ⟨i.succ_pos, ⟨p, ?_, preamble⟩, fun j q hpos hj hq => ?_⟩
    · rwa [List.getElem?_drop, Nat.add_comm] at place
    · apply first (j - 1) q (by omega)
      rwa [List.getElem?_drop, Nat.add_sub_cancel' hpos]
  · intro h
    obtain ⟨_, ⟨p, place, preamble⟩, first⟩ := h
    refine ⟨p, ?_, preamble, fun j q hj hq => ?_⟩
    · rwa [List.getElem?_drop, Nat.add_comm]
    · rw [List.getElem?_drop, Nat.add_comm] at hq
      exact first (j + 1) q j.succ_pos (by omega) hq

theorem ofPackets_eq_error : ofPackets ps = .error e ↔ ∃ i, e = .documentOrder i ∧ Misplaced ps i := by
  unfold ofPackets
  constructor
  · intro h
    split at h
    · rename_i i hi
      cases h
      exact ⟨i + 1, rfl, findIdx?_behind.mp hi⟩
    · cases h
  · intro h
    obtain ⟨i, rfl, misplaced⟩ := h
    obtain ⟨i, rfl⟩ := Nat.exists_eq_add_one_of_ne_zero (Nat.ne_of_gt misplaced.behind)
    rw [findIdx?_behind.mpr misplaced]

theorem ofPackets_eq_ok : ofPackets ps = .ok d ↔ d = ⟨ps⟩ ∧ d.Ordered := by
  constructor
  · intro h
    refine ⟨?_, ofPackets_ordered h⟩
    unfold ofPackets at h
    split at h
    · cases h
    · cases h
      rfl
  · intro h
    obtain ⟨rfl, ordered⟩ := h
    unfold ofPackets
    split
    · rename_i i hi
      obtain ⟨p, place, preamble⟩ := (findIdx?_behind.mp hi).preamble
      exact absurd (ordered (i + 1) p place preamble) i.succ_ne_zero
    · rfl

/-- Packets make a document, which holds them as they are, exactly if no preamble stands behind
another packet, and otherwise the first such place is reported. The packet of an identifier is the
first that has it, and the compact text is that of the packets in order, with commas between them and
brackets around. -/
theorem ofPackets_iff_ordered (ps : List Packet) :
    (∀ d, ofPackets ps = .ok d ↔ d = ⟨ps⟩ ∧ d.Ordered) ∧
    (∀ e, ofPackets ps = .error e ↔ ∃ i, e = .documentOrder i ∧ Misplaced ps i) ∧
    (∀ id p, find? ⟨ps⟩ id = some p ↔ ∃ i, IsFirst (fun q => q.id == id) ps i p) ∧
    (render ⟨ps⟩).render .compact =
      (ps.mapM fun p : Packet => p.render.render .compact).map fun texts =>
        "[" ++ String.intercalate "," texts ++ "]" := by
  refine ⟨fun d => ofPackets_eq_ok, fun e => ofPackets_eq_error,
    fun id p => find?_eq_some_iff_isFirst, ?_⟩
  rw [render, Json.array_compact, List.mapM_map]
  rfl

end Document
end SceneDoc
