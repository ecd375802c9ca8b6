import SceneDoc.Proofs.Numerals
import SceneDoc.Proofs.Writing

namespace SceneDoc

open JsonGrammar

namespace Layout

theorem blanks_break (layout : Layout) (depth : Nat) : Blanks (layout.break depth) := by
  cases layout with
  | compact => exact .nil
  | pretty indent =>
    intro c hc
    rcases List.mem_cons.mp hc with rfl | hc
    · rfl
    · rw [List.eq_of_mem_replicate hc]
      rfl

/-- What stands between a colon and its value. -/
theorem colon_eq (layout : Layout) : ∃ gap, Blanks gap ∧ layout.colon = ':' :: gap := by
  cases layout with
  | compact => exact ⟨[], .nil, rfl⟩
  | pretty indent => exact ⟨[' '], by simp [Blanks, Token.isBlank], rfl⟩

end Layout

theorem hexDigit?_hexDigit : ∀ n < 16, hexDigit? (hexDigit n) = some n := by decide

namespace Json

/-- Control characters are written by their code unit. -/
theorem spelling_control {c : Char} (h : c.toNat < 32) :
    Spelling c ['\\', 'u', '0', '0', hexDigit (c.toNat / 16), hexDigit (c.toNat % 16)] := by
  have hzero : hexDigit? '0' = some 0 := rfl
  have hupper := hexDigit?_hexDigit (c.toNat / 16) (by omega)
  have hlower := hexDigit?_hexDigit (c.toNat % 16) (by omega)
  have hnumber : hexNumber? ['0', '0', hexDigit (c.toNat / 16), hexDigit (c.toNat % 16)] =
      some c.toNat := by
    simp [hexNumber?, hzero, hupper, hlower]
    omega
  have hunit := Spelling.unit hnumber (by simp [Token.isHigh]; omega) (by simp [Token.isLow]; omega)
  rwa [Char.ofNat_toNat] at hunit

theorem spelling_escape (c : Char) : Spelling c (escape c) := by
  unfold escape
  split_ifs with hquote hbackslash hb hf hn hr ht hcontrol
  · exact .letter (by simp [Token.unescape?, hquote])
  · exact .letter (by simp [Token.unescape?, hbackslash])
  · exact .letter (by simp [Token.unescape?, hb])
  · exact .letter (by simp [Token.unescape?, hf])
  · exact .letter (by simp [Token.unescape?, hn])
  · exact .letter (by simp [Token.unescape?, hr])
  · exact .letter (by simp [Token.unescape?, ht])
  · exact spelling_control hcontrol
  · exact .plain (by omega) hquote hbackslash

theorem quoted_quote (s : String) : Quoted s (quote s) := by
  have each : List.Forall₂ Spelling s.toList (s.toList.map escape) := by
    rw [List.forall₂_map_right_iff]
    exact List.forall₂_same.mpr fun c _ => spelling_escape c
  exact .mk each

section Print

variable {ν : Type} (layout : Layout) (f : ν → String)

def chars (depth : Nat) (t : Json ν) : List Char :=
  (t.pieces layout depth).flatMap (Piece.text f)

/-- The first item and the others, up to the closing bracket. -/
theorem items_derive {first : Json ν} {others : List (Json ν)}
    (h : ∀ t ∈ first :: others, ∀ depth, Spells (t.map f) (chars layout f depth t)) (depth : Nat) :
    ∃ body, Items ((first :: others).map (map f)) body ∧
      layout.break (depth + 1) ++ chars layout f (depth + 1) first ++
        (itemPieces layout depth others).flatMap (Piece.text f) = body ++ [']'] := by
  induction others generalizing first with
  | nil =>
    have hvalue := h first (by simp) (depth + 1)
    refine ⟨_, .one (.mk (layout.blanks_break (depth + 1)) hvalue (layout.blanks_break depth)), ?_⟩
    simp [itemPieces, Piece.text]
  | cons second others ih =>
    obtain ⟨hfirst, hrest⟩ := List.forall_mem_cons.mp h
    obtain ⟨body, hbody, htext⟩ := ih hrest
    refine ⟨_, .more (.mk (layout.blanks_break (depth + 1)) (hfirst (depth + 1)) .nil) hbody, ?_⟩
    simp only [itemPieces, List.flatMap_append, List.flatMap_cons, Piece.text, chars,
      List.append_assoc, List.cons_append, List.append_nil] at htext ⊢
    rw [htext]

theorem entries_derive {first : String × Json ν} {others : List (String × Json ν)}
    (h : ∀ e ∈ first :: others, ∀ depth, Spells (e.2.map f) (chars layout f depth e.2))
    (depth : Nat) :
    ∃ body, Entries ((first :: others).map fun e => (e.1, e.2.map f)) body ∧
      layout.break (depth + 1) ++ quote first.1 ++ layout.colon ++
        chars layout f (depth + 1) first.2 ++
        (entryPieces layout depth others).flatMap (Piece.text f) = body ++ ['}'] := by
  obtain ⟨gap, hgap, hcolon⟩ := layout.colon_eq
  induction others generalizing first with
  | nil =>
    have hvalue := h first (by simp) (depth + 1)
    refine ⟨_, .one (.mk (layout.blanks_break (depth + 1)) (quoted_quote first.1) .nil)
      (.mk hgap hvalue (layout.blanks_break depth)), ?_⟩
    simp [entryPieces, Piece.text, hcolon]
  | cons second others ih =>
    obtain ⟨hfirst, hrest⟩ := List.forall_mem_cons.mp h
    obtain ⟨body, hbody, htext⟩ := ih hrest
    refine ⟨_, .more (.mk (layout.blanks_break (depth + 1)) (quoted_quote first.1) .nil)
      (.mk hgap (hfirst (depth + 1)) .nil) hbody, ?_⟩
    simp only [entryPieces, List.flatMap_append, List.flatMap_cons, Piece.text, chars, hcolon,
      List.append_assoc, List.cons_append, List.append_nil, List.nil_append] at htext ⊢
    rw [htext]

/-- A tree is printed as a text of its own at every depth, if its numbers are numerals. -/
theorem spells_chars (numerals : ∀ n, Numeral (f n).toList) (t : Json ν) (depth : Nat) :
    Spells (t.map f) (chars layout f depth t) := by
  induction t generalizing depth with
  | null => exact .null
  | bool b =>
    cases b with
    | true => exact .true
    | false => exact .false
  | number n =>
    have hnumber := Spells.number (numerals n)
    rw [String.ofList_toList] at hnumber
    simpa [map, chars, pieces, Piece.text] using hnumber
  | string s => simpa [map, chars, pieces, Piece.text] using Spells.string (quoted_quote s)
  | array items ih =>
    rw [map_array]
    cases items with
    | nil => exact .emptyArray .nil
    | cons first others =>
      obtain ⟨body, hbody, htext⟩ := items_derive layout f ih depth
      have hchars : chars layout f depth (.array (first :: others)) = '[' :: body ++ [']'] := by
        rw [List.cons_append, ← htext]
        simp [chars, pieces, Piece.text]
      rw [hchars]
      exact .array hbody
  | object entries ih =>
    rw [map_object]
    cases entries with
    | nil => exact .emptyObject .nil
    | cons first others =>
      obtain ⟨body, hbody, htext⟩ := entries_derive layout f ih depth
      have hchars : chars layout f depth (.object (first :: others)) = '{' :: body ++ ['}'] := by
        rw [List.cons_append, ← htext]
        simp [chars, pieces, Piece.text]
      rw [hchars]
      exact .object hbody

end Print

/-- What is written of a tree of numbers is a JSON text of the tree with their literals. -/
theorem isText_text (layout : Layout) (value : Json Number) :
    IsText (value.map Number.literal) (value.text layout) := by
  have hspells := spells_chars layout Number.literal Number.numeral_literal value 0
  have hchars : (value.text layout).toList = chars layout Number.literal 0 value := by
    simp [text, Json.print, pieces_map, text_map, chars]
  have hspaced := Spaced.mk .nil hspells .nil
  rw [IsText, hchars]
  rwa [List.append_nil, List.nil_append] at hspaced

end Json
end SceneDoc
