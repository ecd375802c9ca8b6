import SceneDoc.Json.Reader
import SceneDoc.Proofs.Printing
import SceneDoc.Proofs.Scanning

namespace SceneDoc
namespace Json

open Token

variable {t : Json String} {rest : List Token}

theorem value?_array {n : Nat} {ts : List Token} (h : ∀ us, ts ≠ .closeArray :: us) :
    value? (n + 1) (.openArray :: ts) = (items? n ts).map fun (items, r) => (.array items, r) := by
  rw [value?]
  exact h

theorem value?_object {n : Nat} {ts : List Token} (h : ∀ us, ts ≠ .closeObject :: us) :
    value? (n + 1) (.openObject :: ts) =
      (entries? n ts).map fun (entries, r) => (.object entries, r) := by
  rw [value?]
  exact h

/-- Reading gives a tree back from its tokens, whatever comes after them. -/
def FromTokens (t : Json String) : Prop :=
  ∀ n rest, 2 * t.tokens.length ≤ n → value? n (t.tokens ++ rest) = some (t, rest)

/-- No value starts with a closing bracket. -/
theorem itemTokens_head (t : Json String) (items : List (Json String)) (rest us : List Token) :
    itemTokens (t :: items) ++ rest ≠ .closeArray :: us := by
  cases items <;> cases t <;> simp [itemTokens, tokens]

/-- No entry starts with a closing brace. -/
theorem entryTokens_head (e : String × Json String) (entries : List (String × Json String))
    (rest us : List Token) : entryTokens (e :: entries) ++ rest ≠ .closeObject :: us := by
  cases entries <;> simp [entryTokens]

theorem items?_tokens {first : Json String} {others : List (Json String)}
    (h : ∀ t ∈ first :: others, t.FromTokens) (n : Nat) (rest : List Token)
    (fuel : 2 * (itemTokens (first :: others)).length < n) :
    items? n (itemTokens (first :: others) ++ .closeArray :: rest) =
      some (first :: others, rest) := by
  induction others generalizing first n with
  | nil =>
    cases n with
    | zero => omega
    | succ n =>
      simp only [itemTokens] at fuel ⊢
      have hfirst := h first (by simp) n (.closeArray :: rest) (by omega)
      simp [items?, hfirst]
  | cons second others ih =>
    cases n with
    | zero => omega
    | succ n =>
      obtain ⟨hfirst, hrest⟩ := List.forall_mem_cons.mp h
      simp only [itemTokens, List.length_append, List.length_cons] at fuel ⊢
      have hitems := ih hrest n (by omega)
      have hvalue := hfirst n
        (.comma :: (itemTokens (second :: others) ++ .closeArray :: rest)) (by omega)
      simp [items?, hvalue, hitems]

theorem entries?_tokens {first : String × Json String} {others : List (String × Json String)}
    (h : ∀ e ∈ first :: others, e.2.FromTokens) (n : Nat) (rest : List Token)
    (fuel : 2 * (entryTokens (first :: others)).length < n) :
    entries? n (entryTokens (first :: others) ++ .closeObject :: rest) =
      some (first :: others, rest) := by
  induction others generalizing first n with
  | nil =>
    cases n with
    | zero => omega
    | succ n =>
      simp only [entryTokens, List.length_cons] at fuel ⊢
      have hfirst := h first (by simp) n (.closeObject :: rest) (by omega)
      simp [entries?, hfirst]
  | cons second others ih =>
    cases n with
    | zero => omega
    | succ n =>
      obtain ⟨hfirst, hrest⟩ := List.forall_mem_cons.mp h
      simp only [entryTokens, List.length_append, List.length_cons] at fuel ⊢
      have hentries := ih hrest n (by omega)
      have hvalue := hfirst n
        (.comma :: (entryTokens (second :: others) ++ .closeObject :: rest)) (by omega)
      simp [entries?, hvalue, hentries]

theorem fromTokens (t : Json String) : t.FromTokens := by
  unfold FromTokens
  induction t with
  | null | bool b | number literal | string s =>
    intro n rest fuel
    cases n with
    | zero => simp [tokens] at fuel
    | succ n => rfl
  | array items ih =>
    intro n rest fuel
    cases n with
    | zero => simp [tokens] at fuel
    | succ n =>
      cases items with
      | nil => rfl
      | cons first others =>
        have hitems := items?_tokens ih n rest (by simp [tokens] at fuel; omega)
        simp only [tokens, List.cons_append, List.append_assoc, List.nil_append]
        rw [value?_array (itemTokens_head first others _), hitems]
        rfl
  | object entries ih =>
    intro n rest fuel
    cases n with
    | zero => simp [tokens] at fuel
    | succ n =>
      cases entries with
      | nil => rfl
      | cons first others =>
        have hentries := entries?_tokens ih n rest (by simp [tokens] at fuel; omega)
        simp only [tokens, List.cons_append, List.append_assoc, List.nil_append]
        rw [value?_object (entryTokens_head first others _), hentries]
        rfl

/-- The reader takes a JSON text of a tree for that tree. -/
theorem read?_eq_some {s : String} (h : JsonGrammar.IsText t s) : read? s = some t := by
  have hscan : scan? s.toList = some t.tokens := by
    have hgives := JsonGrammar.Spaced.gives h [] [] (by simp [EndsNumber]) .nil
    rw [List.append_nil, List.append_nil] at hgives
    exact hgives s.toList.length (Nat.le_refl _)
  have hvalue := t.fromTokens (2 * t.tokens.length + 1) [] (by omega)
  rw [List.append_nil] at hvalue
  simp [read?, hscan, hvalue]

/-- A text is a JSON text of one tree only. -/
theorem isText_unique {s : String} {u : Json String} (h : JsonGrammar.IsText t s)
    (h' : JsonGrammar.IsText u s) : t = u :=
  Option.some.inj ((read?_eq_some h).symm.trans (read?_eq_some h'))

end Json

def Layout.format : Layout → Format
  | .compact => .compact
  | .pretty indent => .pretty indent

/-- The text of a tree is a JSON text, and is read as the tree. -/
theorem Json.text_read (value : Json Number) (layout : Layout) :
    (value.map .ok).render layout.format = .ok (value.text layout) ∧
      JsonGrammar.IsText (value.map Number.literal) (value.text layout) ∧
      Json.read? (value.text layout) = some (value.map Number.literal) := by
  have htext := isText_text layout value
  refine ⟨?_, htext, read?_eq_some htext⟩
  cases layout with
  | compact => exact toText_ok .compact value
  | pretty indent => exact toText_ok (.pretty indent) value

end SceneDoc
