import Mathlib.Algebra.Ring.Nat
import SceneDoc.Proofs.Writing

namespace SceneDoc
namespace Json

variable {ν : Type} {entries : List (String × Json ν)} {key : String} {value : Json ν}

/-- A new key is put at the end. -/
theorem put_fresh (h : key ∉ entries.map (·.1)) :
    put entries key value = entries ++ [(key, value)] := by
  induction entries with
  | nil => rfl
  | cons e rest ih =>
    obtain ⟨k, v⟩ := e
    simp only [List.map_cons, List.mem_cons, not_or] at h
    simp [put, Ne.symm h.1, ih h.2]

theorem put_ne_nil : put entries key value ≠ [] := by
  cases entries with
  | nil => simp [put]
  | cons e rest =>
    unfold put
    split <;> simp

theorem distinctEntries_ne_nil {done : List (String × Json ν)} (h : done ≠ [] ∨ entries ≠ []) :
    distinctEntries done entries ≠ [] := by
  induction entries generalizing done with
  | nil => simpa [distinctEntries] using h
  | cons e rest ih => exact ih (.inl put_ne_nil)

theorem distinctEntries_fresh {done : List (String × Json ν)}
    (ih : ∀ e ∈ entries, e.2.distinct = e.2) (h : ((done ++ entries).map (·.1)).Nodup) :
    distinctEntries done entries = done ++ entries := by
  induction entries generalizing done with
  | nil => simp [distinctEntries]
  | cons e rest ihrest =>
    obtain ⟨k, v⟩ := e
    obtain ⟨hv, hrest⟩ := List.forall_mem_cons.mp ih
    have hk : k ∉ done.map (·.1) := by
      rw [List.map_append] at h
      exact fun hm => (List.nodup_append.mp h).2.2 k hm k (by simp) rfl
    rw [distinctEntries, put_fresh hk, hv, ihrest hrest (by simpa using h)]
    simp

@[simp] theorem distinct_array (items : List (Json ν)) :
    (array items).distinct = array (items.map distinct) := by
  have h : distinctItems items = items.map distinct := by
    induction items with
    | nil => rfl
    | cons t rest ih => simp [distinctItems, ih]
  simp [distinct, h]

/-- Unique keys all stay. -/
theorem distinct_eq_self {t : Json ν} (h : t.UniqueKeys) : t.distinct = t := by
  induction t with
  | null | bool b | number n | string s => rfl
  | array items ih =>
    simp only [UniqueKeys, keyLists_array, List.forall_mem_flatMap] at h
    rw [distinct_array, List.map_congr_left fun t ht => ih t ht (h t ht)]
    simp
  | object entries ih =>
    simp only [UniqueKeys, keyLists_object, List.forall_mem_cons, List.forall_mem_flatMap] at h
    obtain ⟨hkeys, hentries⟩ := h
    have hsame : ∀ e ∈ entries, e.2.distinct = e.2 := fun e he => ih e he (hentries e he)
    rw [distinct, distinctEntries_fresh hsame (by simpa using hkeys)]
    rfl

section Width

variable (literal : ν → String)

def width (t : Json ν) : Nat := ((t.pieces .compact 0).flatMap (Piece.text literal)).length

/-- How much longer an object gets by an entry: its key, its value, a colon and a comma. -/
def entryWidth (e : String × Json ν) : Nat := (quote e.1).length + width literal e.2 + 2

/-- Without line breaks, pieces are the same at every depth. -/
theorem pieces_compact (t : Json ν) (depth : Nat) :
    t.pieces .compact depth = t.pieces .compact 0 := by
  induction t generalizing depth with
  | null | number n | string s => rfl
  | bool b => cases b <;> rfl
  | array items ih =>
    have hrest (items : List (Json ν))
        (ih : ∀ t ∈ items, ∀ depth, t.pieces .compact depth = t.pieces .compact 0) :
        itemPieces .compact depth items = itemPieces .compact 0 items := by
      induction items with
      | nil => rfl
      | cons t rest ihrest =>
        obtain ⟨ht, hrest⟩ := List.forall_mem_cons.mp ih
        simp only [itemPieces, ht (depth + 1), ht (0 + 1), ihrest hrest, Layout.break]
    cases items with
    | nil => rfl
    | cons t rest =>
      obtain ⟨ht, hih⟩ := List.forall_mem_cons.mp ih
      simp only [pieces, ht (depth + 1), ht (0 + 1), hrest rest hih, Layout.break]
  | object entries ih =>
    have hrest (entries : List (String × Json ν))
        (ih : ∀ e ∈ entries, ∀ depth, e.2.pieces .compact depth = e.2.pieces .compact 0) :
        entryPieces .compact depth entries = entryPieces .compact 0 entries := by
      induction entries with
      | nil => rfl
      | cons e rest ihrest =>
        obtain ⟨he, hrest⟩ := List.forall_mem_cons.mp ih
        simp only [entryPieces, he (depth + 1), he (0 + 1), ihrest hrest, Layout.break]
    cases entries with
    | nil => rfl
    | cons e rest =>
      obtain ⟨he, hih⟩ := List.forall_mem_cons.mp ih
      simp only [pieces, he (depth + 1), he (0 + 1), hrest rest hih, Layout.break]

theorem width_array {items : List (Json ν)} (h : items ≠ []) :
    (array items).width literal = (items.map fun t => t.width literal + 1).sum + 1 := by
  have hrest (items : List (Json ν)) :
      ((itemPieces .compact 0 items).flatMap (Piece.text literal)).length =
        (items.map fun t => t.width literal + 1).sum + 1 := by
    induction items with
    | nil => simp [itemPieces, Piece.text, Layout.break]
    | cons t rest ih =>
      simp only [itemPieces, pieces_compact t (0 + 1), List.flatMap_cons, List.flatMap_append,
        List.length_append, Piece.text, Layout.break, ih, List.map_cons, List.sum_cons, width,
        List.length_cons, List.length_nil]
      omega
  cases items with
  | nil => exact absurd rfl h
  | cons t rest =>
    simp only [width, pieces, pieces_compact t (0 + 1), List.flatMap_cons, List.flatMap_append,
      List.length_append, Piece.text, Layout.break, hrest, List.map_cons, List.sum_cons,
      List.length_cons, List.length_nil]
    omega

theorem width_object (h : entries ≠ []) :
    (object entries).width literal = (entries.map (entryWidth literal)).sum + 1 := by
  have hrest (entries : List (String × Json ν)) :
      ((entryPieces .compact 0 entries).flatMap (Piece.text literal)).length =
        (entries.map (entryWidth literal)).sum + 1 := by
    induction entries with
    | nil => simp [entryPieces, Piece.text, Layout.break]
    | cons e rest ih =>
      obtain ⟨k, v⟩ := e
      simp only [entryPieces, pieces_compact v (0 + 1), List.flatMap_cons, List.flatMap_append,
        List.length_append, Piece.text, Layout.break, Layout.colon, ih, List.map_cons,
        List.sum_cons, width, entryWidth, List.length_cons, List.length_nil]
      omega
  cases entries with
  | nil => exact absurd rfl h
  | cons e rest =>
    obtain ⟨k, v⟩ := e
    simp only [width, entryWidth, pieces, pieces_compact v (0 + 1), List.flatMap_cons,
      List.flatMap_append, List.length_append, Piece.text, Layout.break, Layout.colon, hrest,
      List.map_cons, List.sum_cons, List.length_cons, List.length_nil]
    omega

theorem sum_put_le (entries : List (String × Json ν)) (key : String) (value : Json ν) :
    ((put entries key value).map (entryWidth literal)).sum ≤
      (entries.map (entryWidth literal)).sum + entryWidth literal (key, value) := by
  induction entries with
  | nil => simp [put]
  | cons e rest ih =>
    obtain ⟨k, v⟩ := e
    unfold put
    split
    · rename_i hk
      simp only [List.map_cons, List.sum_cons, entryWidth, hk]
      omega
    · simp only [List.map_cons, List.sum_cons]
      omega

/-- A key that stands already takes no more room. -/
theorem sum_put_lt (value : Json ν) (h : key ∈ entries.map (·.1)) :
    ((put entries key value).map (entryWidth literal)).sum <
      (entries.map (entryWidth literal)).sum + entryWidth literal (key, value) := by
  induction entries with
  | nil => simp at h
  | cons e rest ih =>
    obtain ⟨k, v⟩ := e
    unfold put
    split
    · rename_i hk
      simp only [List.map_cons, List.sum_cons, entryWidth, hk]
      omega
    · rename_i hk
      have hrest := ih (by simpa [Ne.symm hk] using h)
      simp only [List.map_cons, List.sum_cons]
      omega

/-- Keeping one entry per key saves room unless every key is new and nothing inside gets shorter. -/
theorem sum_distinctEntries (done : List (String × Json ν))
    (le : ∀ e ∈ entries, e.2.distinct.width literal ≤ e.2.width literal) :
    ((distinctEntries done entries).map (entryWidth literal)).sum ≤
        (done.map (entryWidth literal)).sum + (entries.map (entryWidth literal)).sum ∧
      (((distinctEntries done entries).map (entryWidth literal)).sum =
          (done.map (entryWidth literal)).sum + (entries.map (entryWidth literal)).sum →
        (entries.map (·.1)).Nodup ∧ (∀ e ∈ entries, e.1 ∉ done.map (·.1)) ∧
          ∀ e ∈ entries, e.2.distinct.width literal = e.2.width literal) := by
  induction entries generalizing done with
  | nil => simp [distinctEntries]
  | cons e rest ih =>
    obtain ⟨k, v⟩ := e
    obtain ⟨hv, hrest⟩ := List.forall_mem_cons.mp le
    obtain ⟨hle, heq⟩ := ih (put done k v.distinct) hrest
    have hput := sum_put_le literal done k v.distinct
    simp only [distinctEntries, List.map_cons, List.sum_cons, entryWidth] at hv hle heq hput ⊢
    refine ⟨by omega, fun h => ?_⟩
    have hfresh : k ∉ done.map (·.1) := by
      intro hk
      have hlt := sum_put_lt literal v.distinct hk
      simp only [entryWidth] at hlt
      omega
    obtain ⟨hnodup, hnew, hwidths⟩ := heq (by omega)
    rw [put_fresh hfresh] at hnew
    refine ⟨List.nodup_cons.mpr ⟨?_, hnodup⟩, List.forall_mem_cons.mpr ⟨hfresh, ?_⟩,
      List.forall_mem_cons.mpr ⟨by simp only; omega, hwidths⟩⟩
    · intro hm
      obtain ⟨e, he, heq⟩ := List.mem_map.mp hm
      exact hnew e he (by simp [heq])
    · intro e he hm
      refine hnew e he ?_
      rw [List.map_append]
      exact List.mem_append_left _ hm

/-- If no summand is larger, the sum is not, and equal sums have equal summands. -/
theorem sum_map_le {α : Type} {l : List α} {f g : α → Nat} (le : ∀ a ∈ l, f a ≤ g a) :
    (l.map f).sum ≤ (l.map g).sum ∧ ((l.map f).sum = (l.map g).sum → ∀ a ∈ l, f a = g a) := by
  induction l with
  | nil => simp
  | cons a rest ih =>
    obtain ⟨ha, hrest⟩ := List.forall_mem_cons.mp le
    obtain ⟨hle, heq⟩ := ih hrest
    simp only [List.map_cons, List.sum_cons, List.forall_mem_cons]
    exact ⟨by omega, fun h => ⟨by omega, heq (by omega)⟩⟩

/-- Keeping one entry per key makes no tree longer, and every tree shorter that has a key twice. -/
theorem width_distinct (t : Json ν) :
    t.distinct.width literal ≤ t.width literal ∧
      (t.distinct.width literal = t.width literal → t.UniqueKeys) := by
  induction t with
  | null | bool b | number n | string s => simp [distinct, UniqueKeys, keyLists, parts, keys?]
  | array items ih =>
    rw [distinct_array]
    by_cases hnil : items = []
    · subst hnil
      simp [UniqueKeys]
    · rw [width_array literal hnil, width_array literal (by simpa using hnil), List.map_map]
      obtain ⟨hle, heq⟩ := sum_map_le (f := fun t : Json ν => t.distinct.width literal + 1)
        (g := fun t => t.width literal + 1) fun t ht => Nat.succ_le_succ (ih t ht).1
      refine ⟨Nat.succ_le_succ hle, fun h => ?_⟩
      simp only [UniqueKeys, keyLists_array, List.forall_mem_flatMap]
      exact fun t ht => (ih t ht).2 (Nat.succ.inj (heq (Nat.succ.inj h) t ht))
  | object entries ih =>
    by_cases hnil : entries = []
    · subst hnil
      simp [UniqueKeys, distinct, distinctEntries]
    · rw [distinct, width_object literal hnil,
        width_object literal (distinctEntries_ne_nil (.inr hnil))]
      obtain ⟨hle, heq⟩ := sum_distinctEntries literal [] fun e he => (ih e he).1
      simp only [List.map_nil, List.sum_nil, Nat.zero_add] at hle heq
      refine ⟨by omega, fun h => ?_⟩
      obtain ⟨hnodup, _, hwidths⟩ := heq (by omega)
      simp only [UniqueKeys, keyLists_object, List.forall_mem_cons, List.forall_mem_flatMap]
      exact ⟨hnodup, fun e he => (ih e he).2 (hwidths e he)⟩

end Width

/-- The compact text with one entry per key is the plain compact text exactly if keys are unique. -/
theorem write_distinct_eq_compact (value : Json Number) :
    Format.distinct.write value = Format.compact.write value ↔ value.UniqueKeys := by
  simp only [Format.write, Except.ok.injEq]
  constructor
  · intro h
    refine (width_distinct Number.literal value).2 ?_
    have hlen := congrArg String.length h
    simpa [text, Json.print, pieces_map, text_map, width] using hlen
  · intro h
    rw [distinct_eq_self h]

end Json
end SceneDoc
