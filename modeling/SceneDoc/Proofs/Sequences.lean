import Mathlib.Data.List.Forall2
import SceneDoc.Proofs.Outcomes

namespace SceneDoc

variable {α β κ ε : Type}

/-- Converts elements in order, where `seen` are the keys before them. -/
def convertAll [BEq κ] (key : α → κ) (twice : α → ε) (convert : α → Except ε β) (seen : List κ) :
    List α → Except ε (List β)
  | [] => .ok []
  | x :: rest =>
    if seen.contains (key x) then .error (twice x)
    else do
      let y ← convert x
      let ys ← convertAll key twice convert (key x :: seen) rest
      return y :: ys

def FreshKeys (key : α → κ) (seen : List κ) (xs : List α) : Prop :=
  (xs.map key).Nodup ∧ ∀ x ∈ xs, key x ∉ seen

/-- What stops a conversion behind elements that it passed: a key that stood before, or a failure. -/
inductive Stops (key : α → κ) (twice : α → ε) (convert : α → Except ε β) (seen : List κ)
    (x : α) : ε → Prop
  | twice (mem : key x ∈ seen) : Stops key twice convert seen x (twice x)
  | fails {e : ε} (fresh : key x ∉ seen) (error : convert x = .error e) :
    Stops key twice convert seen x e

variable {key : α → κ} {twice : α → ε} {convert : α → Except ε β} {seen : List κ}

theorem freshKeys_cons {x : α} {rest : List α} :
    FreshKeys key seen (x :: rest) ↔ key x ∉ seen ∧ FreshKeys key (key x :: seen) rest := by
  unfold FreshKeys
  rw [List.map_cons, List.nodup_cons, List.forall_mem_cons]
  constructor
  · intro h
    obtain ⟨⟨hx, hnodup⟩, hfresh, hrest⟩ := h
    refine ⟨hfresh, hnodup, fun y hy hm => ?_⟩
    rcases List.mem_cons.mp hm with heq | hm
    · exact hx (List.mem_map.mpr ⟨y, hy, heq⟩)
    · exact hrest y hy hm
  · intro h
    obtain ⟨hfresh, hnodup, hrest⟩ := h
    refine ⟨⟨fun hm => ?_, hnodup⟩, hfresh, fun y hy hm => hrest y hy (List.mem_cons_of_mem _ hm)⟩
    obtain ⟨y, hy, heq⟩ := List.mem_map.mp hm
    exact hrest y hy (by simp [heq])

/-- Only the keys themselves matter, not their order. -/
theorem Stops.of_mem_iff {seen' : List κ} {x : α} {e : ε} (same : ∀ k, k ∈ seen ↔ k ∈ seen')
    (h : Stops key twice convert seen x e) : Stops key twice convert seen' x e := by
  cases h with
  | twice mem => exact .twice ((same _).mp mem)
  | fails fresh error => exact .fails (mt (same _).mpr fresh) error

section Conversion

variable [BEq κ] [LawfulBEq κ]

/-- A conversion succeeds if its keys are new and every element converts. -/
theorem convertAll_eq_ok {xs : List α} {ys : List β} :
    convertAll key twice convert seen xs = .ok ys ↔
      FreshKeys key seen xs ∧ List.Forall₂ (fun x y => convert x = .ok y) xs ys := by
  induction xs generalizing seen ys with
  | nil => simp [convertAll, FreshKeys, eq_comm]
  | cons x rest ih =>
    rw [freshKeys_cons, List.forall₂_cons_left_iff]
    unfold convertAll
    split
    · rename_i hseen
      simp [show key x ∈ seen by simpa using hseen]
    · rename_i hfresh
      simp only [bind_eq_ok, except_pure, Except.ok.injEq, ih]
      constructor
      · intro h
        obtain ⟨y, hy, tail, ⟨hkeys, htail⟩, rfl⟩ := h
        exact ⟨⟨by simpa using hfresh, hkeys⟩, y, tail, hy, htail, rfl⟩
      · intro h
        obtain ⟨⟨_, hkeys⟩, y, tail, hy, htail, rfl⟩ := h
        exact ⟨y, hy, tail, ⟨hkeys, htail⟩, rfl⟩

/-- A conversion fails at the first element that stops it. -/
theorem convertAll_eq_error {xs : List α} {e : ε} :
    convertAll key twice convert seen xs = .error e ↔
      ∃ before x after, xs = before ++ x :: after ∧ FreshKeys key seen before ∧
        (∀ z ∈ before, ∃ y, convert z = .ok y) ∧
        Stops key twice convert (before.map key ++ seen) x e := by
  induction xs generalizing seen with
  | nil => simp [convertAll]
  | cons x rest ih =>
    have same (before : List α) (k : κ) :
        k ∈ before.map key ++ key x :: seen ↔ k ∈ (x :: before).map key ++ seen := by
      simp [or_left_comm]
    unfold convertAll
    constructor
    · intro h
      split at h
      · rename_i hseen
        cases h
        exact ⟨[], x, rest, rfl, by simp [FreshKeys], by simp, .twice (by simpa using hseen)⟩
      · rename_i hfresh
        have hx : key x ∉ seen := by simpa using hfresh
        simp only [bind_eq_error, except_pure, reduceCtorEq, and_false, exists_false, or_false] at h
        rcases h with herror | ⟨y, hy, h⟩
        · exact ⟨[], x, rest, rfl, by simp [FreshKeys], by simp, .fails hx herror⟩
        · obtain ⟨before, z, after, rfl, hkeys, hbefore, hstops⟩ := ih.mp h
          exact ⟨x :: before, z, after, rfl, freshKeys_cons.mpr ⟨hx, hkeys⟩,
            List.forall_mem_cons.mpr ⟨⟨y, hy⟩, hbefore⟩, hstops.of_mem_iff (same before)⟩
    · intro h
      obtain ⟨before, z, after, hsplit, hkeys, hbefore, hstops⟩ := h
      cases before with
      | nil =>
        obtain ⟨rfl, rfl⟩ := List.cons.inj hsplit
        cases hstops with
        | twice mem => simp [show key x ∈ seen by simpa using mem]
        | fails fresh error =>
          simp [show key x ∉ seen by simpa using fresh, error, except_error_bind]
      | cons first before =>
        obtain ⟨rfl, rfl⟩ := List.cons.inj hsplit
        obtain ⟨hx, hkeys⟩ := freshKeys_cons.mp hkeys
        obtain ⟨⟨y, hy⟩, hbefore⟩ := List.forall_mem_cons.mp hbefore
        have hrest : convertAll key twice convert (key x :: seen) (before ++ z :: after) = .error e :=
          ih.mpr ⟨before, z, after, rfl, hkeys, hbefore,
            hstops.of_mem_iff fun k => (same before k).symm⟩
        simp [hx, hy, hrest, except_ok_bind, except_error_bind]

end Conversion

/-- Elements convert to a list exactly if each of them converts. -/
theorem exists_forall₂_iff {P : α → β → Prop} {xs : List α} :
    (∃ ys, List.Forall₂ P xs ys) ↔ ∀ x ∈ xs, ∃ y, P x y := by
  induction xs with
  | nil => simp
  | cons x rest ih =>
    rw [List.forall_mem_cons, ← ih]
    constructor
    · intro h
      obtain ⟨_, h⟩ := h
      cases h with
      | cons head tail => exact ⟨⟨_, head⟩, ⟨_, tail⟩⟩
    · intro h
      obtain ⟨⟨y, hy⟩, ys, hys⟩ := h
      exact ⟨y :: ys, .cons hy hys⟩

/-- Each element of a list corresponds to one of the list it comes from. -/
theorem exists_of_mem_forall₂ {R : α → β → Prop} {xs : List α} {ys : List β}
    (h : List.Forall₂ R xs ys) {y : β} (hy : y ∈ ys) : ∃ x ∈ xs, R x y := by
  induction h with
  | nil => cases hy
  | @cons x z xs ys head tail ih =>
    rcases List.mem_cons.mp hy with rfl | hy
    · exact ⟨x, List.mem_cons_self, head⟩
    · obtain ⟨w, hw, hr⟩ := ih hy
      exact ⟨w, List.mem_cons_of_mem x hw, hr⟩

/-- Lists that correspond agree in what corresponding elements agree in. -/
theorem map_eq_of_forall₂ {γ : Type} {R : α → β → Prop} {f : α → γ} {g : β → γ} {xs : List α}
    {ys : List β} (h : List.Forall₂ R xs ys) (agree : ∀ x y, R x y → g y = f x) :
    ys.map g = xs.map f := by
  induction h with
  | nil => rfl
  | cons head tail ih => rw [List.map_cons, List.map_cons, agree _ _ head, ih]

section Lookup

variable [BEq κ] [LawfulBEq κ] {key : α → κ} {xs : List α}

/-- Where keys are all different, an element is found by its key. -/
theorem find?_key_eq_some_iff (once : (xs.map key).Nodup) {k : κ} {x : α} :
    xs.find? (key · == k) = some x ↔ x ∈ xs ∧ key x = k := by
  constructor
  · intro h
    exact ⟨List.mem_of_find?_eq_some h, by simpa using List.find?_some h⟩
  · intro h
    obtain ⟨hx, rfl⟩ := h
    induction xs with
    | nil => cases hx
    | cons y rest ih =>
      obtain ⟨hy, once⟩ := List.nodup_cons.mp once
      rcases List.mem_cons.mp hx with rfl | hx
      · simp
      · have hne : (key y == key x) = false := by
          simpa using fun heq => hy (List.mem_map.mpr ⟨x, hx, heq.symm⟩)
        rw [List.find?_cons_of_neg (by simp [hne])]
        exact ih once hx

/-- Where keys are all different, a place is found by the key that stands there. -/
theorem findIdx?_key_eq_some (once : (xs.map key).Nodup) {i : Nat} {x : α} (h : xs[i]? = some x) :
    xs.findIdx? (key · == key x) = some i := by
  induction xs generalizing i with
  | nil => simp at h
  | cons y rest ih =>
    obtain ⟨hy, once⟩ := List.nodup_cons.mp once
    cases i with
    | zero =>
      cases h
      simp [List.findIdx?_cons]
    | succ i =>
      have hx : x ∈ rest := List.mem_of_getElem? (by simpa using h)
      have hne : (key y == key x) = false := by
        simpa using fun heq => hy (List.mem_map.mpr ⟨x, hx, heq.symm⟩)
      simp [List.findIdx?_cons, hne, ih once (by simpa using h)]

end Lookup

def FirstFails (passes fails : α → Prop) (xs : List α) : Prop :=
  ∃ before x after, xs = before ++ x :: after ∧ (∀ z ∈ before, passes z) ∧ fails x

section FirstFails

variable {passes fails : α → Prop} {x : α} {xs : List α}

theorem not_firstFails_nil : ¬ FirstFails passes fails [] := by
  simp [FirstFails]

theorem FirstFails.ne_nil (h : FirstFails passes fails xs) : xs ≠ [] := by
  rintro rfl
  exact not_firstFails_nil h

theorem firstFails_cons :
    FirstFails passes fails (x :: xs) ↔ fails x ∨ passes x ∧ FirstFails passes fails xs := by
  constructor
  · intro h
    obtain ⟨before, y, after, hsplit, hbefore, hy⟩ := h
    cases before with
    | nil =>
      obtain ⟨rfl, rfl⟩ := List.cons.inj hsplit
      exact .inl hy
    | cons first before =>
      obtain ⟨rfl, rfl⟩ := List.cons.inj hsplit
      obtain ⟨hx, hbefore⟩ := List.forall_mem_cons.mp hbefore
      exact .inr ⟨hx, before, y, after, rfl, hbefore, hy⟩
  · intro h
    rcases h with h | ⟨hx, before, y, after, rfl, hbefore, hy⟩
    · exact ⟨[], x, xs, rfl, by simp, h⟩
    · exact ⟨x :: before, y, after, rfl, List.forall_mem_cons.mpr ⟨hx, hbefore⟩, hy⟩

end FirstFails

section FirstFound

variable {γ : Type} {R : α → β → Prop} {P : α → Prop} {Q : α → γ → Prop} {found : β → Option γ}
  {xs : List α} {ys : List β}

/-- Nothing is found in a list exactly if the elements that it comes from all pass. -/
theorem findSome?_eq_none_of_forall₂ (h : List.Forall₂ R xs ys)
    (passes : ∀ x y, R x y → (found y = none ↔ P x)) :
    ys.findSome? found = none ↔ ∀ x ∈ xs, P x := by
  induction h with
  | nil => simp
  | @cons x y xs ys head tail ih =>
    rw [List.findSome?_cons, List.forall_mem_cons, ← passes x y head, ← ih]
    cases found y <;> simp

/-- What is found in a list comes from the first element that does not pass. -/
theorem findSome?_eq_some_of_forall₂ (h : List.Forall₂ R xs ys)
    (passes : ∀ x y, R x y → (found y = none ↔ P x))
    (finds : ∀ x y, R x y → ∀ c, found y = some c ↔ Q x c) {c : γ} :
    ys.findSome? found = some c ↔
      ∃ before x after, xs = before ++ x :: after ∧ (∀ z ∈ before, P z) ∧ Q x c := by
  induction h with
  | nil => simp
  | @cons x y xs ys head tail ih =>
    rw [List.findSome?_cons]
    constructor
    · intro h
      split at h
      · rename_i first hfound
        cases h
        exact ⟨[], x, xs, rfl, by simp, (finds x y head c).mp hfound⟩
      · rename_i hnone
        obtain ⟨before, z, after, rfl, hbefore, hz⟩ := ih.mp h
        exact ⟨x :: before, z, after, rfl,
          List.forall_mem_cons.mpr ⟨(passes x y head).mp hnone, hbefore⟩, hz⟩
    · intro h
      obtain ⟨before, z, after, hsplit, hbefore, hz⟩ := h
      cases before with
      | nil =>
        obtain ⟨rfl, rfl⟩ := List.cons.inj hsplit
        rw [(finds _ y head c).mpr hz]
      | cons first before =>
        obtain ⟨rfl, rfl⟩ := List.cons.inj hsplit
        obtain ⟨hx, hbefore⟩ := List.forall_mem_cons.mp hbefore
        rw [(passes _ y head).mpr hx]
        exact ih.mpr ⟨before, z, after, rfl, hbefore, hz⟩

end FirstFound
end SceneDoc
