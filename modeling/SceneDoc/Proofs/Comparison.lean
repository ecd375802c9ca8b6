import SceneDoc.Object.Equality
import SceneDoc.Proofs.Doubles
import SceneDoc.Proofs.Sequences

namespace SceneDoc

variable {α β γ : Type}

/-- The laws of a test at one element. Regular elements pass it with themselves, and definite ones with
no other definite one; for numbers these are the finite ones and those that are no negative zero. -/
structure LawfulAt (test : α → α → Prop) (regular definite : α → Prop) (x : α) : Prop where
  refl : regular x → test x x
  symm : ∀ y, test x y → test y x
  trans : ∀ y z, test x y → test y z → test x z
  unique : ∀ y, test x y → definite x → definite y → x = y

namespace LawfulAt

variable {test : α → α → Prop} {regular definite : α → Prop} {x : α}

theorem eq (x : α) : LawfulAt (· = ·) (fun _ => True) (fun _ => True) x where
  refl _ := rfl
  symm _ h := h.symm
  trans _ _ h k := h.trans k
  unique _ h _ _ := h

/-- A test of two aspects that are all there is to an element. -/
theorem both {f : γ → α} {g : γ → β} {testβ : β → β → Prop} {regularβ definiteβ : β → Prop} {c : γ}
    (ext : ∀ d, f c = f d → g c = g d → c = d) (first : LawfulAt test regular definite (f c))
    (second : LawfulAt testβ regularβ definiteβ (g c)) :
    LawfulAt (fun c d => test (f c) (f d) ∧ testβ (g c) (g d))
      (fun c => regular (f c) ∧ regularβ (g c)) (fun c => definite (f c) ∧ definiteβ (g c)) c where
  refl h := ⟨first.refl h.1, second.refl h.2⟩
  symm _ h := ⟨first.symm _ h.1, second.symm _ h.2⟩
  trans _ _ h k := ⟨first.trans _ _ h.1 k.1, second.trans _ _ h.2 k.2⟩
  unique d h hc hd := ext d (first.unique _ h.1 hc.1 hd.1) (second.unique _ h.2 hc.2 hd.2)

/-- A test that compares lists element by element. -/
theorem list {xs : List α} (each : ∀ x ∈ xs, LawfulAt test regular definite x) :
    LawfulAt (List.Forall₂ test) (fun xs => ∀ x ∈ xs, regular x) (fun xs => ∀ x ∈ xs, definite x)
      xs := by
  induction xs with
  | nil =>
    refine ⟨fun _ => .nil, fun ys h => ?_, fun ys zs h k => ?_, fun ys h _ _ => ?_⟩
    · cases h
      exact .nil
    · cases h
      exact k
    · cases h
      rfl
  | cons x xs ih =>
    obtain ⟨head, tail⟩ := List.forall_mem_cons.mp each
    have rest := ih tail
    refine ⟨fun h => ?_, fun ys h => ?_, fun ys zs h k => ?_, fun ys h hx hy => ?_⟩
    · obtain ⟨hx, hxs⟩ := List.forall_mem_cons.mp h
      exact .cons (head.refl hx) (rest.refl hxs)
    · cases h with
      | cons h hs => exact .cons (head.symm _ h) (rest.symm _ hs)
    · cases h with
      | cons h hs =>
        cases k with
        | cons k ks => exact .cons (head.trans _ _ h k) (rest.trans _ _ hs ks)
    · cases h with
      | cons h hs =>
        obtain ⟨hx, hxs⟩ := List.forall_mem_cons.mp hx
        obtain ⟨hy, hys⟩ := List.forall_mem_cons.mp hy
        rw [head.unique _ h hx hy, rest.unique _ hs hxs hys]

/-- A test of slots, of which both or none are set. -/
theorem option {slot : Option α} (each : ∀ x, slot = some x → LawfulAt test regular definite x) :
    LawfulAt (Option.Rel test) (fun slot => ∀ x, slot = some x → regular x)
      (fun slot => ∀ x, slot = some x → definite x) slot := by
  cases slot with
  | none =>
    refine ⟨fun _ => .none, fun y h => ?_, fun y z h k => ?_, fun y h _ _ => ?_⟩
    · cases h
      exact .none
    · cases h
      exact k
    · cases h
      rfl
  | some x =>
    have at_x := each x rfl
    refine ⟨fun h => .some (at_x.refl (h x rfl)), fun y h => ?_, fun y z h k => ?_,
      fun y h hx hy => ?_⟩
    · cases h with
      | some h => exact .some (at_x.symm _ h)
    · cases h with
      | some h =>
        cases k with
        | some k => exact .some (at_x.trans _ _ h k)
    · cases h with
      | some h => rw [at_x.unique _ h (hx x rfl) (hy _ rfl)]

/-- A test of elements of several forms, at an element of a form: only elements of that form pass, if
what they are made of does. -/
theorem form {f : α → β} {testβ : β → β → Prop} {regularβ definiteβ : β → Prop}
    (passes : ∀ x b, testβ (f x) b ↔ ∃ y, f y = b ∧ test x y)
    (regular_of : regularβ (f x) → regular x) (definite_of : ∀ y, definiteβ (f y) → definite y)
    (lawful : LawfulAt test regular definite x) : LawfulAt testβ regularβ definiteβ (f x) where
  refl h := (passes x _).mpr ⟨x, rfl, lawful.refl (regular_of h)⟩
  symm b h := by
    obtain ⟨y, rfl, hxy⟩ := (passes x b).mp h
    exact (passes y _).mpr ⟨x, rfl, lawful.symm y hxy⟩
  trans b c h k := by
    obtain ⟨y, rfl, hxy⟩ := (passes x b).mp h
    obtain ⟨z, rfl, hyz⟩ := (passes y c).mp k
    exact (passes x _).mpr ⟨z, rfl, lawful.trans y z hxy hyz⟩
  unique b h hx hb := by
    obtain ⟨y, rfl, hxy⟩ := (passes x b).mp h
    rw [lawful.unique y hxy (definite_of x hx) (definite_of y hb)]

/-- A test of values under keys that are the same. -/
theorem keyed {κ : Type} {e : κ × α} (lawful : LawfulAt test regular definite e.2) :
    LawfulAt (fun d e : κ × α => d.1 = e.1 ∧ test d.2 e.2) (fun e => True ∧ regular e.2)
      (fun e => True ∧ definite e.2) e :=
  .both (fun _ => Prod.ext) (.eq e.1) lawful

/-- A test of what elements are turned into before they are compared. -/
theorem comap {f : β → α} {b : β}
    (only : ∀ c, definite (f b) → definite (f c) → f b = f c → b = c)
    (lawful : LawfulAt test regular definite (f b)) :
    LawfulAt (fun b c => test (f b) (f c)) (fun b => regular (f b)) (fun b => definite (f b)) b where
  refl h := lawful.refl h
  symm _ h := lawful.symm _ h
  trans _ _ h k := lawful.trans _ _ h k
  unique c h hb hc := only c hb hc (lawful.unique _ h hb hc)

end LawfulAt

namespace Double

def isNegativeZero : Double → Bool
  | .finite x => x.units == 0 && x.negative
  | _ => false

/-- Finite numbers are compared by their size, and by their sign unless they are zero. -/
theorem finite_equals_lawful (x : Finite) :
    LawfulAt (fun x y : Finite => x.units = y.units ∧ (x.units = 0 ∨ x.negative = y.negative))
      (fun _ => True) (fun x => ¬ (x.units = 0 ∧ x.negative = true)) x where
  refl _ := ⟨rfl, .inr rfl⟩
  symm y h := by
    obtain ⟨units, sign⟩ := h
    exact ⟨units.symm, sign.imp (fun zero => units ▸ zero) Eq.symm⟩
  trans y z h k := by
    obtain ⟨units, sign⟩ := h
    obtain ⟨units', sign'⟩ := k
    refine ⟨units.trans units', ?_⟩
    rcases sign with zero | same
    · exact .inl zero
    · exact sign'.imp (fun zero => units.trans zero) same.trans
  unique y h hx hy := by
    obtain ⟨units, sign⟩ := h
    -- Signs may differ at zero only, and there neither of the two is negative.
    have negative : x.negative = y.negative := by
      rcases sign with zero | same
      · have notx : x.negative = false := by simpa [zero] using hx
        have noty : y.negative = false := by simpa [← units, zero] using hy
        rw [notx, noty]
      · exact same
    cases x
    cases y
    cases units
    cases negative
    rfl

theorem equals_lawful (x : Double) :
    LawfulAt (fun x y => x.equals y = true) (fun x => x.isFinite = true)
      (fun x => x.isNegativeZero = false) x := by
  cases x with
  | nan =>
    have never : ∀ y, Double.nan.equals y = false := by
      intro y
      cases y <;> rfl
    refine ⟨fun h => ?_, fun y h => ?_, fun y z h _ => ?_, fun y h _ _ => ?_⟩
    · cases h
    · simp [never] at h
    · simp [never] at h
    · simp [never] at h
  | infinite negative =>
    refine .form (fun negative y => ?_) (fun _ => trivial) (fun _ _ => trivial) (.eq negative)
    cases y <;> simp [equals]
  | finite x =>
    refine .form (fun x y => ?_) (fun _ => trivial) (fun y h => ?_) (finite_equals_lawful x)
    · cases y <;> simp [equals]
    · simpa [isNegativeZero] using h

theorem listEquals_iff {xs ys : List Double} :
    listEquals xs ys = true ↔ List.Forall₂ (fun x y => x.equals y = true) xs ys := by
  induction xs generalizing ys with
  | nil => cases ys <;> simp [listEquals]
  | cons x xs ih => cases ys <;> simp [listEquals, ih]

theorem listEquals_lawful (xs : List Double) :
    LawfulAt (fun xs ys => listEquals xs ys = true) (fun xs => ∀ x ∈ xs, x.isFinite = true)
      (fun xs => ∀ x ∈ xs, x.isNegativeZero = false) xs := by
  simpa only [listEquals_iff] using LawfulAt.list fun x _ => equals_lawful x

end Double

theorem TimeTag.equals_lawful (t : TimeTag) :
    LawfulAt (fun t u => t.equals u = true) (fun t => ∀ x ∈ t.doubles, x.isFinite = true)
      (fun t => ∀ x ∈ t.doubles, x.isNegativeZero = false) t := by
  cases t with
  | «at» i =>
    refine .form (f := TimeTag.at) (fun i u => ?_) (fun _ => trivial) (fun _ _ => trivial) (.eq i)
    cases u <;> simp [equals]
  | seconds x =>
    refine .form (fun x u => ?_) (fun h => ?_) (fun y h => ?_) (Double.equals_lawful x)
    · cases u <;> simp [equals]
    · simpa [doubles] using h
    · simpa [doubles] using h

theorem Sample.listEquals_iff {ss ts : List Sample} :
    listEquals ss ts = true ↔ List.Forall₂
      (fun s t => s.time.equals t.time = true ∧ Double.listEquals s.values t.values = true) ss ts := by
  induction ss generalizing ts with
  | nil => cases ts <;> simp [listEquals]
  | cons s ss ih => cases ts <;> simp [listEquals, ih]

/-- What holds of all numbers of samples holds of each sample's time and values. -/
theorem Samples.forall_doubles {P : Double → Prop} {ss : List Sample} :
    (∀ x ∈ (tagged ss).doubles, P x) ↔
      ∀ s ∈ ss, (∀ x ∈ s.time.doubles, P x) ∧ ∀ x ∈ s.values, P x := by
  simp only [doubles, List.forall_mem_flatMap, List.forall_mem_append]

theorem Samples.equals_lawful (s : Samples) :
    LawfulAt (fun s t => s.equals t = true) (fun s => ∀ x ∈ s.doubles, x.isFinite = true)
      (fun s => ∀ x ∈ s.doubles, x.isNegativeZero = false) s := by
  cases s with
  | constant xs =>
    refine .form (fun xs t => ?_) (fun h => h) (fun _ h => h) (Double.listEquals_lawful xs)
    cases t <;> simp [equals]
  | tagged ss =>
    have each (s : Sample) := LawfulAt.both (f := Sample.time) (g := Sample.values) (c := s)
      (fun t time values => by
        cases s
        cases t
        cases time
        cases values
        rfl)
      (TimeTag.equals_lawful s.time) (Double.listEquals_lawful s.values)
    refine .form (fun ss t => ?_) Samples.forall_doubles.mp (fun ts => Samples.forall_doubles.mp)
      (.list fun s _ => each s)
    cases t <;> simp [equals, Sample.listEquals_iff]

theorem Number.equals_lawful (n : Number) :
    LawfulAt (fun m n => m.equals n = true) (fun _ => True) (fun _ => False) n := by
  cases n with
  | integer n =>
    refine .form (fun m n => ?_) (fun _ => trivial) (fun _ h => h.elim) (.eq n)
    cases n <;> simp [equals]
  | finite x =>
    refine .form (fun x n => ?_) (fun _ => trivial) (fun _ h => h.elim)
      (Double.finite_equals_lawful x)
    cases n <;> simp [equals, Double.equals]

namespace Json

variable {ν : Type} {eq : ν → ν → Bool}

theorem matchItems_iff {xs ys : List (Json ν)} :
    matchItems eq xs ys = true ↔ List.Forall₂ (fun x y => matchTrees eq x y = true) xs ys := by
  induction xs generalizing ys with
  | nil => cases ys <;> simp [matchItems]
  | cons x xs ih => cases ys <;> simp [matchItems, ih]

theorem matchEntries_iff {xs ys : List (String × Json ν)} :
    matchEntries eq xs ys = true ↔
      List.Forall₂ (fun d e => d.1 = e.1 ∧ matchTrees eq d.2 e.2 = true) xs ys := by
  induction xs generalizing ys with
  | nil => cases ys <;> simp [matchEntries]
  | cons x xs ih => cases ys <;> simp [matchEntries, ih]

theorem matchTrees_lawful
    (numbers : ∀ n, LawfulAt (fun m n => eq m n = true) (fun _ => True) (fun _ => False) n)
    (t : Json ν) :
    LawfulAt (fun s t => matchTrees eq s t = true) (fun _ => True) (fun _ => False) t := by
  induction t with
  | null =>
    refine .form (f := fun _ : Unit => null) (fun _ t => ?_) (fun _ => trivial)
      (fun _ _ => trivial) (.eq ())
    cases t <;> simp [matchTrees]
  | bool b =>
    refine .form (fun b t => ?_) (fun _ => trivial) (fun _ _ => trivial) (.eq b)
    cases t <;> simp [matchTrees]
  | number n =>
    refine .form (fun n t => ?_) (fun _ => trivial) (fun _ h => h) (numbers n)
    cases t <;> simp [matchTrees]
  | string s =>
    refine .form (fun s t => ?_) (fun _ => trivial) (fun _ _ => trivial) (.eq s)
    cases t <;> simp [matchTrees]
  | array items ih =>
    refine .form (fun items t => ?_) (fun _ _ _ => trivial) (fun _ h => h.elim) (.list ih)
    cases t <;> simp [matchTrees, matchItems_iff]
  | object entries ih =>
    refine .form (fun entries t => ?_) (fun _ _ _ => ⟨trivial, trivial⟩) (fun _ h => h.elim)
      (.list fun e he => .keyed (ih e he))
    cases t <;> simp [matchTrees, matchEntries_iff]

theorem equals_lawful
    (numbers : ∀ n, LawfulAt (fun m n => eq m n = true) (fun _ => True) (fun _ => False) n)
    (t : Json ν) : LawfulAt (fun s t => s.equals eq t = true) (fun _ => True) (fun _ => False) t :=
  -- Sorting forgets the order of entries, so equal trees need not be one, and none is definite.
  .comap (fun _ h _ _ => h.elim) (matchTrees_lawful numbers t.sorted)

end Json

end SceneDoc
