import SceneDoc.Object.Convert
import SceneDoc.Proofs.Outcomes

namespace SceneDoc

namespace TupleShape

/-- What finite numbers of the right count have to satisfy: color channels their range, and a
quaternion that it is not zero. -/
def Domain : TupleShape → List Double → Prop
  | .rgba, xs => ∀ x ∈ xs, isByteChannel x = true
  | .rgbaf, xs => ∀ x ∈ xs, isUnitChannel x = true
  | .unitQuaternion, xs => ∃ x ∈ xs, x.isZero = false
  | _, _ => True

structure Admits (shape : TupleShape) (xs : List Double) : Prop where
  length : xs.length = shape.arity
  finite : ∀ x ∈ xs, x.isFinite = true
  domain : shape.Domain xs

theorem domain?_eq_none {shape : TupleShape} {xs : List Double} :
    shape.domain? xs = none ↔ shape.Domain xs := by
  cases shape <;> simp [domain?, Domain]

/-- The check accepts exactly what the shape admits. -/
theorem check_eq_ok {shape : TupleShape} {xs : List Double} :
    shape.check xs = .ok () ↔ shape.Admits xs := by
  constructor
  · intro h
    unfold check at h
    split at h
    · cases h
    · rename_i hlen
      split at h
      · cases h
      · rename_i hfin
        split at h
        · cases h
        · rename_i hdom
          exact ⟨by simpa using hlen, checkFinite_eq_ok.mp hfin, domain?_eq_none.mp hdom⟩
  · intro h
    obtain ⟨hlen, hfin, hdom⟩ := h
    simp [check, hlen, checkFinite_eq_ok.mpr hfin, domain?_eq_none.mpr hdom]

end TupleShape

namespace ListShape

structure Admits (shape : ListShape) (xs : List Double) : Prop where
  nonempty : xs ≠ []
  stride : shape.stride ∣ xs.length
  finite : ∀ x ∈ xs, x.isFinite = true

/-- The check accepts exactly what the shape admits. -/
theorem check_eq_ok {shape : ListShape} {xs : List Double} :
    shape.check xs = .ok () ↔ shape.Admits xs := by
  unfold check
  split
  · rename_i hbad
    simp only [reduceCtorEq, false_iff]
    intro h
    obtain ⟨hne, hdiv, _⟩ := h
    simp [hne, Nat.mod_eq_zero_of_dvd hdiv] at hbad
  · rename_i hgood
    simp only [Bool.or_eq_true, List.isEmpty_iff, decide_eq_true_eq, not_or, ne_eq,
      Decidable.not_not] at hgood
    rw [checkFinite_eq_ok]
    exact ⟨fun h => ⟨hgood.1, Nat.dvd_of_mod_eq_zero hgood.2, h⟩, fun h => h.finite⟩

end ListShape

def IsScalar (xs : List Double) : Prop := ∃ x, xs = [x] ∧ x.isFinite = true

theorem checkScalar_eq_ok {xs : List Double} : checkScalar xs = .ok () ↔ IsScalar xs := by
  unfold checkScalar IsScalar
  split
  · rename_i hlen
    simp only [reduceCtorEq, false_iff]
    intro h
    obtain ⟨x, rfl, _⟩ := h
    simp at hlen
  · rename_i hlen
    obtain ⟨x, rfl⟩ := List.length_eq_one_iff.mp (by simpa using hlen)
    simp [checkFinite_eq_ok]

theorem isScalar_iff {xs : List Double} :
    IsScalar xs ↔ xs.length = 1 ∧ ∀ x ∈ xs, x.isFinite = true := by
  constructor
  · intro h
    obtain ⟨x, rfl, hx⟩ := h
    simpa using hx
  · intro h
    obtain ⟨x, rfl⟩ := List.length_eq_one_iff.mp h.1
    exact ⟨x, rfl, h.2 x (by simp)⟩

def TimeTag.IsFinite : TimeTag → Prop
  | .at _ => True
  | .seconds t => t.isFinite = true

namespace Sample

theorem check_eq_ok {valuesOk : List Double → Except ValueError Unit} {s : Sample} :
    s.check valuesOk = .ok () ↔ s.time.IsFinite ∧ valuesOk s.values = .ok () := by
  obtain ⟨time, values⟩ := s
  cases time with
  | «at» i => simp [check, TimeTag.IsFinite, except_ok_bind]
  | seconds t => simp [check, TimeTag.IsFinite, check_bind_eq_ok, checkFinite_eq_ok]

theorem checkAll_eq_ok {valuesOk : List Double → Except ValueError Unit} {samples : List Sample} :
    checkAll valuesOk samples = .ok () ↔
      ∀ s ∈ samples, s.time.IsFinite ∧ valuesOk s.values = .ok () := by
  induction samples with
  | nil => simp [checkAll]
  | cons s rest ih =>
    simp only [checkAll, check_bind_eq_ok, check_eq_ok, ih, List.forall_mem_cons]

end Sample

/-- Samples are taken by a field that varies, if there are any and each is admitted. -/
theorem Field.tagged_eq_ok_iff {f : Field} {v : Value} {samples : List Sample}
    {valuesOk : List Double → Except ValueError Unit} :
    f.tagged samples valuesOk = .ok v ↔ f.interpolatable = true ∧ samples ≠ [] ∧
      (∀ s ∈ samples, s.time.IsFinite ∧ valuesOk s.values = .ok ()) ∧
      .samples (.tagged samples) = v := by
  unfold tagged
  cases varies : f.interpolatable with
  | false => simp
  | true =>
    cases samples with
    | nil => simp
    | cons s rest => simp [check_map_eq_ok, Sample.checkAll_eq_ok]

namespace Samples

/-- Samples whose values are all admitted: a constant, or at least one sample at times that can be
written. -/
inductive Canonical (admits : List Double → Prop) : Samples → Prop
  | constant (value : admits xs) : Canonical admits (.constant xs)
  | tagged (nonempty : samples ≠ []) (times : ∀ s ∈ samples, s.time.IsFinite)
      (values : ∀ s ∈ samples, admits s.values) : Canonical admits (.tagged samples)

theorem chunks_ne_nil {arity : Nat} {xs : List Double} (h : xs ≠ []) : chunks arity xs ≠ [] := by
  cases xs with
  | nil => exact absurd rfl h
  | cons x xs => simp [chunks]

/-- If times and values come out even, no sample is short. -/
theorem chunks_length {arity : Nat} {xs : List Double} (h : (arity + 1) ∣ xs.length) :
    ∀ p ∈ chunks arity xs, p.2.length = arity := by
  fun_induction chunks arity xs with
  | case1 => simp
  | case2 t rest ih =>
    have hrest : arity ≤ rest.length := by
      have := Nat.le_of_dvd (by simp) h
      simpa using this
    have hdrop : (arity + 1) ∣ (rest.drop arity).length := by
      have he : (t :: rest).length = (rest.drop arity).length + (arity + 1) := by
        simp only [List.length_cons, List.length_drop]
        omega
      exact (Nat.dvd_add_left (Nat.dvd_refl _)).mp (he ▸ h)
    intro p hp
    rcases List.mem_cons.mp hp with rfl | hp
    · simpa using Nat.min_eq_left hrest
    · exact ih hdrop p hp

theorem chunks_mem {arity : Nat} {xs : List Double} :
    ∀ p ∈ chunks arity xs, p.1 ∈ xs ∧ ∀ x ∈ p.2, x ∈ xs := by
  fun_induction chunks arity xs with
  | case1 => simp
  | case2 t rest ih =>
    intro p hp
    rcases List.mem_cons.mp hp with rfl | hp
    · exact ⟨by simp, fun x hx => List.mem_cons_of_mem t (List.mem_of_mem_take hx)⟩
    · obtain ⟨ht, hv⟩ := ih p hp
      exact ⟨List.mem_cons_of_mem t (List.mem_of_mem_drop ht),
        fun x hx => List.mem_cons_of_mem t (List.mem_of_mem_drop (hv x hx))⟩

/-- A flat list is read as samples at finite times, each with a full value of its numbers. -/
theorem ofFlat_eq_ok {xs : List Double} {arity : Nat} {s : Samples} (h : ofFlat xs arity = .ok s) :
    ∃ samples, s = .tagged samples ∧ samples ≠ [] ∧
      ∀ t ∈ samples, t.time.IsFinite ∧ t.values.length = arity ∧ ∀ x ∈ t.values, x ∈ xs := by
  unfold ofFlat at h
  split at h
  · cases h
  · rename_i hgood
    simp only [Bool.or_eq_true, List.isEmpty_iff, decide_eq_true_eq, not_or, ne_eq,
      Decidable.not_not] at hgood
    obtain ⟨hne, hmod⟩ := hgood
    simp only [check_bind_eq_ok, except_pure, Except.ok.injEq] at h
    obtain ⟨hfin, rfl⟩ := h
    refine ⟨_, rfl, by simpa using chunks_ne_nil hne, ?_⟩
    intro t ht
    obtain ⟨p, hp, rfl⟩ := List.mem_map.mp ht
    refine ⟨checkFinite_eq_ok.mp hfin p.1 (List.mem_map.mpr ⟨p, hp, rfl⟩), ?_, ?_⟩
    · exact chunks_length (Nat.dvd_of_mod_eq_zero hmod) p hp
    · exact (chunks_mem p hp).2

end Samples
end SceneDoc
