import SceneDoc.Proofs.Spellings

namespace SceneDoc

variable {arity : Nat} {xs : List Double} {samples : List Sample}

namespace FieldKind

def Domain : FieldKind → List Double → Prop
  | .tuple shape, xs => shape.Domain xs
  | _, _ => True

/-- The numbers are finite, and in the domain where they are one value and in the samples that they
spell. -/
structure InDomain (k : FieldKind) (arity : Nat) (xs : List Double) : Prop where
  finite : ∀ x ∈ xs, x.isFinite = true
  value : xs.length = arity → k.Domain xs
  samples : ∀ samples, Sample.Flat arity xs samples → ∀ s ∈ samples, k.Domain s.values

theorem InDomain.number {k : FieldKind} (number : k = .number)
    (finite : ∀ x ∈ xs, x.isFinite = true) : k.InDomain arity xs := by
  subst number
  exact ⟨finite, fun _ => trivial, fun _ _ _ _ => trivial⟩

end FieldKind

/-- A list that is empty or does not come out even is refused with the lengths that are accepted. -/
theorem Samples.ofFlat_uneven (uneven : ¬ (0 < xs.length ∧ (arity + 1) ∣ xs.length)) :
    ofFlat xs arity = .error (.shape (.flat arity) xs.length) := by
  unfold ofFlat
  apply if_pos
  by_contra hgood
  simp only [Bool.or_eq_true, List.isEmpty_iff, decide_eq_true_eq, not_or, ne_eq,
    Decidable.not_not] at hgood
  exact uneven ⟨List.length_pos_iff.mpr hgood.1, Nat.dvd_of_mod_eq_zero hgood.2⟩

namespace Field

variable {f : Field}

/-- A list is accepted if it is one value or samples, which are stored in their order; else the error
states accepted lengths, and that of the list is none of them. -/
structure KeepsLengths (f : Field) (arity : Nat) (xs : List Double) : Prop where
  accepted : (∃ v, f.convert (.numbers xs) = .ok v) ↔
    xs.length = arity ∨ ∃ k, 0 < k ∧ xs.length = k * (arity + 1)
  constant : xs.length = arity → f.convert (.numbers xs) = .ok (.samples (.constant xs))
  tagged : ∀ k, 0 < k → xs.length = k * (arity + 1) →
    ∃ samples, samples.length = k ∧ Sample.Flat arity xs samples ∧
      f.convert (.numbers xs) = .ok (.samples (.tagged samples))
  refused : ∀ e, f.convert (.numbers xs) = .error e →
    ∃ stated, e = .shape stated xs.length ∧ ¬ stated.Admits xs.length

/-- A tuple that is admitted is one value, also if it may vary. -/
theorem convert_tuple {shape : TupleShape} (kind : f.kind = .tuple shape)
    (interpolated : f.interpolatable = true) (admits : shape.Admits xs) :
    f.convert (.numbers xs) = .ok (.samples (.constant xs)) := by
  change f.convertPlain _ = _
  simp only [convertPlain, kind, tuple, admits.length, ↓reduceIte, interpolated]
  exact check_map_eq_ok.mpr ⟨TupleShape.check_eq_ok.mpr admits, rfl⟩

theorem KeepsLengths.of_samples (flat : Sample.Flat arity xs samples) (nonempty : samples ≠ [])
    (h : f.convert (.numbers xs) = .ok (.samples (.tagged samples))) : f.KeepsLengths arity xs where
  accepted :=
    iff_of_true ⟨_, h⟩ (.inr ⟨_, List.length_pos_iff.mpr nonempty, flat.length⟩)
  constant one := absurd one (flat.length_ne nonempty)
  tagged k _ hk :=
    have same := Nat.eq_of_mul_eq_mul_right arity.succ_pos (flat.length.symm.trans hk)
    ⟨samples, same, flat, h⟩
  refused e he := by cases h.symm.trans he

theorem KeepsLengths.of_value (one : xs.length = arity)
    (h : f.convert (.numbers xs) = .ok (.samples (.constant xs))) : f.KeepsLengths arity xs where
  accepted := iff_of_true ⟨_, h⟩ (.inl one)
  constant _ := h
  tagged k hk hlen := by
    have := Nat.le_mul_of_pos_left (arity + 1) hk
    omega
  refused e he := by cases h.symm.trans he

theorem KeepsLengths.of_error (several : xs.length ≠ arity)
    (uneven : ¬ (0 < xs.length ∧ (arity + 1) ∣ xs.length))
    (h : f.convert (.numbers xs) = .error (.shape (.flat arity) xs.length)) :
    f.KeepsLengths arity xs := by
  have odd : ∀ k, 0 < k → xs.length ≠ k * (arity + 1) := by
    intro k hk hlen
    exact uneven ⟨hlen ▸ Nat.mul_pos hk arity.succ_pos, hlen ▸ Nat.dvd_mul_left _ k⟩
  refine ⟨?_, fun one => absurd one several, fun k hk hlen => absurd hlen (odd k hk), ?_⟩
  · constructor
    · rintro ⟨v, hv⟩
      cases h.symm.trans hv
    · rintro (one | ⟨k, hk, hlen⟩)
      · exact absurd one several
      · exact absurd hlen (odd k hk)
  · intro e he
    cases h.symm.trans he
    exact ⟨_, rfl, not_or.mpr ⟨several, uneven⟩⟩

section Lengths

variable (kind : f.kind.arity? = some arity) (interpolated : f.interpolatable = true)
  (domain : f.kind.InDomain arity xs)
include kind interpolated domain

theorem convert_samples (flat : Sample.Flat arity xs samples) (nonempty : samples ≠ []) :
    f.convert (.numbers xs) = .ok (.samples (.tagged samples)) := by
  change f.convertPlain _ = _
  have same := (Spells.samples kind flat nonempty).convertPlain
  rw [← toOption_eq_some, same, toOption_eq_some]
  have finite := flat.finite.mp domain.finite
  have inside := domain.samples samples flat
  rcases FieldKind.arity?_eq_some.mp kind with ⟨number, rfl⟩ | ⟨shape, tuple, rfl⟩
  · have scalar : ∀ s ∈ samples, IsScalar s.values :=
      fun s hs => isScalar_iff.mpr ⟨flat.full s hs, (finite s hs).2⟩
    simp only [convertPlain, number]
    exact tagged_eq_ok_iff.mpr ⟨interpolated, nonempty,
      fun s hs => ⟨(finite s hs).1, checkScalar_eq_ok.mpr (scalar s hs)⟩, rfl⟩
  · rw [tuple] at inside
    have admits : ∀ s ∈ samples, shape.Admits s.values :=
      fun s hs => ⟨flat.full s hs, (finite s hs).2, inside s hs⟩
    simp only [convertPlain, tuple]
    exact tagged_eq_ok_iff.mpr ⟨interpolated, nonempty,
      fun s hs => ⟨(finite s hs).1, TupleShape.check_eq_ok.mpr (admits s hs)⟩, rfl⟩

/-- A number is never one value as a list, so that only samples are left of it. -/
theorem convert_uneven (uneven : ¬ (0 < xs.length ∧ (arity + 1) ∣ xs.length))
    (several : f.kind = .number ∨ xs.length ≠ arity) :
    f.convert (.numbers xs) = .error (.shape (.flat arity) xs.length) := by
  change f.convertPlain _ = _
  rcases FieldKind.arity?_eq_some.mp kind with ⟨number, rfl⟩ | ⟨shape, tuple, rfl⟩
  · simp only [convertPlain, number, interpolated, ↓reduceIte, checkFinite_eq_ok.mpr domain.finite,
      Samples.ofFlat_uneven uneven, except_ok_bind, except_error_bind]
  · have other : xs.length ≠ shape.arity := several.resolve_left (by simp [tuple])
    simp only [convertPlain, tuple, Field.tuple, other, interpolated, Bool.not_true,
      Bool.false_eq_true, ↓reduceIte, Samples.ofFlat_uneven uneven, except_error_bind]

/-- A list comes out as samples, as one tuple, or as an error that states the accepted lengths. -/
theorem convert_numbers_cases :
    (∃ samples, samples ≠ [] ∧ Sample.Flat arity xs samples ∧
      f.convert (.numbers xs) = .ok (.samples (.tagged samples))) ∨
    (f.kind ≠ .number ∧ xs.length = arity ∧
      f.convert (.numbers xs) = .ok (.samples (.constant xs))) ∨
    ((f.kind = .number ∨ xs.length ≠ arity) ∧ ¬ (0 < xs.length ∧ (arity + 1) ∣ xs.length) ∧
      f.convert (.numbers xs) = .error (.shape (.flat arity) xs.length)) := by
  by_cases even : 0 < xs.length ∧ (arity + 1) ∣ xs.length
  · obtain ⟨samples, nonempty, flat⟩ := Sample.exists_flat_of_dvd even.1 even.2
    exact .inl ⟨samples, nonempty, flat, convert_samples kind interpolated domain flat nonempty⟩
  · by_cases one : f.kind ≠ .number ∧ xs.length = arity
    · rcases FieldKind.arity?_eq_some.mp kind with ⟨number, rfl⟩ | ⟨shape, tuple, rfl⟩
      · exact absurd number one.1
      · have inside := domain.value one.2
        rw [tuple] at inside
        exact .inr (.inl ⟨one.1, one.2,
          convert_tuple tuple interpolated ⟨one.2, domain.finite, inside⟩⟩)
    · have several : f.kind = .number ∨ xs.length ≠ arity := by
        rwa [not_and_or, Decidable.not_not] at one
      exact .inr (.inr ⟨several, even, convert_uneven kind interpolated domain even several⟩)

/-- A field keeps the lengths on every list but a number alone, which is refused although its length is
stated as accepted. Whatever is refused has the same error, and of these lists only the empty one has a
length that is a multiple of the stated one. -/
theorem keepsLengths_iff :
    (f.KeepsLengths arity xs ↔ ¬ (f.kind = .number ∧ xs.length = 1)) ∧
    (f.kind = .number → xs.length = 1 →
      f.convert (.numbers xs) = .error (.shape (.flat 1) 1) ∧ (Lengths.flat 1).Admits 1) ∧
    ∀ e, f.convert (.numbers xs) = .error e →
      e = .shape (.flat arity) xs.length ∧ ((arity + 1) ∣ xs.length ↔ xs = []) := by
  have outcome := convert_numbers_cases kind interpolated domain
  have alone : f.kind = .number → xs.length = 1 →
      f.convert (.numbers xs) = .error (.shape (.flat 1) 1) := by
    intro number one
    obtain rfl : 1 = arity := by simpa [number, FieldKind.arity?] using kind
    have uneven : ¬ (0 < xs.length ∧ (1 + 1) ∣ xs.length) := by
      rw [one]
      decide
    rw [convert_uneven kind interpolated domain uneven (.inl number), one]
  refine ⟨⟨?_, fun several => ?_⟩, fun number one => ⟨alone number one, .inl rfl⟩, ?_⟩
  · rintro keeps ⟨number, one⟩
    obtain ⟨stated, he, hout⟩ := keeps.refused _ (alone number one)
    obtain rfl : Lengths.flat 1 = stated := by injection he
    exact hout (.inl one)
  · rcases outcome with ⟨samples, nonempty, flat, h⟩ | ⟨_, one, h⟩ | ⟨many, uneven, h⟩
    · exact KeepsLengths.of_samples flat nonempty h
    · exact KeepsLengths.of_value one h
    · have other : xs.length ≠ arity := by
        intro one
        rcases FieldKind.arity?_eq_some.mp kind with ⟨number, rfl⟩ | ⟨shape, tuple, rfl⟩
        · exact several ⟨number, one⟩
        · exact many.resolve_left (by simp [tuple]) one
      exact KeepsLengths.of_error other uneven h
  · intro e he
    rcases outcome with ⟨samples, _, _, h⟩ | ⟨_, _, h⟩ | ⟨_, uneven, h⟩
    · cases h.symm.trans he
    · cases h.symm.trans he
    · cases h.symm.trans he
      refine ⟨rfl, fun multiple => ?_, fun empty => empty ▸ Nat.dvd_zero _⟩
      by_contra nonempty
      exact uneven ⟨List.length_pos_iff.mpr nonempty, multiple⟩

end Lengths

end Field

/-- A number that may vary, as no class of the standard catalogue has one. -/
def Catalogue.gauge : Definition where
  name := "Gauge"
  description := ""
  bases := []
  attributes := [(Attribute.optional "level" "f64" "").interpolated]
  rules := []

theorem Catalogue.gauge_level : ∃ r c f, Registry.compile [gauge] = .ok r ∧
    r.class? "Gauge" = some c ∧ c.field? "level" = some f ∧
    f.kind = .number ∧ f.interpolatable = true := by
  have run : ((Registry.compile [gauge]).toOption.bind fun r =>
      (r.class? "Gauge").bind fun c =>
        (c.field? "level").filter fun f => f.kind = .number ∧ f.interpolatable = true).isSome
      = true := by
    decide +kernel
  simp only [Option.isSome_iff_exists, Option.bind_eq_some_iff, Option.filter_eq_some_iff,
    toOption_eq_some, decide_eq_true_eq] at run
  obtain ⟨f, r, hr, c, found, hf, number, interpolated⟩ := run
  exact ⟨r, c, f, hr, found, hf, number, interpolated⟩

/-- Two numbers are one sample of a gauge. -/
theorem Field.keepsLengths_iff_gauge :
    ∃ r c f, Registry.compile [Catalogue.gauge] = .ok r ∧ r.class? "Gauge" = some c ∧
      c.field? "level" = some f ∧ f.kind.arity? = some 1 ∧ f.interpolatable = true ∧
      f.kind.InDomain 1 [.zero, .one] ∧ f.KeepsLengths 1 [.zero, .one] := by
  obtain ⟨r, c, f, hr, found, hf, number, interpolated⟩ := Catalogue.gauge_level
  have kind : f.kind.arity? = some 1 := by rw [number]; rfl
  have domain : f.kind.InDomain 1 [.zero, .one] := by
    apply FieldKind.InDomain.number number
    decide +kernel
  have keeps := (keepsLengths_iff kind interpolated domain).1.mpr (by simp)
  exact ⟨r, c, f, hr, found, hf, kind, interpolated, domain, keeps⟩

/-- A number alone is refused by a gauge as a list, although its length is stated as accepted. -/
theorem Field.gauge_refuses_one :
    ∃ r c f, Registry.compile [Catalogue.gauge] = .ok r ∧ r.class? "Gauge" = some c ∧
      c.field? "level" = some f ∧ f.kind.arity? = some 1 ∧ f.interpolatable = true ∧
      f.kind.InDomain 1 [.one] ∧
      f.convert (.numbers [.one]) = .error (.shape (.flat 1) 1) ∧ (Lengths.flat 1).Admits 1 ∧
      ¬ f.KeepsLengths 1 [.one] := by
  obtain ⟨r, c, f, hr, found, hf, number, interpolated⟩ := Catalogue.gauge_level
  have kind : f.kind.arity? = some 1 := by rw [number]; rfl
  have domain : f.kind.InDomain 1 [.one] := by
    apply FieldKind.InDomain.number number
    decide +kernel
  have refused : f.convert (.numbers [.one]) = .error (.shape (.flat 1) 1) :=
    convert_uneven kind interpolated domain (by decide) (.inl number)
  have admits : (Lengths.flat 1).Admits 1 := .inl rfl
  refine ⟨r, c, f, hr, found, hf, kind, interpolated, domain, refused, admits, fun keeps => ?_⟩
  obtain ⟨v, hv⟩ := keeps.accepted.mpr (.inl rfl)
  cases refused.symm.trans hv

end SceneDoc
