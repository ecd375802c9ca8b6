import SceneDoc.Proofs.Colors

namespace SceneDoc

def ChannelForm.of (fractional : Bool) : ChannelForm := if fractional then .fractional else .whole

/-- The channels of a color in a form: its own, or else whole channels divided by 255, or fractional
channels times 255 and rounded. -/
inductive ChannelForm.Scaled : ChannelForm → Color → Channels → Prop
  | whole (c : Channels) : Scaled .whole (.rgba c) c
  | fractional (c : Channels) : Scaled .fractional (.rgbaf c) c
  | fractions (r g b a : Double) : Scaled .fractional (.rgba ⟨r, g, b, a⟩)
      ⟨r.divNat 255, g.divNat 255, b.divNat 255, a.divNat 255⟩
  | bytes (r g b a : Double) : Scaled .whole (.rgbaf ⟨r, g, b, a⟩)
      ⟨(r.mulNat 255).roundAway, (g.mulNat 255).roundAway, (b.mulNat 255).roundAway,
        (a.mulNat 255).roundAway⟩

/-- The sample of a time and a color: the channels at that very time. -/
inductive ChannelForm.Pairs (form : ChannelForm) : TimeTag × ColorSpelling → Sample → Prop
  | mk {time : TimeTag} {spelling : ColorSpelling} {color : Color} {r g b a : Double}
      (resolves : spelling.resolve = .ok color) (scaled : form.Scaled color ⟨r, g, b, a⟩) :
      Pairs form (time, spelling) ⟨time, [r, g, b, a]⟩

def ColorSpelling.Resolves (spelling : ColorSpelling) : Prop :=
  ∃ color, spelling.resolve = .ok color

inductive TimeTag.Refused : TimeTag → ValueError → Prop
  | seconds {t : Double} (infinite : t.isFinite = false) :
      Refused (.seconds t) (.invalid (.notFinite t))

/-- The first fault of a list of colors: of the lengths, then of the colors, and then of the times. -/
inductive ListFault (times : List TimeTag) (colors : List ColorSpelling) : ValueError → Prop
  | unpaired (h : colors.length ≠ times.length ∨ colors = []) :
      ListFault times colors (.invalid (.colorsUnpaired times.length colors.length))
  | color {cause : ValueError} (paired : colors.length = times.length)
      (first : FirstFails ColorSpelling.Resolves (·.resolve = .error cause) colors) :
      ListFault times colors cause
  | time {cause : ValueError} (paired : colors.length = times.length)
      (resolve : ∀ spelling ∈ colors, spelling.Resolves)
      (first : FirstFails TimeTag.IsFinite (·.Refused cause) times) : ListFault times colors cause

namespace ChannelForm

variable {form : ChannelForm} {color : Color} {c : Channels}

theorem scaled_iff (fractional : Bool) : (of fractional).Scaled color c ↔
    c = if fractional then color.toRgbaf else color.toRgba := by
  constructor
  · intro h
    cases fractional <;> cases h <;> rfl
  · intro h
    subst h
    cases fractional with
    | false =>
      cases color with
      | rgba c => exact .whole c
      | rgbaf c => exact .bytes c.red c.green c.blue c.alpha
    | true =>
      cases color with
      | rgba c => exact .fractions c.red c.green c.blue c.alpha
      | rgbaf c => exact .fractional c

theorem exists_scaled (form : ChannelForm) (color : Color) : ∃ c, form.Scaled color c := by
  cases form with
  | whole => exact ⟨_, (scaled_iff false).mpr rfl⟩
  | fractional => exact ⟨_, (scaled_iff true).mpr rfl⟩

theorem key_of (fractional : Bool) :
    (if fractional then "rgbaf" else "rgba") = (of fractional).shape.key := by
  cases fractional <;> rfl

/-- Channels of a valid color stay valid in the other form. -/
theorem Scaled.check (scaled : form.Scaled color c) (valid : color.Valid) :
    form.shape.check c.toList = .ok () := by
  have passes : ∀ x ∈ c.toList, form.test x = true := by
    cases scaled with
    | whole c => exact valid
    | fractional c => exact valid
    | fractions r g b a =>
      change ∀ y ∈ [r, g, b, a].map (·.divNat 255), isUnitChannel y = true
      exact List.forall_mem_map.mpr fun x hx => isUnitChannel_divNat (valid x hx)
    | bytes r g b a =>
      change ∀ y ∈ [r, g, b, a].map fun x => (x.mulNat 255).roundAway, isByteChannel y = true
      exact List.forall_mem_map.mpr fun x hx => isByteChannel_roundAway (valid x hx)
  exact form.check_iff.mpr ⟨rfl, passes⟩

end ChannelForm

namespace TimeTag

variable {i : Instant} {t : Double} {e : ValueError}

theorem not_refused_at : ¬ (TimeTag.at i).Refused e := by
  intro h
  cases h

theorem refused_seconds_iff : (TimeTag.seconds t).Refused e ↔ checkFinite [t] = .error e := by
  unfold checkFinite
  constructor
  · intro h
    obtain ⟨infinite⟩ := h
    simp [infinite]
  · intro h
    split at h
    · rename_i x found
      cases h
      obtain ⟨infinite, rfl⟩ : t.isFinite = false ∧ t = x := by simpa using found
      exact .seconds infinite
    · cases h

end TimeTag

namespace Sample

variable {valuesOk : List Double → Except ValueError Unit} {samples : List Sample} {s : Sample}
  {e : ValueError}

/-- A sample whose values are all right is refused if its time is. -/
theorem check_eq_error (values : valuesOk s.values = .ok ()) :
    s.check valuesOk = .error e ↔ s.time.Refused e := by
  obtain ⟨time, vs⟩ := s
  cases time with
  | «at» i => simp [check, except_ok_bind, values, TimeTag.not_refused_at]
  | seconds t => simp [check, check_bind_eq_error, values, TimeTag.refused_seconds_iff]

/-- Samples whose values are all right fail at the first time that is refused. -/
theorem checkAll_eq_error (values : ∀ s ∈ samples, valuesOk s.values = .ok ()) :
    checkAll valuesOk samples = .error e ↔
      FirstFails TimeTag.IsFinite (·.Refused e) (samples.map (·.time)) := by
  induction samples with
  | nil => simp [checkAll, not_firstFails_nil]
  | cons s rest ih =>
    obtain ⟨hs, hrest⟩ := List.forall_mem_cons.mp values
    rw [checkAll, check_bind_eq_error, check_eq_error hs, check_eq_ok, List.map_cons,
      firstFails_cons, ih hrest, and_iff_left hs]

end Sample

namespace Registry

variable {fractional : Bool} {pairs : List (TimeTag × ColorSpelling)} {samples : List Sample}
  {e : ValueError}

theorem colorSamples_eq_ok :
    colorSamples fractional pairs = .ok samples ↔
      List.Forall₂ (ChannelForm.of fractional).Pairs pairs samples := by
  induction pairs generalizing samples with
  | nil => simp [colorSamples, eq_comm]
  | cons pair rest ih =>
    obtain ⟨time, spelling⟩ := pair
    simp only [colorSamples, bind_eq_ok, except_pure, Except.ok.injEq, ih,
      List.forall₂_cons_left_iff]
    constructor
    · intro h
      obtain ⟨color, resolves, tail, htail, rfl⟩ := h
      exact ⟨_, tail, .mk resolves ((ChannelForm.scaled_iff fractional).mpr rfl), htail, rfl⟩
    · intro h
      obtain ⟨s, tail, pair, htail, rfl⟩ := h
      cases pair with
      | mk resolves scaled =>
        have channels := (ChannelForm.scaled_iff fractional).mp scaled
        refine ⟨_, resolves, tail, htail, ?_⟩
        rw [← channels]
        rfl

/-- A list fails at the first color that does not resolve. -/
theorem colorSamples_eq_error :
    colorSamples fractional pairs = .error e ↔
      FirstFails ColorSpelling.Resolves (·.resolve = .error e) (pairs.map (·.2)) := by
  induction pairs with
  | nil => simp [colorSamples, not_firstFails_nil]
  | cons pair rest ih =>
    simp only [colorSamples, bind_eq_error, except_pure, reduceCtorEq, and_false, exists_false,
      or_false, ih, List.map_cons, firstFails_cons, ColorSpelling.Resolves, exists_and_right]

end Registry

section Pairs

variable {form : ChannelForm} {times : List TimeTag} {colors : List ColorSpelling}
  {samples : List Sample}

/-- Times are kept as they are. -/
theorem times_of_pairs (paired : colors.length = times.length)
    (h : List.Forall₂ form.Pairs (times.zip colors) samples) : samples.map (·.time) = times := by
  rw [map_eq_of_forall₂ (f := Prod.fst) h, List.map_fst_zip (Nat.le_of_eq paired.symm)]
  rintro _ _ ⟨_, _⟩
  rfl

/-- Channels are accepted by the shape of the field. -/
theorem check_of_pairs {pairs : List (TimeTag × ColorSpelling)}
    (h : List.Forall₂ form.Pairs pairs samples) :
    ∀ s ∈ samples, form.shape.check s.values = .ok () := by
  intro s hs
  obtain ⟨pair, _, ⟨resolves, scaled⟩⟩ := exists_of_mem_forall₂ h hs
  exact scaled.check (ColorSpelling.valid_of_resolve resolves)

theorem ne_nil_of_pairs (paired : colors.length = times.length) (some : colors ≠ [])
    (h : List.Forall₂ form.Pairs (times.zip colors) samples) : samples ≠ [] := by
  intro h
  subst h
  have length := h.length_eq
  rw [List.length_zip, ← paired, Nat.min_self, List.length_nil] at length
  exact some (List.length_eq_zero_iff.mp length)

theorem finite_iff (paired : colors.length = times.length)
    (h : List.Forall₂ form.Pairs (times.zip colors) samples) :
    (∀ s ∈ samples, s.time.IsFinite) ↔ ∀ t ∈ times, t.IsFinite := by
  rw [← times_of_pairs paired h]
  exact List.forall_mem_map.symm

theorem exists_pairs_iff {pair : TimeTag × ColorSpelling} :
    (∃ s, form.Pairs pair s) ↔ pair.2.Resolves := by
  constructor
  · intro h
    obtain ⟨s, pairs⟩ := h
    cases pairs with
    | mk resolves _ => exact ⟨_, resolves⟩
  · intro h
    obtain ⟨color, resolves⟩ := h
    obtain ⟨c, scaled⟩ := form.exists_scaled color
    exact ⟨_, .mk resolves scaled⟩

/-- Pairs have samples exactly if all colors resolve. -/
theorem exists_samples_iff (paired : colors.length = times.length) :
    (∃ samples, List.Forall₂ form.Pairs (times.zip colors) samples) ↔
      ∀ spelling ∈ colors, spelling.Resolves := by
  rw [exists_forall₂_iff]
  simp only [exists_pairs_iff]
  conv_rhs => rw [← List.map_snd_zip (Nat.le_of_eq paired)]
  exact List.forall_mem_map.symm

end Pairs

namespace Registry

variable {r : Registry} {c : ValueClass} {f : Field} {form : ChannelForm} {fractional : Bool}
  {times : List TimeTag} {colors : List ColorSpelling} {samples : List Sample} {o : Object}
  {e : Error}

/-- Samples of accepted channels are built into an object exactly if their times are finite. -/
theorem HasColors.build_samples (hasColors : r.HasColors c) (holds : c.Holds form.shape f)
    (some : samples ≠ []) (values : ∀ s ∈ samples, form.shape.check s.values = .ok ()) :
    r.build "Color" [(form.shape.key, .samples samples)] = .ok o ↔
      (∀ s ∈ samples, s.time.IsFinite) ∧ o = c.single f (.samples (.tagged samples)) := by
  have each : (∀ s ∈ samples, s.time.IsFinite ∧ form.shape.check s.values = .ok ()) ↔
      ∀ s ∈ samples, s.time.IsFinite :=
    forall₂_congr fun s hs => and_iff_left (values s hs)
  rw [hasColors.build_eq holds, holds.single.build_eq_ok_iff, holds.convert_samples]
  simp only [Field.tagged_eq_ok_iff, holds.varies, some, each, ne_eq, not_false_eq_true, true_and,
    and_assoc, exists_and_left, exists_eq_left']

theorem HasColors.build_samples_eq_error (hasColors : r.HasColors c)
    (holds : c.Holds form.shape f) (some : samples ≠ [])
    (values : ∀ s ∈ samples, form.shape.check s.values = .ok ()) :
    r.build "Color" [(form.shape.key, .samples samples)] = .error e ↔
      ∃ cause, FirstFails TimeTag.IsFinite (·.Refused cause) (samples.map (·.time)) ∧
        e = .refused "Color" form.shape.key cause := by
  have tagged : f.tagged samples form.shape.check =
      (Sample.checkAll form.shape.check samples).map fun _ => .samples (.tagged samples) := by
    simp [Field.tagged, holds.varies, some]
  rw [hasColors.build_eq holds, holds.single.build_eq_error_iff, holds.convert_samples, tagged,
    hasColors.name, holds.name]
  simp only [map_eq_error, Sample.checkAll_eq_error values]

theorem colorList_unpaired (h : colors.length ≠ times.length ∨ colors = []) :
    r.colorList times colors fractional =
      .error (.refused "Color" (ChannelForm.of fractional).shape.key
        (.invalid (.colorsUnpaired times.length colors.length))) := by
  have bad : (colors.length ≠ times.length || colors.isEmpty) = true := by simpa using h
  rw [colorList]
  simp only [bad, ChannelForm.key_of, ↓reduceIte]

theorem colorList_refused {cause : ValueError} (paired : colors.length = times.length)
    (some : colors ≠ []) (read : colorSamples fractional (times.zip colors) = .error cause) :
    r.colorList times colors fractional =
      .error (.refused "Color" (ChannelForm.of fractional).shape.key cause) := by
  have good : (colors.length ≠ times.length || colors.isEmpty) = false := by simp [paired, some]
  rw [colorList]
  simp only [good, read, ChannelForm.key_of, Bool.false_eq_true, ↓reduceIte]

/-- The pairs decide what is left to build. -/
theorem colorList_of_pairs (paired : colors.length = times.length) (some : colors ≠ [])
    (pairs : List.Forall₂ (ChannelForm.of fractional).Pairs (times.zip colors) samples) :
    r.colorList times colors fractional =
      r.build "Color" [((ChannelForm.of fractional).shape.key, .samples samples)] := by
  have good : (colors.length ≠ times.length || colors.isEmpty) = false := by simp [paired, some]
  rw [colorList]
  simp only [good, colorSamples_eq_ok.mpr pairs, ChannelForm.key_of, Bool.false_eq_true, ↓reduceIte]

theorem HasColors.colorList_eq_ok (hasColors : r.HasColors c)
    (holds : c.Holds (ChannelForm.of fractional).shape f) :
    r.colorList times colors fractional = .ok o ↔
      colors.length = times.length ∧ colors ≠ [] ∧ (∀ t ∈ times, t.IsFinite) ∧ ∃ samples,
        List.Forall₂ (ChannelForm.of fractional).Pairs (times.zip colors) samples ∧
          o = c.single f (.samples (.tagged samples)) := by
  constructor
  · intro built
    by_cases unpaired : colors.length ≠ times.length ∨ colors = []
    · rw [colorList_unpaired unpaired] at built
      cases built
    · obtain ⟨paired, some⟩ := not_or.mp unpaired
      rw [not_not] at paired
      cases read : colorSamples fractional (times.zip colors) with
      | error e => cases (colorList_refused paired some read).symm.trans built
      | ok samples =>
        have pairs := colorSamples_eq_ok.mp read
        rw [colorList_of_pairs paired some pairs, hasColors.build_samples holds
          (ne_nil_of_pairs paired some pairs) (check_of_pairs pairs),
          finite_iff paired pairs] at built
        exact ⟨paired, some, built.1, samples, pairs, built.2⟩
  · intro h
    obtain ⟨paired, some, finite, samples, pairs, h⟩ := h
    rw [colorList_of_pairs paired some pairs, hasColors.build_samples holds
      (ne_nil_of_pairs paired some pairs) (check_of_pairs pairs), finite_iff paired pairs]
    exact ⟨finite, h⟩

theorem HasColors.colorList_eq_error (hasColors : r.HasColors c)
    (holds : c.Holds (ChannelForm.of fractional).shape f) :
    r.colorList times colors fractional = .error e ↔ ∃ cause, ListFault times colors cause ∧
      e = .refused "Color" (ChannelForm.of fractional).shape.key cause := by
  constructor
  · intro failed
    by_cases unpaired : colors.length ≠ times.length ∨ colors = []
    · rw [colorList_unpaired unpaired] at failed
      cases failed
      exact ⟨_, .unpaired unpaired, rfl⟩
    · obtain ⟨paired, some⟩ := not_or.mp unpaired
      rw [not_not] at paired
      cases read : colorSamples fractional (times.zip colors) with
      | error cause =>
        rw [colorList_refused paired some read] at failed
        cases failed
        rw [colorSamples_eq_error, List.map_snd_zip (Nat.le_of_eq paired)] at read
        exact ⟨cause, .color paired read, rfl⟩
      | ok samples =>
        have pairs := colorSamples_eq_ok.mp read
        rw [colorList_of_pairs paired some pairs, hasColors.build_samples_eq_error holds
          (ne_nil_of_pairs paired some pairs) (check_of_pairs pairs),
          times_of_pairs paired pairs] at failed
        obtain ⟨cause, first, rfl⟩ := failed
        exact ⟨cause, .time paired (exists_samples_iff paired |>.mp ⟨samples, pairs⟩) first, rfl⟩
  · intro h
    obtain ⟨cause, fault, rfl⟩ := h
    cases fault with
    | unpaired h => exact colorList_unpaired h
    | color paired first =>
      have read : colorSamples fractional (times.zip colors) = .error cause := by
        rwa [colorSamples_eq_error, List.map_snd_zip (Nat.le_of_eq paired)]
      exact colorList_refused paired first.ne_nil read
    | time paired resolve first =>
      obtain ⟨samples, pairs⟩ := (exists_samples_iff paired).mpr resolve
      have some : colors ≠ [] := by
        intro h
        subst h
        exact first.ne_nil (List.length_eq_zero_iff.mp paired.symm)
      rw [colorList_of_pairs paired some pairs, hasColors.build_samples_eq_error holds
        (ne_nil_of_pairs paired some pairs) (check_of_pairs pairs), times_of_pairs paired pairs]
      exact ⟨cause, first, rfl⟩

/-- For the standard catalogue, a list of colors is built exactly if there are as many of them as times
and at least one, all of them resolve and all times can be written. Nothing is set but one field, which
holds a sample for each pair in order: its time as it is, and the channels of its color in the form of
the field. What is reported of other lists is their first fault. -/
theorem colorList_iff_paired : ∃ r, standard = .ok r ∧
    ∀ (times : List TimeTag) (colors : List ColorSpelling) (fractional : Bool),
      ((∃ o, r.colorList times colors fractional = .ok o) ↔
        colors.length = times.length ∧ colors ≠ [] ∧ (∀ spelling ∈ colors, spelling.Resolves) ∧
          ∀ t ∈ times, t.IsFinite) ∧
      (∀ o, r.colorList times colors fractional = .ok o →
        o.cls.name = "Color" ∧ ∃ f samples, f.name = (if fractional then "rgbaf" else "rgba") ∧
          o.entries = [(f, .samples (.tagged samples))] ∧ samples.map (·.time) = times ∧
          List.Forall₂ (ChannelForm.of fractional).Pairs (times.zip colors) samples) ∧
      ∀ e, r.colorList times colors fractional = .error e ↔ ∃ cause, ListFault times colors cause ∧
        e = .refused "Color" (if fractional then "rgbaf" else "rgba") cause := by
  obtain ⟨r, c, compiled, colored⟩ := exists_standard_colors
  refine ⟨r, compiled, fun times colors fractional => ?_⟩
  obtain ⟨f, holds⟩ := colored.holds (.of fractional)
  rw [ChannelForm.key_of]
  refine ⟨?_, ?_, fun e => colored.colorList_eq_error holds⟩
  · simp only [colored.colorList_eq_ok holds]
    constructor
    · intro h
      obtain ⟨o, paired, some, finite, samples, pairs, _⟩ := h
      exact ⟨paired, some, (exists_samples_iff paired).mp ⟨samples, pairs⟩, finite⟩
    · intro h
      obtain ⟨paired, some, resolve, finite⟩ := h
      obtain ⟨samples, pairs⟩ := (exists_samples_iff paired).mpr resolve
      exact ⟨_, paired, some, finite, samples, pairs, rfl⟩
  · intro o built
    obtain ⟨paired, some, finite, samples, pairs, rfl⟩ := (colored.colorList_eq_ok holds).mp built
    exact ⟨colored.name, f, samples, holds.name, holds.single.entries_single _,
      times_of_pairs paired pairs, pairs⟩

/-- Two colors that are spelled differently, with seconds for times. -/
theorem colorList_iff_paired_two : ∃ r o, standard = .ok r ∧
    r.colorList [.seconds .zero, .seconds .one] [.text "red", .packed 0x00FF00] true = .ok o ∧
    ∃ f, f.name = "rgbaf" ∧ o.entries = [(f, .samples (.tagged [
      ⟨.seconds .zero, [.one, .zero, .zero, .one]⟩,
      ⟨.seconds .one, [.zero, .one, .zero, .one]⟩]))] := by
  have resolve : ∀ spelling ∈ [.text "red", .packed 0x00FF00],
      ColorSpelling.Resolves spelling := by
    intro spelling mem
    have valid : ∀ spelling ∈ [ColorSpelling.text "red", .packed 0x00FF00],
        spelling.isValid = true := by decide +kernel
    exact ColorSpelling.isValid_iff.mp (valid spelling mem)
  have finite : ∀ t ∈ [TimeTag.seconds .zero, .seconds .one], t.IsFinite := by
    have zero : Double.zero.isFinite = true := by decide +kernel
    have one : Double.one.isFinite = true := by decide +kernel
    simp [TimeTag.IsFinite, zero, one]
  obtain ⟨r, compiled, lists⟩ := colorList_iff_paired
  obtain ⟨exactly, holds, _⟩ := lists [.seconds .zero, .seconds .one]
    [.text "red", .packed 0x00FF00] true
  obtain ⟨o, built⟩ := exactly.mpr ⟨rfl, List.cons_ne_nil _ _, resolve, finite⟩
  obtain ⟨_, f, samples, name, entries, _, pairs⟩ := holds o built
  have channels : colorSamples true ([TimeTag.seconds .zero, .seconds .one].zip
      [ColorSpelling.text "red", .packed 0x00FF00]) = .ok [
        ⟨.seconds .zero, [.one, .zero, .zero, .one]⟩,
        ⟨.seconds .one, [.zero, .one, .zero, .one]⟩] := by
    decide +kernel
  cases (colorSamples_eq_ok.mpr pairs).symm.trans channels
  exact ⟨r, o, compiled, built, f, name, entries⟩

end Registry
end SceneDoc
