import SceneDoc.Proofs.FlatLengths
import SceneDoc.Proofs.Intervals
import SceneDoc.Proofs.NumberReading
import SceneDoc.Proofs.RoundTrip

namespace SceneDoc

variable {arity : Nat} {xs : List Double} {samples : List Sample} {s : Samples}

namespace Samples

def InSeconds : Samples → Prop
  | .constant _ => True
  | .tagged samples => ∀ s ∈ samples, ∃ t, s.time = .seconds t

end Samples

namespace Sample

/-- The list that spells samples holds their numbers. -/
theorem Flat.doubles (h : Flat arity xs samples) : (Samples.tagged samples).doubles = xs := by
  induction h with
  | nil => rfl
  | @cons t values rest samples full later ih =>
    calc
      (Samples.tagged (⟨.seconds t, values⟩ :: samples)).doubles
        = ([t] ++ values) ++ (Samples.tagged samples).doubles := List.flatMap_cons
      _ = t :: (values ++ rest) := by rw [ih, List.append_assoc, List.singleton_append]

theorem Flat.inSeconds (h : Flat arity xs samples) : (Samples.tagged samples).InSeconds := by
  induction h with
  | nil => simp [Samples.InSeconds]
  | cons full later ih => exact List.forall_mem_cons.mpr ⟨⟨_, rfl⟩, ih⟩

/-- Samples in seconds are spelled by the list of their numbers. -/
theorem flat_doubles (seconds : (Samples.tagged samples).InSeconds)
    (full : ∀ s ∈ samples, s.values.length = arity) :
    Flat arity (Samples.tagged samples).doubles samples := by
  induction samples with
  | nil => exact .nil
  | cons s rest ih =>
    obtain ⟨⟨t, ht⟩, later⟩ := List.forall_mem_cons.mp seconds
    obtain ⟨hs, hrest⟩ := List.forall_mem_cons.mp full
    obtain ⟨time, values⟩ := s
    subst ht
    exact .cons hs (ih later hrest)

end Sample

/-- Whatever is read from a list is spelled by it. -/
theorem Samples.flat_of_ofFlat (h : ofFlat xs arity = .ok s) :
    ∃ samples, s = .tagged samples ∧ Sample.Flat arity xs samples := by
  have hgood : ¬ (xs.isEmpty || decide (xs.length % (arity + 1) ≠ 0)) = true := by
    intro hbad
    rw [ofFlat, if_pos hbad] at h
    cases h
  simp only [Bool.or_eq_true, List.isEmpty_iff, decide_eq_true_eq, not_or, ne_eq,
    Decidable.not_not] at hgood
  obtain ⟨samples, nonempty, flat⟩ := Sample.exists_flat_of_dvd
    (List.length_pos_iff.mpr hgood.1) (Nat.dvd_of_mod_eq_zero hgood.2)
  exact ⟨samples, ((ofFlat_flat flat nonempty).mp h).2.symm, flat⟩

/-- Samples in seconds are written as the list of their numbers, unless it is a number alone. -/
theorem Samples.render_inSeconds (seconds : s.InSeconds) (several : s.doubles.length ≠ 1) :
    s.render = .array (s.doubles.map Double.render) := by
  cases s with
  | constant xs =>
    match xs with
    | [] => rfl
    | [x] => exact absurd rfl several
    | x :: y :: rest => rfl
  | tagged samples =>
    simp only [render, doubles, List.map_flatMap]
    congr 1
    refine List.flatMap_congr fun s hs => ?_
    obtain ⟨t, ht⟩ := seconds s hs
    simp [ht, TimeTag.render, TimeTag.doubles]

/-- The samples that a field's value holds, by itself or over an interval. -/
inductive Value.Varies (s : Samples) : Value → Prop
  | plain : Varies s (.samples s)
  | timed {t : Timed} (value : t.value = .samples s) : Varies s (.timed t)
  | timedList {ts : List Timed} {t : Timed} (mem : t ∈ ts) (value : t.value = .samples s) :
    Varies s (.timedList ts)

theorem Double.exists_finite (finite : ∀ x ∈ xs, x.isFinite = true) :
    ∃ ys : List Finite, xs = ys.map .finite := by
  induction xs with
  | nil => exact ⟨[], rfl⟩
  | cons x rest ih =>
    obtain ⟨hx, hrest⟩ := List.forall_mem_cons.mp finite
    obtain ⟨ys, rfl⟩ := ih hrest
    cases x with
    | finite y => exact ⟨y :: ys, rfl⟩
    | nan => cases hx
    | infinite negative => cases hx

namespace Json

/-- The numbers of an array of numbers, each the double nearest to its literal. -/
def doubles? : Json String → Option (List Double)
  | .array items => items.mapM fun
    | .number literal => some (.ofLiteral literal)
    | _ => none
  | _ => none

/-- A rendering is the array of these numbers, and in every layout they are read from its text. -/
structure Lists (t : Json Leaf) (xs : List Double) : Prop where
  tree : t = .array (xs.map Double.render)
  text : ∀ layout : Layout, ∃ text, t.render layout.format = .ok text ∧
    (read? text).bind doubles? = some xs

/-- The literals of doubles are read as these doubles. -/
theorem doubles?_literals (xs : List Finite) :
    doubles? ((array (xs.map fun x => number (Number.finite x))).map Number.literal) =
      some (xs.map .finite) := by
  rw [map_array, doubles?, List.map_map, List.mapM_map]
  calc
    xs.mapM (m := Option) _ = xs.mapM fun x => pure (Double.finite x) := by
      congr 1
      funext x
      exact congrArg some (Double.ofLiteral_finite .document x)
    _ = some (xs.map .finite) := List.mapM_pure

/-- Finite numbers are read from the text of their array. -/
theorem lists_of_finite (finite : ∀ x ∈ xs, x.isFinite = true) :
    Lists (.array (xs.map Double.render)) xs := by
  obtain ⟨ys, rfl⟩ := Double.exists_finite finite
  have htree : array ((ys.map Double.finite).map Double.render) =
      (array (ys.map fun y => number (Number.finite y))).map .ok := by
    rw [map_array, List.map_map, List.map_map]
    rfl
  refine ⟨rfl, fun layout => ?_⟩
  obtain ⟨hrender, _, hread⟩ := text_read (array (ys.map fun y => number (Number.finite y))) layout
  exact ⟨_, htree ▸ hrender, by rw [hread, Option.bind_some, doubles?_literals]⟩

end Json

/-- A tuple is never a number alone. -/
theorem TupleShape.one_lt_arity (shape : TupleShape) : 1 < shape.arity := by
  cases shape <;> decide

/-- Samples that are admitted have more than one number. -/
theorem Samples.Canonical.doubles_several {shape : TupleShape}
    (values : s.Canonical shape.Admits) : s.doubles.length ≠ 1 := by
  have harity := shape.one_lt_arity
  cases values with
  | @constant xs admits =>
    have := admits.length
    simp only [Samples.doubles]
    omega
  | @tagged samples nonempty times values =>
    obtain ⟨first, rest, rfl⟩ := List.exists_cons_of_ne_nil nonempty
    have := (values first List.mem_cons_self).length
    simp only [Samples.doubles, List.flatMap_cons, List.length_append]
    omega

/-- Admitted samples in seconds are written as the array of their numbers. -/
theorem Samples.Canonical.render_lists {shape : TupleShape} (seconds : s.InSeconds)
    (values : s.Canonical shape.Admits) : s.render.Lists s.doubles := by
  rw [Samples.render_inSeconds seconds values.doubles_several]
  exact Json.lists_of_finite (values.doubles_finite fun _ admits => admits.finite)

namespace Field

variable {f : Field} {shape : TupleShape} {input : Input} {v : Value}

section Tuple

variable (kind : f.kind = .tuple shape)
include kind

theorem convertPlain_tuple (h : f.convertPlain input = .ok v) : f.Holds v := by
  cases convertPlain_stores h with
  | held holds => exact holds
  | nested other => cases kind.symm.trans other
  | bag other _ => cases kind.symm.trans other
  | map other _ => cases kind.symm.trans other

/-- Samples are admitted by the field wherever its value holds them. -/
theorem canonical_of_varies (h : f.convert input = .ok v) (varies : v.Varies s) :
    s.Canonical shape.Admits := by
  suffices hplain : ∃ plain, f.convertPlain plain = .ok (.samples s) by
    obtain ⟨plain, hplain⟩ := hplain
    cases convertPlain_tuple kind hplain with
    | numbers other _ _ => cases kind.symm.trans other
    | tuples other _ values =>
      cases kind.symm.trans other
      exact values
  unfold convert at h
  split at h
  · obtain ⟨t, ht, rfl⟩ := map_eq_ok.mp h
    obtain ⟨_, plain, hplain, rfl⟩ := convertTimed_eq_ok.mp ht
    cases varies with
    | timed value =>
      obtain rfl : plain = .samples s := value
      exact ⟨_, hplain⟩
  · obtain ⟨ts, hts, rfl⟩ := map_eq_ok.mp h
    cases varies with
    | timedList mem value =>
      obtain ⟨e, _, ht⟩ := exists_of_mem_forall₂ (convertTimedList_eq_ok.mp hts) mem
      obtain ⟨_, plain, hplain, rfl⟩ := convertTimed_eq_ok.mp ht
      obtain rfl : plain = .samples s := value
      exact ⟨e.2, hplain⟩
  · cases varies with
    | plain => exact ⟨_, h⟩
    | timed _ => cases convertPlain_tuple kind h
    | timedList _ _ => cases convertPlain_tuple kind h

/-- Samples that are admitted are stored again of the list of their numbers. -/
theorem convert_doubles (interpolated : f.interpolatable = true) (seconds : s.InSeconds)
    (values : s.Canonical shape.Admits) : f.convert (.numbers s.doubles) = .ok (.samples s) := by
  cases values with
  | constant admits => exact convert_tuple kind interpolated admits
  | @tagged samples nonempty times values =>
    change f.convertPlain _ = _
    have flat := Sample.flat_doubles seconds fun s hs => (values s hs).length
    rw [convertPlain_flat_tuple kind flat nonempty]
    simp only [convertPlain, kind]
    exact tagged_eq_ok_iff.mpr ⟨interpolated, nonempty,
      fun s hs => ⟨times s hs, TupleShape.check_eq_ok.mpr (values s hs)⟩, rfl⟩

/-- What is stored of a list of numbers: a constant if they are as many as a tuple has, and otherwise
the samples that the list spells. -/
theorem convert_numbers (interpolated : f.interpolatable = true)
    (h : f.convert (.numbers xs) = .ok v) :
    (xs.length = shape.arity ∧ v = .samples (.constant xs)) ∨
      (xs.length ≠ shape.arity ∧ ∃ samples, v = .samples (.tagged samples) ∧
        Sample.Flat shape.arity xs samples) := by
  change f.convertPlain _ = _ at h
  simp only [convertPlain, kind, tuple, interpolated, Bool.not_true, Bool.false_eq_true,
    ↓reduceIte] at h
  split at h
  · rename_i hlen
    obtain ⟨_, rfl⟩ := check_map_eq_ok.mp h
    exact .inl ⟨hlen, rfl⟩
  · rename_i hlen
    obtain ⟨s, hs, h⟩ := bind_eq_ok.mp h
    obtain ⟨samples, rfl, flat⟩ := Samples.flat_of_ofFlat hs
    obtain ⟨_, rfl⟩ := check_map_eq_ok.mp h
    exact .inr ⟨hlen, samples, rfl, flat⟩

/-- Samples that are stored of a list hold its numbers. -/
theorem doubles_of_convert (interpolated : f.interpolatable = true)
    (h : f.convert (.numbers xs) = .ok v) : ∃ s, v = .samples s ∧ s.doubles = xs ∧ s.InSeconds := by
  rcases convert_numbers kind interpolated h with ⟨_, rfl⟩ | ⟨_, samples, rfl, flat⟩
  · exact ⟨_, rfl, rfl, trivial⟩
  · exact ⟨_, rfl, flat.doubles, flat.inSeconds⟩

end Tuple

/-- A list of numbers that a tuple that may vary accepts is written as it was given, and whatever
samples in seconds such a field holds are stored again of the array that they are written as. -/
theorem flat_roundTrips (kind : f.kind = .tuple shape) (interpolated : f.interpolatable = true) :
    (∀ xs v, f.convert (.numbers xs) = .ok v →
      v.render.Lists xs ∧
      ((xs.length = shape.arity ∧ v = .samples (.constant xs)) ∨
        (xs.length ≠ shape.arity ∧ ∃ samples, v = .samples (.tagged samples) ∧
          Sample.Flat shape.arity xs samples))) ∧
    ∀ input v s, f.convert input = .ok v → v.Varies s → s.InSeconds →
      ∃ xs, s.render.Lists xs ∧ f.convert (.numbers xs) = .ok (.samples s) := by
  constructor
  · intro xs v h
    obtain ⟨s, rfl, rfl, seconds⟩ := doubles_of_convert kind interpolated h
    have values := canonical_of_varies kind h .plain
    exact ⟨values.render_lists seconds, convert_numbers kind interpolated h⟩
  · intro input v s h varies seconds
    have values := canonical_of_varies kind h varies
    exact ⟨s.doubles, values.render_lists seconds,
      convert_doubles kind interpolated seconds values⟩

/-- Samples given one by one over an interval, the later one first, are written as eight numbers, and
stored of them. -/
theorem flat_roundTrips_viewFrom :
    ∃ r c f t s, Registry.compile [Catalogue.viewFrom] = .ok r ∧
      r.class? "ViewFrom" = some c ∧ c.field? "cartesian" = some f ∧
      f.kind = .tuple .cartesian3 ∧ f.interpolatable = true ∧
      f.convert (.timed ⟨none, none⟩ (.samples [⟨.seconds .one, [.one, .zero, .one]⟩,
        ⟨.seconds .zero, [.zero, .zero, .one]⟩])) = .ok (.timed t) ∧ t.value = .samples s ∧
      s.render.Lists [.one, .one, .zero, .one, .zero, .zero, .zero, .one] ∧
      f.convert (.numbers [.one, .one, .zero, .one, .zero, .zero, .zero, .one]) =
        .ok (.samples s) := by
  have run : ((Registry.compile [Catalogue.viewFrom]).toOption.bind fun r =>
      (r.class? "ViewFrom").bind fun c =>
        (c.field? "cartesian").filter fun f =>
          f.kind = .tuple .cartesian3 ∧ f.interpolatable = true).isSome = true := by
    decide +kernel
  simp only [Option.isSome_iff_exists, Option.bind_eq_some_iff, Option.filter_eq_some_iff,
    toOption_eq_some, decide_eq_true_eq] at run
  obtain ⟨f, r, hr, c, found, hf, kind, interpolated⟩ := run
  let samples : List Sample := [⟨.seconds .one, [.one, .zero, .one]⟩,
    ⟨.seconds .zero, [.zero, .zero, .one]⟩]
  have plain : f.convertPlain (.samples samples) = .ok (.samples (.tagged samples)) := by
    simp only [convertPlain, kind]
    have one : Double.one.isFinite = true := by decide +kernel
    have zero : Double.zero.isFinite = true := by decide +kernel
    refine tagged_eq_ok_iff.mpr ⟨interpolated, by simp [samples], fun s hs => ?_, rfl⟩
    rcases List.mem_pair.mp hs with rfl | rfl
    · exact ⟨one, TupleShape.check_eq_ok.mpr ⟨rfl, by simp [one, zero], trivial⟩⟩
    · exact ⟨zero, TupleShape.check_eq_ok.mpr ⟨rfl, by simp [one, zero], trivial⟩⟩
  have timed : f.convert (.timed ⟨none, none⟩ (.samples samples)) =
      .ok (.timed ⟨⟨none, none⟩, f.intervalKey, .samples (.tagged samples)⟩) := by
    simp only [convert, convertTimed, plain, except_ok_bind]
    rfl
  have seconds : (Samples.tagged samples).InSeconds := by
    simp [Samples.InSeconds, samples]
  obtain ⟨xs, hread, again⟩ :=
    (flat_roundTrips kind interpolated).2 _ _ _ timed (.timed rfl) seconds
  obtain ⟨_, hs, rfl, _⟩ := doubles_of_convert kind interpolated again
  cases hs
  exact ⟨r, c, f, _, _, hr, found, hf, kind, interpolated, timed, rfl, hread, again⟩

end Field

end SceneDoc
