import SceneDoc.Proofs.Shapes

namespace SceneDoc

namespace Sample

/-- A list that spells samples of as many values as the arity says. -/
inductive Flat (arity : Nat) : List Double → List Sample → Prop
  | nil : Flat arity [] []
  | cons {t : Double} {values rest : List Double} {samples : List Sample}
      (full : values.length = arity) (later : Flat arity rest samples) :
    Flat arity (t :: (values ++ rest)) (⟨.seconds t, values⟩ :: samples)

variable {arity : Nat} {xs : List Double} {samples : List Sample}

theorem Flat.length (h : Flat arity xs samples) : xs.length = samples.length * (arity + 1) := by
  induction h with
  | nil => simp
  | cons full later ih =>
    rw [List.length_cons, List.length_append, List.length_cons, full, ih, Nat.succ_mul]
    omega

/-- A sample is longer than a value by its time, so that samples are never as many numbers as one. -/
theorem Flat.length_ne (h : Flat arity xs samples) (nonempty : samples ≠ []) :
    xs.length ≠ arity := by
  have hpos := Nat.le_mul_of_pos_left (arity + 1) (List.length_pos_iff.mpr nonempty)
  rw [← h.length] at hpos
  omega

/-- Every list whose length is a multiple of a time and its values spells samples. -/
theorem exists_flat {k : Nat} (h : xs.length = k * (arity + 1)) :
    ∃ samples, samples.length = k ∧ Flat arity xs samples := by
  induction k generalizing xs with
  | zero =>
    rw [Nat.zero_mul, List.length_eq_zero_iff] at h
    subst h
    exact ⟨[], rfl, .nil⟩
  | succ k ih =>
    rw [Nat.succ_mul] at h
    obtain ⟨t, rest, rfl⟩ := List.exists_cons_of_length_pos (l := xs) (by omega)
    rw [List.length_cons] at h
    have hrest : (rest.drop arity).length = k * (arity + 1) := by
      rw [List.length_drop]
      omega
    have hvalues : (rest.take arity).length = arity := by
      rw [List.length_take]
      omega
    obtain ⟨samples, hlen, hflat⟩ := ih hrest
    have hcons := Flat.cons (t := t) hvalues hflat
    rw [List.take_append_drop] at hcons
    exact ⟨_, by rw [List.length_cons, hlen], hcons⟩

theorem exists_flat_of_dvd (nonempty : 0 < xs.length) (even : (arity + 1) ∣ xs.length) :
    ∃ samples, samples ≠ [] ∧ Flat arity xs samples := by
  obtain ⟨k, hk⟩ := even
  obtain ⟨samples, _, flat⟩ := exists_flat (hk.trans (Nat.mul_comm _ k))
  refine ⟨samples, ?_, flat⟩
  rintro rfl
  cases flat
  exact absurd nonempty (Nat.lt_irrefl 0)

/-- The numbers of a flat list are the times and the values. -/
theorem Flat.finite (h : Flat arity xs samples) :
    (∀ x ∈ xs, x.isFinite = true) ↔
      ∀ s ∈ samples, s.time.IsFinite ∧ ∀ x ∈ s.values, x.isFinite = true := by
  induction h with
  | nil => simp
  | cons full later ih =>
    simp only [List.forall_mem_cons, List.forall_mem_append, ih, TimeTag.IsFinite, and_assoc]

theorem Flat.full (h : Flat arity xs samples) : ∀ s ∈ samples, s.values.length = arity := by
  induction h with
  | nil => simp
  | cons full later ih => exact List.forall_mem_cons.mpr ⟨full, ih⟩

theorem Flat.chunks (h : Flat arity xs samples) :
    (Samples.chunks arity xs).map (fun (t, vs) => (⟨.seconds t, vs⟩ : Sample)) = samples := by
  induction h with
  | nil => simp [Samples.chunks]
  | cons full later ih => simp [Samples.chunks, ← full, ← ih]

/-- The times that are cut out of a flat list are those of its samples. -/
theorem Flat.times (h : Flat arity xs samples) :
    (∀ t ∈ (Samples.chunks arity xs).map (·.1), t.isFinite = true) ↔
      ∀ s ∈ samples, s.time.IsFinite := by
  rw [← h.chunks]
  simp only [List.forall_mem_map, TimeTag.IsFinite]

end Sample

/-- A flat list is read as the samples that it spells if their times are finite. -/
theorem Samples.ofFlat_flat {arity : Nat} {xs : List Double} {samples : List Sample} {s : Samples}
    (h : Sample.Flat arity xs samples) (nonempty : samples ≠ []) :
    ofFlat xs arity = .ok s ↔ (∀ t ∈ samples, t.time.IsFinite) ∧ .tagged samples = s := by
  have hlen := h.length
  have hpos : 0 < xs.length := by
    rw [hlen]
    exact Nat.mul_pos (List.length_pos_iff.mpr nonempty) arity.succ_pos
  have hmod : xs.length % (arity + 1) = 0 := by
    rw [hlen, Nat.mul_mod_left]
  have hxs : xs.isEmpty = false := by
    simpa using List.length_pos_iff.mp hpos
  unfold ofFlat
  rw [if_neg (by simp [hxs, hmod]), check_bind_eq_ok, checkFinite_eq_ok, h.times, h.chunks,
    except_pure, Except.ok.injEq]

end SceneDoc
