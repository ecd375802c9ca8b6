import Mathlib.Data.List.Nodup
import SceneDoc.Proofs.Compilation
import SceneDoc.Proofs.Construction

namespace SceneDoc

variable {c : ValueClass} {f g : Field} {input other : Input} {v : Value}

instance Rule.decidableMet (present : String → Bool) : (rule : Rule) → Decidable (rule.Met present)
  | .exclusive group => inferInstanceAs (Decidable (group.countP present ≤ 1))
  | .oneOf group => inferInstanceAs (Decidable (group.countP present = 1))
  | .requires field sibling =>
    inferInstanceAs (Decidable (present field = true → present sibling = true))

/-- Objects of the class may have this field and no other: nothing has to be given or is there by
default, and no rule asks for more. -/
structure ValueClass.Single (c : ValueClass) (f : Field) : Prop where
  mem : f ∈ c.fields
  once : c.UniqueFields
  optional : ∀ g ∈ c.fields, g.required = false
  absent : ∀ g ∈ c.fields, g.default = none
  rules : ∀ rule ∈ c.rules, rule.Met (· == f.name)
  kept : f.name ≠ "delete"

def ValueClass.single (c : ValueClass) (f : Field) (v : Value) : Object :=
  ⟨c, c.fields.map fun g => if g = f then some v else none⟩

namespace ValueClass.Single

theorem names (single : c.Single f) : c.Knows [f.name] where
  fields := by
    intro name hname
    cases List.mem_singleton.mp hname
    exact ⟨f, single.mem, rfl⟩
  once := List.nodup_singleton f.name

theorem not_deletes (single : c.Single f) : ¬ Deletes [(f.name, input)] := by
  intro h
  have same := congrArg Prod.fst (List.mem_singleton.mp h)
  exact single.kept same.symm

/-- Only this field takes the input. -/
theorem takes_iff (single : c.Single f) (hg : g ∈ c.fields) :
    g.Takes [(f.name, input)] other ↔ g = f ∧ other = input := by
  constructor
  · intro takes
    cases takes with
    | given mem _ =>
      obtain ⟨name, rfl⟩ := Prod.mk.inj (List.mem_singleton.mp mem)
      exact ⟨List.inj_on_of_nodup_map single.once hg single.mem name, rfl⟩
    | default _ _ mem _ => simp [single.absent g hg] at mem
  · intro h
    obtain ⟨rfl, rfl⟩ := h
    exact .given (List.mem_singleton_self _) fun deletes => absurd deletes single.not_deletes

theorem present_eq (single : c.Single f) : c.present [(f.name, input)] = (· == f.name) := by
  funext name
  have none : (c.fields.any fun g => g.name == name && g.default.isSome) = false := by
    rw [List.any_eq_false]
    intro g hg
    simp [single.absent g hg]
  rw [present, none, Bool.or_false, List.any_cons, List.any_nil, Bool.or_false, Bool.beq_comm]

/-- An input that the field accepts is all that an object needs. -/
theorem build_eq_ok (single : c.Single f) (converts : f.convert input = .ok v) :
    c.build [(f.name, input)] = .ok (c.single f v) := by
  have taken : ∀ g ∈ c.fields, g.HasSlot [(f.name, input)] (if g = f then some v else none) := by
    intro g hg
    split
    · rename_i same
      subst same
      exact .set ((single.takes_iff hg).mpr ⟨rfl, rfl⟩) converts
    · rename_i different
      exact .unset fun other takes => different ((single.takes_iff hg).mp takes).1
  refine ValueClass.build_eq_ok.mpr ⟨⟨single.names, ?_, ?_, ?_⟩, rfl, ?_⟩
  · intro g hg other takes
    obtain ⟨rfl, rfl⟩ := (single.takes_iff hg).mp takes
    exact ⟨v, converts⟩
  · intro _ g hg required
    simp [single.optional g hg] at required
  · intro _ rule hrule
    rw [single.present_eq]
    exact single.rules rule hrule
  · exact List.forall₂_map_right_iff.mpr (List.forall₂_same.mpr taken)

/-- An input that the field refuses is the fault of the object. -/
theorem build_eq_error {cause : ValueError} (single : c.Single f)
    (fails : f.convert input = .error cause) :
    c.build [(f.name, input)] = .error (.refused c.name f.name cause) := by
  obtain ⟨before, after, split⟩ := List.append_of_mem single.mem
  have unlike : ∀ g ∈ before, g ≠ f := by
    have once := single.once
    rw [UniqueFields, split, List.map_append, List.map_cons] at once
    intro g hg same
    subst same
    exact (List.nodup_append.mp once).2.2 g.name (List.mem_map_of_mem hg) g.name
      List.mem_cons_self rfl
  refine ValueClass.build_eq_error.mpr (.refused single.names split (fun g hg other takes => ?_)
    ((single.takes_iff single.mem).mpr ⟨rfl, rfl⟩) fails)
  have mem : g ∈ c.fields := split ▸ List.mem_append_left _ hg
  exact absurd ((single.takes_iff mem).mp takes).1 (unlike g hg)

theorem build_eq_ok_iff {o : Object} (single : c.Single f) :
    c.build [(f.name, input)] = .ok o ↔ ∃ v, f.convert input = .ok v ∧ o = c.single f v := by
  cases conversion : f.convert input with
  | error cause => simp [single.build_eq_error conversion]
  | ok v => simp [single.build_eq_ok conversion, eq_comm]

theorem build_eq_error_iff {e : Error} (single : c.Single f) :
    c.build [(f.name, input)] = .error e ↔
      ∃ cause, f.convert input = .error cause ∧ e = .refused c.name f.name cause := by
  cases conversion : f.convert input with
  | error cause => simp [single.build_eq_error conversion, eq_comm]
  | ok v => simp [single.build_eq_ok conversion]

end ValueClass.Single

theorem ValueClass.entries_single_eq (c : ValueClass) (f : Field) (v : Value) :
    (c.single f v).entries = (c.fields.filter (· = f)).map (·, v) := by
  unfold ObjectOf.entries single
  generalize c.fields = fields
  induction fields with
  | nil => rfl
  | cons g rest ih =>
    by_cases same : g = f
    · simpa [same] using ih
    · simpa [same] using ih

/-- Nothing else is set. -/
theorem ValueClass.Single.entries_single (single : c.Single f) (v : Value) :
    (c.single f v).entries = [(f, v)] := by
  have once : c.fields.Nodup := single.once.of_map
  rw [entries_single_eq, List.filter_eq, List.count_eq_one_of_mem once single.mem,
    List.replicate_one, List.map_singleton]

end SceneDoc
