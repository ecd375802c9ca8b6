import SceneDoc.Proofs.Slots

namespace SceneDoc

variable {c : ValueClass} {f : Field} {inputs : List (String × Input)}

/-- Names that are fields of the class, each given once. -/
structure ValueClass.Knows (c : ValueClass) (names : List String) : Prop where
  fields : ∀ name ∈ names, ∃ f ∈ c.fields, f.name = name
  once : names.Nodup

namespace ValueClass

theorem field?_isNone_iff {name : String} :
    (c.field? name).isNone = true ↔ ∀ f ∈ c.fields, f.name ≠ name := by
  simp [field?]

theorem checkNames_eq_ok {seen names : List String} :
    c.checkNames seen names = .ok () ↔ c.Knows names ∧ ∀ name ∈ names, name ∉ seen := by
  induction names generalizing seen with
  | nil => simp [checkNames, Knows.mk]
  | cons name rest ih =>
    have hcons : c.Knows (name :: rest) ↔
        (∃ f ∈ c.fields, f.name = name) ∧ name ∉ rest ∧ c.Knows rest := by
      constructor
      · intro h
        obtain ⟨hf, hn⟩ := h
        exact ⟨hf name (by simp), (List.nodup_cons.mp hn).1,
          fun n hm => hf n (by simp [hm]), (List.nodup_cons.mp hn).2⟩
      · intro h
        obtain ⟨hf, hm, hr, hn⟩ := h
        exact ⟨List.forall_mem_cons.mpr ⟨hf, hr⟩, List.nodup_cons.mpr ⟨hm, hn⟩⟩
    unfold checkNames
    split
    · rename_i hnone
      rw [field?_isNone_iff] at hnone
      simp only [reduceCtorEq, hcons, false_iff]
      intro h
      obtain ⟨⟨⟨f, hf, he⟩, _⟩, _⟩ := h
      exact hnone f hf he
    · rename_i hsome
      rw [field?_isNone_iff] at hsome
      push Not at hsome
      split
      · rename_i hseen
        simp only [reduceCtorEq, false_iff]
        intro h
        obtain ⟨_, hfresh⟩ := h
        exact hfresh name (by simp) (by simpa using hseen)
      · rename_i hseen
        rw [ih, hcons]
        constructor
        · intro h
          obtain ⟨hr, hfresh⟩ := h
          refine ⟨⟨hsome, fun hm => hfresh name hm (by simp), hr⟩, ?_⟩
          exact List.forall_mem_cons.mpr ⟨by simpa using hseen,
            fun n hn hm => hfresh n hn (by simp [hm])⟩
        · intro h
          obtain ⟨⟨_, hm, hr⟩, hfresh⟩ := h
          refine ⟨hr, fun n hn hmem => ?_⟩
          rcases List.mem_cons.mp hmem with rfl | hmem
          · exact hm hn
          · exact hfresh n (by simp [hn]) hmem

inductive BadName (c : ValueClass) (before : List String) (name : String) : Error → Prop
  | unknown (absent : ∀ f ∈ c.fields, f.name ≠ name) :
      c.BadName before name (.unknownField c.name name)
  | repeated (mem : name ∈ before) : c.BadName before name (.duplicateField c.name name)

/-- The first unknown or repeated name is the error. -/
theorem checkNames_eq_error {seen names : List String} {e : Error}
    (hseen : ∀ name ∈ seen, ∃ f ∈ c.fields, f.name = name) :
    c.checkNames seen names = .error e ↔
      ∃ before name after, names = before ++ name :: after ∧
        c.checkNames seen before = .ok () ∧ c.BadName (before ++ seen) name e := by
  induction names generalizing seen with
  | nil => simp [checkNames]
  | cons name rest ih =>
    constructor
    · intro h
      unfold checkNames at h
      split at h
      · rename_i hnone
        cases h
        exact ⟨[], name, rest, rfl, rfl, .unknown (field?_isNone_iff.mp hnone)⟩
      · rename_i hsome
        split at h
        · rename_i hmem
          cases h
          exact ⟨[], name, rest, rfl, rfl, .repeated (by simpa using hmem)⟩
        · rename_i hmem
          have hfield : ∃ f ∈ c.fields, f.name = name := by
            rw [field?_isNone_iff] at hsome
            push Not at hsome
            exact hsome
          obtain ⟨before, bad, after, rfl, hok, hbad⟩ :=
            (ih (List.forall_mem_cons.mpr ⟨hfield, hseen⟩)).mp h
          refine ⟨name :: before, bad, after, rfl, ?_, ?_⟩
          · have hfresh : name ∉ seen := by simpa using hmem
            simp [checkNames, hsome, hfresh, hok]
          · cases hbad with
            | unknown absent => exact .unknown absent
            | repeated mem => exact .repeated (by simpa [or_left_comm] using mem)
    · intro h
      obtain ⟨before, bad, after, hsplit, hok, hbad⟩ := h
      cases before with
      | nil =>
        obtain ⟨rfl, rfl⟩ := List.cons.inj hsplit
        cases hbad with
        | unknown absent => simp [checkNames, field?_isNone_iff.mpr absent]
        | repeated mem =>
          have hknown : ¬ (c.field? name).isNone = true := by
            rw [field?_isNone_iff]
            push Not
            exact hseen name mem
          simp only [List.nil_append] at mem
          simp [checkNames, hknown, mem]
      | cons first before =>
        obtain ⟨rfl, rfl⟩ := List.cons.inj hsplit
        obtain ⟨hknows, hfresh⟩ := checkNames_eq_ok.mp hok
        have hfield := hknows.fields name (by simp)
        have hsome : ¬ (c.field? name).isNone = true := by
          rw [field?_isNone_iff]
          push Not
          exact hfield
        have hmem : name ∉ seen := hfresh name (by simp)
        simp only [checkNames, hsome, Bool.false_eq_true, ↓reduceIte, List.contains_eq_mem, hmem,
          decide_false] at hok ⊢
        refine (ih (List.forall_mem_cons.mpr ⟨hfield, hseen⟩)).mpr
          ⟨before, bad, after, rfl, hok, ?_⟩
        cases hbad with
        | unknown absent => exact .unknown absent
        | repeated mem => exact .repeated (by simpa [or_left_comm] using mem)

end ValueClass
/-- Whether a name is given or has a default. -/
def ValueClass.present (c : ValueClass) (inputs : List (String × Input)) (name : String) : Bool :=
  inputs.any (·.1 == name) || c.fields.any fun f => f.name == name && f.default.isSome

/-- Without a deletion, what is present gets set. -/
theorem isSet_eq_present {slots : List (Option Value)} (names : c.Knows (inputs.map (·.1)))
    (kept : ¬ Deletes inputs) (h : List.Forall₂ (Field.HasSlot inputs) c.fields slots) :
    (ObjectOf.mk c slots).isSet = c.present inputs := by
  funext name
  rw [Bool.eq_iff_iff, ObjectOf.isSet_iff, mem_setNames_iff h]
  simp only [ValueClass.present, Bool.or_eq_true, List.any_eq_true, Bool.and_eq_true, beq_iff_eq]
  constructor
  · intro hset
    obtain ⟨f, hf, rfl, input, takes⟩ := hset
    cases takes with
    | given mem _ => exact .inl ⟨_, mem, rfl⟩
    | default _ _ mem _ => exact .inr ⟨f, hf, rfl, by simp [mem]⟩
  · intro hpresent
    rcases hpresent with ⟨⟨k, input⟩, mem, rfl⟩ | ⟨f, hf, rfl, hd⟩
    · obtain ⟨f, hf, rfl⟩ := names.fields k (List.mem_map.mpr ⟨_, mem, rfl⟩)
      exact ⟨f, hf, rfl, input, .given mem fun hdel => absurd hdel kept⟩
    · obtain ⟨d, hd⟩ := Option.isSome_iff_exists.mp hd
      by_cases hgiven : ∃ input, (f.name, input) ∈ inputs
      · obtain ⟨input, mem⟩ := hgiven
        exact ⟨f, hf, rfl, input, .given mem fun hdel => absurd hdel kept⟩
      · exact ⟨f, hf, rfl, d.toInput, .default (fun i hm => hgiven ⟨i, hm⟩) kept hd
          (DefaultValue.gives_iff.mpr rfl)⟩

namespace Rule

/-- Whether an object keeps a rule when these names are set. A member of a group counts as often as
the group lists it. -/
def Met (present : String → Bool) : Rule → Prop
  | .exclusive group => group.countP present ≤ 1
  | .oneOf group => group.countP present = 1
  | .requires field sibling => present field = true → present sibling = true

inductive Breach (cls : String) (present : String → Bool) : Rule → Error → Prop
  | exclusive {group : List String} (several : 1 < group.countP present) :
    Breach cls present (.exclusive group) (.conflictingFields cls (group.filter present))
  | none {group : List String} (missing : group.countP present = 0) :
    Breach cls present (.oneOf group) (.missingAlternative cls group)
  | oneOf {group : List String} (several : 1 < group.countP present) :
    Breach cls present (.oneOf group) (.conflictingFields cls (group.filter present))
  | requires {field sibling : String} (set : present field = true)
      (missing : present sibling = false) :
    Breach cls present (.requires field sibling) (.missingDependency cls field sibling)

end Rule

namespace ObjectOf

variable {ν : Type} {o : ObjectOf ν} {rule : Rule} {e : Error}

theorem broken?_eq_none : o.broken? rule = none ↔ rule.Met o.isSet := by
  cases rule with
  | exclusive group => simp [broken?, Rule.Met, List.countP_eq_length_filter]
  | oneOf group =>
    simp only [broken?, Rule.Met, List.countP_eq_length_filter]
    split
    · rename_i hzero
      simp [hzero]
    · split
      · simp only [reduceCtorEq, false_iff]
        omega
      · simp only [true_iff]
        omega
  | requires field sibling =>
    cases hf : o.isSet field <;> cases hs : o.isSet sibling <;> simp [broken?, Rule.Met, hf, hs]

theorem broken?_eq_some : o.broken? rule = some e ↔ rule.Breach o.cls.name o.isSet e := by
  constructor
  · intro h
    cases rule with
    | exclusive group =>
      simp only [broken?, Option.ite_none_right_eq_some, Option.some.injEq] at h
      obtain ⟨hmany, rfl⟩ := h
      exact .exclusive (by rwa [List.countP_eq_length_filter])
    | oneOf group =>
      simp only [broken?] at h
      split at h
      · rename_i hzero
        cases h
        exact .none (by rwa [List.countP_eq_length_filter])
      · simp only [Option.ite_none_right_eq_some, Option.some.injEq] at h
        obtain ⟨hmany, rfl⟩ := h
        exact .oneOf (by rwa [List.countP_eq_length_filter])
    | requires field sibling =>
      simp only [broken?, Option.ite_none_right_eq_some, Option.some.injEq, Bool.and_eq_true,
        Bool.not_eq_true'] at h
      obtain ⟨⟨hset, hmissing⟩, rfl⟩ := h
      exact .requires hset hmissing
  · intro h
    cases h with
    | exclusive several =>
      rw [List.countP_eq_length_filter] at several
      simp [broken?, several]
    | none missing =>
      rw [List.countP_eq_length_filter] at missing
      simp [broken?, missing]
    | @oneOf group several =>
      rw [List.countP_eq_length_filter] at several
      have hzero : (group.filter o.isSet).length ≠ 0 := by omega
      simp only [broken?, hzero, several, ↓reduceIte]
    | requires set missing => simp [broken?, set, missing]

end ObjectOf

def Field.Provided (inputs : List (String × Input)) (f : Field) : Prop :=
  f.required = true → ∃ input, f.Takes inputs input

theorem provided_iff {slot : Option Value} (h : f.HasSlot inputs slot) :
    (f.required && slot.isNone) = false ↔ f.Provided inputs := by
  cases h with
  | unset nothing => simp [Field.Provided, nothing]
  | set takes _ => simp [Field.Provided, Exists.intro _ takes]

/-- The first required field that takes nothing is the one reported. -/
theorem missing?_eq_some {fields : List Field} {slots : List (Option Value)} (cls : String)
    {e : Error} (h : List.Forall₂ (Field.HasSlot inputs) fields slots) :
    ((fields.zip slots).findSome? fun (f, slot) =>
        if f.required && slot.isNone then some (Error.missingField cls f.name) else none) = some e ↔
      ∃ before f after, fields = before ++ f :: after ∧ (∀ g ∈ before, g.Provided inputs) ∧
        ¬ f.Provided inputs ∧ e = .missingField cls f.name := by
  induction h with
  | nil => simp
  | @cons f slot fields slots head tail ih =>
    have hhead := provided_iff head
    simp only [List.zip_cons_cons, List.findSome?_cons]
    by_cases hf : f.Provided inputs
    · simp only [hhead.mpr hf, Bool.false_eq_true, ↓reduceIte, ih]
      constructor
      · intro h
        obtain ⟨before, g, after, rfl, hbefore, hg⟩ := h
        exact ⟨f :: before, g, after, rfl, List.forall_mem_cons.mpr ⟨hf, hbefore⟩, hg⟩
      · intro h
        obtain ⟨before, g, after, hsplit, hbefore, hg, he⟩ := h
        cases before with
        | nil =>
          obtain ⟨rfl, rfl⟩ := List.cons.inj hsplit
          exact absurd hf hg
        | cons first before =>
          obtain ⟨rfl, rfl⟩ := List.cons.inj hsplit
          exact ⟨before, g, after, rfl, (List.forall_mem_cons.mp hbefore).2, hg, he⟩
    · have hmissing : (f.required && slot.isNone) = true := by
        rw [← Bool.not_eq_false]
        exact mt hhead.mp hf
      simp only [hmissing, ↓reduceIte, Option.some.injEq]
      constructor
      · intro h
        subst h
        exact ⟨[], f, fields, rfl, by simp, hf, rfl⟩
      · intro h
        obtain ⟨before, g, after, hsplit, hbefore, hg, rfl⟩ := h
        cases before with
        | nil =>
          obtain ⟨rfl, rfl⟩ := List.cons.inj hsplit
          rfl
        | cons first before =>
          obtain ⟨rfl, rfl⟩ := List.cons.inj hsplit
          exact absurd (hbefore f (by simp)) hf

theorem missing?_eq_none {fields : List Field} {slots : List (Option Value)} (cls : String)
    (h : List.Forall₂ (Field.HasSlot inputs) fields slots) :
    ((fields.zip slots).findSome? fun (f, slot) =>
        if f.required && slot.isNone then some (Error.missingField cls f.name) else none) = none ↔
      ∀ f ∈ fields, f.Provided inputs := by
  induction h with
  | nil => simp
  | @cons f slot fields slots head tail ih =>
    have hhead := provided_iff head
    simp only [List.zip_cons_cons, List.findSome?_cons, List.forall_mem_cons, ← hhead, ← ih]
    cases f.required && slot.isNone <;> simp

namespace ValueClass

/-- Inputs that an object of the class can be built from. In a deletion no field is required and no
rule applies. -/
structure Valid (c : ValueClass) (inputs : List (String × Input)) : Prop where
  names : c.Knows (inputs.map (·.1))
  converts : ∀ f ∈ c.fields, f.Converts inputs
  provided : ¬ Deletes inputs → ∀ f ∈ c.fields, f.Provided inputs
  rules : ¬ Deletes inputs → ∀ rule ∈ c.rules, rule.Met (c.present inputs)

/-- The first fault of inputs: of names in the order they were given, of values and then of required
fields in declared order, and of rules in their order. -/
inductive Reports (c : ValueClass) (inputs : List (String × Input)) : Error → Prop
  | name {before after : List String} {name : String} {e : Error}
      (split : inputs.map (·.1) = before ++ name :: after) (earlier : c.Knows before)
      (bad : c.BadName before name e) : c.Reports inputs e
  | refused {before after : List Field} {f : Field} {input : Input} {cause : ValueError}
      (names : c.Knows (inputs.map (·.1))) (split : c.fields = before ++ f :: after)
      (earlier : ∀ g ∈ before, g.Converts inputs) (takes : f.Takes inputs input)
      (fails : f.convert input = .error cause) : c.Reports inputs (.refused c.name f.name cause)
  | missing {before after : List Field} {f : Field}
      (names : c.Knows (inputs.map (·.1))) (converts : ∀ g ∈ c.fields, g.Converts inputs)
      (kept : ¬ Deletes inputs) (split : c.fields = before ++ f :: after)
      (earlier : ∀ g ∈ before, g.Provided inputs) (missing : ¬ f.Provided inputs) :
      c.Reports inputs (.missingField c.name f.name)
  | rule {before after : List Rule} {rule : Rule} {e : Error}
      (names : c.Knows (inputs.map (·.1))) (converts : ∀ g ∈ c.fields, g.Converts inputs)
      (kept : ¬ Deletes inputs) (provided : ∀ g ∈ c.fields, g.Provided inputs)
      (split : c.rules = before ++ rule :: after)
      (earlier : ∀ other ∈ before, other.Met (c.present inputs))
      (broken : rule.Breach c.name (c.present inputs) e) : c.Reports inputs e

theorem checkNames_start {names : List String} :
    c.checkNames [] names = .ok () ↔ c.Knows names := by
  simp [checkNames_eq_ok]

theorem build_eq_ok {o : Object} :
    c.build inputs = .ok o ↔ c.Valid inputs ∧ o.cls = c ∧
      List.Forall₂ (Field.HasSlot inputs) c.fields o.slots := by
  unfold build
  rw [check_bind_eq_ok, checkNames_start]
  simp only [bind_eq_ok, except_pure]
  constructor
  · intro h
    obtain ⟨names, slots, hslots, h⟩ := h
    have hdel := isDeletion_iff names.once
    rw [convertSlots_eq_ok names.once] at hslots
    have converts := (exists_slots names.once).mp ⟨slots, hslots⟩
    split at h
    · rename_i hd
      cases h
      exact ⟨⟨names, converts, fun kept => absurd (hdel.mp hd) kept,
        fun kept => absurd (hdel.mp hd) kept⟩, rfl, hslots⟩
    · rename_i hd
      have kept := mt hdel.mpr hd
      split at h
      · cases h
      · rename_i hfault
        cases h
        unfold ObjectOf.fault? at hfault
        split at hfault
        · cases hfault
        · rename_i hmissing
          refine ⟨⟨names, converts, fun _ => (missing?_eq_none c.name hslots).mp hmissing, ?_⟩,
            rfl, hslots⟩
          intro _ rule hrule
          have hb := List.findSome?_eq_none_iff.mp hfault rule hrule
          rw [ObjectOf.broken?_eq_none, isSet_eq_present names kept hslots] at hb
          exact hb
  · intro h
    obtain ⟨⟨names, converts, provided, rules⟩, rfl, hslots⟩ := h
    obtain ⟨c, slots⟩ := o
    have hdel := isDeletion_iff names.once
    refine ⟨names, slots, (convertSlots_eq_ok names.once).mpr hslots, ?_⟩
    split
    · rfl
    · rename_i hd
      have kept := mt hdel.mpr hd
      have hfault : (ObjectOf.mk c slots).fault? = none := by
        have hmissing : (ObjectOf.mk c slots).missing? = none :=
          (missing?_eq_none c.name hslots).mpr (provided kept)
        simp only [ObjectOf.fault?, hmissing]
        refine List.findSome?_eq_none_iff.mpr fun rule hrule => ?_
        rw [ObjectOf.broken?_eq_none, isSet_eq_present names kept hslots]
        exact rules kept rule hrule
      simp [hfault]

/-- What is reported of an object that is not deleted: its first missing field, or else its first
broken rule. -/
theorem fault?_eq_some {slots : List (Option Value)} {e : Error}
    (names : c.Knows (inputs.map (·.1))) (kept : ¬ Deletes inputs)
    (h : List.Forall₂ (Field.HasSlot inputs) c.fields slots) :
    (ObjectOf.mk c slots).fault? = some e ↔
      (∃ before f after, c.fields = before ++ f :: after ∧ (∀ g ∈ before, g.Provided inputs) ∧
        ¬ f.Provided inputs ∧ e = .missingField c.name f.name) ∨
      (∀ g ∈ c.fields, g.Provided inputs) ∧
        ∃ before rule after, c.rules = before ++ rule :: after ∧
          rule.Breach c.name (c.present inputs) e ∧
          ∀ other ∈ before, other.Met (c.present inputs) := by
  have hrules : (c.rules.findSome? (ObjectOf.mk c slots).broken?) = some e ↔
      ∃ before rule after, c.rules = before ++ rule :: after ∧
        rule.Breach c.name (c.present inputs) e ∧
        ∀ other ∈ before, other.Met (c.present inputs) := by
    simp only [List.findSome?_eq_some_iff, ObjectOf.broken?_eq_some, ObjectOf.broken?_eq_none,
      isSet_eq_present names kept h]
  unfold ObjectOf.fault?
  split
  · rename_i first hmissing
    have hsome := missing?_eq_some (e := e) c.name h
    have hnone := mt (missing?_eq_none c.name h).mpr (by
      intro hn
      cases hmissing.symm.trans hn)
    rw [← hsome]
    simp only [hnone, false_and, or_false]
    rw [← hmissing]
    rfl
  · rename_i hmissing
    have hnone := (missing?_eq_none c.name h).mp hmissing
    rw [hrules]
    constructor
    · exact fun hr => .inr ⟨hnone, hr⟩
    · intro hreported
      rcases hreported with ⟨before, f, after, hsplit, _, hf, _⟩ | ⟨_, hr⟩
      · exact absurd (hnone f (by simp [hsplit])) hf
      · exact hr

theorem checkNames_start_eq_error {names : List String} {e : Error} :
    c.checkNames [] names = .error e ↔
      ∃ before name after, names = before ++ name :: after ∧ c.Knows before ∧
        c.BadName before name e := by
  have h : c.checkNames [] names = .error e ↔ _ := checkNames_eq_error (by simp)
  simpa only [List.append_nil, checkNames_start] using h

/-- What is reported of names that are all right and a value that is refused. -/
theorem build_refused {e : Error} (names : c.Knows (inputs.map (·.1)))
    (h : convertSlots c.name (isDeletion inputs) inputs c.fields = .error e) :
    c.build inputs = .error e := by
  unfold build
  rw [check_bind_eq_error]
  exact .inr ⟨checkNames_start.mpr names, bind_eq_error.mpr (.inl h)⟩

/-- What is reported of an object that is not deleted and whose slots are filled. -/
theorem build_fault {slots : List (Option Value)} {e : Error}
    (names : c.Knows (inputs.map (·.1))) (kept : ¬ Deletes inputs)
    (hslots : List.Forall₂ (Field.HasSlot inputs) c.fields slots)
    (hfault : (ObjectOf.mk c slots).fault? = some e) : c.build inputs = .error e := by
  have hd := mt (isDeletion_iff names.once).mp kept
  unfold build
  rw [check_bind_eq_error]
  refine .inr ⟨checkNames_start.mpr names, bind_eq_error.mpr (.inr ⟨slots, ?_, ?_⟩)⟩
  · exact (convertSlots_eq_ok names.once).mpr hslots
  · simp [hd, hfault]

/-- A build fails with the first fault of its inputs. -/
theorem build_eq_error {e : Error} : c.build inputs = .error e ↔ c.Reports inputs e := by
  constructor
  · intro h
    unfold build at h
    rw [check_bind_eq_error, checkNames_start, checkNames_start_eq_error] at h
    simp only [bind_eq_error, except_pure] at h
    rcases h with ⟨before, name, after, split, earlier, bad⟩ | ⟨names, h⟩
    · exact .name split earlier bad
    · have hdel := isDeletion_iff names.once
      rcases h with h | ⟨slots, hslots, h⟩
      · obtain ⟨before, f, after, input, cause, split, earlier, takes, fails, rfl⟩ :=
          (convertSlots_eq_error names.once).mp h
        exact .refused names split earlier takes fails
      · rw [convertSlots_eq_ok names.once] at hslots
        have converts := (exists_slots names.once).mp ⟨slots, hslots⟩
        split at h
        · cases h
        · rename_i hd
          have kept := mt hdel.mpr hd
          split at h
          · rename_i first hfault
            cases h
            rcases (fault?_eq_some names kept hslots).mp hfault with
              ⟨before, f, after, split, earlier, missing, rfl⟩ |
              ⟨provided, before, rule, after, split, broken, earlier⟩
            · exact .missing names converts kept split earlier missing
            · exact .rule names converts kept provided split earlier broken
          · cases h
  · intro h
    cases h with
    | name split earlier bad =>
      unfold build
      rw [check_bind_eq_error]
      exact .inl (checkNames_start_eq_error.mpr ⟨_, _, _, split, earlier, bad⟩)
    | refused names split earlier takes fails =>
      exact build_refused names ((convertSlots_eq_error names.once).mpr
        ⟨_, _, _, _, _, split, earlier, takes, fails, rfl⟩)
    | missing names converts kept split earlier missing =>
      obtain ⟨slots, hslots⟩ := (exists_slots names.once).mpr converts
      exact build_fault names kept hslots ((fault?_eq_some names kept hslots).mpr
        (.inl ⟨_, _, _, split, earlier, missing, rfl⟩))
    | rule names converts kept provided split earlier broken =>
      obtain ⟨slots, hslots⟩ := (exists_slots names.once).mpr converts
      exact build_fault names kept hslots ((fault?_eq_some names kept hslots).mpr
        (.inr ⟨provided, _, _, _, split, broken, earlier⟩))

end ValueClass

namespace Registry

theorem class?_eq_some {r : Registry} {cls : String} (h : r.class? cls = some c) :
    c ∈ r.classes ∧ c.name = cls :=
  ⟨List.mem_of_find?_eq_some h, by simpa using List.find?_some h⟩

theorem class?_eq_none {r : Registry} {cls : String} :
    r.class? cls = none ↔ ∀ c ∈ r.classes, c.name ≠ cls := by
  simp [class?]

theorem build_eq_ok {r : Registry} {cls : String} {o : Object} :
    r.build cls inputs = .ok o ↔ r.class? cls = some o.cls ∧ o.cls.Valid inputs ∧
      List.Forall₂ (Field.HasSlot inputs) o.cls.fields o.slots := by
  unfold build
  cases r.class? cls with
  | none => simp
  | some c =>
    simp only [ValueClass.build_eq_ok, Option.some.injEq]
    constructor
    · intro h
      obtain ⟨valid, rfl, hslots⟩ := h
      exact ⟨rfl, valid, hslots⟩
    · intro h
      obtain ⟨rfl, valid, hslots⟩ := h
      exact ⟨valid, rfl, hslots⟩

theorem build_eq_error {r : Registry} {cls : String} {e : Error} :
    r.build cls inputs = .error e ↔
      ((∀ c ∈ r.classes, c.name ≠ cls) ∧ e = .unknownClass cls) ∨
        ∃ c, r.class? cls = some c ∧ c.Reports inputs e := by
  unfold build
  rw [← class?_eq_none]
  cases r.class? cls with
  | none => simp [eq_comm]
  | some c => simp [ValueClass.build_eq_error]

/-- An object can be built exactly if its class is known and the inputs are valid, every slot then
holds the value of what its field takes, and a build that fails reports the first fault. -/
theorem build_iff_valid (r : Registry) (cls : String) (inputs : List (String × Input)) :
    ((∃ o, r.build cls inputs = .ok o) ↔ ∃ c, r.class? cls = some c ∧ c.Valid inputs) ∧
    (∀ o, r.build cls inputs = .ok o → r.class? cls = some o.cls ∧
      List.Forall₂ (Field.HasSlot inputs) o.cls.fields o.slots) ∧
    (∀ e, r.build cls inputs = .error e ↔
      ((∀ c ∈ r.classes, c.name ≠ cls) ∧ e = .unknownClass cls) ∨
        ∃ c, r.class? cls = some c ∧ c.Reports inputs e) := by
  refine ⟨?_, ?_, fun e => build_eq_error⟩
  · constructor
    · intro h
      obtain ⟨o, h⟩ := h
      obtain ⟨hcls, valid, _⟩ := build_eq_ok.mp h
      exact ⟨o.cls, hcls, valid⟩
    · intro h
      obtain ⟨c, hcls, valid⟩ := h
      obtain ⟨slots, hslots⟩ := (exists_slots valid.names.once).mpr valid.converts
      exact ⟨⟨c, slots⟩, build_eq_ok.mpr ⟨hcls, valid, hslots⟩⟩
  · intro o h
    obtain ⟨hcls, _, hslots⟩ := build_eq_ok.mp h
    exact ⟨hcls, hslots⟩

end Registry
end SceneDoc
