import Mathlib.Data.List.Nodup
import SceneDoc.Proofs.Compilation
import SceneDoc.Proofs.FlatSamples
import SceneDoc.Proofs.Packets

namespace SceneDoc

def FieldKind.arity? : FieldKind → Option Nat
  | .number => some 1
  | .tuple shape => some shape.arity
  | _ => none

theorem FieldKind.arity?_eq_some {k : FieldKind} {arity : Nat} :
    k.arity? = some arity ↔
      (k = .number ∧ arity = 1) ∨ ∃ shape, k = .tuple shape ∧ arity = shape.arity := by
  cases k <;> simp [arity?, eq_comm]

namespace Field

variable {f : Field} {x y : Input} {v : Value} {xs : List Double} {samples : List Sample}

/-- A short spelling and the explicit input that it stands for: a text and what it is read as, a text
and the member of the field's table, or a flat list and its samples. -/
inductive Spells (f : Field) : Input → Input → Prop
  | instant {s : String} {i : Instant} (kind : f.kind = .instant) (parsed : Instant.parse s = .ok i) :
    f.Spells (.text s) (.instant i)
  | interval {s : String} {i : TimeInterval} (kind : f.kind = .interval)
      (parsed : TimeInterval.parse s = .ok i) : f.Spells (.text s) (.interval i)
  | member {e given : Enumeration} {raw : String} (kind : f.kind = .enumerated e)
      (table : given.name = e.name) : f.Spells (.text raw) (.member given raw)
  | samples {arity : Nat} {xs : List Double} {samples : List Sample}
      (kind : f.kind.arity? = some arity) (flat : Sample.Flat arity xs samples)
      (nonempty : samples ≠ []) : f.Spells (.numbers xs) (.samples samples)

/-- A spelling is replaced in an input: in itself or in one interval's value. -/
inductive Respells (f : Field) : Input → Input → Prop
  | direct {x y : Input} (spells : f.Spells x y) : f.Respells x y
  | timed {x y : Input} (period : TimeInterval) (spells : f.Spells x y) :
    f.Respells (.timed period x) (.timed period y)
  | timedList {x y : Input} (before after : List (TimeInterval × Input)) (period : TimeInterval)
      (spells : f.Spells x y) :
    f.Respells (.timedList (before ++ (period, x) :: after))
      (.timedList (before ++ (period, y) :: after))

/-- A flat list of a number's samples is converted as its samples are. -/
theorem convertPlain_flat_number (kind : f.kind = .number) (flat : Sample.Flat 1 xs samples)
    (nonempty : samples ≠ []) :
    f.convertPlain (.numbers xs) = .ok v ↔ f.convertPlain (.samples samples) = .ok v := by
  have hsamples : f.convertPlain (.samples samples) = f.tagged samples checkScalar := by
    simp only [convertPlain, kind]
  have hscalar : ∀ s ∈ samples,
      (checkScalar s.values = .ok () ↔ ∀ x ∈ s.values, x.isFinite = true) := by
    intro s hs
    rw [checkScalar_eq_ok, isScalar_iff, and_iff_right (flat.full s hs)]
  have hchecks : (∀ x ∈ xs, x.isFinite = true) ↔
      ∀ s ∈ samples, s.time.IsFinite ∧ checkScalar s.values = .ok () := by
    rw [flat.finite]
    exact forall₂_congr fun s hs => and_congr_right' (hscalar s hs).symm
  rw [hsamples, tagged_eq_ok_iff, ← hchecks]
  simp only [convertPlain, kind]
  cases varies : f.interpolatable with
  | false => simp [mismatch]
  | true =>
    rw [if_pos rfl, check_bind_eq_ok, checkFinite_eq_ok]
    simp only [bind_eq_ok, Samples.ofFlat_flat flat nonempty, except_pure, Except.ok.injEq]
    constructor
    · intro h
      obtain ⟨finite, s, ⟨_, rfl⟩, hv⟩ := h
      exact ⟨trivial, nonempty, finite, hv⟩
    · intro h
      obtain ⟨_, _, finite, hv⟩ := h
      exact ⟨finite, _, ⟨fun s hs => (flat.finite.mp finite s hs).1, rfl⟩, hv⟩

/-- A flat list of a tuple's samples is converted as its samples are. -/
theorem convertPlain_flat_tuple {shape : TupleShape} (kind : f.kind = .tuple shape)
    (flat : Sample.Flat shape.arity xs samples) (nonempty : samples ≠ []) :
    f.convertPlain (.numbers xs) = .ok v ↔ f.convertPlain (.samples samples) = .ok v := by
  have hsamples : f.convertPlain (.samples samples) = f.tagged samples shape.check := by
    simp only [convertPlain, kind]
  have hnumbers : f.convertPlain (.numbers xs) = f.tuple shape xs := by
    simp only [convertPlain, kind]
  rw [hsamples, hnumbers, tagged_eq_ok_iff]
  unfold tuple
  rw [if_neg (flat.length_ne nonempty)]
  cases varies : f.interpolatable with
  | false => simp
  | true =>
    simp only [Bool.not_true, Bool.false_eq_true, ↓reduceIte, bind_eq_ok,
      Samples.ofFlat_flat flat nonempty]
    constructor
    · intro h
      obtain ⟨_, ⟨_, rfl⟩, hv⟩ := h
      rw [check_map_eq_ok, Sample.checkAll_eq_ok] at hv
      exact ⟨trivial, nonempty, hv⟩
    · intro h
      obtain ⟨_, _, checked, hv⟩ := h
      refine ⟨_, ⟨fun s hs => (checked s hs).1, rfl⟩, ?_⟩
      rw [check_map_eq_ok, Sample.checkAll_eq_ok]
      exact ⟨checked, hv⟩

theorem Spells.convertPlain (h : f.Spells x y) :
    (f.convertPlain x).toOption = (f.convertPlain y).toOption := by
  cases h with
  | instant kind parsed => simp only [Field.convertPlain, kind, parsed, Except.map]
  | interval kind parsed => simp only [Field.convertPlain, kind, parsed, Except.map]
  | member kind table => simp only [Field.convertPlain, kind, table, ↓reduceIte]
  | samples kind flat nonempty =>
    apply toOption_congr
    intro v
    rcases FieldKind.arity?_eq_some.mp kind with ⟨number, rfl⟩ | ⟨shape, tuple, rfl⟩
    · exact convertPlain_flat_number number flat nonempty
    · exact convertPlain_flat_tuple tuple flat nonempty

theorem Spells.convert (h : f.Spells x y) :
    f.convert x = f.convertPlain x ∧ f.convert y = f.convertPlain y := by
  cases h <;> exact ⟨rfl, rfl⟩

theorem Spells.convertTimed (h : f.Spells x y) (period : TimeInterval) :
    (f.convertTimed period x).toOption = (f.convertTimed period y).toOption := by
  have hplain := h.convertPlain
  cases h <;> simp only [Field.convertTimed, toOption_bind, hplain]

theorem Spells.convertTimedList (h : f.Spells x y) (period : TimeInterval)
    (before after : List (TimeInterval × Input)) :
    (f.convertTimedList (before ++ (period, x) :: after)).toOption =
      (f.convertTimedList (before ++ (period, y) :: after)).toOption := by
  induction before with
  | nil =>
    simp only [List.nil_append, Field.convertTimedList, toOption_bind, h.convertTimed period]
  | cons entry before ih =>
    simp only [List.cons_append, Field.convertTimedList, toOption_bind, ih]

theorem Respells.convert (h : f.Respells x y) :
    (f.convert x).toOption = (f.convert y).toOption := by
  cases h with
  | direct spells =>
    rw [spells.convert.1, spells.convert.2]
    exact spells.convertPlain
  | timed period spells =>
    simp only [Field.convert, toOption_map, spells.convertTimed period]
  | timedList before after period spells =>
    simp only [Field.convert, toOption_map, spells.convertTimedList period before after]

/-- A deletion has one spelling only. -/
theorem Respells.ne_bool (h : f.Respells x y) (b : Bool) : x ≠ .bool b ∧ y ≠ .bool b := by
  cases h with
  | direct spells => cases spells <;> exact ⟨nofun, nofun⟩
  | timed _ _ => exact ⟨nofun, nofun⟩
  | timedList _ _ _ _ => exact ⟨nofun, nofun⟩

end Field

section Slots

variable {cls : String} {deleted : Bool} {inputs : List (String × Input)} {g : Field} {x : Input}

theorem convertSlots_unset (rest : List Field) (nothing : g.input? deleted inputs = none) :
    (convertSlots cls deleted inputs (g :: rest)).toOption =
      (convertSlots cls deleted inputs rest).toOption.map (none :: ·) := by
  simp only [convertSlots, nothing, toOption_map]

theorem convertSlots_set (rest : List Field) (taken : g.input? deleted inputs = some x) :
    (convertSlots cls deleted inputs (g :: rest)).toOption =
      (g.convert x).toOption.bind fun v =>
        (convertSlots cls deleted inputs rest).toOption.map (some v :: ·) := by
  simp only [convertSlots, taken]
  cases g.convert x with
  | error e => rfl
  | ok v => exact toOption_map

end Slots

section Replaced

variable {before after : List (String × Input)} {name : String} {x y : Input}

/-- A replaced input is found in the place of the one before it, if it is found at all. -/
theorem lookup_replaced (key : String) :
    (before ++ (name, x) :: after).lookup key = (before ++ (name, y) :: after).lookup key ∨
      key = name ∧ (before ++ (name, x) :: after).lookup key = some x ∧
        (before ++ (name, y) :: after).lookup key = some y := by
  rw [List.lookup_append, List.lookup_append, List.lookup_cons, List.lookup_cons]
  cases before.lookup key with
  | some other => exact .inl rfl
  | none =>
    by_cases hkey : key = name
    · subst hkey
      exact .inr ⟨rfl, by simp, by simp⟩
    · have hbeq : (key == name) = false := by simpa using hkey
      exact .inl (by rw [hbeq])

theorem input?_replaced (g : Field) (deleted : Bool) :
    g.input? deleted (before ++ (name, x) :: after) =
        g.input? deleted (before ++ (name, y) :: after) ∨
      g.name = name ∧ g.input? deleted (before ++ (name, x) :: after) = some x ∧
        g.input? deleted (before ++ (name, y) :: after) = some y := by
  unfold Field.input?
  rcases lookup_replaced g.name with hsame | ⟨hname, hx, hy⟩
  · rw [hsame]
    exact .inl rfl
  · rw [hx, hy]
    cases deleted with
    | false => exact .inr ⟨hname, rfl, rfl⟩
    | true =>
      by_cases hkept : g.name = "id" ∨ g.name = "delete"
      · exact .inr ⟨hname, by simp [hkept], by simp [hkept]⟩
      · exact .inl (by simp [hkept])

end Replaced

section Respelled

variable {c : ValueClass} {f : Field} {x y : Input} {before after : List (String × Input)}
variable (respells : f.Respells x y)
include respells

theorem isDeletion_respelled :
    isDeletion (before ++ (f.name, x) :: after) = isDeletion (before ++ (f.name, y) :: after) := by
  unfold isDeletion
  rcases lookup_replaced "delete" with hsame | ⟨_, hx, hy⟩
  · rw [hsame]
  · obtain ⟨hx', hy'⟩ := respells.ne_bool true
    rw [hx, hy]
    simp [hx', hy']

/-- Slots are filled alike, whichever the spelling, if the field's name is its own. -/
theorem convertSlots_respelled {cls : String} {deleted : Bool} {fields : List Field}
    (unique : ∀ g ∈ fields, g.name = f.name → g = f) :
    (convertSlots cls deleted (before ++ (f.name, x) :: after) fields).toOption =
      (convertSlots cls deleted (before ++ (f.name, y) :: after) fields).toOption := by
  induction fields with
  | nil => rfl
  | cons g rest ih =>
    obtain ⟨hg, hrest⟩ := List.forall_mem_cons.mp unique
    have hlater := ih hrest
    rcases input?_replaced g deleted with hsame | ⟨hname, hx, hy⟩
    · cases hinput : g.input? deleted (before ++ (f.name, y) :: after) with
      | none =>
        rw [convertSlots_unset rest (hsame.trans hinput), convertSlots_unset rest hinput, hlater]
      | some other =>
        rw [convertSlots_set rest (hsame.trans hinput), convertSlots_set rest hinput, hlater]
    · -- No other field has the name, so this is the one that the spellings are equal for.
      rw [convertSlots_set rest hx, convertSlots_set rest hy, hlater, hg hname, respells.convert]

theorem ValueClass.build_respelled (fields : c.UniqueFields) (mem : f ∈ c.fields) :
    (c.build (before ++ (f.name, x) :: after)).toOption =
      (c.build (before ++ (f.name, y) :: after)).toOption := by
  have unique : ∀ g ∈ c.fields, g.name = f.name → g = f := fun g hg hname =>
    List.inj_on_of_nodup_map fields hg mem hname
  unfold build
  simp only [toOption_bind, List.map_append, List.map_cons, isDeletion_respelled respells,
    convertSlots_respelled respells unique]

end Respelled

namespace Registry

variable {definitions : List Definition} {r : Registry} {c : ValueClass} {cls : String} {f : Field}
variable {x y : Input} {before after : List (String × Input)}

/-- Every flat list of at least one sample's length is another spelling of some samples. -/
theorem exists_spells {arity k : Nat} {xs : List Double} (kind : f.kind.arity? = some arity)
    (pos : 0 < k) (h : xs.length = k * (arity + 1)) :
    ∃ samples, samples.length = k ∧ f.Spells (.numbers xs) (.samples samples) := by
  obtain ⟨samples, hlen, flat⟩ := Sample.exists_flat h
  have nonempty : samples ≠ [] := List.length_pos_iff.mp (by rwa [hlen])
  exact ⟨samples, hlen, .samples kind flat nonempty⟩

section Respelled

variable (compiled : compile definitions = .ok r) (mem : f ∈ c.fields) (respells : f.Respells x y)
include compiled mem respells

theorem build_respelled (found : r.class? cls = some c) :
    (r.build cls (before ++ (f.name, x) :: after)).toOption =
      (r.build cls (before ++ (f.name, y) :: after)).toOption := by
  simp only [build, found]
  exact c.build_respelled respells (compile_uniqueFields compiled c (class?_eq_some found).1) mem

/-- An object of a replaced spelling makes the same packet. -/
theorem ofObject_respelled (found : r.class? cls = some c) :
    ((r.build cls (before ++ (f.name, x) :: after)).bind Packet.ofObject).toOption =
      ((r.build cls (before ++ (f.name, y) :: after)).bind Packet.ofObject).toOption := by
  calc
    _ = (r.build cls (before ++ (f.name, x) :: after)).toOption.bind _ := toOption_bind
    _ = (r.build cls (before ++ (f.name, y) :: after)).toOption.bind _ := by
      rw [build_respelled compiled mem respells found]
    _ = _ := toOption_bind.symm

/-- Whether an identifier is drawn does not depend on how the inputs are spelled. -/
theorem packet_respelled (found : r.class? Packet.ordinaryClass = some c) (ids : IdSource) :
    (r.packet ids (before ++ (f.name, x) :: after)).1.toOption =
        (r.packet ids (before ++ (f.name, y) :: after)).1.toOption ∧
      (r.packet ids (before ++ (f.name, x) :: after)).2 =
        (r.packet ids (before ++ (f.name, y) :: after)).2 := by
  rcases lookup_replaced "id" with hsame | ⟨_, hx, hy⟩
  · cases given : (before ++ (f.name, y) :: after).lookup "id" with
    | none =>
      rw [packet_drawn ids (hsame.trans given), packet_drawn ids given, List.append_assoc,
        List.append_assoc, List.cons_append, List.cons_append]
      exact ⟨ofObject_respelled compiled mem respells found, rfl⟩
    | some input =>
      rw [packet_given ids (hsame.trans given), packet_given ids given]
      exact ⟨ofObject_respelled compiled mem respells found, rfl⟩
  · rw [packet_given ids hx, packet_given ids hy]
    exact ⟨ofObject_respelled compiled mem respells found, rfl⟩

end Respelled

/-- A spelling that is replaced changes neither whether an object, a packet or a preamble is made nor
which one, and so not its text. For a field with samples, every flat list of at least one sample's
length is such a spelling. -/
theorem spellings_agree (compiled : compile definitions = .ok r) (found : r.class? cls = some c)
    (mem : f ∈ c.fields) (respells : f.Respells x y) (before after : List (String × Input)) :
    (r.build cls (before ++ (f.name, x) :: after)).toOption =
        (r.build cls (before ++ (f.name, y) :: after)).toOption ∧
      (cls = Packet.ordinaryClass → ∀ ids,
        (r.packet ids (before ++ (f.name, x) :: after)).1.toOption =
            (r.packet ids (before ++ (f.name, y) :: after)).1.toOption ∧
          (r.packet ids (before ++ (f.name, x) :: after)).2 =
            (r.packet ids (before ++ (f.name, y) :: after)).2) ∧
      (cls = Packet.preambleClass →
        (r.preamble (before ++ (f.name, x) :: after)).toOption =
          (r.preamble (before ++ (f.name, y) :: after)).toOption) ∧
      ∀ arity k xs, f.kind.arity? = some arity → 0 < k → xs.length = k * (arity + 1) →
        ∃ samples, samples.length = k ∧ f.Spells (.numbers xs) (.samples samples) := by
  refine ⟨build_respelled compiled mem respells found, fun hcls ids => ?_, fun hcls => ?_,
    fun arity k xs kind pos h => exists_spells kind pos h⟩
  · rw [hcls] at found
    exact packet_respelled compiled mem respells found ids
  · rw [hcls] at found
    exact ofObject_respelled compiled mem respells found

/-- One flat sample in an interval makes the object that the sample itself makes. -/
theorem spellings_agree_viewFrom :
    ∃ r c f o, compile [Catalogue.viewFrom] = .ok r ∧ r.class? "ViewFrom" = some c ∧
      f ∈ c.fields ∧ f.name = "cartesian" ∧
      f.Respells (.timed ⟨none, none⟩ (.numbers [.zero, .one, .zero, .one]))
        (.timed ⟨none, none⟩ (.samples [⟨.seconds .zero, [.one, .zero, .one]⟩])) ∧
      r.build "ViewFrom" [("cartesian", .timed ⟨none, none⟩
        (.numbers [.zero, .one, .zero, .one]))] = .ok o ∧
      r.build "ViewFrom" [("cartesian", .timed ⟨none, none⟩
        (.samples [⟨.seconds .zero, [.one, .zero, .one]⟩]))] = .ok o := by
  have run : ((compile [Catalogue.viewFrom]).toOption.bind fun r =>
      (r.class? "ViewFrom").bind fun c =>
        ((c.field? "cartesian").filter fun f => f.kind = .tuple .cartesian3).bind fun _ =>
          (r.build "ViewFrom" [("cartesian", .timed ⟨none, none⟩
            (.numbers [.zero, .one, .zero, .one]))]).toOption).isSome = true := by
    decide +kernel
  simp only [Option.isSome_iff_exists, Option.bind_eq_some_iff, Option.filter_eq_some_iff,
    toOption_eq_some, decide_eq_true_eq] at run
  obtain ⟨o, r, hr, c, found, f, ⟨hf, kind⟩, ho⟩ := run
  have mem : f ∈ c.fields := List.mem_of_find?_eq_some hf
  have hname : f.name = "cartesian" := by simpa using List.find?_some hf
  have harity : f.kind.arity? = some 3 := by
    rw [kind]
    rfl
  have full : [Double.one, .zero, .one].length = 3 := rfl
  have flat := Sample.Flat.cons (t := .zero) full .nil
  have respells := Field.Respells.timed ⟨none, none⟩ (.samples harity flat (by simp))
  have hsame := (spellings_agree hr found mem respells [] []).1
  rw [hname] at hsame
  refine ⟨r, c, f, o, hr, found, mem, hname, respells, ho, ?_⟩
  rw [← toOption_eq_some] at ho ⊢
  exact hsame.symm.trans ho

end Registry
end SceneDoc
