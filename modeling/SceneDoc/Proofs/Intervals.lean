import SceneDoc.Proofs.Canonical

namespace SceneDoc

variable {f : Field} {input : Input} {v : Value} {period : TimeInterval}

namespace Input

def isTimed : Input → Bool
  | .timed _ _ => true
  | .timedList _ => true
  | _ => false

/-- An input that may be given over an interval: it is given over none, and if it is an object then
no interval of its own is set. -/
structure MayHold (input : Input) : Prop where
  plain : input.isTimed = false
  alone : ∀ o, input = .object o → o.isSet "interval" = false

end Input

namespace Field

theorem convert_plain (h : input.isTimed = false) : f.convert input = f.convertPlain input := by
  cases input with
  | timed _ _ => cases h
  | timedList _ => cases h
  | _ => rfl

/-- What is accepted without interval is given over none. -/
theorem isTimed_of_convertPlain (h : f.convertPlain input = .ok v) : input.isTimed = false := by
  cases input with
  | timed _ _ => simp [convertPlain, mismatch] at h
  | timedList _ => simp [convertPlain, mismatch] at h
  | _ => rfl

/-- Exactly objects are stored as objects, and they are stored as they are. -/
theorem convertPlain_eq_object (h : f.convertPlain input = .ok v) (o : Object) :
    v = .object o ↔ input = .object o := by
  constructor
  · intro hv
    subst hv
    cases convertPlain_stores h with
    | held holds => cases holds
    | nested _ => rfl
  · intro hinput
    subst hinput
    unfold convertPlain at h
    cases kind : f.kind with
    | nested cls =>
      simp only [kind] at h
      split at h
      · cases h
        rfl
      · cases h
    | _ => simp [kind, mismatch] at h

/-- What holds over an interval is the plain value of what was given, under the field's key. -/
theorem convertTimed_eq_ok {t : Timed} :
    f.convertTimed period input = .ok t ↔
      input.MayHold ∧ ∃ plain, f.convertPlain input = .ok plain ∧ t = ⟨period, f.intervalKey, plain⟩ := by
  constructor
  · intro h
    unfold convertTimed at h
    split at h
    · cases h
    · cases h
    · obtain ⟨plain, hplain, h⟩ := bind_eq_ok.mp h
      have untimed := isTimed_of_convertPlain hplain
      split at h
      · rename_i own
        split at h
        · cases h
        · rename_i alone
          cases h
          refine ⟨⟨untimed, fun o ho => ?_⟩, _, hplain, rfl⟩
          cases (convertPlain_eq_object hplain o).mpr ho
          simpa using alone
      · rename_i hother
        cases h
        refine ⟨⟨untimed, fun o ho => ?_⟩, _, hplain, rfl⟩
        exact absurd ((convertPlain_eq_object hplain o).mpr ho) (hother o)
  · intro h
    obtain ⟨⟨untimed, alone⟩, plain, hplain, rfl⟩ := h
    unfold convertTimed
    split
    · cases untimed
    · cases untimed
    · rw [hplain, except_ok_bind]
      split
      · rename_i o
        have hset := alone o ((convertPlain_eq_object hplain o).mp rfl)
        simp [hset]
      · rfl

/-- A list over intervals is stored entry by entry. -/
theorem convertTimedList_eq_ok {entries : List (TimeInterval × Input)} {ts : List Timed} :
    f.convertTimedList entries = .ok ts ↔
      List.Forall₂ (fun e t => f.convertTimed e.1 e.2 = .ok t) entries ts := by
  induction entries generalizing ts with
  | nil => simp [convertTimedList, eq_comm]
  | cons e rest ih =>
    obtain ⟨period, input⟩ := e
    simp only [convertTimedList, bind_eq_ok, except_pure, Except.ok.injEq, ih,
      List.forall₂_cons_left_iff]
    constructor
    · intro h
      obtain ⟨t, ht, tail, htail, rfl⟩ := h
      exact ⟨t, tail, ht, htail, rfl⟩
    · intro h
      obtain ⟨t, tail, ht, htail, rfl⟩ := h
      exact ⟨t, ht, tail, htail, rfl⟩

theorem convert_timed : f.convert (.timed period input) = .ok v ↔
    ∃ t, f.convertTimed period input = .ok t ∧ .timed t = v :=
  map_eq_ok

theorem convert_timed_eq_ok : f.convert (.timed period input) = .ok v ↔
    input.MayHold ∧ ∃ plain, f.convert input = .ok plain ∧
      v = .timed ⟨period, f.intervalKey, plain⟩ := by
  rw [convert_timed]
  constructor
  · intro h
    obtain ⟨t, ht, rfl⟩ := h
    obtain ⟨holds, plain, hplain, rfl⟩ := convertTimed_eq_ok.mp ht
    exact ⟨holds, plain, (convert_plain holds.plain).trans hplain, rfl⟩
  · intro h
    obtain ⟨holds, plain, hplain, rfl⟩ := h
    rw [convert_plain holds.plain] at hplain
    exact ⟨_, convertTimed_eq_ok.mpr ⟨holds, plain, hplain, rfl⟩, rfl⟩

theorem convert_timedList_eq_ok {entries : List (TimeInterval × Input)} :
    f.convert (.timedList entries) = .ok v ↔
      ∃ ts, v = .timedList ts ∧
        List.Forall₂ (fun e t => f.convert (.timed e.1 e.2) = .ok (.timed t)) entries ts := by
  have list : f.convert (.timedList entries) = .ok v ↔
      ∃ ts, f.convertTimedList entries = .ok ts ∧ .timedList ts = v := map_eq_ok
  simp only [list, convertTimedList_eq_ok, convert_timed, Value.timed.injEq, exists_eq_right]
  exact exists_congr fun ts => and_comm.trans (and_congr_left' eq_comm)

end Field

/-- An object over an interval is written as the interval and then the entries that the object is
written as by itself. -/
theorem Value.render_timed_merges (period : TimeInterval) (key : String) (o : Object) :
    ∃ own, o.render = .object own ∧
      (timed ⟨period, key, .object o⟩).render =
        .object (("interval", .string period.render) :: own) := by
  refine ⟨o.entries.map fun e => (e.1.name, e.2.render), ?_, render_timed_object period key o⟩
  rw [ObjectOf.render, render_object]

/-- An input is accepted over an interval exactly if it is accepted without one, is given over no
interval and is no object whose own interval is set. What is stored is its plain value, which is
written beside the interval: an object by its own entries, anything else under the field's key. A
list is stored and written entry by entry. -/
theorem Field.timed_commutes (f : Field) (period : TimeInterval) (input : Input) :
    (∀ v, f.convert (.timed period input) = .ok v ↔
      input.MayHold ∧ ∃ plain, f.convert input = .ok plain ∧
        v = .timed ⟨period, f.intervalKey, plain⟩) ∧
    (∀ entries v, f.convert (.timedList entries) = .ok v ↔
      ∃ ts, v = .timedList ts ∧
        List.Forall₂ (fun e t => f.convert (.timed e.1 e.2) = .ok (.timed t)) entries ts) ∧
    (∀ o, ∃ own, o.render = .object own ∧
      (Value.timed ⟨period, f.intervalKey, .object o⟩).render =
        .object (("interval", .string period.render) :: own)) ∧
    (∀ v, (∀ o, v ≠ .object o) →
      (Value.timed ⟨period, f.intervalKey, v⟩).render =
        .object [("interval", .string period.render), (f.intervalKey, v.render)]) ∧
    ∀ ts, (Value.timedList ts).render = .array (ts.map fun t => (Value.timed t).render) :=
  ⟨fun _ => convert_timed_eq_ok, fun _ _ => convert_timedList_eq_ok,
    fun o => Value.render_timed_merges period f.intervalKey o,
    fun _ other => Value.render_timed_plain _ other, Value.render_timedList⟩

end SceneDoc
