import Mathlib.Data.List.Forall2
import SceneDoc.Object.Build
import SceneDoc.Proofs.Outcomes
import SceneDoc.Proofs.Values

namespace SceneDoc

variable {c : ValueClass} {f : Field} {inputs : List (String × Input)}

theorem lookup_eq_some_iff {α : Type} {entries : List (String × α)} {name : String} {a : α}
    (once : (entries.map (·.1)).Nodup) : entries.lookup name = some a ↔ (name, a) ∈ entries := by
  induction entries with
  | nil => simp
  | cons e rest ih =>
    obtain ⟨k, b⟩ := e
    simp only [List.map_cons, List.nodup_cons] at once
    rw [List.lookup_cons]
    by_cases hk : name = k
    · subst hk
      have hnot : (name, a) ∉ rest := fun hm => once.1 (List.mem_map.mpr ⟨_, hm, rfl⟩)
      simp [hnot, eq_comm]
    · have hbeq : (name == k) = false := by simpa using hk
      rw [hbeq]
      simp [hk, ih once.2]

/-- A name that is given once is given one thing. -/
theorem given_unique {α : Type} {entries : List (String × α)} {name : String} {a b : α}
    (once : (entries.map (·.1)).Nodup) (ha : (name, a) ∈ entries) (hb : (name, b) ∈ entries) :
    a = b := by
  rw [← lookup_eq_some_iff once] at ha hb
  exact Option.some.inj (ha.symm.trans hb)

theorem lookup_eq_none_iff {α : Type} {entries : List (String × α)} {name : String}
    (once : (entries.map (·.1)).Nodup) :
    entries.lookup name = none ↔ ∀ a, (name, a) ∉ entries := by
  rw [Option.eq_none_iff_forall_ne_some]
  exact forall_congr' fun a => not_congr (lookup_eq_some_iff once)

def Deletes (inputs : List (String × Input)) : Prop := ("delete", Input.bool true) ∈ inputs

theorem isDeletion_iff (once : (inputs.map (·.1)).Nodup) :
    isDeletion inputs = true ↔ Deletes inputs := by
  unfold Deletes
  rw [← lookup_eq_some_iff once]
  unfold isDeletion
  split
  · rename_i h
    simp [h]
  · rename_i h
    simpa using h

inductive DefaultValue.Gives : DefaultValue → Input → Prop
  | bool (b : Bool) : Gives (.bool b) (.bool b)
  | number (x : Double) : Gives (.number x) (.number x)
  | text (s : String) : Gives (.text s) (.text s)

theorem DefaultValue.gives_iff {d : DefaultValue} {input : Input} :
    d.Gives input ↔ input = d.toInput := by
  constructor
  · intro h
    cases h <;> rfl
  · rintro rfl
    cases d <;> constructor

/-- The input that a field's value comes from: what was given for it, or else its default. A
deletion takes what was given for the identity and nothing else. -/
inductive Field.Takes (inputs : List (String × Input)) (f : Field) : Input → Prop
  | given {input : Input} (mem : (f.name, input) ∈ inputs)
      (kept : Deletes inputs → f.name = "id" ∨ f.name = "delete") : f.Takes inputs input
  | default {d : DefaultValue} {input : Input} (absent : ∀ input, (f.name, input) ∉ inputs)
      (kept : ¬ Deletes inputs) (mem : f.default = some d) (gives : d.Gives input) :
      f.Takes inputs input

theorem input?_eq_some_iff (once : (inputs.map (·.1)).Nodup) {input : Input} :
    f.input? (isDeletion inputs) inputs = some input ↔ f.Takes inputs input := by
  have hd := isDeletion_iff once
  unfold Field.input?
  constructor
  · intro h
    split at h
    · split at h
      · exact .given ((lookup_eq_some_iff once).mp h) fun _ => by assumption
      · cases h
    · rename_i hdel
      rw [hd] at hdel
      split at h
      · rename_i given hl
        cases h
        exact .given ((lookup_eq_some_iff once).mp hl) fun hdel' => absurd hdel' hdel
      · rename_i hl
        obtain ⟨d, hf, rfl⟩ := Option.map_eq_some_iff.mp h
        exact .default ((lookup_eq_none_iff once).mp hl) hdel hf (DefaultValue.gives_iff.mpr rfl)
  · intro h
    cases h with
    | given mem kept =>
      have hl := (lookup_eq_some_iff once).mpr mem
      by_cases hdel : Deletes inputs
      · simp [hd.mpr hdel, kept hdel, hl]
      · simp [mt hd.mp hdel, hl]
    | default absent kept mem gives =>
      obtain rfl := DefaultValue.gives_iff.mp gives
      simp [mt hd.mp kept, (lookup_eq_none_iff once).mpr absent, mem]

/-- Whatever the field takes has a value of its kind. -/
def Field.Converts (inputs : List (String × Input)) (f : Field) : Prop :=
  ∀ input, f.Takes inputs input → ∃ v, f.convert input = .ok v

/-- What stands in a field's slot: the value of what it takes, or nothing if it takes nothing. -/
inductive Field.HasSlot (inputs : List (String × Input)) (f : Field) : Option Value → Prop
  | unset (nothing : ∀ input, ¬ f.Takes inputs input) : f.HasSlot inputs none
  | set {input : Input} {v : Value} (takes : f.Takes inputs input)
      (converts : f.convert input = .ok v) : f.HasSlot inputs (some v)

theorem exists_slot {fields : List Field} {slots : List (Option Value)}
    (h : List.Forall₂ (Field.HasSlot inputs) fields slots) (hf : f ∈ fields) :
    ∃ slot, (f, slot) ∈ fields.zip slots ∧ f.HasSlot inputs slot := by
  induction h with
  | nil => simp at hf
  | cons head tail ih =>
    rcases List.mem_cons.mp hf with rfl | hf
    · exact ⟨_, by simp, head⟩
    · obtain ⟨slot, hm, hs⟩ := ih hf
      exact ⟨slot, by simp [hm], hs⟩

/-- The fields that are set are those that take an input. -/
theorem mem_setNames_iff {slots : List (Option Value)} {name : String}
    (h : List.Forall₂ (Field.HasSlot inputs) c.fields slots) :
    name ∈ (ObjectOf.mk c slots).setNames ↔
      ∃ f ∈ c.fields, f.name = name ∧ ∃ input, f.Takes inputs input := by
  rw [← ObjectOf.entries_names]
  constructor
  · intro hm
    obtain ⟨⟨f, v⟩, he, rfl⟩ := List.mem_map.mp hm
    have hz := ObjectOf.mem_entries.mp he
    have hslot := (List.forall₂_iff_zip.mp h).2 hz
    cases hslot with
    | set takes _ => exact ⟨f, (List.of_mem_zip hz).1, rfl, _, takes⟩
  · intro hname
    obtain ⟨f, hf, rfl, input, takes⟩ := hname
    obtain ⟨slot, hz, hs⟩ := exists_slot h hf
    cases hs with
    | unset nothing => exact absurd takes (nothing _)
    | set _ _ => exact List.mem_map.mpr ⟨_, ObjectOf.mem_entries.mpr hz, rfl⟩

section Slots

variable (once : (inputs.map (·.1)).Nodup)
include once

theorem input?_eq_none_iff :
    f.input? (isDeletion inputs) inputs = none ↔ ∀ input, ¬ f.Takes inputs input := by
  rw [Option.eq_none_iff_forall_ne_some]
  exact forall_congr' fun input => not_congr (input?_eq_some_iff once)

theorem convertSlots_eq_ok {cls : String} {fields : List Field} {slots : List (Option Value)} :
    convertSlots cls (isDeletion inputs) inputs fields = .ok slots ↔
      List.Forall₂ (Field.HasSlot inputs) fields slots := by
  induction fields generalizing slots with
  | nil => simp [convertSlots, eq_comm]
  | cons f rest ih =>
    unfold convertSlots
    split
    · rename_i hnone
      rw [input?_eq_none_iff once] at hnone
      rw [map_eq_ok]
      constructor
      · intro h
        obtain ⟨tail, htail, rfl⟩ := h
        exact .cons (.unset hnone) (ih.mp htail)
      · intro h
        cases h with
        | cons head tail =>
          cases head with
          | unset _ => exact ⟨_, ih.mpr tail, rfl⟩
          | set takes _ => exact absurd takes (hnone _)
    · rename_i input hsome
      rw [input?_eq_some_iff once] at hsome
      -- A field takes one input only, so this is the one of its slot.
      have hunique : ∀ other, f.Takes inputs other → other = input := by
        intro other hother
        rw [← input?_eq_some_iff once] at hother hsome
        exact Option.some.inj (hother.symm.trans hsome)
      split
      · rename_i cause hfail
        simp only [reduceCtorEq, false_iff]
        intro h
        cases h with
        | cons head tail =>
          cases head with
          | unset nothing => exact nothing _ hsome
          | set takes converts =>
            rw [hunique _ takes, hfail] at converts
            cases converts
      · rename_i v hok
        rw [map_eq_ok]
        constructor
        · intro h
          obtain ⟨tail, htail, rfl⟩ := h
          exact .cons (.set hsome hok) (ih.mp htail)
        · intro h
          cases h with
          | cons head tail =>
            cases head with
            | unset nothing => exact absurd hsome (nothing _)
            | set takes converts =>
              rw [hunique _ takes, hok] at converts
              cases converts
              exact ⟨_, ih.mpr tail, rfl⟩

/-- The first field whose input has no value of its kind is the error. -/
theorem convertSlots_eq_error {cls : String} {fields : List Field} {e : Error} :
    convertSlots cls (isDeletion inputs) inputs fields = .error e ↔
      ∃ before f after input cause, fields = before ++ f :: after ∧
        (∀ g ∈ before, g.Converts inputs) ∧ f.Takes inputs input ∧
        f.convert input = .error cause ∧ e = .refused cls f.name cause := by
  induction fields with
  | nil => simp [convertSlots]
  | cons f rest ih =>
    constructor
    · intro h
      have skip (hf : f.Converts inputs)
          (h : convertSlots cls (isDeletion inputs) inputs rest = .error e) :
          ∃ before g after input cause, f :: rest = before ++ g :: after ∧
            (∀ g ∈ before, g.Converts inputs) ∧ g.Takes inputs input ∧
            g.convert input = .error cause ∧ e = .refused cls g.name cause := by
        obtain ⟨before, g, after, input, cause, rfl, hbefore, hg⟩ := ih.mp h
        exact ⟨f :: before, g, after, input, cause, rfl,
          List.forall_mem_cons.mpr ⟨hf, hbefore⟩, hg⟩
      unfold convertSlots at h
      split at h
      · rename_i hnone
        rw [input?_eq_none_iff once] at hnone
        exact skip (fun input htakes => absurd htakes (hnone input)) (map_eq_error.mp h)
      · rename_i input hsome
        split at h
        · rename_i cause hfail
          cases h
          exact ⟨[], f, rest, input, cause, rfl, by simp, (input?_eq_some_iff once).mp hsome,
            hfail, rfl⟩
        · rename_i v hok
          refine skip (fun other htakes => ?_) (map_eq_error.mp h)
          rw [← input?_eq_some_iff once, hsome] at htakes
          cases htakes
          exact ⟨v, hok⟩
    · intro h
      obtain ⟨before, g, after, input, cause, hsplit, hbefore, htakes, hfail, rfl⟩ := h
      unfold convertSlots
      cases before with
      | nil =>
        obtain ⟨rfl, rfl⟩ := List.cons.inj hsplit
        simp [(input?_eq_some_iff once).mpr htakes, hfail]
      | cons first before =>
        obtain ⟨rfl, rfl⟩ := List.cons.inj hsplit
        obtain ⟨hf, hrest⟩ := List.forall_mem_cons.mp hbefore
        have herror := ih.mpr ⟨before, g, after, input, cause, rfl, hrest, htakes, hfail, rfl⟩
        split
        · exact map_eq_error.mpr herror
        · rename_i given hsome
          obtain ⟨v, hok⟩ := hf given ((input?_eq_some_iff once).mp hsome)
          rw [hok]
          exact map_eq_error.mpr herror

/-- Inputs whose names are all right and that all convert fill the slots. -/
theorem exists_slots {fields : List Field} :
    (∃ slots, List.Forall₂ (Field.HasSlot inputs) fields slots) ↔
      ∀ f ∈ fields, f.Converts inputs := by
  constructor
  · intro h f hf input takes
    obtain ⟨slots, h⟩ := h
    obtain ⟨slot, _, hs⟩ := exists_slot h hf
    cases hs with
    | unset nothing => exact absurd takes (nothing _)
    | @set other v takes' converts =>
      rw [← input?_eq_some_iff once] at takes takes'
      cases takes.symm.trans takes'
      exact ⟨v, converts⟩
  · intro h
    induction fields with
    | nil => exact ⟨[], .nil⟩
    | cons f rest ih =>
      obtain ⟨hf, hrest⟩ := List.forall_mem_cons.mp h
      obtain ⟨slots, hslots⟩ := ih hrest
      by_cases htakes : ∃ input, f.Takes inputs input
      · obtain ⟨input, takes⟩ := htakes
        obtain ⟨v, hv⟩ := hf input takes
        exact ⟨some v :: slots, .cons (.set takes hv) hslots⟩
      · exact ⟨none :: slots, .cons (.unset fun input takes => htakes ⟨input, takes⟩) hslots⟩

end Slots
end SceneDoc
