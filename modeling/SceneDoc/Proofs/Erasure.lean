import Mathlib.Data.List.Nodup
import SceneDoc.Proofs.Deletion
import SceneDoc.Proofs.InputOrder

namespace SceneDoc

variable {c : ValueClass} {f g : Field} {xs ys : List (String × Input)} {input : Input} {e : Error}

/-- In a deletion a field takes what is given for it, if it is part of the identity. -/
theorem takes_iff_of_deletes (asked : Deletes xs) :
    f.Takes xs input ↔ (f.name, input) ∈ xs ∧ (f.name = "id" ∨ f.name = "delete") := by
  constructor
  · intro h
    cases h with
    | given mem kept => exact ⟨mem, kept asked⟩
    | default _ kept _ _ => exact absurd asked kept
  · intro h
    exact .given h.1 fun _ => h.2

/-- The deletion itself is given and nothing else by its name. -/
theorem mem_delete_iff (once : (xs.map (·.1)).Nodup) (asked : Deletes xs) :
    ("delete", input) ∈ xs ↔ input = .bool true := by
  constructor
  · intro mem
    exact given_unique once mem asked
  · intro h
    subst h
    exact asked

namespace ValueClass

/-- A deletion is as good as its slots. -/
theorem build_deletes (names : c.Knows (xs.map (·.1))) (asked : Deletes xs) :
    c.build xs = (convertSlots c.name (isDeletion xs) xs c.fields).map fun slots => ⟨c, slots⟩ := by
  have hd := (isDeletion_iff names.once).mpr asked
  unfold build
  rw [checkNames_start.mpr names, except_ok_bind, hd]
  rfl

end ValueClass

/-- Two deletions of one identity give every field the same input. -/
theorem input?_deletes (xsOnce : (xs.map (·.1)).Nodup) (ysOnce : (ys.map (·.1)).Nodup)
    (xsAsked : Deletes xs) (ysAsked : Deletes ys)
    (same : ∀ input, ("id", input) ∈ xs ↔ ("id", input) ∈ ys) (f : Field) :
    f.input? (isDeletion xs) xs = f.input? (isDeletion ys) ys := by
  apply Option.ext
  intro input
  rw [input?_eq_some_iff xsOnce, input?_eq_some_iff ysOnce, takes_iff_of_deletes xsAsked,
    takes_iff_of_deletes ysAsked]
  apply and_congr_left
  intro hname
  rcases hname with hname | hname
  · rw [hname]
    exact same input
  · rw [hname, mem_delete_iff xsOnce xsAsked, mem_delete_iff ysOnce ysAsked]

namespace ValueClass

/-- A deletion can fail in nothing but its identity. -/
theorem build_deletes_eq_error (fields : c.UniqueFields) (mem : f ∈ c.fields)
    (hname : f.name = "delete") (kind : f.kind = .boolean) (names : c.Knows (xs.map (·.1)))
    (asked : Deletes xs) :
    c.build xs = .error e ↔
      ∃ g ∈ c.fields, g.name = "id" ∧ ∃ input cause, ("id", input) ∈ xs ∧
        g.convert input = .error cause ∧ e = .refused c.name "id" cause := by
  have converts : ∀ h ∈ c.fields, h.name = "delete" → h.Converts xs := by
    intro h hh hdelete input takes
    obtain ⟨given, _⟩ := (takes_iff_of_deletes asked).mp takes
    rw [hdelete, mem_delete_iff names.once asked] at given
    have heq : h = f := List.inj_on_of_nodup_map fields hh mem (hdelete.trans hname.symm)
    subst heq given
    exact ⟨.bool true, by simp only [Field.convert, Field.convertPlain, kind]⟩
  rw [build_deletes names asked, map_eq_error, convertSlots_eq_error names.once]
  constructor
  · intro h
    obtain ⟨before, g, after, input, cause, hsplit, _, takes, fails, rfl⟩ := h
    have hg : g ∈ c.fields := by simp [hsplit]
    obtain ⟨given, hid | hdelete⟩ := (takes_iff_of_deletes asked).mp takes
    · rw [hid] at given ⊢
      exact ⟨g, hg, hid, input, cause, given, fails, rfl⟩
    · obtain ⟨v, hv⟩ := converts g hg hdelete input takes
      cases fails.symm.trans hv
  · intro h
    obtain ⟨g, hg, hid, input, cause, given, fails, rfl⟩ := h
    obtain ⟨before, after, hsplit⟩ := List.append_of_mem hg
    rw [← hid] at given ⊢
    refine ⟨before, g, after, input, cause, hsplit, fun h hh other takes => ?_,
      (takes_iff_of_deletes asked).mpr ⟨given, .inl hid⟩, fails, rfl⟩
    have hmem : h ∈ c.fields := by simp [hsplit, hh]
    -- The field of the identity stands behind this one, so only the deletion is left to it.
    obtain ⟨_, hid' | hdelete⟩ := (takes_iff_of_deletes asked).mp takes
    · have heq : h = g := List.inj_on_of_nodup_map fields hmem hg (hid'.trans hid.symm)
      unfold UniqueFields at fields
      rw [hsplit, List.map_append, List.map_cons] at fields
      have hne := (List.nodup_append.mp fields).2.2 h.name (List.mem_map.mpr ⟨h, hh, rfl⟩)
      exact absurd (congrArg Field.name heq) (hne g.name List.mem_cons_self)
    · exact converts h hmem hdelete other takes

end ValueClass

/-- What is set of a deleted object: the deletion, and the identity if it was given. -/
theorem isSet_of_deletes {slots : List (Option Value)} {name : String}
    (names : c.Knows (xs.map (·.1))) (asked : Deletes xs)
    (hslots : List.Forall₂ (Field.HasSlot xs) c.fields slots) :
    (ObjectOf.mk c slots).isSet name = true ↔
      name = "delete" ∨ name = "id" ∧ ∃ input, ("id", input) ∈ xs := by
  rw [ObjectOf.isSet_iff, mem_setNames_iff hslots]
  simp only [takes_iff_of_deletes asked]
  constructor
  · intro h
    obtain ⟨g, _, rfl, input, given, hid | hdelete⟩ := h
    · rw [hid] at given ⊢
      exact .inr ⟨rfl, input, given⟩
    · exact .inl hdelete
  · intro h
    have found : ∀ input, (name, input) ∈ xs → (name = "id" ∨ name = "delete") →
        ∃ g ∈ c.fields, g.name = name ∧ ∃ input, (g.name, input) ∈ xs ∧
          (g.name = "id" ∨ g.name = "delete") := by
      intro input given hname
      obtain ⟨g, hg, rfl⟩ := names.fields name (List.mem_map.mpr ⟨_, given, rfl⟩)
      exact ⟨g, hg, rfl, input, given, hname⟩
    rcases h with rfl | ⟨rfl, input, given⟩
    · exact found _ asked (.inr rfl)
    · exact found input given (.inl rfl)

/-- Two deletions of one identity have the same result, whatever else is given. It is an error only if
the identity is refused, and otherwise an object of which nothing is set but the deletion and the
identity that was given. -/
theorem Registry.build_erases {definitions : List Definition} {r : Registry} {cls : String}
    (compiled : compile definitions = .ok r) (found : r.class? cls = some c) (mem : f ∈ c.fields)
    (hname : f.name = "delete") (kind : f.kind = .boolean)
    (xsAsked : Deletes xs) (ysAsked : Deletes ys)
    (xsNames : c.Knows (xs.map (·.1))) (ysNames : c.Knows (ys.map (·.1)))
    (same : ∀ input, ("id", input) ∈ xs ↔ ("id", input) ∈ ys) :
    r.build cls xs = r.build cls ys ∧
    (∀ e, r.build cls xs = .error e ↔
      ∃ g ∈ c.fields, g.name = "id" ∧ ∃ input cause, ("id", input) ∈ xs ∧
        g.convert input = .error cause ∧ e = .refused c.name "id" cause) ∧
    ∀ o, r.build cls xs = .ok o → ∀ name, o.isSet name = true ↔
      name = "delete" ∨ name = "id" ∧ ∃ input, ("id", input) ∈ xs := by
  have fields := compile_uniqueFields compiled c (class?_eq_some found).1
  simp only [build, found]
  refine ⟨?_, fun e => ?_, fun o h name => ?_⟩
  · rw [ValueClass.build_deletes xsNames xsAsked, ValueClass.build_deletes ysNames ysAsked]
    rw [convertSlots_congr c.name fun g _ =>
      input?_deletes xsNames.once ysNames.once xsAsked ysAsked same g]
  · exact ValueClass.build_deletes_eq_error fields mem hname kind xsNames xsAsked
  · obtain ⟨_, rfl, hslots⟩ := ValueClass.build_eq_ok.mp h
    exact isSet_of_deletes xsNames xsAsked hslots

def Catalogue.beacon : Definition where
  name := "Beacon"
  description := ""
  bases := [.deletable]
  attributes := [
    .optional "id" "String" "",
    (Attribute.optional "range" "f64" "").mandatory,
    Attribute.shown.withDefault (.bool true),
    .optional "image" "Uri" "",
    .optional "label" "String" ""]
  rules := [.exclusive ["image", "label"], .requires "show" "label"]

/-- An image that is no URI and a label beside it do not matter to a deletion, nor does the range that
is missing. -/
theorem Registry.build_erases_beacon :
    ∃ r o, compile [Catalogue.beacon] = .ok r ∧
      r.build "Beacon" [("id", .text "a"), ("delete", .bool true)] = .ok o ∧
      r.build "Beacon" [("image", .text "nowhere"), ("delete", .bool true), ("label", .text "b"),
        ("id", .text "a")] = .ok o ∧
      o.isSet "id" = true ∧ o.isSet "show" = false := by
  have run : ((compile [Catalogue.beacon]).toOption.bind fun r =>
      (r.class? "Beacon").bind fun c =>
        ((c.field? "delete").filter fun f => f.kind = .boolean ∧
            c.checkNames [] ["id", "delete"] = .ok () ∧
            c.checkNames [] ["image", "delete", "label", "id"] = .ok ()).bind fun _ =>
          (r.build "Beacon" [("id", .text "a"), ("delete", .bool true)]).toOption).isSome
      = true := by
    decide +kernel
  simp only [Option.isSome_iff_exists, Option.bind_eq_some_iff, Option.filter_eq_some_iff,
    toOption_eq_some, decide_eq_true_eq, ValueClass.checkNames_start] at run
  obtain ⟨o, r, hr, c, found, f, ⟨hf, kind, names, others⟩, ho⟩ := run
  have mem : f ∈ c.fields := List.mem_of_find?_eq_some hf
  have hname : f.name = "delete" := by simpa using List.find?_some hf
  have asked : Deletes [("id", .text "a"), ("delete", .bool true)] := by simp [Deletes]
  have othersAsked : Deletes [("image", .text "nowhere"), ("delete", .bool true),
      ("label", .text "b"), ("id", .text "a")] := by
    simp [Deletes]
  obtain ⟨same, _, isSet⟩ :=
    Registry.build_erases hr found mem hname kind asked othersAsked names others (by simp)
  refine ⟨r, o, hr, ho, same.symm.trans ho, (isSet o ho "id").mpr ?_, ?_⟩
  · exact .inr ⟨rfl, .text "a", by simp⟩
  · rw [← Bool.not_eq_true, isSet o ho "show"]
    simp

end SceneDoc
