import SceneDoc.Proofs.Annotations
import SceneDoc.Proofs.Compilation

namespace SceneDoc
namespace TypeText

-- Members of a list are checked one by one, also where more instances are in scope.
attribute [local instance (high)] List.decidableBAll

variable {c : Char} {cs ds text core : List Char} {written : String}

def brackets : List Char := ['<', '>', '[', ']']

/-- Texts whose brackets are closed in order, each by its own kind. -/
inductive Balanced : List Char → Prop
  | nil : Balanced []
  | other {c : Char} {cs : List Char} (plain : c ∉ brackets) (rest : Balanced cs) : Balanced (c :: cs)
  | angles {cs ds : List Char} (inside : Balanced cs) (rest : Balanced ds) :
      Balanced ('<' :: (cs ++ '>' :: ds))
  | squares {cs ds : List Char} (inside : Balanced cs) (rest : Balanced ds) :
      Balanced ('[' :: (cs ++ ']' :: ds))

theorem Balanced.append (h : Balanced cs) (rest : Balanced ds) : Balanced (cs ++ ds) := by
  induction h with
  | nil => exact rest
  | other plain _ ih => exact .other plain ih
  | angles inside _ _ ih =>
    rw [List.cons_append, List.append_assoc]
    exact .angles inside ih
  | squares inside _ _ ih =>
    rw [List.cons_append, List.append_assoc]
    exact .squares inside ih

theorem Balanced.of_plain (plain : ∀ c ∈ cs, c ∉ brackets) : Balanced cs := by
  induction cs with
  | nil => exact .nil
  | cons c cs ih =>
    obtain ⟨first, rest⟩ := List.forall_mem_cons.mp plain
    exact .other first (ih rest)

/-- As many angle brackets are closed as are opened. -/
theorem Balanced.count_angles (h : Balanced cs) : cs.count '<' = cs.count '>' := by
  induction h with
  | nil => rfl
  | @other c cs plain _ ih =>
    have opens : c ≠ '<' := fun same => plain (by simp [same, brackets])
    have closes : c ≠ '>' := fun same => plain (by simp [same, brackets])
    rw [List.count_cons_of_ne opens, List.count_cons_of_ne closes, ih]
  | angles _ _ ih ih' =>
    simp only [List.count_cons, List.count_append, ih, ih', beq_iff_eq, Char.reduceEq, ↓reduceIte]
    omega
  | squares _ _ ih ih' => simp [List.count_append, ih, ih']

theorem not_bracket_of_blank (blank : isBlank c = true) : c ∉ brackets := by
  have visible : ∀ b ∈ brackets, isBlank b = false := by decide
  intro bracket
  rw [visible c bracket] at blank
  cases blank

theorem IsName.balanced (h : IsName cs) : Balanced cs := by
  have other : ∀ b ∈ brackets, isNameChar b = false := by decide
  exact .of_plain fun c hc bracket => h.not_mem (other c bracket) hc

theorem Balanced.wrapper {start final : String} (known : IsWrapper start final) (h : Balanced cs) :
    Balanced (start.toList ++ cs ++ final.toList) := by
  rw [List.append_assoc]
  cases known with
  | option =>
    have letters : Balanced "Option".toList := .of_plain (by decide)
    exact letters.append (.angles h .nil)
  | typingOptional =>
    have letters : Balanced "typing.Optional".toList := .of_plain (by decide)
    exact letters.append (.squares h .nil)
  | optional =>
    have letters : Balanced "Optional".toList := .of_plain (by decide)
    exact letters.append (.squares h .nil)

theorem Balanced.enclosed (h : Balanced core) (around : Encloses text core) : Balanced text := by
  obtain ⟨rfl, front, back⟩ := around
  have before := Balanced.of_plain fun c hc => not_bracket_of_blank (front c hc)
  have after := Balanced.of_plain fun c hc => not_bracket_of_blank (back c hc)
  exact before.append (h.append after)

/-- Wrappers are balanced. -/
theorem Wrapped.balanced (h : Wrapped core text) (inside : Balanced core) : Balanced text := by
  induction h with
  | bare around => exact inside.enclosed around
  | wrapper known _ around ih => exact (ih.wrapper known).enclosed around

/-- Brackets that are not balanced stand in the path in front of a name, in any number of wrappers. -/
inductive Strays (text : List Char) : Prop
  | mk {path name : List Char} (ends : IsPath path) (unopened : Unopened path)
      (stray : ¬ Balanced path) (named : IsIdentifier name) (wrapped : Wrapped (path ++ name) text) :
      Strays text

/-- Brackets in front of a name are not looked at, and all others are. -/
theorem bareType?_eq_none (unbalanced : ¬ Balanced written.toList) :
    bareType? written = none ↔ ¬ Strays written.toList := by
  constructor
  · rintro none (@⟨path, name, ends, unopened, _, named, wrapped⟩)
    have read : bareType? written = some (.ofList name) := by
      rw [← String.toList_ofList (l := name)] at named wrapped
      exact unopened.bareType?_eq ends named wrapped
    cases none.symm.trans read
  · intro inside
    by_contra read
    obtain ⟨bare, read⟩ := Option.ne_none_iff_exists'.mp read
    obtain ⟨path, ends, unopened, named, wrapped⟩ := bareType?_eq_some.mp read
    refine inside ⟨ends, unopened, fun balanced => unbalanced ?_, named, wrapped⟩
    exact wrapped.balanced (balanced.append named.isName.balanced)

end TypeText

open TypeText

variable {definitions : List Definition} {d : Definition} {a : Attribute} {written : String}

/-- The attribute of the definition is the next to compile: everything in front of it compiles, and its
name is new. -/
inductive Catalogue.Reaches (definitions : List Definition) (d : Definition) (a : Attribute) : Prop
  | mk {before after : List Definition} {front back : List (Attribute × Option Capability)}
      {origin : Option Capability} (split : definitions = before ++ d :: after)
      (earlier : Separate before) (fresh : d.name ∉ before.map (·.name))
      (attributes : d.inherited = front ++ (a, origin) :: back)
      (ahead : Attribute.AllTyped front) (unseen : a.name ∉ front.map (·.1.name)) :
      Reaches definitions d a

namespace Registry

/-- Definitions with a type that cannot be read do not compile, and the type is what is reported unless
something in front of it is. -/
theorem compile_malformed {origin : Option Capability} (defined : d ∈ definitions)
    (member : (a, origin) ∈ d.inherited) (declared : a.declaredType = some written)
    (malformed : bareType? written = none) :
    (∃ e, compile definitions = .error e) ∧
      (Catalogue.Reaches definitions d a → a.Optional →
        compile definitions = .error (.malformedType d.name a.name written)) := by
  constructor
  · cases h : compile definitions with
    | error e => exact ⟨e, rfl⟩
    | ok r =>
      obtain ⟨well, _⟩ := compile_eq_ok.mp h
      rw [Definition.inherited_eq] at member
      obtain ⟨bare, typed⟩ := (well.each d defined).attributes.types _ member
      obtain ⟨other, same, read⟩ := typed.declared
      rw [declared] at same
      obtain rfl := Option.some.inj same
      cases malformed.symm.trans read
  · rintro ⟨split, earlier, fresh, attributes, ahead, unseen⟩ optional
    rw [Definition.inherited_eq] at attributes
    rw [compile_eq_error]
    exact .refused split earlier fresh
      (.refused attributes ahead unseen (.malformed declared optional malformed))

end Registry

namespace TypeText

/-- An annotation with unbalanced brackets has no type name unless they stand in the path in front of a
name. Without one, no definition with the annotation compiles, and the annotation is what is reported
unless something in front of it is. -/
theorem bareType?_unbalanced (unbalanced : ¬ Balanced written.toList) :
    (bareType? written = none ↔ ¬ Strays written.toList) ∧
    (¬ Strays written.toList → ∀ (definitions : List Definition) (d : Definition) (a : Attribute)
      (origin : Option Capability), d ∈ definitions → (a, origin) ∈ d.inherited →
      a.declaredType = some written →
      (∃ e, Registry.compile definitions = .error e) ∧
        (Catalogue.Reaches definitions d a → a.Optional →
          Registry.compile definitions = .error (.malformedType d.name a.name written))) := by
  have reads := bareType?_eq_none unbalanced
  exact ⟨reads, fun inside _ _ _ _ defined member declared =>
    Registry.compile_malformed defined member declared (reads.mpr inside)⟩

def track (type : String) : Definition := ⟨"Track", "", [], [Attribute.optional "points" type ""], []⟩

theorem bareType?_unbalanced_list :
    ¬ Balanced "Vec<f64".toList ∧ bareType? "Vec<f64" = none ∧
      Registry.compile [track "Vec<f64"] = .error (.malformedType "Track" "points" "Vec<f64") := by
  have unbalanced : ¬ Balanced "Vec<f64".toList :=
    fun h => absurd h.count_angles (by decide)
  have none : bareType? "Vec<f64" = none := by
    rw [bareType?, unwrap?_eq]
    decide
  obtain ⟨reads, refuses⟩ := bareType?_unbalanced unbalanced
  obtain ⟨_, reports⟩ := refuses (reads.mp none) [track "Vec<f64"] (track "Vec<f64")
    (Attribute.optional "points" "Vec<f64" "") Option.none (by simp) (by decide) rfl
  have first : Catalogue.Reaches [track "Vec<f64"] (track "Vec<f64")
      (Attribute.optional "points" "Vec<f64" "") :=
    @Catalogue.Reaches.mk _ _ _ [] [] [] [] Option.none rfl ⟨List.nodup_nil, List.forall_mem_nil _⟩
      List.not_mem_nil rfl ⟨List.nodup_nil, List.forall_mem_nil _⟩ List.not_mem_nil
  exact ⟨unbalanced, none, reports first nofun⟩

/-- An opening bracket in a path is not noticed, and a class with the annotation compiles. -/
theorem bareType?_strayed :
    ¬ Balanced "Vec<types.Rgba".toList ∧ bareType? "Vec<types.Rgba" = some "Rgba" ∧
      ∃ r, Registry.compile [track "Vec<types.Rgba"] = .ok r := by
  refine ⟨fun h => absurd h.count_angles (by decide), ?_, ?_⟩
  · rw [bareType?, unwrap?_eq]
    decide
  · exact isOk_iff.mp (by decide +kernel)

end TypeText
end SceneDoc
