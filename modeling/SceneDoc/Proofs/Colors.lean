import SceneDoc.Proofs.Channels
import SceneDoc.Proofs.ColorFields
import SceneDoc.Proofs.ColorTexts
import SceneDoc.Proofs.Equality

namespace SceneDoc

inductive ChannelForm where
  | whole
  | fractional

namespace ChannelForm

def shape : ChannelForm → TupleShape
  | .whole => .rgba
  | .fractional => .rgbaf

def test : ChannelForm → Double → Bool
  | .whole => isByteChannel
  | .fractional => isUnitChannel

/-- The greatest channel, which is that of an opaque color. -/
def greatest : ChannelForm → Double
  | .whole => .ofInt 255
  | .fractional => .one

def accepts : ChannelForm → List Double → Bool
  | .whole => isRgba
  | .fractional => isRgbaf

def read : ChannelForm → List Double → Except ValueError Channels
  | .whole => rgbaChannels
  | .fractional => rgbafChannels

def refusal : ChannelForm → List Double → Reason
  | .whole => .rgbaChannels
  | .fractional => .rgbafChannels

def spelled : ChannelForm → List Double → ColorSpelling
  | .whole => .rgba
  | .fractional => .rgbaf

def color : ChannelForm → Channels → Color
  | .whole => .rgba
  | .fractional => .rgbaf

variable (form : ChannelForm) {xs : List Double} {c : Channels} {x : Double}

theorem test_greatest : form.test form.greatest = true := by
  cases form with
  | whole => exact isByteChannel_ofInt (Nat.le_refl 255)
  | fractional => exact isUnitChannel_one

theorem isFinite_of_test (h : form.test x = true) : x.isFinite = true := by
  cases form with
  | whole => exact Double.isFinite_of_isUpTo (isByteChannel_iff.mp h).2
  | fractional => exact Double.isFinite_of_isUpTo h

/-- The shape accepts four channels that pass the test. -/
theorem check_iff :
    form.shape.check xs = .ok () ↔ xs.length = 4 ∧ ∀ x ∈ xs, form.test x = true := by
  have arity : form.shape.arity = 4 := by cases form <;> rfl
  have domain : form.shape.Domain xs ↔ ∀ x ∈ xs, form.test x = true := by cases form <;> rfl
  rw [TupleShape.check_eq_ok]
  constructor
  · intro admits
    exact ⟨admits.length.trans arity, domain.mp admits.domain⟩
  · intro h
    obtain ⟨length, passes⟩ := h
    have finite (x : Double) (hx : x ∈ xs) := form.isFinite_of_test (passes x hx)
    exact ⟨length.trans arity.symm, finite, domain.mpr passes⟩

theorem accepts_iff :
    form.accepts xs = true ↔
      (xs.length = 3 ∨ xs.length = 4) ∧ ∀ x ∈ xs, form.test x = true := by
  cases form <;> simp [accepts, isRgba, isRgbaf, test]

theorem read_eq (xs : List Double) : form.read xs = (do
    let c ← Channels.ofList xs form.greatest
    if form.accepts c.toList then return c else .error (.invalid (form.refusal c.toList))) := by
  cases form <;> rfl

theorem resolve_spelled (xs : List Double) :
    (form.spelled xs).resolve = (form.read xs).map form.color := by
  cases form <;> rfl

end ChannelForm

/-- The channels that a list stands for: all four of them, or three in front of the greatest one. -/
inductive Channels.Stands (form : ChannelForm) : List Double → Channels → Prop
  | four (c : Channels) : Stands form c.toList c
  | three (red green blue : Double) :
      Stands form [red, green, blue] ⟨red, green, blue, form.greatest⟩

namespace Channels

variable {form : ChannelForm} {xs : List Double} {c : Channels}

theorem ofList_eq_ok : ofList xs form.greatest = .ok c ↔ Stands form xs c := by
  constructor
  · intro h
    unfold ofList at h
    split at h
    · cases h
      exact .three _ _ _
    · cases h
      exact .four ⟨_, _, _, _⟩
    · cases h
  · intro h
    cases h <;> rfl

theorem exists_stands : (∃ c, Stands form xs c) ↔ xs.length = 3 ∨ xs.length = 4 := by
  constructor
  · intro h
    obtain ⟨c, stands⟩ := h
    cases stands with
    | four c => exact .inr rfl
    | three red green blue => exact .inl rfl
  · intro h
    rcases h with three | four
    · obtain ⟨red, green, blue, rfl⟩ := List.length_eq_three.mp three
      exact ⟨_, .three red green blue⟩
    · obtain ⟨red, green, blue, alpha, rfl⟩ := List.length_eq_four.mp four
      exact ⟨_, .four ⟨red, green, blue, alpha⟩⟩

/-- The channel that is added passes every test that the form has. -/
theorem Stands.all_iff (stands : Stands form xs c) :
    (∀ x ∈ c.toList, form.test x = true) ↔ ∀ x ∈ xs, form.test x = true := by
  cases stands with
  | four c => rfl
  | three red green blue => simp [toList, form.test_greatest]

end Channels

namespace ChannelForm

variable {form : ChannelForm} {xs : List Double} {c : Channels}

theorem read_eq_ok :
    form.read xs = .ok c ↔ Channels.Stands form xs c ∧ ∀ x ∈ xs, form.test x = true := by
  have four : c.toList.length = 3 ∨ c.toList.length = 4 := .inr rfl
  rw [read_eq, bind_eq_ok]
  constructor
  · intro h
    obtain ⟨d, read, h⟩ := h
    split at h
    · rename_i accepted
      cases h
      have stands := Channels.ofList_eq_ok.mp read
      exact ⟨stands, stands.all_iff.mp (form.accepts_iff.mp accepted).2⟩
    · cases h
  · intro h
    obtain ⟨stands, passes⟩ := h
    refine ⟨c, Channels.ofList_eq_ok.mpr stands, ?_⟩
    rw [if_pos (form.accepts_iff.mpr ⟨four, stands.all_iff.mpr passes⟩)]
    rfl

/-- Three or four channels are read exactly if they are accepted. -/
theorem exists_read_iff (form : ChannelForm) :
    (∃ c, form.read xs = .ok c) ↔ form.accepts xs = true := by
  simp only [read_eq_ok, exists_and_right, Channels.exists_stands, accepts_iff]

end ChannelForm

namespace Color

def form : Color → ChannelForm
  | .rgba _ => .whole
  | .rgbaf _ => .fractional

def channels : Color → Channels
  | .rgba c => c
  | .rgbaf c => c

@[simp] theorem form_color (form : ChannelForm) (c : Channels) : (form.color c).form = form := by
  cases form <;> rfl

@[simp] theorem channels_color (form : ChannelForm) (c : Channels) :
    (form.color c).channels = c := by
  cases form <;> rfl

def Valid (color : Color) : Prop := ∀ x ∈ color.channels.toList, color.form.test x = true

theorem valid_ofBytes {r g b a : Nat} (hr : r ≤ 255) (hg : g ≤ 255) (hb : b ≤ 255) (ha : a ≤ 255) :
    (ofBytes r g b a).Valid := by
  simp only [Valid, ofBytes, channels, form, Channels.toList, ChannelForm.test,
    List.forall_mem_cons]
  exact ⟨isByteChannel_ofInt hr, isByteChannel_ofInt hg, isByteChannel_ofInt hb,
    isByteChannel_ofInt ha, by simp⟩

theorem valid_ofRgb (n : Nat) : (ofRgb n).Valid :=
  valid_ofBytes (by omega) (by omega) (by omega) (by omega)

theorem valid_ofRgbAlpha (n : Nat) : (ofRgbAlpha n).Valid :=
  valid_ofBytes (by omega) (by omega) (by omega) (by omega)

end Color

namespace ColorSpelling

variable {form : ChannelForm} {xs : List Double} {spelling : ColorSpelling} {color : Color}

theorem valid_of_spelled (form : ChannelForm) (h : (form.spelled xs).resolve = .ok color) :
    color.Valid := by
  rw [form.resolve_spelled, map_eq_ok] at h
  obtain ⟨c, read, rfl⟩ := h
  obtain ⟨stands, passes⟩ := ChannelForm.read_eq_ok.mp read
  cases form <;> exact stands.all_iff.mpr passes

/-- Whatever a spelling resolves to has channels that pass the test of their form. -/
theorem valid_of_resolve (h : spelling.resolve = .ok color) : color.Valid := by
  cases spelling with
  | rgba xs => exact valid_of_spelled .whole h
  | rgbaf xs => exact valid_of_spelled .fractional h
  | packed p =>
    rw [resolve_packed] at h
    cases h
    split
    · exact Color.valid_ofRgb p.toNat
    · exact Color.valid_ofRgbAlpha p.toNat
  | text s =>
    rcases resolveText_cases s with ⟨n, _, _, found⟩ | ⟨n, _, _, found⟩ | ⟨n, _, found⟩ | ⟨_, found⟩
    · cases h.symm.trans found
      exact Color.valid_ofRgb n
    · cases h.symm.trans found
      exact Color.valid_ofRgbAlpha n
    · cases h.symm.trans found
      exact Color.valid_ofRgb n
    · cases h.symm.trans found

theorem exists_resolve_spelled :
    (∃ color, (form.spelled xs).resolve = .ok color) ↔ form.accepts xs = true := by
  simp only [form.resolve_spelled, map_eq_ok, ← ChannelForm.exists_read_iff]
  constructor
  · intro h
    obtain ⟨color, c, read, _⟩ := h
    exact ⟨c, read⟩
  · intro h
    obtain ⟨c, read⟩ := h
    exact ⟨form.color c, c, read, rfl⟩

/-- Four channels stand for themselves. -/
theorem resolve_four {c : Channels} (passes : ∀ x ∈ c.toList, form.test x = true) :
    (form.spelled c.toList).resolve = .ok (form.color c) := by
  rw [form.resolve_spelled, ChannelForm.read_eq_ok.mpr ⟨.four c, passes⟩]
  rfl

theorem isValid_iff : spelling.isValid = true ↔ ∃ color, spelling.resolve = .ok color := by
  unfold isValid
  cases spelling.resolve <;> simp

end ColorSpelling

namespace Registry

variable {r : Registry} {c : ValueClass} {f : Field} {form : ChannelForm} {xs : List Double}
  {spelling : ColorSpelling} {resolved : Color} {o : Object}

theorem color_of_resolve (h : spelling.resolve = .ok resolved) : r.color spelling =
    r.build "Color" [(resolved.form.shape.key, .numbers resolved.channels.toList)] := by
  rw [color, h]
  cases resolved <;> rfl

theorem color_of_refusal {e : ValueError} (h : spelling.resolve = .error e) :
    r.color spelling = .error (.refused "Color" "rgba" e) := by
  rw [color, h]

theorem HasColors.holds (colors : r.HasColors c) (form : ChannelForm) :
    ∃ f, c.Holds form.shape f := by
  cases form with
  | whole => exact colors.whole
  | fractional => exact colors.fractional

/-- Four channels are built into an object exactly if they pass the test of their form. -/
theorem HasColors.build_numbers (colors : r.HasColors c) (holds : c.Holds form.shape f)
    (four : xs.length = 4) :
    r.build "Color" [(form.shape.key, .numbers xs)] = .ok o ↔
      (∀ x ∈ xs, form.test x = true) ∧ o = c.single f (.samples (.constant xs)) := by
  have arity : xs.length = form.shape.arity := by cases form <;> exact four
  rw [colors.build_eq holds, holds.single.build_eq_ok_iff, holds.convert_numbers arity]
  simp only [check_map_eq_ok, form.check_iff, four, true_and, and_assoc, exists_and_left,
    exists_eq_left']

theorem HasColors.exists_color (colors : r.HasColors c) (h : spelling.resolve = .ok resolved) :
    ∃ o, r.color spelling = .ok o := by
  obtain ⟨f, holds⟩ := colors.holds resolved.form
  rw [color_of_resolve h]
  exact ⟨_, (colors.build_numbers holds rfl).mpr ⟨ColorSpelling.valid_of_resolve h, rfl⟩⟩

/-- Objects of plain numbers are equal to themselves, since the numbers are finite. -/
theorem equals_of_build_numbers {cls name : String}
    (h : r.build cls [(name, .numbers xs)] = .ok o) : o.equals o = true := by
  have built : r.Built (fun _ => True) o := by
    refine .build (fun e he x hx => ?_) (fun _ _ _ _ => trivial) h
    cases List.mem_singleton.mp he
    simp [Input.objects, Input.parts] at hx
  exact (Value.equals_lawful (r := r) (.object o)).refl
    ⟨built.canonical.belongsTo, built.canonical.allFinite⟩

/-- For the standard catalogue, a spelling is valid exactly if a color object can be built from it, and
channels are read exactly if they are accepted, three of them like four that end in the greatest one.
Whatever resolves is accepted by the shape of its field, and four channels resolve exactly if the field
takes them, which gives the same object with nothing else set. -/
theorem color_iff_valid : ∃ r, standard = .ok r ∧
    (∀ spelling : ColorSpelling, spelling.isValid = true ↔ ∃ o, r.color spelling = .ok o) ∧
    (∀ xs, ((∃ c, rgbaChannels xs = .ok c) ↔ isRgba xs = true) ∧
      ((∃ c, rgbafChannels xs = .ok c) ↔ isRgbaf xs = true)) ∧
    (∀ red green blue : Double,
      (ColorSpelling.rgba [red, green, blue]).resolve =
        (ColorSpelling.rgba [red, green, blue, .ofInt 255]).resolve ∧
      (ColorSpelling.rgbaf [red, green, blue]).resolve =
        (ColorSpelling.rgbaf [red, green, blue, .one]).resolve) ∧
    (∀ (spelling : ColorSpelling) (color : Color), spelling.resolve = .ok color →
      color.form.shape.check color.channels.toList = .ok ()) ∧
    ∀ (form : ChannelForm) (xs : List Double), xs.length = 4 →
      ((∃ color, (form.spelled xs).resolve = .ok color) ↔
        ∃ o, r.build "Color" [(form.shape.key, .numbers xs)] = .ok o) ∧
      ∀ o, r.build "Color" [(form.shape.key, .numbers xs)] = .ok o →
        r.color (form.spelled xs) = .ok o ∧ o.equals o = true ∧
        ∃ f, f.name = form.shape.key ∧ o.entries = [(f, .samples (.constant xs))] := by
  obtain ⟨r, c, compiled, colors⟩ := exists_standard_colors
  refine ⟨r, compiled, fun spelling => ⟨fun valid => ?_, ?_⟩, fun xs => ?_,
    fun red green blue => ⟨rfl, rfl⟩, fun spelling color h => ?_, fun form xs four => ⟨?_, ?_⟩⟩
  · obtain ⟨color, h⟩ := ColorSpelling.isValid_iff.mp valid
    exact colors.exists_color h
  · intro h
    obtain ⟨o, built⟩ := h
    cases h : spelling.resolve with
    | error e => cases (color_of_refusal h).symm.trans built
    | ok color => exact ColorSpelling.isValid_iff.mpr ⟨color, h⟩
  · exact ⟨ChannelForm.exists_read_iff .whole,
      ChannelForm.exists_read_iff .fractional⟩
  · exact color.form.check_iff.mpr ⟨rfl, ColorSpelling.valid_of_resolve h⟩
  · obtain ⟨f, holds⟩ := colors.holds form
    simp only [ColorSpelling.exists_resolve_spelled, form.accepts_iff, four,
      colors.build_numbers holds four, exists_and_left, exists_eq, and_true, or_true, true_and]
  · intro o built
    obtain ⟨f, holds⟩ := colors.holds form
    obtain ⟨passes, rfl⟩ := (colors.build_numbers holds four).mp built
    obtain ⟨red, green, blue, alpha, rfl⟩ := List.length_eq_four.mp four
    have resolved := ColorSpelling.resolve_four (c := ⟨red, green, blue, alpha⟩) passes
    refine ⟨?_, equals_of_build_numbers built, f, holds.name, holds.single.entries_single _⟩
    have same := color_of_resolve (r := r) resolved
    rw [Color.form_color, Color.channels_color] at same
    exact same.trans built

/-- Opaque white, given as a color and as the channels of a field. -/
theorem color_iff_valid_white : ∃ r o, standard = .ok r ∧
    r.color (.rgba (List.replicate 4 (.ofInt 255))) = .ok o ∧
    r.build "Color" [("rgba", .numbers (List.replicate 4 (.ofInt 255)))] = .ok o ∧
    o.equals o = true := by
  have accepted : isRgba (List.replicate 4 (.ofInt 255)) = true := by decide +kernel
  obtain ⟨r, compiled, _, _, _, _, builds⟩ := color_iff_valid
  obtain ⟨exactly, same⟩ := builds .whole _ List.length_replicate
  obtain ⟨o, built⟩ := exactly.mp (ColorSpelling.exists_resolve_spelled.mpr accepted)
  obtain ⟨given, equal, _⟩ := same o built
  exact ⟨r, o, compiled, given, built, equal⟩

end Registry
end SceneDoc
