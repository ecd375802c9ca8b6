import SceneDoc.Proofs.Channels
import SceneDoc.Proofs.Hexadecimals
import SceneDoc.Proofs.Slots
import SceneDoc.Proofs.Trimming

namespace SceneDoc

-- Powers are those of the core library, also where more algebra is in scope.
attribute [local instance (high)] instPowNat

variable {s : String} {core marker digits : List Char} {c : Color} {n r g b a : Nat}

inductive IsMarker : List Char → Prop
  | none : IsMarker []
  | sharp : IsMarker ['#']

/-- A color of whole channels, which are these four bytes. -/
inductive Color.IsBytes (r g b a : Nat) : Color → Prop
  | mk {w x y z : Double} (red : w.IsNat r) (green : x.IsNat g) (blue : y.IsNat b)
      (alpha : z.IsNat a) : IsBytes r g b a (.rgba ⟨w, x, y, z⟩)

inductive Color.Named : String → Nat → Nat → Nat → Prop
  | black : Named "black" 0 0 0
  | silver : Named "silver" 192 192 192
  | gray : Named "gray" 128 128 128
  | grey : Named "grey" 128 128 128
  | white : Named "white" 255 255 255
  | maroon : Named "maroon" 128 0 0
  | red : Named "red" 255 0 0
  | purple : Named "purple" 128 0 128
  | fuchsia : Named "fuchsia" 255 0 255
  | green : Named "green" 0 128 0
  | lime : Named "lime" 0 255 0
  | olive : Named "olive" 128 128 0
  | yellow : Named "yellow" 255 255 0
  | navy : Named "navy" 0 0 128
  | blue : Named "blue" 0 0 255
  | teal : Named "teal" 0 128 128
  | aqua : Named "aqua" 0 255 255
  | orange : Named "orange" 255 165 0

/-- The spellings of a color, with nothing around them. Six digits and names are opaque. -/
inductive Color.Spelled : List Char → Color → Prop
  | rgb {marker digits : List Char} {r g b : Nat} {c : Color} (optional : IsMarker marker)
      (bytes : HexBytes digits [r, g, b]) (channels : c.IsBytes r g b 255) :
      Spelled (marker ++ digits) c
  | rgbAlpha {marker digits : List Char} {r g b a : Nat} {c : Color} (optional : IsMarker marker)
      (bytes : HexBytes digits [r, g, b, a]) (channels : c.IsBytes r g b a) :
      Spelled (marker ++ digits) c
  | name {text : List Char} {name : String} {r g b : Nat} {c : Color} (named : Named name r g b)
      (folded : text.map Char.toLower = name.toList) (channels : c.IsBytes r g b 255) :
      Spelled text c

def unmarked (core : List Char) : List Char := (dropStart? ['#'] core).getD core

theorem unmarked_sharp (cs : List Char) : unmarked ('#' :: cs) = cs := by
  simp [unmarked, dropStart?]

theorem unmarked_of_ne (other : ∀ c ∈ core.head?, c ≠ '#') : unmarked core = core := by
  cases core with
  | nil => rfl
  | cons c cs =>
    have hc : '#' ≠ c := (other c rfl).symm
    simp [unmarked, dropStart?, hc]

theorem exists_marker (core : List Char) :
    ∃ marker, IsMarker marker ∧ core = marker ++ unmarked core := by
  cases core with
  | nil => exact ⟨[], .none, rfl⟩
  | cons c cs =>
    by_cases hc : c = '#'
    · subst hc
      exact ⟨['#'], .sharp, by rw [unmarked_sharp]; rfl⟩
    · refine ⟨[], .none, ?_⟩
      rw [unmarked_of_ne (by simpa using hc), List.nil_append]

theorem not_isHexDigit_sharp (v : Nat) : ¬ IsHexDigit '#' v := by
  intro h
  have digit : hexDigit? '#' = none := by decide
  rw [hexDigit?_eq_some.mpr h] at digit
  cases digit

theorem unmarked_append (optional : IsMarker marker) (hex : ∀ c ∈ digits, ∃ v, IsHexDigit c v) :
    unmarked (marker ++ digits) = digits := by
  cases optional with
  | none =>
    refine unmarked_of_ne fun c hc sharp => ?_
    obtain ⟨v, digit⟩ := hex c (List.mem_of_mem_head? hc)
    exact not_isHexDigit_sharp v (sharp ▸ digit)
  | sharp => exact unmarked_sharp digits

theorem IsMarker.visible (h : IsMarker marker) : ∀ c ∈ marker, isBlank c = false := by
  cases h with
  | none => nofun
  | sharp => exact List.forall_mem_singleton.mpr (by decide)

theorem visible_append (optional : IsMarker marker) (hex : ∀ c ∈ digits, ∃ v, IsHexDigit c v) :
    ∀ c ∈ marker ++ digits, isBlank c = false := by
  intro c hc
  rcases List.mem_append.mp hc with mark | digit
  · exact optional.visible c mark
  · obtain ⟨v, digit⟩ := hex c digit
    exact digit.not_blank

theorem Encloses.trim_eq_of_visible {text : List Char} (h : Encloses text core)
    (visible : ∀ c ∈ core, isBlank c = false) : trim text = core :=
  h.trim_eq (fun c hc => visible c (List.mem_of_mem_head? hc))
    fun c hc => visible c (List.mem_of_mem_getLast? hc)

namespace Color

theorem isBytes_ofBytes (hr : r < 256) (hg : g < 256) (hb : b < 256) (ha : a < 256) :
    c.IsBytes r g b a ↔ c = .ofBytes r g b a := by
  have whole {n : Nat} (small : n < 256) : (Double.ofInt n).IsNat n :=
    Double.isNat_ofInt (Nat.le_trans (Nat.le_of_lt small) (by decide))
  constructor
  · intro h
    obtain ⟨red, green, blue, alpha⟩ := h
    rw [ofBytes, ← red.unique (whole hr), ← green.unique (whole hg), ← blue.unique (whole hb),
      ← alpha.unique (whole ha)]
  · rintro rfl
    exact .mk (whole hr) (whole hg) (whole hb) (whole ha)

theorem isBytes_ofRgb (hr : r < 256) (hg : g < 256) (hb : b < 256) :
    c.IsBytes r g b 255 ↔ c = .ofRgb ((r * 256 + g) * 256 + b) := by
  have unpacked : ofRgb ((r * 256 + g) * 256 + b) = ofBytes r g b 255 := by
    unfold ofRgb
    congr 1 <;> omega
  rw [isBytes_ofBytes hr hg hb (by decide), unpacked]

theorem isBytes_ofRgbAlpha (hr : r < 256) (hg : g < 256) (hb : b < 256) (ha : a < 256) :
    c.IsBytes r g b a ↔ c = .ofRgbAlpha (((r * 256 + g) * 256 + b) * 256 + a) := by
  have unpacked : ofRgbAlpha (((r * 256 + g) * 256 + b) * 256 + a) = ofBytes r g b a := by
    unfold ofRgbAlpha
    congr 1 <;> omega
  rw [isBytes_ofBytes hr hg hb ha, unpacked]

/-- Three bytes are unpacked from the number that they spell. -/
theorem exists_packed_of_rgb (bytes : HexBytes digits [r, g, b]) :
    ∃ n, hexNumber? digits = some n ∧ ∀ c : Color, c.IsBytes r g b 255 ↔ c = .ofRgb n := by
  have small := bytes.lt
  simp only [List.mem_cons, List.not_mem_nil, or_false, forall_eq_or_imp, forall_eq] at small
  obtain ⟨hr, hg, hb⟩ := small
  have read := bytes.hexNumber?_eq
  rw [List.foldl_cons, Nat.zero_mul, Nat.zero_add] at read
  exact ⟨_, read, fun c => isBytes_ofRgb hr hg hb⟩

theorem exists_packed_of_rgbAlpha (bytes : HexBytes digits [r, g, b, a]) :
    ∃ n, hexNumber? digits = some n ∧ ∀ c : Color, c.IsBytes r g b a ↔ c = .ofRgbAlpha n := by
  have small := bytes.lt
  simp only [List.mem_cons, List.not_mem_nil, or_false, forall_eq_or_imp, forall_eq] at small
  obtain ⟨hr, hg, hb, ha⟩ := small
  have read := bytes.hexNumber?_eq
  rw [List.foldl_cons, Nat.zero_mul, Nat.zero_add] at read
  exact ⟨_, read, fun c => isBytes_ofRgbAlpha hr hg hb ha⟩

/-- Six digits that are read as a number spell its three bytes. -/
theorem Spelled.of_six (optional : IsMarker marker) (length : digits.length = 6)
    (read : hexNumber? digits = some n) : Spelled (marker ++ digits) (.ofRgb n) := by
  obtain ⟨bs, bytes, three⟩ := exists_hexBytes (k := 3) (digits_of_hexNumber? read) length
  obtain ⟨r, g, b, rfl⟩ := List.length_eq_three.mp three
  obtain ⟨m, hm, channels⟩ := exists_packed_of_rgb bytes
  obtain rfl := Option.some.inj (read.symm.trans hm)
  exact .rgb optional bytes ((channels _).mpr rfl)

theorem Spelled.of_eight (optional : IsMarker marker) (length : digits.length = 8)
    (read : hexNumber? digits = some n) : Spelled (marker ++ digits) (.ofRgbAlpha n) := by
  obtain ⟨bs, bytes, four⟩ := exists_hexBytes (k := 4) (digits_of_hexNumber? read) length
  obtain ⟨r, g, b, a, rfl⟩ := List.length_eq_four.mp four
  obtain ⟨m, hm, channels⟩ := exists_packed_of_rgbAlpha bytes
  obtain rfl := Option.some.inj (read.symm.trans hm)
  exact .rgbAlpha optional bytes ((channels _).mpr rfl)

/-- The table packs what the names stand for. -/
theorem Named.packed {name : String} (h : Named name r g b) :
    (name, (r * 256 + g) * 256 + b) ∈ named ∧ r < 256 ∧ g < 256 ∧ b < 256 := by
  cases h <;> decide

theorem exists_named : ∀ e ∈ named, ∃ r g b, Named e.1 r g b ∧ e.2 = (r * 256 + g) * 256 + b := by
  simp only [named, List.forall_mem_cons]
  exact ⟨⟨_, _, _, .black, rfl⟩, ⟨_, _, _, .silver, rfl⟩, ⟨_, _, _, .gray, rfl⟩,
    ⟨_, _, _, .grey, rfl⟩, ⟨_, _, _, .white, rfl⟩, ⟨_, _, _, .maroon, rfl⟩, ⟨_, _, _, .red, rfl⟩,
    ⟨_, _, _, .purple, rfl⟩, ⟨_, _, _, .fuchsia, rfl⟩, ⟨_, _, _, .green, rfl⟩,
    ⟨_, _, _, .lime, rfl⟩, ⟨_, _, _, .olive, rfl⟩, ⟨_, _, _, .yellow, rfl⟩, ⟨_, _, _, .navy, rfl⟩,
    ⟨_, _, _, .blue, rfl⟩, ⟨_, _, _, .teal, rfl⟩, ⟨_, _, _, .aqua, rfl⟩, ⟨_, _, _, .orange, rfl⟩,
    List.forall_mem_nil _⟩

end Color

/-- Names are letters only: no number, no mark, no white space. -/
structure Color.IsName (name : List Char) : Prop where
  unread : hexNumber? name = none
  visible : ∀ c ∈ name, isBlank c = false
  plain : '#' ∉ name

theorem Color.named_nodup : (named.map (·.1)).Nodup := by decide

theorem Color.isName_of_named {name : String} (known : (name, n) ∈ Color.named) :
    Color.IsName name.toList := by
  have unread : ∀ e ∈ named, hexNumber? e.1.toList = none := by decide
  have visible : ∀ e ∈ named, e.1.toList.all (isBlank · == false) = true := by decide
  have plain : ∀ e ∈ named, '#' ∉ e.1.toList := by decide
  exact ⟨unread _ known, by simpa using visible _ known, plain _ known⟩

namespace ColorSpelling

/-- What a text can resolve to, by what is left of it once it is trimmed. -/
theorem resolveText_cases (s : String) :
    (∃ n, (unmarked (trim s.toList)).length = 6 ∧ hexNumber? (unmarked (trim s.toList)) = some n ∧
      resolveText s = .ok (.ofRgb n)) ∨
    (∃ n, (unmarked (trim s.toList)).length = 8 ∧ hexNumber? (unmarked (trim s.toList)) = some n ∧
      resolveText s = .ok (.ofRgbAlpha n)) ∨
    (∃ n, Color.named.lookup (String.ofList ((trim s.toList).map Char.toLower)) = some n ∧
      resolveText s = .ok (.ofRgb n)) ∨
    (Color.named.lookup (String.ofList ((trim s.toList).map Char.toLower)) = none ∧
      resolveText s = .error (.invalid (.notColor s))) := by
  unfold resolveText
  dsimp only
  split
  · rename_i n length read
    exact .inl ⟨n, length, read, rfl⟩
  · rename_i n length read
    exact .inr (.inl ⟨n, length, read, rfl⟩)
  · split
    · rename_i n known
      exact .inr (.inr (.inl ⟨n, known, rfl⟩))
    · rename_i unknown
      exact .inr (.inr (.inr ⟨unknown, rfl⟩))

theorem resolveText_six (length : (unmarked (trim s.toList)).length = 6)
    (read : hexNumber? (unmarked (trim s.toList)) = some n) : resolveText s = .ok (.ofRgb n) := by
  unfold unmarked at length read
  unfold resolveText
  dsimp only
  rw [length, read]
  rfl

theorem resolveText_eight (length : (unmarked (trim s.toList)).length = 8)
    (read : hexNumber? (unmarked (trim s.toList)) = some n) :
    resolveText s = .ok (.ofRgbAlpha n) := by
  unfold unmarked at length read
  unfold resolveText
  dsimp only
  rw [length, read]
  rfl

theorem resolveText_name (unread : hexNumber? (unmarked (trim s.toList)) = none)
    (known : Color.named.lookup (String.ofList ((trim s.toList).map Char.toLower)) = some n) :
    resolveText s = .ok (.ofRgb n) := by
  rcases resolveText_cases s with ⟨m, _, read, _⟩ | ⟨m, _, read, _⟩ | ⟨m, found, h⟩ | ⟨unknown, _⟩
  · simp [unread] at read
  · simp [unread] at read
  · rw [h, Option.some.inj (found.symm.trans known)]
  · simp [known] at unknown

theorem spelled_of_resolveText (h : resolveText s = .ok c) :
    Color.Spelled (trim s.toList) c := by
  obtain ⟨marker, optional, whole⟩ := exists_marker (trim s.toList)
  rcases resolveText_cases s with ⟨n, length, read, found⟩ | ⟨n, length, read, found⟩ |
    ⟨n, known, found⟩ | ⟨_, found⟩
  case inl =>
    obtain rfl := Except.ok.inj (h.symm.trans found)
    rw [whole]
    exact .of_six optional length read
  case inr.inl =>
    obtain rfl := Except.ok.inj (h.symm.trans found)
    rw [whole]
    exact .of_eight optional length read
  case inr.inr.inl =>
    obtain rfl := Except.ok.inj (h.symm.trans found)
    have mem := (lookup_eq_some_iff Color.named_nodup).mp known
    obtain ⟨r, g, b, named, rfl⟩ := Color.exists_named _ mem
    obtain ⟨_, hr, hg, hb⟩ := named.packed
    exact .name named String.toList_ofList.symm ((Color.isBytes_ofRgb hr hg hb).mpr rfl)
  case inr.inr.inr => cases h.symm.trans found

theorem unmarked_trim (around : Encloses s.toList (marker ++ digits)) (optional : IsMarker marker)
    (hex : ∀ c ∈ digits, ∃ v, IsHexDigit c v) : unmarked (trim s.toList) = digits := by
  rw [around.trim_eq_of_visible (visible_append optional hex), unmarked_append optional hex]

theorem resolveText_of_name {name : String} (around : Encloses s.toList core)
    (known : (name, n) ∈ Color.named) (folded : core.map Char.toLower = name.toList) :
    resolveText s = .ok (.ofRgb n) := by
  obtain ⟨unread, visible, plain⟩ := Color.isName_of_named known
  have lower : ∀ c ∈ core, c.toLower ∈ name.toList := fun c hc =>
    folded ▸ List.mem_map_of_mem hc
  have trimmed : trim s.toList = core := around.trim_eq_of_visible fun c hc => by
    rw [← isBlank_toLower]
    exact visible _ (lower c hc)
  have unmarked : unmarked (trim s.toList) = core := by
    rw [trimmed]
    refine unmarked_of_ne fun c hc sharp => plain ?_
    have mem := lower c (List.mem_of_mem_head? hc)
    rwa [sharp] at mem
  refine resolveText_name ?_ ?_
  · rw [unmarked, ← hexNumber?_toLower, folded, unread]
  · rw [trimmed, folded, String.ofList_toList]
    exact (lookup_eq_some_iff Color.named_nodup).mpr known

theorem resolveText_of_spelled (around : Encloses s.toList core) (spelled : Color.Spelled core c) :
    resolveText s = .ok c := by
  cases spelled with
  | rgb optional bytes channels =>
    have digits := unmarked_trim around optional bytes.digits
    obtain ⟨n, read, packed⟩ := Color.exists_packed_of_rgb bytes
    rw [(packed c).mp channels]
    exact resolveText_six (digits ▸ bytes.length) (digits ▸ read)
  | rgbAlpha optional bytes channels =>
    have digits := unmarked_trim around optional bytes.digits
    obtain ⟨n, read, packed⟩ := Color.exists_packed_of_rgbAlpha bytes
    rw [(packed c).mp channels]
    exact resolveText_eight (digits ▸ bytes.length) (digits ▸ read)
  | name named folded channels =>
    obtain ⟨known, hr, hg, hb⟩ := named.packed
    rw [(Color.isBytes_ofRgb hr hg hb).mp channels]
    exact resolveText_of_name around known folded

theorem resolveText_eq_error {e : ValueError} (h : resolveText s = .error e) :
    e = .invalid (.notColor s) := by
  rcases resolveText_cases s with ⟨_, _, _, found⟩ | ⟨_, _, _, found⟩ | ⟨_, _, found⟩ | ⟨_, found⟩
  · cases h.symm.trans found
  · cases h.symm.trans found
  · cases h.symm.trans found
  · exact Except.error.inj (h.symm.trans found)

/-- The digits of a packed integer: six of them, or eight if it has an alpha byte. -/
def packedDigits (p : UInt32) : List Char :=
  (Nat.toDigits 16 p.toNat).leftpad (if p.toNat ≤ 0xFFFFFF then 6 else 8) '0'

theorem hexNumber?_packedDigits (p : UInt32) : hexNumber? (packedDigits p) = some p.toNat := by
  rw [packedDigits, hexNumber?_leftpad, hexNumber?_toDigits]

theorem length_packedDigits (p : UInt32) :
    (packedDigits p).length = if p.toNat ≤ 0xFFFFFF then 6 else 8 := by
  have width : (Nat.toDigits 16 p.toNat).length ≤ if p.toNat ≤ 0xFFFFFF then 6 else 8 := by
    split
    · rename_i small
      exact (Nat.length_toDigits_le_iff (by decide) (by decide)).mpr (by omega)
    · exact (Nat.length_toDigits_le_iff (by decide) (by decide)).mpr p.toNat_lt
  rw [packedDigits, List.length_leftpad]
  exact Nat.max_eq_left width

theorem resolve_packed (p : UInt32) : (packed p).resolve =
    .ok (if p.toNat ≤ 0xFFFFFF then .ofRgb p.toNat else .ofRgbAlpha p.toNat) := by
  simp only [resolve, ← Nat.not_le, ite_not]
  exact (apply_ite Except.ok _ _ _).symm

theorem resolveText_packedDigits {p : UInt32} (around : Encloses s.toList (marker ++ digits))
    (optional : IsMarker marker) (folded : digits.map Char.toLower = packedDigits p) :
    resolveText s = .ok (if p.toNat ≤ 0xFFFFFF then .ofRgb p.toNat else .ofRgbAlpha p.toNat) := by
  have read : hexNumber? digits = some p.toNat := by
    rw [← hexNumber?_toLower, folded, hexNumber?_packedDigits]
  have length : digits.length = if p.toNat ≤ 0xFFFFFF then 6 else 8 := by
    rw [← length_packedDigits, ← folded, List.length_map]
  have rest := unmarked_trim around optional (digits_of_hexNumber? read)
  split
  · rename_i small
    rw [if_pos small] at length
    exact resolveText_six (rest ▸ length) (rest ▸ read)
  · rename_i large
    rw [if_neg large] at length
    exact resolveText_eight (rest ▸ length) (rest ▸ read)

/-- A text resolves if and only if it is a spelling with white space around it. What does not is refused
as no color, also where it has digits, since six or eight of them fit a packed integer. The digits of a
packed integer resolve like the integer, in either case and behind a mark or not. -/
theorem resolve_text_iff_spelled :
    (∀ (s : String) (c : Color),
      (text s).resolve = .ok c ↔ ∃ core, Encloses s.toList core ∧ Color.Spelled core c) ∧
    (∀ (s : String) (e : ValueError), (text s).resolve = .error e → e = .invalid (.notColor s)) ∧
    (∀ digits : List Char, (∀ c ∈ digits, ∃ v, IsHexDigit c v) →
      digits.length = 6 ∨ digits.length = 8 → ∃ n < UInt32.size, hexNumber? digits = some n) ∧
    ∀ (p : UInt32) (s : String) (marker digits : List Char), IsMarker marker →
      digits.map Char.toLower = packedDigits p → Encloses s.toList (marker ++ digits) →
      (text s).resolve = (packed p).resolve ∧ ∃ c, (packed p).resolve = .ok c := by
  refine ⟨fun s c => ⟨fun h => ?_, ?_⟩, fun s e h => ?_, fun digits hex length => ?_, ?_⟩
  · exact ⟨trim s.toList, encloses_trim s.toList, spelled_of_resolveText h⟩
  · intro h
    obtain ⟨core, around, spelled⟩ := h
    exact resolveText_of_spelled around spelled
  · exact resolveText_eq_error h
  · obtain ⟨n, small, read⟩ := exists_hexNumber? hex
    have short : digits.length ≤ 8 := by omega
    have fits : 16 ^ digits.length ≤ UInt32.size := Nat.pow_le_pow_right (by decide) short
    exact ⟨n, Nat.lt_of_lt_of_le small fits, read⟩
  · intro p s marker digits optional folded around
    refine ⟨?_, _, resolve_packed p⟩
    rw [resolve_packed]
    exact resolveText_packedDigits around optional folded

/-- Eight digits in both cases, with white space around them. -/
theorem resolve_text_eight_digits :
    (text " #80Ffa500\n").resolve = (packed 0x80FFA500).resolve ∧
      ∃ c, (text " #80Ffa500\n").resolve = .ok c ∧ c.IsBytes 128 255 165 0 := by
  let digits := ['8', '0', 'F', 'f', 'a', '5', '0', '0']
  have split : " #80Ffa500\n".toList = [' '] ++ ((['#'] ++ digits) ++ ['\n']) := by decide
  have front : ∀ c ∈ [' '], isBlank c = true := List.forall_mem_singleton.mpr (by decide)
  have back : ∀ c ∈ ['\n'], isBlank c = true := List.forall_mem_singleton.mpr (by decide)
  have folded : digits.map Char.toLower = packedDigits 0x80FFA500 := by decide
  have digit {c : Char} {v : Nat} (h : hexDigit? c = some v) : IsHexDigit c v :=
    hexDigit?_eq_some.mp h
  have bytes : HexBytes digits [16 * 8 + 0, 16 * 15 + 15, 16 * 10 + 5, 16 * 0 + 0] :=
    .cons (digit rfl) (digit rfl) (.cons (digit rfl) (digit rfl) (.cons (digit rfl) (digit rfl)
      (.cons (digit rfl) (digit rfl) .nil)))
  have channels := (Color.isBytes_ofBytes (r := 128) (g := 255) (b := 165) (a := 0)
    (by decide) (by decide) (by decide) (by decide)).mpr rfl
  refine ⟨(resolve_text_iff_spelled.2.2.2 _ _ _ _ .sharp folded (.mk split front back)).1, _, ?_,
    channels⟩
  exact (resolve_text_iff_spelled.1 _ _).mpr
    ⟨_, .mk split front back, .rgbAlpha .sharp bytes channels⟩

end ColorSpelling
end SceneDoc
