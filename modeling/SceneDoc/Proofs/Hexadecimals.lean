import Mathlib.Data.List.Induction
import SceneDoc.Proofs.Characters
import SceneDoc.Text.Hexadecimal

namespace SceneDoc

-- Powers are those of the core library, also where more algebra is in scope.
attribute [local instance (high)] instPowNat

variable {c : Char} {v n k : Nat} {cs : List Char} {bs : List Nat}

/-- A digit in either case, and its value. -/
def IsHexDigit (c : Char) (v : Nat) : Prop := v < 16 ∧ c.toLower = v.digitChar

theorem toNat_lt_of_hexDigit? (h : hexDigit? c = some v) : c.toNat < 128 := by
  unfold hexDigit? at h
  split at h
  · rename_i digit
    exact toNat_lt_of_le digit.2 (by decide)
  · split at h
    · rename_i lower
      exact toNat_lt_of_le lower.2 (by decide)
    · split at h
      · rename_i upper
        exact toNat_lt_of_le upper.2 (by decide)
      · cases h

theorem hexDigit?_toLower (c : Char) : hexDigit? c.toLower = hexDigit? c := by
  rcases toLower_eq_or_lt c with same | ascii
  · rw [same]
  · have each : ∀ n < 128, hexDigit? (Char.ofNat n).toLower = hexDigit? (Char.ofNat n) := by decide
    exact of_ascii (P := fun c => hexDigit? c.toLower = hexDigit? c) each ascii

theorem hexDigit?_digitChar : ∀ v < 16, hexDigit? v.digitChar = some v := by decide

theorem hexDigit?_eq_some : hexDigit? c = some v ↔ IsHexDigit c v := by
  constructor
  · intro h
    have each : ∀ n < 128, ∀ v ∈ hexDigit? (Char.ofNat n), IsHexDigit (Char.ofNat n) v := by
      unfold IsHexDigit
      decide
    exact of_ascii (P := fun c => ∀ v ∈ hexDigit? c, IsHexDigit c v) each
      (toNat_lt_of_hexDigit? h) v h
  · intro h
    obtain ⟨small, lower⟩ := h
    rw [← hexDigit?_toLower, lower, hexDigit?_digitChar v small]

theorem IsHexDigit.not_blank (h : IsHexDigit c v) : isBlank c = false := by
  have each : ∀ n < 128, ∀ v ∈ hexDigit? (Char.ofNat n), isBlank (Char.ofNat n) = false := by
    decide
  have digit := hexDigit?_eq_some.mpr h
  exact of_ascii (P := fun c => ∀ v ∈ hexDigit? c, isBlank c = false) each
    (toNat_lt_of_hexDigit? digit) v digit

/-- Bytes in hexadecimal, two digits each. -/
inductive HexBytes : List Char → List Nat → Prop
  | nil : HexBytes [] []
  | cons {c d : Char} {v w : Nat} {cs : List Char} {bs : List Nat} (high : IsHexDigit c v)
      (low : IsHexDigit d w) (rest : HexBytes cs bs) : HexBytes (c :: d :: cs) ((16 * v + w) :: bs)

namespace HexBytes

theorem length (h : HexBytes cs bs) : cs.length = 2 * bs.length := by
  induction h with
  | nil => rfl
  | cons high low rest ih =>
    simp only [List.length_cons, ih]
    omega

theorem lt (h : HexBytes cs bs) : ∀ b ∈ bs, b < 256 := by
  induction h with
  | nil => nofun
  | cons high low rest ih =>
    obtain ⟨high, _⟩ := high
    obtain ⟨low, _⟩ := low
    exact List.forall_mem_cons.mpr ⟨by omega, ih⟩

theorem digits (h : HexBytes cs bs) : ∀ c ∈ cs, ∃ v, IsHexDigit c v := by
  induction h with
  | nil => nofun
  | cons high low rest ih =>
    exact List.forall_mem_cons.mpr ⟨⟨_, high⟩, List.forall_mem_cons.mpr ⟨⟨_, low⟩, ih⟩⟩

/-- Digits are read as the bytes that they spell. -/
theorem hexNumber?_eq (h : HexBytes cs bs) :
    hexNumber? cs = some (bs.foldl (fun n b => n * 256 + b) 0) := by
  have reads : ∃ ds, cs.mapM hexDigit? = some ds ∧ ∀ n,
      ds.foldl (fun n d => n * 16 + d) n = bs.foldl (fun n b => n * 256 + b) n := by
    induction h with
    | nil => exact ⟨[], rfl, fun _ => rfl⟩
    | @cons c d v w cs bs high low rest ih =>
      obtain ⟨ds, hds, hfold⟩ := ih
      refine ⟨v :: w :: ds, ?_, fun n => ?_⟩
      · simp [List.mapM_cons, hexDigit?_eq_some.mpr high, hexDigit?_eq_some.mpr low, hds]
      · simp only [List.foldl_cons, hfold]
        congr 1
        omega
  obtain ⟨ds, hds, hfold⟩ := reads
  rw [hexNumber?, hds, Option.map_some, hfold]

end HexBytes

/-- Digits that come in pairs spell bytes. -/
theorem exists_hexBytes (digits : ∀ c ∈ cs, ∃ v, IsHexDigit c v) (pairs : cs.length = 2 * k) :
    ∃ bs, HexBytes cs bs ∧ bs.length = k := by
  induction k generalizing cs with
  | zero =>
    obtain rfl := List.length_eq_zero_iff.mp pairs
    exact ⟨[], .nil, rfl⟩
  | succ k ih =>
    obtain ⟨c, d, cs, rfl, length⟩ : ∃ c d ds, cs = c :: d :: ds ∧ ds.length = 2 * k := by
      obtain ⟨c, tail, rfl⟩ := List.exists_cons_of_length_eq_add_one pairs
      obtain ⟨d, ds, rfl⟩ := List.exists_cons_of_length_eq_add_one (Nat.succ.inj pairs)
      exact ⟨c, d, ds, rfl, Nat.succ.inj (Nat.succ.inj pairs)⟩
    obtain ⟨⟨v, high⟩, rest⟩ := List.forall_mem_cons.mp digits
    obtain ⟨⟨w, low⟩, rest⟩ := List.forall_mem_cons.mp rest
    obtain ⟨bs, spelled, rfl⟩ := ih rest length
    exact ⟨_, .cons high low spelled, rfl⟩

/-- What is read as a number is made of digits. -/
theorem digits_of_hexNumber? (h : hexNumber? cs = some n) : ∀ c ∈ cs, ∃ v, IsHexDigit c v := by
  obtain ⟨ds, hds, -⟩ := Option.map_eq_some_iff.mp h
  clear h
  induction cs generalizing ds with
  | nil => nofun
  | cons c cs ih =>
    rw [List.mapM_cons] at hds
    obtain ⟨v, hv, rest⟩ := Option.bind_eq_some_iff.mp hds
    obtain ⟨vs, hvs, _⟩ := Option.bind_eq_some_iff.mp rest
    exact List.forall_mem_cons.mpr ⟨⟨v, hexDigit?_eq_some.mp hv⟩, ih vs hvs⟩

theorem hexNumber?_toLower (cs : List Char) : hexNumber? (cs.map Char.toLower) = hexNumber? cs := by
  have digits : (cs.map Char.toLower).mapM hexDigit? = cs.mapM hexDigit? := by
    induction cs with
    | nil => rfl
    | cons c cs ih => rw [List.map_cons, List.mapM_cons, List.mapM_cons, hexDigit?_toLower, ih]
  rw [hexNumber?, hexNumber?, digits]

/-- The last digit counts once. -/
theorem hexNumber?_concat (read : hexNumber? cs = some n) (digit : IsHexDigit c v) :
    hexNumber? (cs ++ [c]) = some (n * 16 + v) := by
  obtain ⟨ds, hds, rfl⟩ := Option.map_eq_some_iff.mp read
  have last : hexDigit? c = some v := hexDigit?_eq_some.mpr digit
  simp [hexNumber?, List.mapM_append, hds, last]

/-- Every run of digits is read as a number that has no more digits. -/
theorem exists_hexNumber? (digits : ∀ c ∈ cs, ∃ v, IsHexDigit c v) :
    ∃ n < 16 ^ cs.length, hexNumber? cs = some n := by
  induction cs using List.reverseRecOn with
  | nil => exact ⟨0, Nat.one_pos, rfl⟩
  | append_singleton cs c ih =>
    obtain ⟨n, small, read⟩ := ih fun d hd => digits d (List.mem_append_left [c] hd)
    obtain ⟨v, digit⟩ := digits c List.mem_concat_self
    refine ⟨n * 16 + v, ?_, hexNumber?_concat read digit⟩
    obtain ⟨hv, _⟩ := digit
    rw [List.length_append, List.length_singleton, Nat.pow_succ]
    omega

/-- A number is read from its digits. -/
theorem hexNumber?_toDigits (n : Nat) : hexNumber? (Nat.toDigits 16 n) = some n := by
  induction n using Nat.strongRecOn with
  | ind n ih =>
    have digit : ∀ v < 16, IsHexDigit v.digitChar v := fun v hv =>
      hexDigit?_eq_some.mp (hexDigit?_digitChar v hv)
    rw [Nat.toDigits_eq_if (by decide)]
    split
    · rename_i small
      have empty : hexNumber? [] = some 0 := rfl
      have whole := hexNumber?_concat empty (digit n small)
      rwa [Nat.zero_mul, Nat.zero_add] at whole
    · rename_i large
      have shorter : n / 16 < n := by omega
      rw [hexNumber?_concat (ih (n / 16) shorter) (digit (n % 16) (Nat.mod_lt n (by decide)))]
      congr 1
      omega

/-- Zeros in front count nothing. -/
theorem hexNumber?_leftpad (k : Nat) (cs : List Char) :
    hexNumber? (cs.leftpad k '0') = hexNumber? cs := by
  have zeros (m : Nat) : hexNumber? (List.replicate m '0' ++ cs) = hexNumber? cs := by
    induction m with
    | zero => rfl
    | succ m ih =>
      rw [← ih, List.replicate_succ, List.cons_append, hexNumber?, List.mapM_cons]
      have zero : hexDigit? '0' = some 0 := by decide
      rw [zero, hexNumber?]
      cases (List.replicate m '0' ++ cs).mapM hexDigit? <;> rfl
  exact zeros _

end SceneDoc
