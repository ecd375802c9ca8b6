import SceneDoc.Proofs.Lexemes
import SceneDoc.Proofs.ShortestDigits

namespace SceneDoc

-- Powers are those of the core library, also where more algebra is in scope.
attribute [local instance (high)] instPowNat

open JsonGrammar

theorem natOfDigits_eq (ds : List Char) : natOfDigits ds = Nat.ofDigitChars 10 ds 0 := by
  simp only [natOfDigits, Nat.ofDigitChars_eq_foldl, Nat.mul_comm]

theorem natOfDigits_toDigits (n : Nat) : natOfDigits (Nat.toDigits 10 n) = n := by
  rw [natOfDigits_eq, Nat.ofDigitChars_ten_toDigits]

/-- Zeros in front of digits change nothing. -/
theorem natOfDigits_zeros (n : Nat) (ds : List Char) :
    natOfDigits (List.replicate n '0' ++ ds) = natOfDigits ds := by
  simp only [natOfDigits_eq, Nat.ofDigitChars_append, Nat.ofDigitChars_replicate_zero, Nat.mul_zero]

theorem natOfDigits_append_zeros (ds : List Char) (n : Nat) :
    natOfDigits (ds ++ List.replicate n '0') = natOfDigits ds * 10 ^ n := by
  simp only [natOfDigits_eq, Nat.ofDigitChars_append, Nat.ofDigitChars_replicate_zero, Nat.mul_comm]

theorem natOfDigits_lt {ds : List Char} (digits : ∀ c ∈ ds, c.isDigit = true) :
    natOfDigits ds < 10 ^ ds.length := by
  suffices bound : ∀ n, ds.foldl (fun n d => n * 10 + (d.toNat - '0'.toNat)) n <
      (n + 1) * 10 ^ ds.length by
    simpa [natOfDigits] using bound 0
  induction ds with
  | nil => simp
  | cons d ds ih =>
    intro n
    obtain ⟨hd, digits⟩ := List.forall_mem_cons.mp digits
    have hdigit : d.toNat - '0'.toNat ≤ 9 := by
      simp only [Char.isDigit, Bool.and_eq_true, decide_eq_true_eq, UInt32.le_iff_toNat_le] at hd
      exact Nat.sub_le_of_le_add hd.2
    calc
      (d :: ds).foldl (fun n d => n * 10 + (d.toNat - '0'.toNat)) n
        < (n * 10 + (d.toNat - '0'.toNat) + 1) * 10 ^ ds.length := ih digits _
      _ ≤ ((n + 1) * 10) * 10 ^ ds.length := Nat.mul_le_mul_right _ (by omega)
      _ = (n + 1) * 10 ^ (d :: ds).length := by
        rw [List.length_cons, Nat.pow_succ', Nat.mul_assoc]

namespace Literal

variable {whole fraction : List Char}

def signOf (negative : Bool) : List Char := if negative then ['-'] else []

def ofMagnitude (negative : Bool) (cs : List Char) : Literal :=
  let (whole, cs) := cs.span Char.isDigit
  match cs with
  | '.' :: rest =>
    let (fraction, cs) := rest.span Char.isDigit
    ⟨negative, whole ++ fraction, fraction.length, powerOf (cs.drop 1), false⟩
  | [] => ⟨negative, whole, 0, 0, true⟩
  | _ :: power => ⟨negative, whole, 0, powerOf power, false⟩

theorem ofChars_sign (negative : Bool) {cs : List Char} (unsigned : cs.head? ≠ some '-') :
    ofChars (signOf negative ++ cs) = ofMagnitude negative cs := by
  cases negative with
  | true => rfl
  | false =>
    change ofChars cs = _
    unfold ofChars
    split
    rename_i heq
    split at heq
    · rename_i unsigned
      exact absurd rfl unsigned
    · cases heq
      rfl

theorem digits_unsigned (digits : Digits whole) (rest : List Char) :
    (whole ++ rest).head? ≠ some '-' := by
  obtain ⟨d, ds, rfl⟩ := List.exists_cons_of_ne_nil digits.nonempty
  intro hd
  obtain rfl := Option.some.inj hd
  cases digits.digits '-' List.mem_cons_self

theorem ofChars_point (negative : Bool) (digits : Digits whole)
    (behind : ∀ c ∈ fraction, c.isDigit = true) (power : List Char)
    (ends : Token.EndsDigits power) :
    ofChars (signOf negative ++ (whole ++ '.' :: (fraction ++ power))) =
      ⟨negative, whole ++ fraction, fraction.length, powerOf (power.drop 1), false⟩ := by
  have hwhole : (whole ++ '.' :: (fraction ++ power)).span Char.isDigit =
      (whole, '.' :: (fraction ++ power)) := by
    refine Token.span_digits digits.digits ?_
    rintro c ⟨⟩
    rfl
  have hfraction := Token.span_digits behind ends
  rw [ofChars_sign negative (digits_unsigned digits _), ofMagnitude, hwhole]
  simp only [hfraction]

theorem ofChars_power (negative : Bool) (digits : Digits whole) (power : List Char) :
    ofChars (signOf negative ++ (whole ++ 'e' :: power)) =
      ⟨negative, whole, 0, powerOf power, false⟩ := by
  have hwhole : (whole ++ 'e' :: power).span Char.isDigit = (whole, 'e' :: power) := by
    refine Token.span_digits digits.digits ?_
    rintro c ⟨⟩
    rfl
  rw [ofChars_sign negative (digits_unsigned digits _), ofMagnitude, hwhole]
  rfl

theorem powerOf_digits (digits : Digits whole) : powerOf whole = natOfDigits whole := by
  unfold powerOf
  split
  · cases digits.digits '-' List.mem_cons_self
  · cases digits.digits '+' List.mem_cons_self
  · rfl

/-- A literal has a decimal's sign and its value, perhaps with zeros behind the digits that its power
makes up for. -/
structure Spells (l : Literal) (negative : Bool) (d : Decimal) : Prop where
  sign : l.negative = negative
  value : ∃ n : Nat, natOfDigits l.digits = d.digits * 10 ^ n ∧ l.power - l.places = d.exponent - n

end Literal

namespace NumberStyle

variable {d : Decimal} {leading : Int}

theorem powerOf_power (style : NumberStyle) (exponent : Int) :
    Literal.powerOf ((style.power exponent).drop 1) = exponent := by
  have hdigits := natOfDigits_toDigits exponent.natAbs
  unfold power
  dsimp only
  split
  · change -((natOfDigits (Nat.toDigits 10 exponent.natAbs) : Nat) : Int) = exponent
    omega
  · split
    · change ((natOfDigits (Nat.toDigits 10 exponent.natAbs) : Nat) : Int) = exponent
      omega
    · change Literal.powerOf (Nat.toDigits 10 exponent.natAbs) = exponent
      rw [Literal.powerOf_digits (digits_toDigits _)]
      omega

theorem spells_positional (negative : Bool)
    (position : d.exponent = leading + 1 - (Nat.toDigits 10 d.digits).length) :
    (Literal.ofChars (Literal.signOf negative ++
      positional (Nat.toDigits 10 d.digits) leading)).Spells negative d := by
  have hvalue := natOfDigits_toDigits d.digits
  have hdigits := digits_toDigits d.digits
  generalize Nat.toDigits 10 d.digits = ds at position hvalue hdigits ⊢
  unfold positional
  split
  · rename_i hsmall
    have hzero : Digits ['0'] := ⟨by simp, by simp⟩
    have hread := Literal.ofChars_point negative hzero
      (digits_zeros (-leading - 1).toNat hdigits).digits [] (by rintro c ⟨⟩)
    rw [List.append_nil] at hread
    rw [show '0' :: '.' :: List.replicate (-leading - 1).toNat '0' ++ ds =
      ['0'] ++ '.' :: (List.replicate (-leading - 1).toNat '0' ++ ds) from rfl, hread]
    refine ⟨rfl, 0, ?_, ?_⟩
    · have hzeros := natOfDigits_zeros 1 (List.replicate (-leading - 1).toNat '0' ++ ds)
      rw [Nat.pow_zero, Nat.mul_one, ← hvalue, ← natOfDigits_zeros (-leading - 1).toNat ds, ← hzeros]
      rfl
    · change (0 : Int) - (List.replicate (-leading - 1).toNat '0' ++ ds).length = _
      rw [List.length_append, List.length_replicate]
      omega
  · rename_i hlarge
    have hwhole := digits_whole leading.toNat hdigits
    have hfraction := fraction_drop (leading.toNat + 1) hdigits
    have hread := Literal.ofChars_point negative hwhole hfraction.digits [] (by rintro c ⟨⟩)
    rw [List.append_nil] at hread
    dsimp only
    rw [hread]
    by_cases hshort : ds.length ≤ leading.toNat + 1
    · have hdrop : ds.drop (leading.toNat + 1) = [] := List.drop_eq_nil_of_le hshort
      rw [hdrop, List.take_of_length_le hshort]
      refine ⟨rfl, leading.toNat + 1 - ds.length + 1, ?_, ?_⟩
      · rw [← hvalue, ← natOfDigits_append_zeros, List.replicate_succ', List.append_assoc]
        rfl
      · change (0 : Int) - 1 = _
        omega
    · have hpad : leading.toNat + 1 - ds.length = 0 := by omega
      have hdrop : ds.drop (leading.toNat + 1) ≠ [] := by
        rw [← List.length_pos_iff, List.length_drop]
        omega
      rw [hpad, List.replicate_zero, List.append_nil, if_neg (by simpa using hdrop),
        List.take_append_drop]
      refine ⟨rfl, 0, ?_, ?_⟩
      · rw [Nat.pow_zero, Nat.mul_one]
        exact hvalue
      · change (0 : Int) - (ds.drop (leading.toNat + 1)).length = _
        rw [List.length_drop]
        omega

theorem spells_scientific (style : NumberStyle) (negative : Bool)
    (position : d.exponent = leading + 1 - (Nat.toDigits 10 d.digits).length) :
    (Literal.ofChars (Literal.signOf negative ++
      style.scientific (Nat.toDigits 10 d.digits) leading)).Spells negative d := by
  have hvalue := natOfDigits_toDigits d.digits
  have hdigits := digits_toDigits d.digits
  generalize Nat.toDigits 10 d.digits = ds at position hvalue hdigits ⊢
  obtain ⟨c, rest, rfl⟩ := List.exists_cons_of_ne_nil hdigits.nonempty
  obtain ⟨hc, hrest⟩ := List.forall_mem_cons.mp hdigits.digits
  have hwhole : Digits [c] := ⟨by simp, by simpa using hc⟩
  have hpower := style.powerOf_power leading
  unfold scientific
  cases rest with
  | nil =>
    have hread := Literal.ofChars_power negative hwhole ((style.power leading).drop 1)
    change (Literal.ofChars (Literal.signOf negative ++
      ([c] ++ 'e' :: (style.power leading).drop 1))).Spells negative d
    rw [hread]
    refine ⟨rfl, 0, ?_, ?_⟩
    · rw [Nat.pow_zero, Nat.mul_one]
      exact hvalue
    · simp only [hpower, List.length_cons, List.length_nil] at position ⊢
      omega
  | cons b rest =>
    have hread := Literal.ofChars_point negative hwhole hrest (style.power leading)
      (by rintro c ⟨⟩; rfl)
    change (Literal.ofChars (Literal.signOf negative ++
      ([c] ++ '.' :: (b :: rest ++ style.power leading)))).Spells negative d
    rw [hread]
    refine ⟨rfl, 0, ?_, ?_⟩
    · rw [Nat.pow_zero, Nat.mul_one]
      exact hvalue
    · simp only [hpower, List.length_cons] at position ⊢
      omega

end NumberStyle

theorem Literal.Spells.toDouble {x : Finite} {l : Literal} {d : Decimal}
    (h : l.Spells x.negative d) (covers : x.CoversDecimal d.digits d.exponent)
    (units : x.units ≠ 0) : l.toDouble = .finite x := by
  obtain ⟨sign, n, digits, exponent⟩ := h
  rw [Literal.toDouble, sign, digits, exponent]
  exact (covers.zeros n).ofDecimal_eq units

/-- The literal of a double is read as that double. -/
theorem Double.ofLiteral_finite (style : NumberStyle) (x : Finite) :
    ofLiteral (style.finite x) = .finite x := by
  unfold ofLiteral NumberStyle.finite
  rw [String.toList_ofList]
  change (Literal.ofChars (Literal.signOf x.negative ++ _)).toDouble = _
  unfold NumberStyle.magnitude
  split
  · rename_i units
    have hread : Literal.ofChars (Literal.signOf x.negative ++ ['0', '.', '0']) =
        ⟨x.negative, ['0', '0'], 1, 0, false⟩ := by
      cases x.negative <;> rfl
    rw [hread]
    change ofDecimal x.negative 0 (-1) = _
    rw [ofDecimal, if_pos rfl]
    refine ofUnits_eq ?_ _
    rw [units, Nat.zero_mul]
    rfl
  · rename_i units
    have covers := Finite.shortest_covers style.tie units
    dsimp only
    split
    · exact (NumberStyle.spells_positional x.negative (by omega)).toDouble covers units
    · exact (style.spells_scientific x.negative (by omega)).toDouble covers units

end SceneDoc
