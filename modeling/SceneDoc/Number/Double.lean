namespace SceneDoc

-- Powers are those of the core library, also where more algebra is in scope.
attribute [local instance (high)] instPowNat

/-- Which neighbour an exact half goes to. -/
inductive Tie where
  | toEven
  | up
deriving DecidableEq, Repr

def roundDiv (tie : Tie) (num den : Nat) : Nat :=
  let quotient := num / den
  let twice := 2 * (num % den)
  if twice < den then quotient
  else if twice = den then
    match tie with
    | .toEven => quotient + quotient % 2
    | .up => quotient + 1
  else quotient + 1

theorem roundDiv_le (tie : Tie) (num den : Nat) : roundDiv tie num den ≤ num / den + 1 := by
  unfold roundDiv
  dsimp only
  split
  · omega
  · split
    · cases tie with
      | toEven =>
        dsimp only
        omega
      | up => exact Nat.le_refl _
    · omega

/-- A binary format: how many significant bits a number has, and the power of two, in units, that
every number of the format is a multiple of. -/
structure Precision where
  bits : Nat
  finest : Nat
deriving DecidableEq, Repr

def Precision.double : Precision := ⟨53, 0⟩

def Precision.single : Precision := ⟨24, 925⟩

/-- The distance between neighbours around `units`, as an exponent of two. -/
def Precision.step (p : Precision) (units : Nat) : Nat :=
  max (units.log2 + 1 - p.bits) p.finest

/-- The member of the format nearest to `num / den` units, where an exact half goes to the even
neighbour. -/
def Precision.round (p : Precision) (num den : Nat) : Nat :=
  let spacing := 2 ^ p.step (num / den)
  roundDiv .toEven num (den * spacing) * spacing

/-- Units that 53 significant bits can hold. -/
def Aligned (units : Nat) : Prop :=
  2 ^ (units.log2 + 1 - 53) ∣ units

theorem log2_mul_two_pow {m : Nat} (hm : m ≠ 0) (k : Nat) : (m * 2 ^ k).log2 = m.log2 + k := by
  have hpos := Nat.two_pow_pos k
  refine (Nat.log2_eq_iff (Nat.mul_ne_zero hm (by omega))).2 ⟨?_, ?_⟩
  · rw [Nat.pow_add]
    exact Nat.mul_le_mul_right _ (Nat.log2_self_le hm)
  · rw [Nat.add_right_comm, Nat.pow_add]
    exact (Nat.mul_lt_mul_right hpos).2 Nat.lt_log2_self

theorem aligned_mul_two_pow {m k : Nat} (hm : m ≤ 2 ^ (53 : Nat)) : Aligned (m * 2 ^ k) := by
  unfold Aligned
  by_cases h0 : m = 0
  · simp [h0]
  by_cases htop : m = 2 ^ (53 : Nat)
  · subst htop
    rw [← Nat.pow_add, Nat.log2_two_pow]
    exact Nat.pow_dvd_pow 2 (by omega)
  · have hlt : m < 2 ^ (53 : Nat) := by omega
    have hlog : m.log2 < 53 := (Nat.log2_lt h0).2 hlt
    rw [log2_mul_two_pow h0]
    exact Nat.dvd_trans (Nat.pow_dvd_pow 2 (by omega)) (Nat.dvd_mul_left _ _)

/-- Rounding to at most 53 significant bits ends on units that a double can hold. -/
theorem aligned_round (p : Precision) (hp : p.bits ≤ 53) (num den : Nat) :
    Aligned (p.round num den) := by
  unfold Precision.round
  dsimp only
  apply aligned_mul_two_pow
  refine Nat.le_trans (roundDiv_le _ _ _) ?_
  rw [← Nat.div_div_eq_div_mul]
  have hq : num / den < 2 ^ ((num / den).log2 + 1) := Nat.lt_log2_self
  have hpow : 2 ^ ((num / den).log2 + 1) ≤ 2 ^ (53 : Nat) * 2 ^ p.step (num / den) := by
    rw [← Nat.pow_add]
    exact Nat.pow_le_pow_right (by decide) (by unfold Precision.step; omega)
  have hdiv : num / den / 2 ^ p.step (num / den) < 2 ^ (53 : Nat) :=
    (Nat.div_lt_iff_lt_mul (Nat.two_pow_pos _)).2 (Nat.lt_of_lt_of_le hq hpow)
  omega

def unitsPerOne : Nat := 2 ^ (1074 : Nat)

/-- The first power of two that is too large for a double, in units. -/
def unitsLimit : Nat := 2 ^ (2098 : Nat)

/-- A finite double: `units` steps of 2^-1074, with a sign that zero has too. -/
structure Finite where
  negative : Bool
  units : Nat
  aligned : Aligned units
  bounded : units < unitsLimit
deriving DecidableEq

inductive Double where
  | nan
  | infinite (negative : Bool)
  | finite (value : Finite)
deriving DecidableEq

namespace Double

def ofUnits (negative : Bool) (units : Nat) (aligned : Aligned units) : Double :=
  if bounded : units < unitsLimit then .finite ⟨negative, units, aligned, bounded⟩
  else .infinite negative

def ofRatio (negative : Bool) (num den : Nat) : Double :=
  ofUnits negative (Precision.double.round (num * unitsPerOne) den)
    (aligned_round _ (by decide) _ _)

def ofInt (n : Int) : Double :=
  ofRatio (n < 0) n.natAbs 1

/-- The double nearest to `coefficient · 10^exponent`. Powers of ten beyond the range of doubles are
answered without being computed. -/
def ofDecimal (negative : Bool) (coefficient : Nat) (exponent : Int) : Double :=
  if coefficient = 0 then ofRatio negative 0 1
  else if 310 < exponent then .infinite negative
  else if exponent + coefficient.log2 < -1100 then ofRatio negative 0 1
  else ofRatio negative (coefficient * 10 ^ exponent.toNat) (10 ^ (-exponent).toNat)

/-- The nearest number of single precision, which is again a double. -/
def toSingle : Double → Double
  | .finite x =>
    let units := Precision.single.round x.units 1
    if units < 2 ^ (1074 + 128 : Nat) then
      ofUnits x.negative units (aligned_round _ (by decide) _ _)
    else .infinite x.negative
  | x => x

def zero : Double := ofInt 0

def one : Double := ofInt 1

def isFinite : Double → Bool
  | .finite _ => true
  | _ => false

/-- Numerical equality: zeros of both signs are equal, and NaN differs from itself. -/
def equals : Double → Double → Bool
  | .finite x, .finite y => x.units == y.units && (x.units == 0 || x.negative == y.negative)
  | .infinite x, .infinite y => x == y
  | _, _ => false

def isZero : Double → Bool
  | .finite x => x.units == 0
  | _ => false

def isIntegral : Double → Bool
  | .finite x => x.units % unitsPerOne == 0
  | _ => false

/-- Whether the number lies between zero and `top`, both included. -/
def isUpTo (top : Nat) : Double → Bool
  | .finite x => (x.units == 0 || !x.negative) && decide (x.units ≤ top * unitsPerOne)
  | _ => false

def divNat (x : Double) (n : Nat) : Double :=
  match x with
  | .finite x => ofRatio x.negative x.units (n * unitsPerOne)
  | x => x

def mulNat (x : Double) (n : Nat) : Double :=
  match x with
  | .finite x => ofRatio x.negative (x.units * n) unitsPerOne
  | x => x

/-- The nearest integer, where a half goes away from zero. -/
def roundAway : Double → Double
  | .finite x => ofRatio x.negative (roundDiv .up x.units unitsPerOne) 1
  | x => x

end Double
end SceneDoc
