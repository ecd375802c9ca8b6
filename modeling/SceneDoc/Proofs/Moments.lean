import SceneDoc.Proofs.Calendar
import SceneDoc.Proofs.InstantSpellings
import SceneDoc.Proofs.NumberReading

namespace SceneDoc

-- Powers are those of the core library, also where more algebra is in scope.
attribute [local instance (high)] instPowNat

open TimeGrammar

structure LocalTime.IsValid (t : LocalTime) : Prop where
  date : t.date.isValid = true
  hour : t.hour ≤ 23
  minute : t.minute ≤ 59
  second : t.second ≤ 59
  nanos : t.nanos < 1000000000

namespace LocalTime

variable {t u : LocalTime}

def secondsOfDay (t : LocalTime) : Nat := t.hour * 3600 + t.minute * 60 + t.second

/-- Two clocks show these readings at one time: counted from the midnight before the first of them,
and with the offsets taken off, they are the same number of seconds. -/
def Simultaneous (t u : LocalTime) : Prop :=
  t.nanos = u.nanos ∧ ∃ days : Int, t.date.Apart u.date days ∧
    t.secondsOfDay - t.offset = days * 86400 + u.secondsOfDay - u.offset

structure Utc (t u : LocalTime) : Prop where
  isValid : u.IsValid
  offset : u.offset = 0
  simultaneous : t.Simultaneous u

/-- Readings are simultaneous if they are the same point on the UTC scale. -/
theorem simultaneous_iff (ht : t.IsValid) (hu : u.IsValid) :
    t.Simultaneous u ↔ t.toMoment = u.toMoment := by
  rw [toMoment, toMoment, Moment.mk.injEq, and_comm, Simultaneous]
  apply and_congr_right'
  constructor
  · intro h
    obtain ⟨days, apart, seconds⟩ := h
    rw [Date.apart_iff ht.date hu.date] at apart
    unfold secondsOfDay at seconds
    omega
  · intro h
    refine ⟨u.date.number - t.date.number, ?_, ?_⟩
    · rw [Date.apart_iff ht.date hu.date]
      omega
    · unfold secondsOfDay
      omega

/-- Two readings of one clock at the same time are one. -/
theorem toMoment_inj (ht : t.IsValid) (hu : u.IsValid) (offset : t.offset = u.offset)
    (h : t.toMoment = u.toMoment) : t = u := by
  obtain ⟨date, hour, minute, second, nanos, o⟩ := t
  obtain ⟨date', hour', minute', second', nanos', o'⟩ := u
  obtain ⟨hdate, hhour, hminute, hsecond, _⟩ := ht
  obtain ⟨hdate', hhour', hminute', hsecond', _⟩ := hu
  obtain ⟨seconds, rfl⟩ := Moment.mk.inj h
  dsimp only at *
  subst offset
  have number : date.number = date'.number := by omega
  obtain rfl := Date.number_inj hdate hdate' number
  obtain ⟨rfl, rfl, rfl⟩ : hour = hour' ∧ minute = minute' ∧ second = second' := by omega
  rfl

end LocalTime

namespace Moment

variable {m : Moment}

def utc (m : Moment) : LocalTime :=
  ⟨m.date, m.ofDay / 3600, m.ofDay / 60 % 60, m.ofDay % 60, m.nanos, 0⟩

theorem ofDay_lt (m : Moment) : m.ofDay < 86400 := by
  unfold ofDay
  omega

theorem utc_isValid (nanos : m.nanos < 1000000000) : m.utc.IsValid := by
  have := m.ofDay_lt
  refine ⟨Date.isValid_ofNumber _, ?_, ?_, ?_, nanos⟩ <;> dsimp only [utc] <;> omega

theorem toMoment_utc (m : Moment) : m.utc.toMoment = m := by
  have number : m.date.number = m.seconds / 86400 := Date.number_ofNumber _
  have ofDay : (m.ofDay : Int) = m.seconds % 86400 :=
    Int.toNat_of_nonneg (Int.emod_nonneg _ (by decide))
  have seconds : m.date.number * 86400 + (m.ofDay / 3600 : Nat) * 3600 +
      (m.ofDay / 60 % 60 : Nat) * 60 + (m.ofDay % 60 : Nat) - 0 = m.seconds := by
    omega
  exact congrArg (Moment.mk · m.nanos) seconds

end Moment

/-- Of the readings of a clock in UTC exactly that of the same moment is simultaneous. -/
theorem LocalTime.utc_iff {t u : LocalTime} (valid : t.IsValid) :
    t.Utc u ↔ u = t.toMoment.utc := by
  have valid' : t.toMoment.utc.IsValid := Moment.utc_isValid valid.nanos
  constructor
  · intro h
    apply toMoment_inj h.isValid valid' h.offset
    rw [Moment.toMoment_utc]
    exact ((simultaneous_iff valid h.isValid).mp h.simultaneous).symm
  · rintro rfl
    exact ⟨valid', rfl, (simultaneous_iff valid valid').mpr (Moment.toMoment_utc _).symm⟩

namespace TimeGrammar

variable {cs ds : List Char} {n : Nat}

theorem padded_digits (width n : Nat) : ∀ c ∈ padded width n, c.isDigit = true := by
  intro c hc
  rcases List.mem_append.mp hc with zero | digit
  · rw [List.eq_of_mem_replicate zero]
    rfl
  · exact Nat.isDigit_of_mem_toDigits (by decide) (by decide) digit

theorem fixed_padded {width : Nat} (small : n < 10 ^ (width + 1)) :
    Fixed (width + 1) n (padded (width + 1) n) := by
  have short : (Nat.toDigits 10 n).length ≤ width + 1 :=
    (Nat.length_toDigits_le_iff (by decide) (Nat.succ_pos width)).mpr small
  refine ⟨?_, padded_digits _ n, ?_⟩
  · rw [padded, List.length_append, List.length_replicate, Nat.sub_add_cancel short]
  · rw [padded, natOfDigits_zeros, natOfDigits_toDigits]

/-- The digits of a number, with zeros in front only up to the width. -/
structure Padded (width n : Nat) (cs : List Char) : Prop where
  digits : ∀ c ∈ cs, c.isDigit = true
  value : natOfDigits cs = n
  least : width ≤ cs.length
  needed : width < cs.length → 10 ^ (cs.length - 1) ≤ n

theorem padded_spec {width : Nat} (pos : 0 < width) (n : Nat) :
    Padded width n (padded width n) := by
  have length : (padded width n).length =
      width - (Nat.toDigits 10 n).length + (Nat.toDigits 10 n).length := by
    rw [padded, List.length_append, List.length_replicate]
  refine ⟨padded_digits width n, ?_, ?_, fun long => ?_⟩
  · rw [padded, natOfDigits_zeros, natOfDigits_toDigits]
  · omega
  · have unpadded : (padded width n).length = (Nat.toDigits 10 n).length := by omega
    rw [unpadded] at long ⊢
    apply pow_length_toDigits_le
    rintro rfl
    exact absurd long (Nat.not_lt.mpr pos)

/-- Up to nine digits behind a point count as if zeros followed. -/
theorem natOfDigits_nine (few : ds.length ≤ 9) :
    natOfDigits ((ds ++ List.replicate 9 '0').take 9) = natOfDigits ds * 10 ^ (9 - ds.length) := by
  rw [List.take_append, List.take_of_length_le few, List.take_replicate,
    Nat.min_eq_left (Nat.sub_le _ _), natOfDigits_append_zeros]

theorem Fixed.fraction {width : Nat} (fixed : Fixed (width + 1) n ds) (few : width + 1 ≤ 9) :
    Fraction (n * 10 ^ (9 - (width + 1))) ('.' :: ds) := by
  have fraction := Fraction.point fixed.nonempty
  rwa [natOfDigits_nine (fixed.width ▸ few), fixed.value, fixed.width] at fraction

/-- With few digits only round numbers of nanoseconds are exact. -/
theorem Fraction.dvd (h : Fraction n cs) (few : cs.tail.length ≤ 9) :
    10 ^ (9 - cs.tail.length) ∣ n := by
  cases h with
  | none => exact Nat.dvd_zero _
  | point _ =>
    rw [List.tail_cons] at few ⊢
    rw [natOfDigits_nine few]
    exact Nat.dvd_mul_left _ _

/-- The nanoseconds in 0, 3, 6 or 9 digits, as few as lose nothing. -/
structure FewestDigits (nanos : Nat) (cs : List Char) : Prop where
  exact : Fraction nanos cs
  width : cs.tail.length ∈ [0, 3, 6, 9]
  fewest : ∀ other, Fraction nanos other → other.tail.length ∈ [0, 3, 6, 9] →
    cs.tail.length ≤ other.tail.length

/-- Padded to so many digits, a number counts the parts of a second that it has digits for. -/
theorem FewestDigits.padded {width k : Nat} (whole : k * 10 ^ (9 - (width + 1)) = n)
    (small : n < 1000000000) (among : width + 1 ∈ [0, 3, 6, 9])
    (fewest : ∀ other, Fraction n other → other.tail.length ∈ [0, 3, 6, 9] →
      width + 1 ≤ other.tail.length) :
    FewestDigits n ('.' :: padded (width + 1) k) := by
  have few : width + 1 ≤ 9 := by
    simp only [List.mem_cons, List.not_mem_nil, or_false] at among
    omega
  have split : 10 ^ (width + 1) * 10 ^ (9 - (width + 1)) = 1000000000 := by
    rw [← Nat.pow_add, Nat.add_sub_cancel' few]
  subst whole
  have fixed := fixed_padded (Nat.lt_of_mul_lt_mul_right (split ▸ small))
  refine ⟨fixed.fraction few, ?_, ?_⟩
  · rwa [List.tail_cons, fixed.width]
  · rwa [List.tail_cons, fixed.width]

theorem fewestDigits_fractionText (small : n < 1000000000) :
    FewestDigits n (Moment.fractionText n) := by
  have others (cs : List Char) (h : Fraction n cs) (width : cs.tail.length ∈ [0, 3, 6, 9]) :
      cs.tail.length = 0 ∧ n = 0 ∨ cs.tail.length = 3 ∧ n % 1000000 = 0 ∨
        cs.tail.length = 6 ∧ n % 1000 = 0 ∨ cs.tail.length = 9 := by
    simp only [List.mem_cons, List.not_mem_nil, or_false] at width
    have dvd := h.dvd (by omega)
    rcases width with width | width | width | width <;> rw [width] at dvd <;> omega
  unfold Moment.fractionText
  split
  · rename_i none
    subst none
    exact ⟨.none, by simp, fun _ _ _ => Nat.zero_le _⟩
  · split
    · refine .padded (by omega) small (by simp) fun cs h among => ?_
      have := others cs h among
      omega
    · split
      · refine .padded (by omega) small (by simp) fun cs h among => ?_
        have := others cs h among
        omega
      · refine .padded (Nat.mul_one n) small (by simp) fun cs h among => ?_
        have := others cs h among
        omega

end TimeGrammar

namespace Moment

variable {m : Moment}

/-- The year has four digits and no sign, and the second is not longer than a leap second. -/
structure IsWritable (m : Moment) : Prop where
  lower : 0 ≤ m.date.year
  upper : m.date.year ≤ 9999
  nanos : m.nanos < 2000000000

def dateSpelling (m : Moment) : DateSpelling :=
  ⟨yearText m.date.year, padded 2 m.date.month, padded 2 m.date.day⟩

def clockSpelling (m : Moment) : ClockSpelling :=
  ⟨padded 2 (m.ofDay / 3600), padded 2 (m.ofDay / 60 % 60),
    padded 2 (m.ofDay % 60 + m.nanos / 1000000000), fractionText (m.nanos % 1000000000)⟩

theorem text_eq (m : Moment) :
    m.text = m.dateSpelling.text ++ 'T' :: (m.clockSpelling.text ++ ['Z']) := by
  simp [text, dateSpelling, clockSpelling, DateSpelling.text, ClockSpelling.text]

/-- Years of four digits have no sign. -/
inductive YearWritten : Int → List Char → Prop
  | plain {n : Nat} {cs : List Char} (small : n ≤ 9999) (digits : Padded 4 n cs) : YearWritten n cs
  | late {n : Nat} {cs : List Char} (large : 9999 < n) (digits : Padded 4 n cs) :
      YearWritten n ('+' :: cs)
  | early {n : Nat} {cs : List Char} (pos : 0 < n) (digits : Padded 4 n cs) :
      YearWritten (-n) ('-' :: cs)

theorem yearText_written (year : Int) : YearWritten year (yearText year) := by
  have digits (n : Nat) : Padded 4 n (padded 4 n) := padded_spec (by decide) n
  unfold yearText
  rcases Int.eq_nat_or_neg year with ⟨n, rfl | rfl⟩
  · rw [Int.toNat_natCast, Int.natAbs_natCast]
    split
    · exact .plain (by omega) (digits n)
    · rw [if_neg (by omega)]
      exact .late (by omega) (digits n)
  · rcases Nat.eq_zero_or_pos n with rfl | pos
    · exact .plain (by decide) (digits 0)
    · rw [if_neg (by omega), if_pos (by omega), Int.natAbs_neg, Int.natAbs_natCast]
      exact .early pos (digits n)

/-- What a clock in UTC shows at the moment. In a leap second it shows the second before, which its
nanoseconds go beyond. -/
structure Shown (m : Moment) (t : LocalTime) : Prop where
  isValid : t.IsValid
  offset : t.offset = 0
  nanos : t.nanos = m.nanos % 1000000000
  seconds : ∃ days, Date.Apart ⟨0, 1, 1⟩ t.date days ∧ m.seconds = days * 86400 + t.secondsOfDay

inductive WrittenAs (m : Moment) : String → Prop
  | mk {t : LocalTime} {p : DateSpelling} {c : ClockSpelling} (shown : m.Shown t)
      (year : YearWritten t.date.year p.year) (month : Padded 2 t.date.month p.month)
      (day : Padded 2 t.date.day p.day) (hour : Padded 2 t.hour c.hour)
      (minute : Padded 2 t.minute c.minute)
      (second : Padded 2 (t.second + m.nanos / 1000000000) c.second)
      (fraction : FewestDigits t.nanos c.fraction) :
      WrittenAs m (.ofList (p.text ++ 'T' :: (c.text ++ ['Z'])))

theorem shown_utc (m : Moment) : m.Shown (utc ⟨m.seconds, m.nanos % 1000000000⟩) := by
  have valid : (utc ⟨m.seconds, m.nanos % 1000000000⟩).IsValid :=
    utc_isValid (Nat.mod_lt _ (by decide))
  refine ⟨valid, rfl, rfl, m.seconds / 86400, ?_, ?_⟩
  · rw [Date.apart_iff (by decide) valid.date]
    exact (Date.number_ofNumber _).trans (Int.zero_add _).symm
  · unfold LocalTime.secondsOfDay
    dsimp only [utc, ofDay]
    omega

theorem text_writtenAs (m : Moment) : m.WrittenAs (.ofList m.text) := by
  rw [text_eq]
  exact .mk (shown_utc m) (yearText_written _) (padded_spec (by decide) _) (padded_spec (by decide) _)
    (padded_spec (by decide) _) (padded_spec (by decide) _) (padded_spec (by decide) _)
    (fewestDigits_fractionText (Nat.mod_lt _ (by decide)))

theorem dateSpelling_names (writable : m.IsWritable) : m.dateSpelling.Names .full m.date := by
  have valid : m.date.isValid = true := Date.isValid_ofNumber _
  refine ⟨⟨m.date.year.toNat, (Int.toNat_of_nonneg writable.lower).symm, ?_⟩, ?_, ?_, valid⟩
  · have upper := writable.upper
    unfold dateSpelling yearText
    rw [if_pos ⟨writable.lower, upper⟩]
    apply fixed_padded
    omega
  · apply fixed_padded
    have month := Date.month_le valid
    omega
  · apply fixed_padded
    have day := Date.day_le valid
    omega

theorem clockSpelling_names (nanos : m.nanos < 2000000000) :
    m.clockSpelling.Names .full (m.ofDay / 3600) (m.ofDay / 60 % 60)
      (m.ofDay % 60 + m.nanos / 1000000000) (m.nanos % 1000000000) := by
  have := m.ofDay_lt
  refine ⟨fixed_padded ?_, fixed_padded ?_, fixed_padded ?_, ?_,
    (fewestDigits_fractionText (Nat.mod_lt _ (by decide))).exact⟩
  · omega
  · omega
  · omega
  · simp only [inDay, Bool.and_eq_true, decide_eq_true_eq]
    omega

/-- A moment is written with an offset, which is that of UTC. -/
theorem timestamp_text (writable : m.IsWritable) (minus : List Char) :
    ∃ t, Timestamp minus t m.text ∧ (m.nanos < 1000000000 → t = m.utc) := by
  have zulu : Offset minus 0 ['Z'] := .zulu (.inl rfl)
  have stamp := Timestamp.mk (dateSpelling_names writable) (.inl rfl)
    (clockSpelling_names writable.nanos) zulu
  rw [← text_eq] at stamp
  refine ⟨_, stamp, fun small => ?_⟩
  have := m.ofDay_lt
  simp only [utc, LocalTime.mk.injEq, and_true, true_and]
  omega

end Moment

namespace Instant

/-- A date, a time of day in the fewest digits that lose nothing, and a `Z`. -/
inductive SpellsUtc (u : LocalTime) : List Char → Prop
  | mk {p : DateSpelling} {c : ClockSpelling} (date : p.Names .full u.date)
      (clock : c.Names .full u.hour u.minute u.second u.nanos)
      (fewest : FewestDigits u.nanos c.fraction) :
      SpellsUtc u (p.text ++ 'T' :: (c.text ++ ['Z']))

theorem spellsUtc_text {m : Moment} (writable : m.IsWritable) (nanos : m.nanos < 1000000000) :
    SpellsUtc m.utc m.text := by
  have clock := m.clockSpelling_names writable.nanos
  have fewest : FewestDigits (m.nanos % 1000000000) m.clockSpelling.fraction :=
    fewestDigits_fractionText (Nat.mod_lt _ (by decide))
  rw [Nat.mod_eq_of_lt nanos, Nat.div_eq_of_lt nanos, Nat.add_zero] at clock
  rw [Nat.mod_eq_of_lt nanos] at fewest
  rw [Moment.text_eq]
  exact .mk (Moment.dateSpelling_names writable) clock fewest

/-- There is one reading in UTC for a time at any offset. If its year has four digits, the time is
rendered as this reading, which is read back from the text. Simultaneous times are rendered alike. -/
theorem render_utc {t : LocalTime} (valid : t.IsValid) :
    (∃ u, t.Utc u ∧ ∀ v, t.Utc v → v = u) ∧
    (∀ u, t.Utc u → 0 ≤ u.date.year ∧ u.date.year ≤ 9999 →
      SpellsUtc u (moment t.toMoment).render.toList ∧
      timestamp? (moment t.toMoment).render.toList = some u ∧
      parse (moment t.toMoment).render = .ok (.text (moment t.toMoment).render)) ∧
    ∀ t', t'.IsValid → t.Simultaneous t' →
      (moment t.toMoment).render = (moment t'.toMoment).render := by
  refine ⟨⟨t.toMoment.utc, ?_, ?_⟩, ?_, ?_⟩
  · exact (LocalTime.utc_iff valid).mpr rfl
  · intro v h
    exact (LocalTime.utc_iff valid).mp h
  · intro u h years
    obtain rfl := (LocalTime.utc_iff valid).mp h
    have nanos : t.toMoment.nanos < 1000000000 := valid.nanos
    have writable : t.toMoment.IsWritable := ⟨years.1, years.2, Nat.lt_trans nanos (by decide)⟩
    obtain ⟨_, stamp, same⟩ := Moment.timestamp_text writable ['-', '\u2212']
    obtain rfl := same nanos
    rw [← String.toList_ofList (l := t.toMoment.text)] at stamp
    refine ⟨?_, timestamp?_eq_some.mpr stamp,
      parse_eq_ok.mpr ⟨isSpelling_of_timestamp stamp, rfl⟩⟩
    rw [render, String.toList_ofList]
    exact spellsUtc_text writable nanos
  · intro t' valid' h
    rw [(LocalTime.simultaneous_iff valid valid').mp h]

/-- Half past midnight on the first of March, an hour ahead of UTC, is still on the leap day there. -/
theorem render_utc_leap_day :
    ∃ t : LocalTime, t.IsValid ∧ t.date = ⟨2020, 3, 1⟩ ∧ t.offset = 3600 ∧
      (moment t.toMoment).render = "2020-02-29T23:30:00.250Z" ∧
      timestamp? (moment t.toMoment).render.toList =
        some ⟨⟨2020, 2, 29⟩, 23, 30, 0, 250000000, 0⟩ := by
  have valid : LocalTime.IsValid ⟨⟨2020, 3, 1⟩, 0, 30, 0, 250000000, 3600⟩ := by
    constructor <;> decide
  have utc : (⟨⟨2020, 2, 29⟩, 23, 30, 0, 250000000, 0⟩ : LocalTime) =
      Moment.utc (LocalTime.toMoment ⟨⟨2020, 3, 1⟩, 0, 30, 0, 250000000, 3600⟩) := by
    decide +kernel
  have read := ((render_utc valid).2.1 _ ((LocalTime.utc_iff valid).mpr utc) (by decide)).2.1
  exact ⟨_, valid, rfl, rfl, by decide +kernel, read⟩

end Instant
end SceneDoc
