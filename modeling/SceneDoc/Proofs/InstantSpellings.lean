import Mathlib.Data.List.TakeWhile
import Mathlib.Data.Option.Basic
import SceneDoc.Proofs.Characters
import SceneDoc.Proofs.Lexemes
import SceneDoc.Proofs.Trimming
import SceneDoc.Time.Instant

namespace SceneDoc

open JsonGrammar (Digits)
open Token (EndsDigits)

namespace TimeGrammar

variable {cs ds rest word : List Char} {least most n : Nat}

theorem of_digits? (h : digits? least most cs = some (n, rest)) :
    ∃ ds, cs = ds ++ rest ∧ least ≤ ds.length ∧ ds.length ≤ most ∧
      (∀ c ∈ ds, c.isDigit = true) ∧ natOfDigits ds = n := by
  unfold digits? at h
  dsimp only at h
  split at h
  · cases h
  · rename_i enough
    obtain ⟨rfl, rfl⟩ := Prod.mk.inj (Option.some.inj h)
    have front : (cs.take most).takeWhile Char.isDigit <+: cs.take most := List.takeWhile_prefix _
    refine ⟨(cs.take most).takeWhile Char.isDigit, ?_, Nat.le_of_not_lt enough, ?_,
      fun c hc => List.mem_takeWhile_imp hc, rfl⟩
    · exact (List.prefix_iff_eq_append.mp (front.trans (List.take_prefix _ _))).symm
    · exact Nat.le_trans front.length_le (List.length_take_le _ _)

/-- Digits are read up to the most that are looked for, or up to where they end. -/
theorem digits?_append (digits : ∀ c ∈ ds, c.isDigit = true) (enough : least ≤ ds.length)
    (few : ds.length ≤ most) (ends : ds.length < most → EndsDigits rest) :
    digits? least most (ds ++ rest) = some (natOfDigits ds, rest) := by
  have hstop : (rest.take (most - ds.length)).takeWhile Char.isDigit = [] := by
    rcases Nat.lt_or_eq_of_le few with hlt | heq
    · cases rest with
      | nil => simp
      | cons c rest =>
        have hdigit : c.isDigit = false := ends hlt c rfl
        obtain ⟨k, hk⟩ := Nat.exists_eq_add_of_lt hlt
        have hleft : most - ds.length = k + 1 := by omega
        rw [hleft, List.take_succ_cons, List.takeWhile_cons, hdigit]
        rfl
    · simp [heq]
  have hfound : ((ds ++ rest).take most).takeWhile Char.isDigit = ds := by
    rw [List.take_append, List.take_of_length_le few, List.takeWhile_append_of_pos digits, hstop,
      List.append_nil]
  unfold digits?
  dsimp only
  rw [hfound, if_neg (Nat.not_lt_of_le enough), List.drop_left]

structure Fixed (width n : Nat) (cs : List Char) : Prop where
  width : cs.length = width
  digits : ∀ c ∈ cs, c.isDigit = true
  value : natOfDigits cs = n

theorem fixed_iff {width : Nat} :
    digits? width width cs = some (n, rest) ↔ ∃ word, cs = word ++ rest ∧ Fixed width n word := by
  constructor
  · intro h
    obtain ⟨ds, rfl, lower, upper, digits, value⟩ := of_digits? h
    exact ⟨ds, rfl, Nat.le_antisymm upper lower, digits, value⟩
  · intro h
    obtain ⟨word, rfl, rfl, digits, rfl⟩ := h
    exact digits?_append digits (Nat.le_refl _) (Nat.le_refl _) fun h => absurd h (Nat.lt_irrefl _)

/-- One or two digits behind any white space. -/
inductive Part : Nat → List Char → Prop
  | mk {blanks ds : List Char} (blank : ∀ c ∈ blanks, isBlank c = true) (digits : Digits ds)
      (short : ds.length ≤ 2) : Part (natOfDigits ds) (blanks ++ ds)

/-- Up to four digits behind any white space, or any number of them behind a sign. -/
inductive Year : Int → List Char → Prop
  | plain {blanks ds : List Char} (blank : ∀ c ∈ blanks, isBlank c = true) (digits : Digits ds)
      (short : ds.length ≤ 4) : Year (natOfDigits ds) (blanks ++ ds)
  | plus {blanks ds : List Char} (blank : ∀ c ∈ blanks, isBlank c = true) (digits : Digits ds) :
      Year (natOfDigits ds) (blanks ++ '+' :: ds)
  | minus {blanks ds : List Char} (blank : ∀ c ∈ blanks, isBlank c = true) (digits : Digits ds) :
      Year (-natOfDigits ds) (blanks ++ '-' :: ds)

theorem Fixed.nonempty {width : Nat} (h : Fixed (width + 1) n cs) : Digits cs :=
  ⟨List.ne_nil_of_length_eq_add_one h.width, h.digits⟩

theorem digits_visible (digits : Digits ds) (rest : List Char) :
    ∀ c ∈ (ds ++ rest).head?, isBlank c = false := by
  obtain ⟨d, ds, rfl⟩ := List.exists_cons_of_ne_nil digits.nonempty
  rintro _ ⟨⟩
  exact isBlank_of_isDigit (digits.digits d List.mem_cons_self)

/-- Where one digit is enough there is a run of digits. -/
theorem of_some_digits? (h : digits? 1 most cs = some (n, rest)) :
    ∃ ds, cs = ds ++ rest ∧ Digits ds ∧ ds.length ≤ most ∧ natOfDigits ds = n := by
  obtain ⟨ds, hds, enough, short, digits, value⟩ := of_digits? h
  exact ⟨ds, hds, ⟨List.ne_nil_of_length_pos enough, digits⟩, short, value⟩

theorem of_field? (h : field? cs = some (n, rest)) : ∃ word, cs = word ++ rest ∧ Part n word := by
  obtain ⟨blanks, hcs, blank⟩ := exists_blanks cs
  obtain ⟨ds, hds, digits, short, rfl⟩ := of_some_digits? h
  refine ⟨blanks ++ ds, ?_, .mk blank digits short⟩
  rw [List.append_assoc, ← hds, ← hcs]

theorem field?_append (part : Part n word) (ends : EndsDigits rest) :
    field? (word ++ rest) = some (n, rest) := by
  cases part with
  | @mk blanks ds blank digits short =>
    rw [field?, List.append_assoc, trimStart_append blank (digits_visible digits rest)]
    exact digits?_append digits.digits (List.length_pos_iff.mpr digits.nonempty) short fun _ => ends

theorem of_year? {year : Int} (h : year? cs = some (year, rest)) :
    ∃ word, cs = word ++ rest ∧ Year year word := by
  obtain ⟨blanks, hcs, blank⟩ := exists_blanks cs
  unfold year? at h
  split at h
  · rename_i signed hsigned
    obtain ⟨⟨n, rest⟩, hdigits, heq⟩ := Option.map_eq_some_iff.mp h
    cases heq
    obtain ⟨ds, rfl, digits, _, rfl⟩ := of_some_digits? hdigits
    refine ⟨blanks ++ '-' :: ds, ?_, .minus blank digits⟩
    rw [hcs, hsigned, List.append_assoc, List.cons_append]
  · rename_i signed hsigned
    obtain ⟨⟨n, rest⟩, hdigits, heq⟩ := Option.map_eq_some_iff.mp h
    cases heq
    obtain ⟨ds, rfl, digits, _, rfl⟩ := of_some_digits? hdigits
    refine ⟨blanks ++ '+' :: ds, ?_, .plus blank digits⟩
    rw [hcs, hsigned, List.append_assoc, List.cons_append]
  · obtain ⟨⟨n, rest⟩, hdigits, heq⟩ := Option.map_eq_some_iff.mp h
    cases heq
    obtain ⟨ds, hds, digits, short, rfl⟩ := of_some_digits? hdigits
    refine ⟨blanks ++ ds, ?_, .plain blank digits short⟩
    rw [hcs, hds, List.append_assoc]

/-- A run of any number of digits is read up to where they end. -/
theorem digits?_all (digits : Digits ds) (ends : EndsDigits rest) :
    digits? 1 (ds ++ rest).length (ds ++ rest) = some (natOfDigits ds, rest) :=
  digits?_append digits.digits (List.length_pos_iff.mpr digits.nonempty) (by simp) fun _ => ends

theorem year?_append {year : Int} (h : Year year word) (ends : EndsDigits rest) :
    year? (word ++ rest) = some (year, rest) := by
  cases h with
  | @plain blanks ds blank digits short =>
    have hread := digits?_append digits.digits (List.length_pos_iff.mpr digits.nonempty) short
      fun _ => ends
    unfold year?
    rw [List.append_assoc, trimStart_append blank (digits_visible digits rest)]
    obtain ⟨d, ds, rfl⟩ := List.exists_cons_of_ne_nil digits.nonempty
    split
    · rename_i heq
      cases heq
      cases digits.digits '-' List.mem_cons_self
    · rename_i heq
      cases heq
      cases digits.digits '+' List.mem_cons_self
    · rw [hread, Option.map_some]
  | @plus blanks ds blank digits =>
    have hread := digits?_all digits ends
    unfold year?
    rw [List.append_assoc, List.cons_append, trimStart_append blank (by rintro c ⟨⟩; rfl)]
    simp only [hread, Option.map_some]
  | @minus blanks ds blank digits =>
    have hread := digits?_all digits ends
    unfold year?
    rw [List.append_assoc, List.cons_append, trimStart_append blank (by rintro c ⟨⟩; rfl)]
    simp only [hread, Option.map_some]

theorem after?_eq_some {c : Char} : after? c cs = some rest ↔ cs = c :: rest := by
  cases cs with
  | nil => simp [after?]
  | cons d cs =>
    simp only [after?, Option.ite_none_right_eq_some, Option.some.injEq, List.cons.injEq]

/-- A point with digits behind it, of which nine count, or nothing. -/
inductive Fraction : Nat → List Char → Prop
  | none : Fraction 0 []
  | point {ds : List Char} (digits : Digits ds) :
      Fraction (natOfDigits ((ds ++ List.replicate 9 '0').take 9)) ('.' :: ds)

def EndsFraction (rest : List Char) : Prop := ∀ c ∈ rest.head?, c.isDigit = false ∧ c ≠ '.'

theorem EndsFraction.digits (ends : EndsFraction rest) : EndsDigits rest :=
  fun c hc => (ends c hc).1

theorem of_fraction? (h : fraction? cs = some (n, rest)) :
    ∃ word, cs = word ++ rest ∧ Fraction n word := by
  unfold fraction? at h
  split at h
  · rename_i behind
    dsimp only at h
    split at h
    · cases h
    · rename_i some
      obtain ⟨rfl, rfl⟩ := Prod.mk.inj (Option.some.inj h)
      refine ⟨'.' :: behind.takeWhile Char.isDigit, ?_,
        .point ⟨by simpa using some, fun c hc => List.mem_takeWhile_imp hc⟩⟩
      have front := List.takeWhile_prefix (l := behind) Char.isDigit
      rw [List.cons_append, List.prefix_iff_eq_append.mp front]
  · obtain ⟨rfl, rfl⟩ := Prod.mk.inj (Option.some.inj h)
    exact ⟨[], rfl, .none⟩

theorem fraction?_append (fraction : Fraction n word) (ends : EndsFraction rest) :
    fraction? (word ++ rest) = some (n, rest) := by
  cases fraction with
  | none =>
    unfold fraction?
    split
    · rename_i heq
      exact absurd rfl (ends '.' (by rw [← List.nil_append rest, heq]; rfl)).2
    · rfl
  | @point ds digits =>
    have hspan := Token.span_digits digits.digits ends.digits
    rw [List.span_eq_takeWhile_dropWhile] at hspan
    have hfound : (ds ++ rest).takeWhile Char.isDigit = ds := (Prod.mk.inj hspan).1
    have hsome : ds.isEmpty = false := by simpa using digits.nonempty
    simp only [List.cons_append, fraction?, hfound, hsome, Bool.false_eq_true, ↓reduceIte,
      List.drop_left]

structure Style where
  year : Int → List Char → Prop
  /-- A month, day, hour, minute or second. -/
  part : Nat → List Char → Prop

def Style.full : Style where
  year year cs := ∃ n : Nat, year = n ∧ Fixed 4 n cs
  part := Fixed 2

/-- Numbers may be shorter, years signed, and either may stand behind white space. -/
def Style.loose : Style where
  year year cs := Year year cs ∧ -262143 ≤ year ∧ year ≤ 262142
  part := Part

structure DateSpelling where
  year : List Char
  month : List Char
  day : List Char

structure ClockSpelling where
  hour : List Char
  minute : List Char
  second : List Char
  fraction : List Char

namespace DateSpelling

def text (p : DateSpelling) : List Char := p.year ++ '-' :: (p.month ++ '-' :: p.day)

/-- The numbers are those of a date that exists. -/
structure Names (style : Style) (p : DateSpelling) (d : Date) : Prop where
  year : style.year d.year p.year
  month : style.part d.month p.month
  day : style.part d.day p.day
  isValid : d.isValid = true

end DateSpelling

namespace ClockSpelling

def text (c : ClockSpelling) : List Char :=
  c.hour ++ ':' :: (c.minute ++ ':' :: (c.second ++ c.fraction))

/-- The numbers are those of a time of day, perhaps in a leap second. -/
structure Names (style : Style) (c : ClockSpelling) (h m s n : Nat) : Prop where
  hour : style.part h c.hour
  minute : style.part m c.minute
  second : style.part s c.second
  range : inDay h m s = true
  fraction : Fraction n c.fraction

end ClockSpelling

theorem of_afterDate? (h : afterDate? cs = some rest) :
    ∃ p d, cs = p.text ++ rest ∧ DateSpelling.Names .loose p d := by
  simp only [afterDate?, Option.bind_eq_bind, Option.bind_eq_some_iff, Prod.exists,
    after?_eq_some, Option.guard_eq_some', exists_const, Option.pure_def, Option.some.injEq] at h
  obtain ⟨year, _, hyear, _, rfl, month, _, hmonth, _, rfl, day, _, hday, ⟨valid, range⟩, rfl⟩ := h
  obtain ⟨years, rfl, hyears⟩ := of_year? hyear
  obtain ⟨months, rfl, hmonths⟩ := of_field? hmonth
  obtain ⟨days, rfl, hdays⟩ := of_field? hday
  exact ⟨⟨years, months, days⟩, ⟨year, month, day⟩, by simp [DateSpelling.text],
    ⟨hyears, range⟩, hmonths, hdays, valid⟩

theorem afterDate?_append {p : DateSpelling} {d : Date} (names : p.Names .loose d)
    (ends : EndsDigits rest) : afterDate? (p.text ++ rest) = some rest := by
  obtain ⟨⟨hyear, range⟩, hmonth, hday, valid⟩ := names
  have dash (cs : List Char) : EndsDigits ('-' :: cs) := by
    rintro _ ⟨⟩
    rfl
  simp only [afterDate?, Option.bind_eq_bind, Option.bind_eq_some_iff, Prod.exists,
    after?_eq_some, Option.guard_eq_some', exists_const, Option.pure_def, Option.some.injEq]
  refine ⟨_, _, ?_, _, rfl, _, _, field?_append hmonth (dash _), _, rfl, _, _,
    field?_append hday ends, ⟨valid, range⟩, rfl⟩
  have read := year?_append hyear (dash (p.month ++ '-' :: (p.day ++ rest)))
  simpa [DateSpelling.text] using read

theorem of_afterTime? (h : afterTime? cs = some rest) :
    ∃ c h m s n, cs = c.text ++ rest ∧ ClockSpelling.Names .loose c h m s n := by
  simp only [afterTime?, Option.bind_eq_bind, Option.bind_eq_some_iff, Prod.exists,
    after?_eq_some, Option.guard_eq_some', exists_const, Option.pure_def, Option.some.injEq] at h
  obtain ⟨hour, _, hhour, _, rfl, minute, _, hminute, _, rfl, second, _, hsecond, nanos, _, hnanos,
    range, rfl⟩ := h
  obtain ⟨hours, rfl, hhours⟩ := of_field? hhour
  obtain ⟨minutes, rfl, hminutes⟩ := of_field? hminute
  obtain ⟨seconds, rfl, hseconds⟩ := of_field? hsecond
  obtain ⟨fraction, rfl, hfraction⟩ := of_fraction? hnanos
  exact ⟨⟨hours, minutes, seconds, fraction⟩, hour, minute, second, nanos,
    by simp [ClockSpelling.text], hhours, hminutes, hseconds, range, hfraction⟩

theorem Fraction.endsDigits (fraction : Fraction n word) (ends : EndsFraction rest) :
    EndsDigits (word ++ rest) := by
  cases fraction with
  | none => exact ends.digits
  | point _ =>
    rintro _ ⟨⟩
    rfl

theorem afterTime?_append {c : ClockSpelling} {h m s n : Nat} (names : c.Names .loose h m s n)
    (ends : EndsFraction rest) : afterTime? (c.text ++ rest) = some rest := by
  obtain ⟨hhour, hminute, hsecond, range, hfraction⟩ := names
  have colon (cs : List Char) : EndsDigits (':' :: cs) := by
    rintro _ ⟨⟩
    rfl
  simp only [afterTime?, Option.bind_eq_bind, Option.bind_eq_some_iff, Prod.exists,
    after?_eq_some, Option.guard_eq_some', exists_const, Option.pure_def, Option.some.injEq]
  refine ⟨_, _, ?_, _, rfl, _, _, field?_append hminute (colon _), _, rfl, _, _,
    field?_append hsecond (hfraction.endsDigits ends), _, _, fraction?_append hfraction ends, range,
    rfl⟩
  have read := field?_append hhour
    (colon (c.minute ++ ':' :: (c.second ++ (c.fraction ++ rest))))
  simpa [ClockSpelling.text] using read

/-- A date without a time of day is taken exactly if it is spelled loosely. -/
theorem isDate_iff : isDate cs = true ↔ ∃ p d, DateSpelling.Names .loose p d ∧ p.text = cs := by
  rw [isDate, beq_iff_eq]
  constructor
  · intro h
    obtain ⟨p, d, rfl, names⟩ := of_afterDate? h
    exact ⟨p, d, names, (List.append_nil _).symm⟩
  · intro h
    obtain ⟨p, d, names, rfl⟩ := h
    have ends : EndsDigits [] := nofun
    simpa using afterDate?_append names ends

/-- A date and a time of day without an offset are taken exactly if they are spelled loosely. -/
theorem isLocalDateTime_iff :
    isLocalDateTime cs = true ↔ ∃ p d c h m s n, DateSpelling.Names .loose p d ∧
      ClockSpelling.Names .loose c h m s n ∧ p.text ++ 'T' :: c.text = cs := by
  rw [isLocalDateTime, beq_iff_eq]
  simp only [Option.bind_eq_some_iff, after?_eq_some]
  constructor
  · intro h
    obtain ⟨_, ⟨_, hdate, rfl⟩, htime⟩ := h
    obtain ⟨p, d, rfl, date⟩ := of_afterDate? hdate
    obtain ⟨c, h, m, s, n, rfl, clock⟩ := of_afterTime? htime
    exact ⟨p, d, c, h, m, s, n, date, clock, by rw [List.append_nil]⟩
  · intro h
    obtain ⟨p, d, c, h, m, s, n, date, clock, rfl⟩ := h
    have ends : EndsFraction [] := nofun
    have read := afterTime?_append clock ends
    rw [List.append_nil] at read
    exact ⟨_, ⟨_, afterDate?_append date (by rintro _ ⟨⟩; rfl), rfl⟩, read⟩

/-- `Z`, or hours and minutes behind a plus sign or one of the characters that count as minus. -/
inductive Offset (minus : List Char) : Int → List Char → Prop
  | zulu {z : Char} (letter : z = 'Z' ∨ z = 'z') : Offset minus 0 [z]
  | ahead {h m : Nat} {hours minutes : List Char} (hour : Fixed 2 h hours)
      (minute : Fixed 2 m minutes) (range : h ≤ 23 ∧ m ≤ 59) :
      Offset minus (h * 3600 + m * 60) ('+' :: (hours ++ ':' :: minutes))
  | behind {sign : Char} {h m : Nat} {hours minutes : List Char} (negative : sign ∈ minus)
      (hour : Fixed 2 h hours) (minute : Fixed 2 m minutes) (range : h ≤ 23 ∧ m ≤ 59) :
      Offset minus (-(h * 3600 + m * 60)) (sign :: (hours ++ ':' :: minutes))

theorem offset?_signed {sign : Char} {h m : Nat} {hours minutes : List Char}
    (signed : sign = '+' ∨ sign = '-' ∨ sign = '\u2212') (hour : Fixed 2 h hours)
    (minute : Fixed 2 m minutes) (range : h ≤ 23 ∧ m ≤ 59) :
    offset? (sign :: (hours ++ ':' :: minutes)) =
      some (if sign = '+' then (h * 3600 + m * 60 : Int) else -(h * 3600 + m * 60)) := by
  have hread : digits? 2 2 (hours ++ ':' :: minutes) = some (h, ':' :: minutes) :=
    fixed_iff.mpr ⟨hours, rfl, hour⟩
  have mread : digits? 2 2 minutes = some (m, []) :=
    fixed_iff.mpr ⟨minutes, (List.append_nil _).symm, minute⟩
  rcases signed with rfl | rfl | rfl <;>
    simp [offset?, hread, mread, after?_eq_some.mpr, guard, range]

theorem offset?_eq_some {offset : Int} :
    offset? cs = some offset ↔ Offset ['-', '\u2212'] offset cs := by
  constructor
  · intro h
    unfold offset? at h
    split at h
    · cases h
      exact .zulu (.inl rfl)
    · cases h
      exact .zulu (.inr rfl)
    · simp only [Option.bind_eq_bind, Option.bind_eq_some_iff, Prod.exists, fixed_iff,
        after?_eq_some, Option.guard_eq_some', exists_const, Option.pure_def,
        Option.some.injEq] at h
      obtain ⟨signed, h, _, ⟨hours, rfl, hour⟩, _, rfl, m, _, ⟨minutes, rfl, minute⟩,
        ⟨hh, hm, rfl⟩, rfl⟩ := h
      rw [List.append_nil]
      split
      · rename_i plus
        rw [plus]
        exact .ahead hour minute ⟨hh, hm⟩
      · rename_i plus
        exact .behind (by simpa [plus] using signed) hour minute ⟨hh, hm⟩
    · cases h
  · intro h
    cases h with
    | zulu letter => rcases letter with rfl | rfl <;> rfl
    | ahead hour minute range => exact offset?_signed (.inl rfl) hour minute range
    | behind negative hour minute range =>
      rcases List.mem_pair.mp negative with rfl | rfl
      · exact offset?_signed (.inr (.inl rfl)) hour minute range
      · exact offset?_signed (.inr (.inr rfl)) hour minute range

/-- No offset starts with a digit or a point. -/
theorem Offset.endsFraction {offset : Int} (h : Offset ['-', '\u2212'] offset cs) :
    EndsFraction cs := by
  rintro c hc
  cases h with
  | zulu letter =>
    cases hc
    rcases letter with rfl | rfl <;> decide
  | ahead _ _ _ =>
    cases hc
    decide
  | behind negative _ _ _ =>
    cases hc
    rcases List.mem_pair.mp negative with rfl | rfl <;> decide

theorem separator?_eq_some :
    separator? cs = some rest ↔ ∃ c, (c = 'T' ∨ c = 't' ∨ c = ' ') ∧ cs = c :: rest := by
  constructor
  · intro h
    unfold separator? at h
    split at h
    · cases h
      exact ⟨_, .inl rfl, rfl⟩
    · cases h
      exact ⟨_, .inr (.inl rfl), rfl⟩
    · cases h
      exact ⟨_, .inr (.inr rfl), rfl⟩
    · cases h
  · intro h
    obtain ⟨c, letter, rfl⟩ := h
    rcases letter with rfl | rfl | rfl <;> rfl

/-- A date, one of three letters, a time of day and an offset, with all numbers in full width. -/
inductive Timestamp (minus : List Char) : LocalTime → List Char → Prop
  | mk {p : DateSpelling} {d : Date} {c : ClockSpelling} {separator : Char} {h m s n : Nat}
      {offset : Int} {ending : List Char} (date : p.Names .full d)
      (letter : separator = 'T' ∨ separator = 't' ∨ separator = ' ') (clock : c.Names .full h m s n)
      (behind : Offset minus offset ending) :
      Timestamp minus ⟨d, h, m, min s 59, n + s / 60 * 1000000000, offset⟩
        (p.text ++ separator :: (c.text ++ ending))

theorem timestamp?_eq_some {t : LocalTime} :
    timestamp? cs = some t ↔ Timestamp ['-', '\u2212'] t cs := by
  simp only [timestamp?, Option.bind_eq_bind, Option.bind_eq_some_iff, Prod.exists, fixed_iff,
    after?_eq_some, separator?_eq_some, offset?_eq_some, Option.guard_eq_some', exists_const,
    Option.pure_def, Option.some.injEq]
  constructor
  · intro h
    obtain ⟨year, _, ⟨years, rfl, hyear⟩, _, rfl, month, _, ⟨months, rfl, hmonth⟩, _, rfl, day, _,
      ⟨days, rfl, hday⟩, _, ⟨separator, letter, rfl⟩, hour, _, ⟨hours, rfl, hhour⟩, _, rfl,
      minute, _, ⟨minutes, rfl, hminute⟩, _, rfl, second, _, ⟨seconds, rfl, hsecond⟩, nanos, ending,
      hnanos, ⟨valid, range⟩, offset, behind, rfl⟩ := h
    obtain ⟨fraction, rfl, hfraction⟩ := of_fraction? hnanos
    have stamp := Timestamp.mk (p := ⟨years, months, days⟩) (d := ⟨year, month, day⟩)
      (c := ⟨hours, minutes, seconds, fraction⟩) ⟨⟨year, rfl, hyear⟩, hmonth, hday, valid⟩ letter
      ⟨hhour, hminute, hsecond, range, hfraction⟩ behind
    simpa [DateSpelling.text, ClockSpelling.text] using stamp
  · intro h
    cases h with
    | @mk p d c separator h m s n offset ending date letter clock behind =>
      obtain ⟨⟨year, hy, hyear⟩, hmonth, hday, valid⟩ := date
      obtain ⟨hhour, hminute, hsecond, range, hfraction⟩ := clock
      refine ⟨year, _, ⟨p.year, ?_, hyear⟩, _, rfl, _, _, ⟨p.month, rfl, hmonth⟩, _, rfl, _, _,
        ⟨p.day, rfl, hday⟩, _, ⟨separator, letter, rfl⟩, _, _, ⟨c.hour, rfl, hhour⟩, _, rfl, _, _,
        ⟨c.minute, rfl, hminute⟩, _, rfl, _, _, ⟨c.second, rfl, hsecond⟩, _, _,
        fraction?_append hfraction behind.endsFraction, ⟨?_, range⟩, _, behind, ?_⟩
      · simp [DateSpelling.text, ClockSpelling.text]
      · rwa [← hy]
      · rw [← hy]

end TimeGrammar

namespace Instant

variable {s : String} {i : Instant}

/-- An accepted text is kept as it stands. -/
theorem parse_eq_ok : parse s = .ok i ↔ isSpelling s = true ∧ i = .text s := by
  rw [parse]
  by_cases spelled : isSpelling s = true
  · simp [spelled, eq_comm]
  · simp [spelled]

theorem isSpelling_of_timestamp {t : LocalTime}
    (stamp : TimeGrammar.Timestamp ['-', '\u2212'] t s.toList) : isSpelling s = true := by
  simp [isSpelling, TimeGrammar.timestamp?_eq_some.mpr stamp]

end Instant
end SceneDoc
