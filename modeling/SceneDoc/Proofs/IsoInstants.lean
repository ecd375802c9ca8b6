import SceneDoc.Proofs.InstantSpellings
import SceneDoc.Proofs.NumberReading

namespace SceneDoc

open JsonGrammar (Digits)
open Token (EndsDigits)

namespace TimeGrammar

variable {cs ds rest word : List Char} {n : Nat}

/-- Characters of numbers spelled loosely, and what stands between them. -/
def isCommon (c : Char) : Bool :=
  c.isDigit || isBlank c || "-:.+TtZz".toList.contains c

theorem digits_common (digits : ∀ c ∈ cs, c.isDigit = true) : ∀ c ∈ cs, isCommon c = true := by
  intro c hc
  simp [isCommon, digits c hc]

theorem blanks_common (blank : ∀ c ∈ cs, isBlank c = true) : ∀ c ∈ cs, isCommon c = true := by
  intro c hc
  simp [isCommon, blank c hc]

theorem Fixed.common {width : Nat} (h : Fixed width n cs) : ∀ c ∈ cs, isCommon c = true :=
  digits_common h.digits

theorem Part.common (h : Part n cs) : ∀ c ∈ cs, isCommon c = true := by
  cases h with
  | mk blank digits _ =>
    exact List.forall_mem_append.mpr ⟨blanks_common blank, digits_common digits.digits⟩

theorem Fraction.common (h : Fraction n cs) : ∀ c ∈ cs, isCommon c = true := by
  cases h with
  | none => nofun
  | point digits => exact List.forall_mem_cons.mpr ⟨by decide, digits_common digits.digits⟩

theorem Year.common {year : Int} (h : Year year cs) : ∀ c ∈ cs, isCommon c = true := by
  cases h with
  | plain blank digits _ =>
    exact List.forall_mem_append.mpr ⟨blanks_common blank, digits_common digits.digits⟩
  | plus blank digits =>
    refine List.forall_mem_append.mpr ⟨blanks_common blank, List.forall_mem_cons.mpr ⟨?_, ?_⟩⟩
    · decide
    · exact digits_common digits.digits
  | minus blank digits =>
    refine List.forall_mem_append.mpr ⟨blanks_common blank, List.forall_mem_cons.mpr ⟨?_, ?_⟩⟩
    · decide
    · exact digits_common digits.digits

/-- White space is no digit, so there is none in front of a number that is all digits. -/
theorem Fixed.no_blanks {width : Nat} {blanks : List Char} (fixed : Fixed width n (blanks ++ cs))
    (blank : ∀ c ∈ blanks, isBlank c = true) : blanks = [] := by
  cases blanks with
  | nil => rfl
  | cons b blanks =>
    have visible := isBlank_of_isDigit (fixed.digits b List.mem_cons_self)
    rw [blank b List.mem_cons_self] at visible
    cases visible

theorem Part.fixed {k : Nat} (h : Part n cs) (fixed : Fixed 2 k cs) : n = k := by
  cases h with
  | mk blank _ _ =>
    obtain rfl := fixed.no_blanks blank
    exact fixed.value

theorem Fixed.part (fixed : Fixed 2 n cs) : Part n cs := by
  have none : ∀ c ∈ ([] : List Char), isBlank c = true := nofun
  have part := Part.mk none fixed.nonempty (Nat.le_of_eq fixed.width)
  rwa [fixed.value] at part

/-- Spelled in four digits, a year has neither white space nor a sign in front. -/
theorem Year.fixed {year : Int} (h : Year year cs) (fixed : Fixed 4 n cs) : year = n := by
  cases h with
  | plain blank _ _ =>
    obtain rfl := fixed.no_blanks blank
    exact congrArg Nat.cast fixed.value
  | plus blank _ =>
    obtain rfl := fixed.no_blanks blank
    cases fixed.digits '+' List.mem_cons_self
  | minus blank _ =>
    obtain rfl := fixed.no_blanks blank
    cases fixed.digits '-' List.mem_cons_self

theorem Fixed.year (fixed : Fixed 4 n cs) : Style.loose.year n cs := by
  have none : ∀ c ∈ ([] : List Char), isBlank c = true := nofun
  have year := Year.plain none fixed.nonempty (Nat.le_of_eq fixed.width)
  have small := natOfDigits_lt fixed.digits
  rw [fixed.width] at small
  rw [fixed.value] at year small
  refine ⟨year, ?_, ?_⟩ <;> omega

namespace DateSpelling

variable {p q : DateSpelling} {d e : Date}

structure Full (p : DateSpelling) : Prop where
  year : ∃ n, Fixed 4 n p.year
  month : ∃ n, Fixed 2 n p.month
  day : ∃ n, Fixed 2 n p.day

theorem Names.loosely (h : p.Names .full d) : p.Names .loose d := by
  obtain ⟨⟨n, hn, year⟩, month, day, valid⟩ := h
  exact ⟨hn ▸ year.year, month.part, day.part, valid⟩

theorem Names.isFull (h : p.Names .full d) : p.Full := by
  obtain ⟨⟨n, _, year⟩, month, day, _⟩ := h
  exact ⟨⟨n, year⟩, ⟨_, month⟩, ⟨_, day⟩⟩

/-- Read loosely, a spelling in full width names the same date as in full style. -/
theorem Names.fully (h : p.Names .loose d) (full : p.Full) : p.Names .full d := by
  obtain ⟨⟨year, _⟩, month, day, valid⟩ := h
  obtain ⟨⟨n, hyear⟩, ⟨m, hmonth⟩, ⟨k, hday⟩⟩ := full
  exact ⟨⟨n, year.fixed hyear, hyear⟩, month.fixed hmonth ▸ hmonth, day.fixed hday ▸ hday, valid⟩

theorem Full.length (full : p.Full) : p.text.length = 10 := by
  obtain ⟨⟨_, year⟩, ⟨_, month⟩, ⟨_, day⟩⟩ := full
  simp [text, year.width, month.width, day.width]

theorem Names.common (h : p.Names .loose d) : ∀ c ∈ p.text, isCommon c = true := by
  have dash : isCommon '-' = true := by decide
  obtain ⟨⟨year, _⟩, month, day, _⟩ := h
  have := year.common
  have := month.common
  have := day.common
  grind [text]

end DateSpelling

/-- What a reader takes of one text, and what it leaves, is one word and one rest. -/
theorem read_unique {α : Type} {read : List Char → Option (α × List Char)} {a a' : α}
    {word word' rest rest' : List Char} (h : read (word ++ rest) = some (a, rest))
    (h' : read (word' ++ rest') = some (a', rest')) (text : word ++ rest = word' ++ rest') :
    word = word' ∧ rest = rest' := by
  rw [text, h'] at h
  obtain ⟨_, rfl⟩ := Prod.mk.inj (Option.some.inj h)
  exact ⟨List.append_cancel_right text, rfl⟩

theorem endsDigits_cons {c : Char} (other : c.isDigit = false) (cs : List Char) :
    EndsDigits (c :: cs) := by
  rintro _ ⟨⟩
  exact other

namespace DateSpelling

variable {p q : DateSpelling} {d e : Date} {rest' : List Char}

/-- A text starts with one date at most. -/
theorem Names.unique (hp : p.Names .loose d) (hq : q.Names .loose e) (ends : EndsDigits rest)
    (ends' : EndsDigits rest') (text : p.text ++ rest = q.text ++ rest') :
    p = q ∧ rest = rest' := by
  have dash := endsDigits_cons (c := '-') rfl
  simp only [DateSpelling.text, List.append_assoc, List.cons_append] at text
  obtain ⟨year, text⟩ := read_unique (year?_append hp.year.1 (dash _))
    (year?_append hq.year.1 (dash _)) text
  obtain ⟨month, text⟩ := read_unique (field?_append hp.month (dash _))
    (field?_append hq.month (dash _)) (List.cons.inj text).2
  obtain ⟨day, rest⟩ := read_unique (field?_append hp.day ends) (field?_append hq.day ends')
    (List.cons.inj text).2
  obtain ⟨_, _, _⟩ := p
  cases year
  cases month
  cases day
  exact ⟨rfl, rest⟩

end DateSpelling

namespace ClockSpelling

variable {c e : ClockSpelling} {h m s n h' m' s' n' : Nat} {rest' : List Char}

structure Full (c : ClockSpelling) : Prop where
  hour : ∃ n, Fixed 2 n c.hour
  minute : ∃ n, Fixed 2 n c.minute
  second : ∃ n, Fixed 2 n c.second

theorem Names.loosely (names : c.Names .full h m s n) : c.Names .loose h m s n := by
  obtain ⟨hour, minute, second, range, fraction⟩ := names
  exact ⟨hour.part, minute.part, second.part, range, fraction⟩

theorem Names.isFull (names : c.Names .full h m s n) : c.Full :=
  ⟨⟨h, names.hour⟩, ⟨m, names.minute⟩, ⟨s, names.second⟩⟩

theorem Names.fully (names : c.Names .loose h m s n) (full : c.Full) : c.Names .full h m s n := by
  obtain ⟨hour, minute, second, range, fraction⟩ := names
  obtain ⟨⟨i, hhour⟩, ⟨j, hminute⟩, ⟨k, hsecond⟩⟩ := full
  exact ⟨hour.fixed hhour ▸ hhour, minute.fixed hminute ▸ hminute,
    second.fixed hsecond ▸ hsecond, range, fraction⟩

theorem Names.common (names : c.Names .loose h m s n) : ∀ x ∈ c.text, isCommon x = true := by
  have colon : isCommon ':' = true := by decide
  have := Part.common names.hour
  have := Part.common names.minute
  have := Part.common names.second
  have := names.fraction.common
  grind [text]

/-- A text starts with one time of day at most. -/
theorem Names.unique (hc : c.Names .loose h m s n) (he : e.Names .loose h' m' s' n')
    (ends : EndsFraction rest) (ends' : EndsFraction rest')
    (text : c.text ++ rest = e.text ++ rest') : c = e ∧ rest = rest' := by
  have colon := endsDigits_cons (c := ':') rfl
  simp only [ClockSpelling.text, List.append_assoc, List.cons_append] at text
  obtain ⟨hour, text⟩ := read_unique (field?_append hc.hour (colon _))
    (field?_append he.hour (colon _)) text
  obtain ⟨minute, text⟩ := read_unique (field?_append hc.minute (colon _))
    (field?_append he.minute (colon _)) (List.cons.inj text).2
  obtain ⟨second, text⟩ := read_unique (field?_append hc.second (hc.fraction.endsDigits ends))
    (field?_append he.second (he.fraction.endsDigits ends')) (List.cons.inj text).2
  obtain ⟨fraction, rest⟩ := read_unique (fraction?_append hc.fraction ends)
    (fraction?_append he.fraction ends') text
  obtain ⟨_, _, _, _⟩ := c
  cases hour
  cases minute
  cases second
  cases fraction
  exact ⟨rfl, rest⟩

end ClockSpelling

/-- Besides common characters an offset has only a minus sign. -/
theorem Offset.common {minus : List Char} {offset : Int} (h : Offset minus offset cs) :
    ∀ c ∈ cs, isCommon c = true ∨ c ∈ minus := by
  have colon : isCommon ':' = true := by decide
  have plus : isCommon '+' = true := by decide
  cases h with
  | zulu letter =>
    have : isCommon 'Z' = true := by decide
    have : isCommon 'z' = true := by decide
    grind
  | ahead hour minute _ =>
    have := hour.common
    have := minute.common
    grind
  | behind _ hour minute _ =>
    have := hour.common
    have := minute.common
    grind

/-- Only the minus signs that an offset has need to be allowed. -/
theorem Offset.mono {minus minus' : List Char} {offset : Int} (h : Offset minus offset cs)
    (allowed : ∀ c ∈ cs, c ∈ minus → c ∈ minus') : Offset minus' offset cs := by
  cases h with
  | zulu letter => exact .zulu letter
  | ahead hour minute range => exact .ahead hour minute range
  | behind negative hour minute range =>
    exact .behind (allowed _ List.mem_cons_self negative) hour minute range

theorem Timestamp.mono {minus minus' : List Char} {t : LocalTime} (h : Timestamp minus t cs)
    (allowed : ∀ c ∈ cs, c ∈ minus → c ∈ minus') : Timestamp minus' t cs := by
  cases h with
  | mk date letter clock behind =>
    refine .mk date letter clock (behind.mono fun c hc => allowed c ?_)
    simp [hc]

theorem hyphen_counts : ∀ c ∈ ['-'], c ∈ ['-', '\u2212'] := by
  intro c hc
  rw [List.mem_singleton.mp hc]
  exact List.mem_cons_self

theorem Timestamp.common {minus : List Char} {t : LocalTime} (h : Timestamp minus t cs) :
    ∀ c ∈ cs, isCommon c = true ∨ c ∈ minus := by
  cases h with
  | mk date letter clock behind =>
    have : isCommon 'T' = true := by decide
    have : isCommon 't' = true := by decide
    have : isCommon ' ' = true := by decide
    have := date.loosely.common
    have := clock.loosely.common
    have := behind.common
    grind

end TimeGrammar

namespace Instant

open TimeGrammar

variable {cs : List Char}

/-- Written in ISO 8601, or for an open bound. Every number has its full width. -/
inductive IsIso (cs : List Char) : Prop
  | earliest (text : earliest.toList = cs)
  | latest (text : latest.toList = cs)
  | date {p : DateSpelling} {d : Date} (date : p.Names .full d) (text : p.text = cs)
  | dateTime {p : DateSpelling} {d : Date} {c : ClockSpelling} {h m s n : Nat}
      (date : p.Names .full d) (clock : c.Names .full h m s n) (text : p.text ++ 'T' :: c.text = cs)
  | timestamp {t : LocalTime} (stamp : Timestamp ['-'] t cs)

/-- Accepted beside them: numbers that are too short, signed or behind white space, where there is
no offset, and an offset behind the minus sign of mathematics. -/
inductive IsLax (cs : List Char) : Prop
  | date {p : DateSpelling} {d : Date} (date : p.Names .loose d) (short : ¬ p.Full)
      (text : p.text = cs)
  | dateTime {p : DateSpelling} {d : Date} {c : ClockSpelling} {h m s n : Nat}
      (date : p.Names .loose d) (clock : c.Names .loose h m s n) (short : ¬ (p.Full ∧ c.Full))
      (text : p.text ++ 'T' :: c.text = cs)
  | timestamp {t : LocalTime} (stamp : Timestamp ['-', '\u2212'] t cs) (sign : '\u2212' ∈ cs)

theorem IsIso.common (h : IsIso cs) : ∀ c ∈ cs, isCommon c = true := by
  have letter : isCommon 'T' = true := by decide
  cases h with
  | earliest text =>
    subst text
    exact List.all_eq_true.mp (by decide)
  | latest text =>
    subst text
    exact List.all_eq_true.mp (by decide)
  | date date text =>
    subst text
    exact date.loosely.common
  | dateTime date clock text =>
    subst text
    have := date.loosely.common
    have := clock.loosely.common
    grind
  | timestamp stamp =>
    have hyphen : isCommon '-' = true := by decide
    intro c hc
    rcases stamp.common c hc with h | h
    · exact h
    · rwa [List.mem_singleton.mp h]

theorem IsLax.common (h : IsLax cs) : ∀ c ∈ cs, isCommon c = true ∨ c = '\u2212' := by
  have letter : isCommon 'T' = true := by decide
  cases h with
  | date date _ text =>
    subst text
    exact fun c hc => .inl (date.common c hc)
  | dateTime date clock _ text =>
    subst text
    have := date.common
    have := clock.common
    grind
  | timestamp stamp _ =>
    have hyphen : isCommon '-' = true := by decide
    have := stamp.common
    grind

/-- Dates in ISO 8601 have ten characters. -/
theorem IsIso.length_le (h : IsIso cs) : 10 ≤ cs.length := by
  cases h with
  | earliest text =>
    subst text
    decide
  | latest text =>
    subst text
    decide
  | date date text =>
    rw [← text, date.isFull.length]
  | dateTime date _ text =>
    rw [← text, List.length_append, date.isFull.length]
    apply Nat.le_add_right
  | timestamp stamp =>
    cases stamp with
    | mk date _ _ _ =>
      rw [List.length_append, date.isFull.length]
      apply Nat.le_add_right

/-- What is accepted is written in ISO 8601 or lax. -/
theorem isSpelling_iff {s : String} :
    isSpelling s = true ↔ IsIso s.toList ∨ IsLax s.toList := by
  have same (t : String) : s = t ↔ t.toList = s.toList := by
    rw [String.toList_inj, eq_comm]
  simp only [isSpelling, Bool.or_eq_true, beq_iff_eq, same, Option.isSome_iff_exists,
    timestamp?_eq_some, isLocalDateTime_iff, isDate_iff]
  constructor
  · rintro ((((h | h) | ⟨t, stamp⟩) | ⟨p, d, c, h, m, s, n, date, clock, text⟩) |
      ⟨p, d, date, text⟩)
    · exact .inl (.earliest h)
    · exact .inl (.latest h)
    · by_cases sign : '\u2212' ∈ s.toList
      · exact .inr (.timestamp stamp sign)
      · refine .inl (.timestamp (stamp.mono fun c hc minus => ?_))
        rcases List.mem_pair.mp minus with rfl | rfl
        · exact List.mem_singleton_self _
        · exact absurd hc sign
    · by_cases full : p.Full ∧ c.Full
      · exact .inl (.dateTime (date.fully full.1) (clock.fully full.2) text)
      · exact .inr (.dateTime date clock full text)
    · by_cases full : p.Full
      · exact .inl (.date (date.fully full) text)
      · exact .inr (.date date full text)
  · rintro (h | h)
    · cases h with
      | earliest text => exact .inl (.inl (.inl (.inl text)))
      | latest text => exact .inl (.inl (.inl (.inr text)))
      | date date text =>
        exact .inr ⟨_, _, date.loosely, text⟩
      | dateTime date clock text =>
        exact .inl (.inr ⟨_, _, _, _, _, _, _, date.loosely, clock.loosely, text⟩)
      | timestamp stamp =>
        exact .inl (.inl (.inr ⟨_, stamp.mono fun c _ => hyphen_counts c⟩))
    · cases h with
      | date date _ text => exact .inr ⟨_, _, date, text⟩
      | dateTime date clock _ text => exact .inl (.inr ⟨_, _, _, _, _, _, _, date, clock, text⟩)
      | timestamp stamp _ => exact .inl (.inl (.inr ⟨_, stamp⟩))

theorem separator_ends {c : Char} (letter : c = 'T' ∨ c = 't' ∨ c = ' ') (cs : List Char) :
    EndsDigits (c :: cs) := by
  apply endsDigits_cons
  rcases letter with rfl | rfl | rfl <;> rfl

/-- A text in ISO 8601 cannot be read as a date with numbers of another width. -/
theorem IsIso.full_of_date {p : DateSpelling} {d : Date} (h : IsIso cs) (date : p.Names .loose d)
    (text : p.text = cs) : p.Full := by
  have ends : EndsDigits [] := nofun
  have read : isDate cs = true := isDate_iff.mpr ⟨p, d, date, text⟩
  rw [← List.append_nil p.text] at text
  cases h with
  | earliest iso =>
    subst iso
    exact absurd read (by decide)
  | latest iso =>
    subst iso
    exact absurd read (by decide)
  | date date' iso =>
    obtain ⟨rfl, _⟩ := date.unique date'.loosely ends ends (by simpa using text.trans iso.symm)
    exact date'.isFull
  | dateTime date' _ iso =>
    cases (date.unique date'.loosely ends (endsDigits_cons rfl _) (text.trans iso.symm)).2
  | timestamp stamp =>
    cases stamp with
    | mk date' letter _ _ =>
      cases (date.unique date'.loosely ends (separator_ends letter _) text).2

/-- Nor as a date and a time of day. -/
theorem IsIso.full_of_dateTime {p : DateSpelling} {d : Date} {c : ClockSpelling} {h m s n : Nat}
    (iso : IsIso cs) (date : p.Names .loose d) (clock : c.Names .loose h m s n)
    (text : p.text ++ 'T' :: c.text = cs) : p.Full ∧ c.Full := by
  have ends : EndsFraction [] := nofun
  have letter : EndsDigits ('T' :: c.text) := endsDigits_cons rfl _
  have read : isLocalDateTime cs = true :=
    isLocalDateTime_iff.mpr ⟨p, d, c, h, m, s, n, date, clock, text⟩
  cases iso with
  | earliest iso =>
    subst iso
    exact absurd read (by decide)
  | latest iso =>
    subst iso
    exact absurd read (by decide)
  | date date' iso =>
    rw [← List.append_nil (DateSpelling.text _)] at iso
    cases (date.unique date'.loosely letter ends.digits (text.trans iso.symm)).2
  | dateTime date' clock' iso =>
    obtain ⟨rfl, rest⟩ :=
      date.unique date'.loosely letter (endsDigits_cons rfl _) (text.trans iso.symm)
    obtain ⟨rfl, _⟩ := clock.unique clock'.loosely ends ends (by simpa using rest)
    exact ⟨date'.isFull, clock'.isFull⟩
  | timestamp stamp =>
    -- Behind a time of day without an offset there is nothing, and no offset is empty.
    cases stamp with
    | mk date' letter' clock' behind =>
      obtain ⟨_, rest⟩ := date.unique date'.loosely letter (separator_ends letter' _) text
      have same := (List.cons.inj rest).2
      rw [← List.append_nil c.text] at same
      have allowed := behind.mono fun c _ => hyphen_counts c
      obtain ⟨_, rfl⟩ := clock.unique clock'.loosely ends allowed.endsFraction same
      cases behind

/-- No text is both in ISO 8601 and lax. -/
theorem IsLax.not_isIso (lax : IsLax cs) : ¬ IsIso cs := by
  intro iso
  cases lax with
  | date date short text => exact short (iso.full_of_date date text)
  | dateTime date clock short text => exact short (iso.full_of_dateTime date clock text)
  | timestamp _ sign => exact absurd (iso.common _ sign) (by decide)

/-- Exactly the texts in ISO 8601 and the lax ones are accepted, as they stand. None of them is both,
so an accepted text is in ISO 8601 exactly if it is not lax. -/
theorem accepted_iff (s : String) :
    (∀ i, parse s = .ok i ↔ i = .text s ∧ (IsIso s.toList ∨ IsLax s.toList)) ∧
      ¬ (IsIso s.toList ∧ IsLax s.toList) := by
  constructor
  · intro i
    rw [parse_eq_ok, isSpelling_iff, and_comm]
  · intro h
    exact h.2.not_isIso h.1

/-- A month of one digit is accepted, although no date in ISO 8601 is written so. -/
theorem parse_short_month :
    parse "2012-3-15" = .ok (.text "2012-3-15") ∧ ¬ IsIso "2012-3-15".toList := by
  refine ⟨by decide, fun iso => ?_⟩
  exact absurd iso.length_le (by decide)

end Instant
end SceneDoc
