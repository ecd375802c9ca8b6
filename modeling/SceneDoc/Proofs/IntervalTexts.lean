import SceneDoc.Proofs.IsoInstants
import SceneDoc.Proofs.Moments
import SceneDoc.Proofs.Outcomes
import SceneDoc.Proofs.Splitting

namespace SceneDoc

namespace Moment

open TimeGrammar

theorem padded_common (width n : Nat) : ∀ c ∈ padded width n, isCommon c = true :=
  digits_common (padded_digits width n)

theorem yearText_common (year : Int) : ∀ c ∈ yearText year, isCommon c = true := by
  have plus : isCommon '+' = true := by decide
  have minus : isCommon '-' = true := by decide
  unfold yearText
  split
  · exact padded_common 4 _
  · rintro c (_ | ⟨_, hc⟩)
    · split
      · exact minus
      · exact plus
    · exact padded_common 4 _ c hc

theorem fractionText_common (nanos : Nat) : ∀ c ∈ fractionText nanos, isCommon c = true := by
  have point : isCommon '.' = true := by decide
  unfold fractionText
  split
  · nofun
  · split
    · exact List.forall_mem_cons.mpr ⟨point, padded_common 3 _⟩
    · split
      · exact List.forall_mem_cons.mpr ⟨point, padded_common 6 _⟩
      · exact List.forall_mem_cons.mpr ⟨point, padded_common 9 _⟩

/-- Moments of any year are written with common characters. -/
theorem text_common (m : Moment) : ∀ c ∈ m.text, isCommon c = true := by
  have dash : isCommon '-' = true := by decide
  have colon : isCommon ':' = true := by decide
  have letter : isCommon 'T' = true := by decide
  have zulu : isCommon 'Z' = true := by decide
  have := yearText_common m.date.year
  have := padded_common 2
  have := fractionText_common (m.nanos % 1000000000)
  simp only [text_eq, DateSpelling.text, ClockSpelling.text, dateSpelling, clockSpelling]
  grind

end Moment

namespace Instant

open TimeGrammar

variable {s : String} {i : Instant} {cs : List Char}

/-- Besides common characters an accepted text has only a minus sign. -/
theorem common_of_isSpelling (h : isSpelling s = true) :
    ∀ c ∈ s.toList, isCommon c = true ∨ c = '\u2212' := by
  rcases isSpelling_iff.mp h with iso | lax
  · exact fun c hc => .inl (iso.common c hc)
  · exact lax.common

theorem slash_not_mem (h : isSpelling s = true) : '/' ∉ s.toList := by
  intro slash
  rcases common_of_isSpelling h '/' slash with h | h <;> exact absurd h (by decide)

/-- An instant as it may stand in an interval: an accepted text or a moment with a year of four
digits. -/
inductive Readable : Instant → Prop
  | text {s : String} {i : Instant} (accepted : parse s = .ok i) : Readable i
  | moment {m : Moment} (writable : m.IsWritable) : Readable (.moment m)

theorem isSpelling_text {m : Moment} (writable : m.IsWritable) :
    isSpelling (.ofList m.text) = true := by
  obtain ⟨t, stamp, _⟩ := Moment.timestamp_text writable ['-', '\u2212']
  apply isSpelling_of_timestamp
  rwa [String.toList_ofList]

/-- What is rendered of an instant is accepted. -/
theorem Readable.isSpelling (h : i.Readable) : isSpelling i.render = true := by
  cases h with
  | text accepted =>
    obtain ⟨spelled, rfl⟩ := parse_eq_ok.mp accepted
    exact spelled
  | moment writable => exact isSpelling_text writable

end Instant

namespace TimeInterval

open Instant (isSpelling)

variable {s : String} {i j : TimeInterval}

def boundText (sentinel : String) (bound : Option Instant) : String :=
  (bound.map Instant.render).getD sentinel

/-- An interval is accepted if it is two accepted instants with a slash between them. -/
theorem parse_eq_ok : parse s = .ok i ↔ ∃ start stop,
    s = start ++ "/" ++ stop ∧ isSpelling start = true ∧ isSpelling stop = true ∧
      i = ⟨some (.text start), some (.text stop)⟩ := by
  unfold parse
  constructor
  · intro h
    split at h
    · cases h
    · rename_i start stop cut
      split at h
      · cases h
      · simp only [bind_eq_ok, Instant.parse_eq_ok, except_pure, Except.ok.injEq] at h
        obtain ⟨_, ⟨hstart, rfl⟩, _, ⟨hstop, rfl⟩, rfl⟩ := h
        have text := (splitOnce?_eq_some.mp cut).1
        refine ⟨.ofList start, .ofList stop, ?_, hstart, hstop, rfl⟩
        apply String.toList_inj.mp
        simp [text]
  · rintro ⟨start, stop, rfl, hstart, hstop, rfl⟩
    have cut : splitOnce? ['/'] (start ++ "/" ++ stop).toList = some (start.toList, stop.toList) :=
      splitOnce?_eq_some.mpr ⟨by simp, Instant.slash_not_mem hstart⟩
    have alone : stop.toList.contains '/' = false := by
      simpa using Instant.slash_not_mem hstop
    rw [cut]
    simp only [alone, Bool.false_eq_true, ↓reduceIte, String.ofList_toList, bind_eq_ok, except_pure]
    exact ⟨_, Instant.parse_eq_ok.mpr ⟨hstart, rfl⟩, _, Instant.parse_eq_ok.mpr ⟨hstop, rfl⟩, rfl⟩

theorem boundText_isSpelling {sentinel : String} {bound : Option Instant}
    (h : isSpelling sentinel = true) (readable : ∀ x ∈ bound, x.Readable) :
    isSpelling (boundText sentinel bound) = true := by
  cases bound with
  | none => exact h
  | some x => exact (readable x rfl).isSpelling

/-- Accepted texts are rendered as they were. Intervals whose bounds are open or readable are rendered
as a text that is accepted, with sentinels for the open bounds, and is kept from there. No instant has
a slash in its text. -/
theorem texts_read_back :
    (∀ s i, parse s = .ok i → i.render = s) ∧
    (∀ i : TimeInterval, (∀ x ∈ i.start, x.Readable) → (∀ x ∈ i.stop, x.Readable) →
      ∃ j, parse i.render = .ok j ∧ j.render = i.render ∧
        j.start = some (.text (boundText Instant.earliest i.start)) ∧
        j.stop = some (.text (boundText Instant.latest i.stop))) ∧
    (∀ s x, Instant.parse s = .ok x → '/' ∉ s.toList) ∧
    ∀ m : Moment, '/' ∉ (Instant.moment m).render.toList := by
  refine ⟨?_, ?_, ?_, ?_⟩
  · intro s i h
    obtain ⟨start, stop, rfl, _, _, rfl⟩ := parse_eq_ok.mp h
    rfl
  · intro i hstart hstop
    have earliest : isSpelling Instant.earliest = true := by decide
    have latest : isSpelling Instant.latest = true := by decide
    have start := boundText_isSpelling earliest hstart
    have stop := boundText_isSpelling latest hstop
    exact ⟨_, parse_eq_ok.mpr ⟨_, _, rfl, start, stop, rfl⟩, rfl, rfl, rfl⟩
  · intro s x h
    exact Instant.slash_not_mem (Instant.parse_eq_ok.mp h).1
  · intro m slash
    rw [Instant.render, String.toList_ofList] at slash
    exact absurd (m.text_common '/' slash) (by decide)

/-- An open start is read back as a sentinel, and a leap second as its sixtieth. -/
theorem texts_read_back_leap_second :
    ∃ m : Moment, m.IsWritable ∧ m.nanos = 1500000000 ∧
      (∃ j, parse (render ⟨none, some (.moment m)⟩) = .ok j ∧
        j.render = "0000-00-00T00:00:00Z/2016-12-31T23:59:60.500Z" ∧
        j.start = some (.text Instant.earliest)) ∧
      ∀ i, parse "2012-3-15/2012-03-16" = .ok i → i.render = "2012-3-15/2012-03-16" := by
  let m := LocalTime.toMoment ⟨⟨2016, 12, 31⟩, 23, 59, 59, 1500000000, 0⟩
  have writable : m.IsWritable := by
    constructor <;> decide +kernel
  have readable : ∀ x ∈ some (Instant.moment m), x.Readable := by
    rintro _ ⟨⟩
    exact .moment writable
  obtain ⟨same, accepts, _⟩ := texts_read_back
  obtain ⟨j, hj, text, start, _⟩ := accepts ⟨none, some (.moment m)⟩ nofun readable
  refine ⟨m, writable, rfl, ⟨j, hj, text.trans ?_, start⟩, same _⟩
  decide +kernel

end TimeInterval
end SceneDoc
