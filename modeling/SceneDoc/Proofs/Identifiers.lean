import Mathlib.Data.List.Nodup
import SceneDoc.Proofs.Sessions

namespace SceneDoc

-- Powers are those of the core library, also where more algebra is in scope.
attribute [local instance (high)] instPowNat

/-- Decimal digits with zeros in front are read as the number they are made of. -/
theorem value_padded (width n : Nat) : Nat.ofDigitChars 10 (padded width n) 0 = n := by
  rw [padded, Nat.ofDigitChars_append, Nat.ofDigitChars_replicate_zero, Nat.mul_zero,
    Nat.ofDigitChars_ten_toDigits]

/-- Of the numbers below ten the second digit is missing. -/
theorem padded_two (n : Nat) :
    padded 2 n = (if n < 10 then ['0'] else []) ++ Nat.toDigits 10 n := by
  have hshort : (Nat.toDigits 10 n).length ≤ 1 ↔ n < 10 := by
    simpa using Nat.length_toDigits_le_iff (n := n) (k := 1) (b := 10) (by decide) (by decide)
  have hpos : 0 < (Nat.toDigits 10 n).length := Nat.length_toDigits_pos
  unfold padded
  by_cases hn : n < 10
  · have hlen : 2 - (Nat.toDigits 10 n).length = 1 := by
      have := hshort.mpr hn
      omega
    simp [hn, hlen]
  · have hlen : 2 - (Nat.toDigits 10 n).length = 0 := by
      have := mt hshort.mp hn
      omega
    simp [hn, hlen]

namespace IdSource

variable {ids last : IdSource} {stem : String}

theorem numbered_eq (stem : String) (n : Nat) :
    numbered stem n = stem ++ (if n < 10 then "0" else "") ++ toString n := by
  apply String.toList_injective
  rw [numbered, padded_two]
  by_cases hn : n < 10 <;> simp [hn]

theorem numbered_inj {m n : Nat} (h : numbered stem m = numbered stem n) : m = n := by
  have hlists := congrArg String.toList h
  simp only [numbered, String.toList_append, String.toList_ofList] at hlists
  have hdigits : padded 2 m = padded 2 n := List.append_cancel_left hlists
  calc
    m = Nat.ofDigitChars 10 (padded 2 m) 0 := (value_padded 2 m).symm
    _ = Nat.ofDigitChars 10 (padded 2 n) 0 := by rw [hdigits]
    _ = n := value_padded 2 n

theorem draw_ne (ids : IdSource) : ids.draw.2 ≠ ids := by
  intro h
  have hnext : ids.next + 1 = ids.next := congrArg IdSource.next h
  simp at hnext

/-- Drawing one after the other gives these identifiers and leads to the last source. -/
inductive Gives : IdSource → List String → IdSource → Prop
  | none (ids : IdSource) : Gives ids [] ids
  | next {ids last : IdSource} {more : List String} (later : ids.draw.2.Gives more last) :
    Gives ids (ids.draw.1 :: more) last

theorem Gives.append {middle : IdSource} {xs ys : List String} (first : ids.Gives xs middle)
    (second : middle.Gives ys last) : ids.Gives (xs ++ ys) last := by
  induction first with
  | none _ => exact second
  | next _ ih => exact .next (ih second)

theorem Gives.eq_drawMany {xs : List String} (h : ids.Gives xs last) :
    xs = ids.drawMany xs.length := by
  induction h with
  | none _ => rfl
  | next _ ih =>
    rw [List.length_cons, drawMany]
    exact congrArg _ ih

/-- The source counts modulo two to the power of 64. -/
theorem getElem?_drawMany {n k : Nat} (hk : k < n) (ids : IdSource) :
    (ids.drawMany n)[k]? = some (numbered ids.stem (ids.next + UInt64.ofNat k).toNat) := by
  induction n generalizing ids k with
  | zero => exact absurd hk (Nat.not_lt_zero k)
  | succ n ih =>
    cases k with
    | zero => simp [drawMany, draw]
    | succ k =>
      have hnext : ids.next + 1 + UInt64.ofNat k = ids.next + UInt64.ofNat (k + 1) := by
        rw [UInt64.ofNat_add, UInt64.add_assoc, UInt64.add_comm 1]
        rfl
      rw [drawMany, List.getElem?_cons_succ, ih (Nat.lt_of_succ_lt_succ hk), ← hnext]
      rfl

theorem length_drawMany (n : Nat) (ids : IdSource) : (ids.drawMany n).length = n := by
  induction n generalizing ids with
  | zero => rfl
  | succ n ih => simp [drawMany, ih]

/-- A new source gives the numbers from zero on, as long as there are enough of them. -/
theorem drawMany_start {n : Nat} (few : n < 2 ^ (64 : Nat)) (stem : String) :
    (start stem).drawMany n = (List.range n).map (numbered stem) := by
  apply List.ext_getElem?
  intro k
  by_cases hk : k < n
  · have hnat : (0 + UInt64.ofNat k).toNat = k := by
      rw [UInt64.zero_add]
      exact UInt64.toNat_ofNat_of_lt' (Nat.lt_trans hk few)
    have hget := getElem?_drawMany hk (start stem)
    simp only [start] at hget
    rw [start, hget, hnat]
    simp [hk]
  · have hlen := length_drawMany n (start stem)
    rw [List.getElem?_eq_none (by omega), List.getElem?_eq_none (by simpa using hk)]

end IdSource

/-- Which identifiers a step may draw, and how the packet is called that it adds: as it is told, or
else by the one identifier that is drawn for it. -/
def Step.Assigns (drawn : List String) (answer : Except StepError Answer) : Step → Prop
  | .packet inputs =>
    match inputs.lookup "id" with
    | some given =>
      drawn = [] ∧ ∀ id slot p, given = .text id → answer = .ok (.added slot p) → p.id = id
    | none => ∃ id, drawn = [id] ∧ ∀ slot p, answer = .ok (.added slot p) → p.id = id
  | .drawId => ∃ id, drawn = [id] ∧ answer = .ok (.drawn id)
  | _ => drawn = []

namespace Session

variable {r : Registry} {s : Session} {todo : Step}

/-- The identifiers drawn in a run, in order. A step has drawn one if the source is not as it was. -/
def drawn (r : Registry) (s : Session) : List Step → List String
  | [] => []
  | todo :: rest =>
    let after := (s.step r todo).2
    if after.ids = s.ids then after.drawn r rest else s.ids.draw.1 :: after.drawn r rest

theorem drawn_one_of_draws (draws : todo.Draws) : s.drawn r [todo] = [s.ids.draw.1] := by
  rcases step_ids r s todo with ⟨_, hids⟩ | ⟨hnot, _⟩
  · simp [drawn, hids, IdSource.draw_ne]
  · exact absurd draws hnot

theorem drawn_one_of_not_draws (hnot : ¬ todo.Draws) : s.drawn r [todo] = [] := by
  rcases step_ids r s todo with ⟨draws, _⟩ | ⟨_, hids⟩
  · exact absurd draws hnot
  · simp [drawn, hids]

theorem drawn_cons (todo : Step) (rest : List Step) :
    s.drawn r (todo :: rest) = s.drawn r [todo] ++ (s.step r todo).2.drawn r rest := by
  simp only [drawn]
  split <;> rfl

theorem drawn_append (xs ys : List Step) (s : Session) :
    s.drawn r (xs ++ ys) = s.drawn r xs ++ (s.run r xs).2.drawn r ys := by
  induction xs generalizing s with
  | nil => rfl
  | cons todo rest ih =>
    rw [List.cons_append, drawn_cons, ih, drawn_cons todo rest, List.append_assoc]
    rfl

theorem step_gives (r : Registry) (s : Session) (todo : Step) :
    s.ids.Gives (s.drawn r [todo]) (s.step r todo).2.ids := by
  rcases step_ids r s todo with ⟨draws, hids⟩ | ⟨hnot, hids⟩
  · rw [drawn_one_of_draws draws, hids]
    exact .next (.none _)
  · rw [drawn_one_of_not_draws hnot, hids]
    exact .none _

theorem run_gives (steps : List Step) (s : Session) :
    s.ids.Gives (s.drawn r steps) (s.run r steps).2.ids := by
  induction steps generalizing s with
  | nil => exact .none _
  | cons todo rest ih =>
    rw [drawn_cons]
    exact (step_gives r s todo).append (ih _)

theorem eq_ok_of_added {built : Except Error Packet} {slot : Nat} {p : Packet}
    (added : (s.add built).1 = .ok (.added slot p)) : built = .ok p := by
  cases built with
  | error e => cases added
  | ok q =>
    cases added
    rfl

theorem step_assigns (r : Registry) (s : Session) (todo : Step) :
    todo.Assigns (s.drawn r [todo]) (s.step r todo).1 := by
  cases todo with
  | packet inputs =>
    cases hinput : inputs.lookup "id" with
    | some input =>
      simp only [Step.Assigns, hinput]
      refine ⟨drawn_one_of_not_draws fun draws => ?_, fun id slot p htext added => ?_⟩
      · cases draws with
        | packet absent => cases hinput.symm.trans absent
      · rw [step_packet] at added
        have built := eq_ok_of_added added
        rw [Registry.packet_given s.ids hinput] at built
        have hmem : ("id", input) ∈ inputs := by
          obtain ⟨before, after, hsplit, _⟩ := List.lookup_eq_some_iff.mp hinput
          simp [hsplit]
        exact Registry.identified_id built (htext ▸ hmem)
    | none =>
      simp only [Step.Assigns, hinput]
      refine ⟨s.ids.draw.1, drawn_one_of_draws (.packet hinput), fun slot p added => ?_⟩
      rw [step_packet] at added
      have built := eq_ok_of_added added
      rw [Registry.packet_drawn s.ids hinput] at built
      exact Registry.identified_id built (by simp)
  | drawId => exact ⟨s.ids.draw.1, drawn_one_of_draws .drawId, rfl⟩
  | preamble inputs | adopt o | assemble slots | fetch slot | field slot name | find id | document
  | compare first second => exact drawn_one_of_not_draws nofun

/-- Steps that share a new source are given its identifiers in order and each only once: the stem with
the numbers from zero on behind it, of two digits at least. A packet keeps the identifier that it is
given, and otherwise it draws exactly one, also if it cannot be built. -/
theorem run_assigns (r : Registry) (stem : String) (steps : List Step)
    (few : ((start stem).drawn r steps).length < 2 ^ (64 : Nat)) :
    let drawn := (start stem).drawn r steps
    (∀ k id, drawn[k]? = some id → id = stem ++ (if k < 10 then "0" else "") ++ toString k) ∧
    drawn.Nodup ∧
    ∀ before todo after, steps = before ++ todo :: after →
      let s := ((start stem).run r before).2
      let t := (s.step r todo).2
      drawn = (start stem).drawn r before ++ s.drawn r [todo] ++ t.drawn r after ∧
      s.ids.Gives (s.drawn r [todo]) t.ids ∧ todo.Assigns (s.drawn r [todo]) (s.step r todo).1 := by
  intro drawn
  have hdrawn : drawn = (List.range drawn.length).map (IdSource.numbered stem) := by
    rw [← IdSource.drawMany_start few]
    exact (run_gives steps (start stem)).eq_drawMany
  refine ⟨fun k id hid => ?_, ?_, fun before todo after hsteps => ?_⟩
  · rw [hdrawn, List.getElem?_map] at hid
    obtain ⟨j, hj, rfl⟩ := Option.map_eq_some_iff.mp hid
    obtain ⟨_, rfl⟩ := List.getElem?_eq_some_iff.mp hj
    rw [List.getElem_range]
    exact IdSource.numbered_eq stem k
  · rw [hdrawn]
    exact List.Nodup.map (fun _ _ => IdSource.numbered_inj) List.nodup_range
  · refine ⟨?_, step_gives r _ todo, step_assigns r _ todo⟩
    change (start stem).drawn r steps = _
    rw [hsteps, drawn_append, drawn_cons, List.append_assoc]

end Session

def Catalogue.marker : Definition where
  name := "Packet"
  description := ""
  bases := [.deletable]
  attributes := [.optional "id" "String" "", .optional "name" "String" ""]
  rules := []

/-- One packet cannot be built, one has an identifier of its own, one is deleted. -/
theorem Session.run_assigns_marker :
    ∃ r, Registry.compile [Catalogue.marker] = .ok r ∧
      let steps : List Step := [.packet [("name", .bool true)], .packet [("id", .text "1")], .drawId,
        .packet [("delete", .bool true)]]
      ((start "1").drawn r steps).length < 2 ^ (64 : Nat) ∧ ((start "1").drawn r steps).Nodup ∧
      ((start "1").run r steps).2.packets.map (·.id) = ["1", "102"] := by
  have run : ((Registry.compile [Catalogue.marker]).toOption.filter fun r =>
      let steps : List Step := [.packet [("name", .bool true)], .packet [("id", .text "1")], .drawId,
        .packet [("delete", .bool true)]]
      ((start "1").drawn r steps).length < 2 ^ (64 : Nat) ∧
        ((start "1").run r steps).2.packets.map (·.id) = ["1", "102"]).isSome = true := by
    decide +kernel
  simp only [Option.isSome_iff_exists, Option.filter_eq_some_iff, toOption_eq_some,
    decide_eq_true_eq] at run
  obtain ⟨r, hr, few, ids⟩ := run
  exact ⟨r, hr, few, (run_assigns r "1" _ few).2.1, ids⟩

end SceneDoc
