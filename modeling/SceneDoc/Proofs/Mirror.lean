import SceneDoc.Bindings.Generation
import SceneDoc.Proofs.Compilation
import SceneDoc.Proofs.GeneratedNames
import SceneDoc.Proofs.SourceLines
import SceneDoc.Proofs.Splitting

namespace SceneDoc
namespace Mirror

open TypeText

structure Member where
  identifier : List Char
  type : List Char
  /-- What its attribute sets: text before a quoted text, and the quoted text. -/
  settings : List (List Char × List Char)
deriving DecidableEq

structure Record where
  name : String
  members : List Member
deriving DecidableEq

namespace Member

def setting? (m : Member) (name : String) : Option (List Char) :=
  (m.settings.find? fun s => (name.toList ++ [' ', '=', ' ']).isSuffixOf s.1).map (·.2)

/-- The key that the field has in documents: its other name, if it has one, and otherwise its
identifier without the mark of raw ones. -/
def key (m : Member) : String :=
  match m.setting? "rename" with
  | some name => .ofList name
  | none => Identifier.plain (.ofList m.identifier)

/-- What is left out of documents while it is none. -/
def skipped (m : Member) : Bool := m.setting? "skip_serializing_if" = some "Option::is_none".toList

def optional (m : Member) : Bool :=
  match between "Option<" ">" m.type with
  | .inner _ => true
  | _ => false

def base (m : Member) : String :=
  match between "Option<" ">" m.type with
  | .inner type => .ofList type
  | _ => .ofList m.type

end Member

/-- What every second of the parts quotes, with the part before it. -/
def quotations : List (List Char) → List (List Char × List Char)
  | before :: quoted :: rest => (before, quoted) :: quotations rest
  | _ => []

inductive LineKind where
  | opening (name : List Char)
  | attribute (settings : List (List Char × List Char))
  | member (identifier type : List Char)
  | closing
  | other
deriving DecidableEq

def LineKind.of (line : List Char) : LineKind :=
  match between "pub struct " " \x7b" line with
  | .inner name => .opening name
  | _ =>
    match between "    #[serde(" ")]" line with
    | .inner written => .attribute (quotations (written.splitOn '"'))
    | _ =>
      match between "    pub " "," line with
      | .inner declared =>
        match splitOnce? [':', ' '] declared with
        | some (identifier, type) => .member identifier type
        | none => .other
      | _ => if line = ['\x7d'] then .closing else .other

/-- What has been read, from the last line up: the members of a record that is still open, and the
records behind it. -/
structure Reading where
  members : List Member
  records : List Record
deriving DecidableEq

namespace Reading

/-- Reads one more line. An attribute is the one of the member below it, and the members between the
opening of a record and its end are the record's. -/
def step (s : Reading) : LineKind → Reading
  | .opening name => ⟨[], ⟨.ofList name, s.members⟩ :: s.records⟩
  | .attribute settings =>
    match s.members with
    | m :: later => ⟨{ m with settings } :: later, s.records⟩
    | [] => s
  | .member identifier type => ⟨⟨identifier, type, []⟩ :: s.members, s.records⟩
  | .closing => ⟨[], s.records⟩
  | .other => s

def before (s : Reading) (lines : List (List Char)) : Reading :=
  lines.foldr (fun line s => s.step (.of line)) s

end Reading

def records (text : String) : List Record :=
  (Reading.before ⟨[], []⟩ (lines text.toList)).records

def enumName? (line : List Char) : Option String :=
  match between "pub enum " " \x7b" line with
  | .inner name => some (.ofList name)
  | _ => none

def enums (text : String) : List String := (lines text.toList).filterMap enumName?

structure Member.Mirrors (m : Member) (f : Field) : Prop where
  key : m.key = f.name
  base : m.base = f.baseType
  optional : m.optional = !f.required
  skipped : m.skipped = !f.required

/-- A record of a class: one member for each field, in order. -/
structure Record.Mirrors (d : Record) (c : ValueClass) : Prop where
  name : d.name = c.name
  members : List.Forall₂ Member.Mirrors d.members c.fields

section Lines

variable {l : List Char}

/-- Lines that begin otherwise declare nothing. -/
theorem of_other (h : ∀ c, l.head? = some c → c ≠ 'p' ∧ c ≠ ' ' ∧ c ≠ '\x7d') :
    LineKind.of l = .other := by
  cases l with
  | nil => rfl
  | cons c rest =>
    obtain ⟨hp, hspace, hend⟩ := h c rfl
    simp [LineKind.of, between, dropStart?, List.isPrefixOf, hp.symm, hspace.symm, hend]

theorem of_comment {indent : Nat} {text : String} (h : indent = 0 ∨ indent = 4)
    (hl : l ∈ Comment.lines indent text.toList) : LineKind.of l = .other := by
  obtain ⟨rest, _, rfl⟩ := Comment.lines_marked l hl
  rcases h with rfl | rfl <;> rfl

theorem of_classLine (c : ValueClass) :
    LineKind.of (Records.classLine c).toList = .opening c.name.toList := by
  have hline : (Records.classLine c).toList =
      "pub struct ".toList ++ c.name.toList ++ " \x7b".toList := by
    simp [Records.classLine]
  simp only [LineKind.of, hline, between_append]

theorem of_fieldLine {f : Field} (colonless : ':' ∉ f.declaration.identifier.toList) :
    LineKind.of (Records.fieldLine f).toList =
      .member f.declaration.identifier.toList f.declaration.type.toList := by
  have hline : (Records.fieldLine f).toList = "    pub ".toList ++
      (f.declaration.identifier.toList ++ ':' :: ([' '] ++ f.declaration.type.toList)) ++
        ",".toList := by
    simp [Records.fieldLine]
  have hstruct (cs : List Char) :
      "pub struct ".toList.isPrefixOf ("    pub ".toList ++ cs) = false := rfl
  have hattribute (cs : List Char) :
      "    #[serde(".toList.isPrefixOf ("    pub ".toList ++ cs) = false := rfl
  rw [LineKind.of, hline, between_ne (by rw [List.append_assoc, hstruct]),
    between_ne (by rw [List.append_assoc, hattribute]), between_append]
  simp only [splitOnce?_append colonless]

def settings (d : Declaration) : List (List Char × List Char) :=
  match d.rename, d.optional with
  | none, false => []
  | none, true => [("skip_serializing_if = ".toList, "Option::is_none".toList)]
  | some name, false => [("rename = ".toList, name.toList)]
  | some name, true => [("rename = ".toList, name.toList),
      (", skip_serializing_if = ".toList, "Option::is_none".toList)]

theorem splitOn_quote {before : List Char} (h : '"' ∉ before) (after : List Char) :
    (before ++ '"' :: after).splitOn '"' = before :: after.splitOn '"' := by
  have hbefore : ∀ c ∈ before, (c == '"') = false := by
    intro c hc
    refine beq_eq_false_iff_ne.mpr ?_
    rintro rfl
    exact h hc
  simp only [List.splitOn_eq_splitOnP]
  exact List.splitOnP_append_cons_of_forall_mem hbefore _ rfl _

/-- A quoted text is found behind what stands before it. -/
theorem quotations_quote {before quoted : List Char} (hbefore : '"' ∉ before)
    (hquoted : '"' ∉ quoted) (rest : List Char) :
    quotations ((before ++ '"' :: (quoted ++ '"' :: rest)).splitOn '"') =
      (before, quoted) :: quotations (rest.splitOn '"') := by
  rw [splitOn_quote hbefore, splitOn_quote hquoted, quotations]

theorem quotations_attribute {d : Declaration}
    (unquoted : ∀ name, d.rename = some name → '"' ∉ name.toList) :
    quotations ((String.intercalate ", " d.attributeParts).toList.splitOn '"') = settings d := by
  unfold Declaration.attributeParts settings
  cases hrename : d.rename with
  | none => cases d.optional <;> decide
  | some name =>
    have hname := unquoted name hrename
    have hstart : '"' ∉ "rename = ".toList := by decide
    cases d.optional with
    | false =>
      have htext : (String.intercalate ", " ["rename = \"" ++ name ++ "\""]).toList =
          "rename = ".toList ++ '"' :: (name.toList ++ '"' :: []) := by
        simp
      calc
        _ = quotations (("rename = ".toList ++ '"' :: (name.toList ++ '"' :: [])).splitOn '"') := by
          rw [← htext]
          rfl
        _ = _ := quotations_quote hstart hname []
    | true =>
      have htext : (String.intercalate ", " ["rename = \"" ++ name ++ "\"",
          "skip_serializing_if = \"Option::is_none\""]).toList =
            "rename = ".toList ++ '"' :: (name.toList ++ '"' ::
              ", skip_serializing_if = \"Option::is_none\"".toList) := by
        simp
      calc
        _ = quotations (("rename = ".toList ++ '"' :: (name.toList ++ '"' ::
              ", skip_serializing_if = \"Option::is_none\"".toList)).splitOn '"') := by
          rw [← htext]
          rfl
        _ = _ := quotations_quote hstart hname _
        _ = _ := by
          congr 1

theorem of_attribute {d : Declaration} {written : String}
    (unquoted : ∀ name, d.rename = some name → '"' ∉ name.toList)
    (h : d.attribute? = some written) :
    LineKind.of ("    " ++ written).toList = .attribute (settings d) := by
  unfold Declaration.attribute? at h
  split at h
  · cases h
  · cases h
    have hline : ("    " ++ ("#[serde(" ++ String.intercalate ", " d.attributeParts ++ ")]")).toList =
        "    #[serde(".toList ++ (String.intercalate ", " d.attributeParts).toList ++ ")]".toList := by
      simp
    have hstruct (cs : List Char) :
        "pub struct ".toList.isPrefixOf ("    #[serde(".toList ++ cs) = false := rfl
    rw [LineKind.of, hline, between_ne (by rw [List.append_assoc, hstruct]), between_append]
    exact congrArg LineKind.attribute (quotations_attribute unquoted)

end Lines

def memberOf (f : Field) : Member :=
  ⟨f.declaration.identifier.toList, f.declaration.type.toList, settings f.declaration⟩

def recordOf (c : ValueClass) : Record := ⟨c.name, c.fields.map memberOf⟩

namespace Reading

variable {s : Reading} {ls : List (List Char)} {f : Field} {c : ValueClass}

theorem before_append (xs ys : List (List Char)) : s.before (xs ++ ys) = (s.before ys).before xs :=
  List.foldr_append

theorem before_other (h : ∀ l ∈ ls, LineKind.of l = .other) : s.before ls = s := by
  induction ls with
  | nil => rfl
  | cons l rest ih =>
    obtain ⟨hl, hrest⟩ := List.forall_mem_cons.mp h
    calc
      s.before (l :: rest) = (s.before rest).step (.of l) := rfl
      _ = s := by rw [hl, ih hrest, step]

def beforeEntries (s : Reading) (entries : List SourceEntry) : Reading :=
  s.before (entries.flatMap fun e => lines e.text)

theorem beforeEntries_nil : s.beforeEntries [] = s := rfl

theorem beforeEntries_append (xs ys : List SourceEntry) :
    s.beforeEntries (xs ++ ys) = (s.beforeEntries ys).beforeEntries xs := by
  rw [beforeEntries, List.flatMap_append, before_append]
  rfl

theorem beforeEntries_cons (e : SourceEntry) (rest : List SourceEntry) :
    s.beforeEntries (e :: rest) = (s.beforeEntries rest).before (lines e.text) := by
  rw [beforeEntries, List.flatMap_cons, before_append]
  rfl

theorem before_line {text : String} (h : IsLine text.toList) :
    s.before (lines (SourceEntry.line text).text) = s.step (.of text.toList) := by
  rw [SourceEntry.text, lines_single h]
  rfl

theorem before_comment {indent : Nat} (h : indent = 0 ∨ indent = 4) (text : String) :
    s.before (lines (SourceEntry.comment indent text).text) = s := by
  rw [SourceEntry.lines_comment]
  exact before_other fun l hl => of_comment h hl

end Reading

section Declarations

variable {f : Field} {c : ValueClass}

theorem isLine_append {cs : List Char} {final : Char} (h : '\n' ∉ cs) (visible : isBlank final = false) :
    IsLine (cs ++ [final]) := by
  have hne (c : Char) (blank : isBlank c = true) : c ≠ final := by
    rintro rfl
    rw [visible] at blank
    cases blank
  constructor
  · intro hmem
    rcases List.mem_append.mp hmem with hmem | hmem
    · exact h hmem
    · exact hne _ (by decide) (List.mem_singleton.mp hmem)
  · rw [List.getLast?_concat]
    exact fun hlast => hne _ (by decide) (Option.some.inj hlast).symm

theorem identifier_not_mem (declarable : f.Declarable) {c : Char} (other : isNameChar c = false)
    (unmarked : c ∉ Identifier.rawMark.toList) : c ∉ f.declaration.identifier.toList :=
  Identifier.ofName_not_mem declarable.name other unmarked

theorem rename_eq {name : String} (h : f.declaration.rename = some name) :
    name = f.name ∧ Identifier.plain f.declaration.identifier ≠ f.name := by
  simp only [Field.declaration] at h ⊢
  split at h
  · cases h
  · rename_i hplain
    exact ⟨(Option.some.inj h).symm, hplain⟩

theorem isLine_fieldLine (declarable : f.Declarable) : IsLine (Records.fieldLine f).toList := by
  have hidentifier : '\n' ∉ f.declaration.identifier.toList :=
    identifier_not_mem declarable (by decide) (by decide)
  have htype : '\n' ∉ f.declaration.type.toList := by
    have hbase := declarable.unbroken
    simp only [Declaration.type, Field.declaration]
    by_cases hrequired : f.required = true <;> simp [hrequired, hbase]
  have hline : (Records.fieldLine f).toList = "    pub ".toList ++
      f.declaration.identifier.toList ++ ": ".toList ++ f.declaration.type.toList ++ [','] := by
    simp [Records.fieldLine]
  rw [hline]
  exact isLine_append (by simp [hidentifier, htype]) (by decide)

theorem isLine_attribute (declarable : f.Declarable) {written : String}
    (h : f.declaration.attribute? = some written) : IsLine ("    " ++ written).toList := by
  have hname : ∀ name, f.declaration.rename = some name → '\n' ∉ name.toList := by
    intro name hrename
    rw [(rename_eq hrename).1]
    exact declarable.name.not_mem (by decide)
  have hparts : '\n' ∉ (String.intercalate ", " f.declaration.attributeParts).toList := by
    unfold Declaration.attributeParts
    cases hrename : f.declaration.rename with
    | none => cases f.declaration.optional <;> decide
    | some name =>
      have := hname name hrename
      cases f.declaration.optional <;> simp [this]
  unfold Declaration.attribute? at h
  split at h
  · cases h
  · cases h
    have hline : ("    " ++ ("#[serde(" ++ String.intercalate ", " f.declaration.attributeParts ++
        ")]")).toList = "    #[serde(".toList ++
          (String.intercalate ", " f.declaration.attributeParts).toList ++ [')'] ++ [']'] := by
      simp
    rw [hline]
    refine isLine_append ?_ (by decide)
    simp only [List.mem_append, not_or]
    exact ⟨⟨by decide, hparts⟩, by decide⟩

theorem settings_eq_nil {d : Declaration} (h : d.attribute? = none) : settings d = [] := by
  unfold Declaration.attribute? Declaration.attributeParts at h
  unfold settings
  cases hrename : d.rename <;> cases hoptional : d.optional <;> simp_all

/-- Comments leave what has been read as it is. -/
theorem before_comments {indent : Nat} (h : indent = 0 ∨ indent = 4) {entries : List SourceEntry}
    (comments : ∀ e ∈ entries, ∃ text, e = .comment indent text) (s : Reading) :
    s.beforeEntries entries = s := by
  induction entries with
  | nil => rfl
  | cons e rest ih =>
    obtain ⟨⟨text, rfl⟩, hrest⟩ := List.forall_mem_cons.mp comments
    rw [Reading.beforeEntries_cons, ih hrest, Reading.before_comment h]

/-- A field's lines are read as its member. -/
theorem before_fieldEntries (declarable : f.Declarable) (s : Reading) :
    s.beforeEntries (Records.fieldEntries f) = ⟨memberOf f :: s.members, s.records⟩ := by
  have hline : s.beforeEntries [.line (Records.fieldLine f)] =
      ⟨⟨f.declaration.identifier.toList, f.declaration.type.toList, []⟩ :: s.members, s.records⟩ := by
    have hcolon : ':' ∉ f.declaration.identifier.toList :=
      identifier_not_mem declarable (by decide) (by decide)
    rw [Reading.beforeEntries_cons, Reading.before_line (isLine_fieldLine declarable),
      of_fieldLine hcolon, Reading.beforeEntries_nil, Reading.step]
  have hquote : ∀ name, f.declaration.rename = some name → '"' ∉ name.toList := by
    intro name hrename
    rw [(rename_eq hrename).1]
    exact declarable.name.not_mem (by decide)
  have hattribute : (s.beforeEntries [.line (Records.fieldLine f)]).beforeEntries
      (f.declaration.attribute?.map fun written => SourceEntry.line ("    " ++ written)).toList =
        ⟨memberOf f :: s.members, s.records⟩ := by
    rw [hline]
    cases hwritten : f.declaration.attribute? with
    | none =>
      rw [memberOf, settings_eq_nil hwritten, Option.map_none, Option.toList_none,
        Reading.beforeEntries_nil]
    | some written =>
      rw [Option.map_some, Option.toList_some, Reading.beforeEntries_cons,
        Reading.before_line (isLine_attribute declarable hwritten), of_attribute hquote hwritten,
        Reading.beforeEntries_nil, Reading.step, memberOf]
  rw [Records.fieldEntries, Reading.beforeEntries_append, Reading.beforeEntries_append, hattribute]
  refine before_comments (.inr rfl) ?_ _
  cases f.default <;> simp

theorem before_fields (fields : List Field) (declarable : ∀ f ∈ fields, f.Declarable) (s : Reading) :
    s.beforeEntries (fields.flatMap Records.fieldEntries) =
      ⟨fields.map memberOf ++ s.members, s.records⟩ := by
  induction fields with
  | nil => rfl
  | cons f rest ih =>
    obtain ⟨hf, hrest⟩ := List.forall_mem_cons.mp declarable
    rw [List.flatMap_cons, Reading.beforeEntries_append, ih hrest, before_fieldEntries hf]
    rfl

/-- A class's lines are read as its record. -/
theorem before_classEntries (name : '\n' ∉ c.name.toList) (declarable : ∀ f ∈ c.fields, f.Declarable)
    (s : Reading) :
    s.beforeEntries (Records.classEntries c) = ⟨[], recordOf c :: s.records⟩ := by
  have hend : s.beforeEntries [.line "\x7d", .blank] = ⟨[], s.records⟩ := rfl
  have hclass : IsLine (Records.classLine c).toList := by
    have hline : (Records.classLine c).toList =
        "pub struct ".toList ++ c.name.toList ++ [' '] ++ ['\x7b'] := by
      simp [Records.classLine]
    rw [hline]
    exact isLine_append (by simp [name]) (by decide)
  have hderive : IsLine "#[derive(Debug, Clone, PartialEq, Serialize)]".toList :=
    ⟨by decide, by decide⟩
  have hother : LineKind.of "#[derive(Debug, Clone, PartialEq, Serialize)]".toList = .other := by
    decide
  have hcomment : ∀ e ∈ Records.classComment c, ∃ text, e = .comment 0 text := by
    intro e he
    unfold Records.classComment at he
    rcases List.mem_append.mp he with he | he
    · rcases List.mem_cons.mp he with rfl | he
      · exact ⟨_, rfl⟩
      · split at he
        · cases he
        · rcases List.mem_pair.mp he with rfl | rfl <;> exact ⟨_, rfl⟩
    · split at he
      · cases he
      · rcases List.mem_append.mp he with he | he
        · simp only [List.mem_cons, List.not_mem_nil, or_false] at he
          rcases he with rfl | rfl | rfl <;> exact ⟨_, rfl⟩
        · obtain ⟨rule, _, rfl⟩ := List.mem_map.mp he
          exact ⟨_, rfl⟩
  simp only [Records.classEntries, Reading.beforeEntries_append, Reading.beforeEntries_cons,
    before_comments (.inl rfl) hcomment, Reading.before_line hclass, Reading.before_line hderive,
    hend, before_fields c.fields declarable, of_classLine, hother]
  simp only [List.append_nil, Reading.beforeEntries_nil, Reading.step, String.ofList_toList,
    recordOf]

theorem setting?_rename (f : Field) :
    (memberOf f).setting? "rename" = f.declaration.rename.map String.toList := by
  unfold Member.setting? memberOf settings
  cases f.declaration.rename <;> cases f.declaration.optional <;> rfl

theorem skipped_memberOf (f : Field) : (memberOf f).skipped = f.declaration.optional := by
  unfold Member.skipped Member.setting? memberOf settings
  cases f.declaration.rename <;> cases f.declaration.optional <;> rfl

theorem key_memberOf (f : Field) : (memberOf f).key = f.name := by
  unfold Member.key
  rw [setting?_rename]
  cases hrename : f.declaration.rename with
  | none =>
    have hplain : Identifier.plain f.declaration.identifier = f.name := by
      by_contra hplain
      simp only [Field.declaration] at hplain hrename
      rw [if_neg hplain] at hrename
      cases hrename
    simpa only [Option.map_none, memberOf, String.ofList_toList] using hplain
  | some name => simp only [Option.map_some, String.ofList_toList, (rename_eq hrename).1]

theorem between_type (declarable : f.Declarable) :
    between "Option<" ">" (memberOf f).type =
      if f.declaration.optional then .inner f.baseType.toList else .plain := by
  have htype : (memberOf f).type =
      (if f.declaration.optional then "Option<" ++ f.baseType ++ ">" else f.baseType).toList := rfl
  rw [htype]
  split
  · rw [String.toList_append, String.toList_append, between_append]
  · exact between_ne declarable.unwrapped

/-- A member is declared as its field asks. -/
theorem memberOf_mirrors (declarable : f.Declarable) : (memberOf f).Mirrors f := by
  have htype := between_type declarable
  refine ⟨key_memberOf f, ?_, ?_, skipped_memberOf f⟩
  · unfold Member.base
    rw [htype]
    by_cases hoptional : f.declaration.optional = true
    · rw [if_pos hoptional]
      exact String.ofList_toList
    · rw [if_neg hoptional, memberOf, Declaration.type, if_neg hoptional, String.ofList_toList]
      rfl
  · unfold Member.optional
    rw [htype, Field.declaration]
    cases f.required <;> rfl

theorem recordOf_mirrors (declarable : ∀ f ∈ c.fields, f.Declarable) : (recordOf c).Mirrors c := by
  refine ⟨rfl, ?_⟩
  rw [recordOf, List.forall₂_map_left_iff, List.forall₂_same]
  exact fun f hf => memberOf_mirrors (declarable f hf)

end Declarations

section Files

variable {classes : List ValueClass}

theorem close_records (classes : List ValueClass) : SourceFile.Close (Records.file classes).entries := by
  apply SourceFile.Close.flatMap
  · exact SourceFile.close_line [.line "use serde::Serialize;", .blank] _ (by decide)
  · exact fun c => SourceFile.close_line _ _ (by decide)

theorem before_classes (names : ∀ c ∈ classes, '\n' ∉ c.name.toList)
    (declarable : ∀ c ∈ classes, ∀ f ∈ c.fields, f.Declarable) (rest : List Record) :
    (Reading.mk [] rest).beforeEntries (classes.flatMap Records.classEntries) =
      ⟨[], classes.map recordOf ++ rest⟩ := by
  induction classes with
  | nil => rfl
  | cons c later ih =>
    obtain ⟨hname, hnames⟩ := List.forall_mem_cons.mp names
    obtain ⟨hfields, hlater⟩ := List.forall_mem_cons.mp declarable
    rw [List.flatMap_cons, Reading.beforeEntries_append, ih hnames hlater,
      before_classEntries hname hfields]
    rfl

/-- The records read from the generated file are those of the classes, in order. -/
theorem records_file (names : ∀ c ∈ classes, '\n' ∉ c.name.toList)
    (declarable : ∀ c ∈ classes, ∀ f ∈ c.fields, f.Declarable) :
    records (Records.file classes).text = classes.map recordOf := by
  have hopening : ∀ l ∈ lines (Records.file classes).opening, LineKind.of l = .other := by
    intro l hl
    refine of_other fun c hc => ?_
    rw [SourceFile.opening_head _ l hl c hc]
    decide
  have hfirst (rest : List Record) : (Reading.mk [] rest).beforeEntries
      [.line "use serde::Serialize;", .blank, .line "use super::enums::*;", .blank] =
        ⟨[], rest⟩ := rfl
  have hread : (Reading.mk [] []).before (lines (Records.file classes).text.toList ++ [[]]) =
      ⟨[], classes.map recordOf⟩ := by
    calc
      _ = (Reading.mk [] []).beforeEntries (Records.file classes).entries := by
        rw [SourceFile.lines_text (close_records classes), Reading.before_append,
          Reading.before_other hopening, Reading.beforeEntries]
      _ = ⟨[], classes.map recordOf⟩ := by
        rw [Records.file, Reading.beforeEntries_append, before_classes names declarable, hfirst,
          List.append_nil]
  have hblank : (Reading.mk [] []).before [[]] = ⟨[], []⟩ := rfl
  rw [Reading.before_append, hblank] at hread
  rw [records, hread]

end Files

end Mirror
end SceneDoc
