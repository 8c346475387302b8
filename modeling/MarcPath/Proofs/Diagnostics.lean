import MarcPath.Document.Basic
import MarcPath.Proofs.Joined

/-! Diagnostics of documents. Each line is checked on its own, so the diagnostics of a document are those
of its parts, in the order of the lines; a document has none at all if one of its lines can neither be
read nor breaks a rule. -/
namespace MarcPath

namespace Text

variable {part text : Text} {column : Nat}

theorem columnOf?_eq_none_iff : columnOf? part text = none ↔ ¬ part <:+: text := by
  induction text with
  | nil => cases part <;> simp [columnOf?]
  | cons c rest ih =>
    rw [List.infix_cons_iff, not_or, ← ih, ← List.isPrefixOf_iff_prefix, columnOf?]
    split <;> simp_all

/-- A part does not stand in front of the column that was found for it. -/
theorem columnOf?_le (found : columnOf? part text = some column) {before after : Text}
    (whole : text = before ++ part ++ after) : column ≤ before.length := by
  induction text generalizing column before with
  | nil =>
    rw [columnOf?] at found
    split at found <;> simp_all
  | cons c rest ih =>
    rw [columnOf?] at found
    split at found
    · obtain rfl := Option.some.inj found
      exact Nat.zero_le _
    · rename_i behind
      obtain ⟨further, later, rfl⟩ := Option.map_eq_some_iff.mp found
      cases before with
      | nil => exact absurd (List.isPrefixOf_iff_prefix.mpr ⟨after, whole.symm⟩) behind
      | cons first before =>
        have short := ih later (List.cons.inj whole).2
        simp only [List.length_cons]
        omega

/-- A part stands at a column of a text, and nowhere before it. -/
structure IsFirst (part text : Text) (column : Nat) : Prop where
  stands : ∃ before after, text = before ++ part ++ after ∧ before.length = column
  first : ∀ before after, text = before ++ part ++ after → column ≤ before.length

theorem IsFirst.of_columnOf? (found : columnOf? part text = some column) : IsFirst part text column :=
  ⟨exists_of_columnOf? found, fun _ _ => columnOf?_le found⟩

end Text

/-- A range of a written line: the first occurrence of a part, or the whole line if it has no such part. -/
structure Range.Selects (range : Range) (place : Int) (written part : Text) : Prop where
  line : range.line = place
  ordered : range.start ≤ range.stop
  within : range.stop ≤ written.length
  first : part ≠ [] → part <:+: written →
    Text.IsFirst part written range.start ∧ range.stop = range.start + part.length
  whole : part = [] ∨ ¬ part <:+: written → range.start = 0 ∧ range.stop = written.length

/-- A diagnostic of a line that stands so many lines further down. -/
def Diagnostic.shift (count : Nat) (diagnostic : Diagnostic) : Diagnostic :=
  { diagnostic with range := { diagnostic.range with line := diagnostic.range.line + count } }

namespace Document

variable {maxDepth : Int} {number : Nat} {line : Text} {violation : Violation}
  {diagnostic : Diagnostic} {found : List Diagnostic}

theorem locate_selects (line : Text) (place : Int) (violation : Violation) :
    (locate line place violation).Selects place line violation.text := by
  unfold locate
  split
  · rename_i none
    rw [List.isEmpty_iff] at none
    exact ⟨rfl, by simp [wholeLine], le_rfl, fun more => absurd none more, fun _ => ⟨rfl, rfl⟩⟩
  · rename_i more
    rw [List.isEmpty_iff] at more
    split
    · rename_i missing
      have absent := Text.columnOf?_eq_none_iff.mp missing
      exact ⟨rfl, by simp [wholeLine], le_rfl, fun _ inside => absurd inside absent,
        fun _ => ⟨rfl, rfl⟩⟩
    · rename_i start found
      have first := Text.IsFirst.of_columnOf? found
      obtain ⟨before, after, whole, place⟩ := first.stands
      refine ⟨rfl, Nat.le_add_right _ _, ?_, fun _ _ => ⟨first, rfl⟩, ?_⟩
      · simp only [whole, List.length_append]
        omega
      · rintro (none | absent)
        · exact absurd none more
        · exact absurd ⟨before, after, whole.symm⟩ absent

/-- A line that is meant to hold a path, and the rule that it breaks. -/
def Breaks (maxDepth : Int) (line : Text) (violation : Violation) : Prop :=
  isPathLine line = true ∧ parseLine maxDepth line = .error (.invalid violation)

/-- A line that is read or breaks a rule, if it is meant to hold a path at all. -/
def Checkable (maxDepth : Int) (line : Text) : Prop :=
  isPathLine line = true → ∀ error, parseLine maxDepth line = .error error → error.IsInvalid

/-- The diagnostic of a line that breaks a rule. -/
def report (number : Nat) (line : Text) (violation : Violation) : Diagnostic :=
  ⟨locate line number violation, violation.message⟩

theorem line_report : (report number line violation).range.line = number :=
  (locate_selects line number violation).line

theorem report_shift (count : Nat) :
    report (number + count) line violation = (report number line violation).shift count := by
  unfold report locate
  split
  · simp [Diagnostic.shift, wholeLine]
  · split <;> simp [Diagnostic.shift, wholeLine]

/-- A single line has a diagnostic exactly if it breaks a rule. -/
theorem eq_some_of_diagnose {result : Option Diagnostic}
    (found : diagnose maxDepth number line = .ok result) :
    result = some diagnostic ↔
      ∃ violation, Breaks maxDepth line violation ∧ diagnostic = report number line violation := by
  unfold diagnose at found
  split at found
  · rename_i other
    obtain rfl := Except.ok.inj found
    simp_all [Breaks]
  · rename_i known
    split at found
    · rename_i read
      obtain rfl := Except.ok.inj found
      simp [Breaks, read]
    · rename_i violation failed
      obtain rfl := Except.ok.inj found
      have path : isPathLine line = true := by simpa using known
      simp only [Breaks, path, failed, Except.error.injEq, Error.invalid.injEq, true_and,
        exists_eq_left', Option.some.injEq]
      exact eq_comm
    · cases found

/-- A single line can be checked exactly if what is meant to be a path is read or breaks a rule. -/
theorem exists_diagnose_iff :
    (∃ result, diagnose maxDepth number line = .ok result) ↔ Checkable maxDepth line := by
  unfold diagnose Checkable
  by_cases path : isPathLine line = true
  · cases parseLine maxDepth line with
    | ok read => simp [path]
    | error error => cases error <;> simp [path, Error.IsInvalid]
  · simp [path]

theorem diagnoseFrom_append (number : Nat) (first second : List Text) :
    diagnoseFrom maxDepth number (first ++ second) = (do
      let earlier ← diagnoseFrom maxDepth number first
      let later ← diagnoseFrom maxDepth (number + first.length) second
      return earlier ++ later) := by
  induction first generalizing number with
  | nil =>
    simp only [List.nil_append, List.length_nil, Nat.add_zero, diagnoseFrom]
    cases diagnoseFrom maxDepth number second <;> rfl
  | cons line rest ih =>
    have count : number + 1 + rest.length = number + (line :: rest).length := by
      rw [List.length_cons]
      omega
    simp only [List.cons_append, diagnoseFrom, ih, count, bind_assoc, pure_bind, List.append_assoc]

theorem diagnose_shift (count : Nat) :
    diagnose maxDepth (number + count) line =
      (diagnose maxDepth number line).map (Option.map (Diagnostic.shift count)) := by
  unfold diagnose
  split
  · rfl
  · split
    · rfl
    · exact congrArg (fun diagnostic => Except.ok (some diagnostic)) (report_shift count)
    · rfl

/-- The number of the first line only counts where the diagnostics stand. -/
theorem diagnoseFrom_shift (count number : Nat) (lines : List Text) :
    diagnoseFrom maxDepth (number + count) lines =
      (diagnoseFrom maxDepth number lines).map (List.map (Diagnostic.shift count)) := by
  induction lines generalizing number with
  | nil => rfl
  | cons line rest ih =>
    have next := ih (number + 1)
    rw [Nat.add_right_comm] at next
    simp only [diagnoseFrom, diagnose_shift, next]
    cases diagnose maxDepth number line with
    | error error => rfl
    | ok result =>
      cases diagnoseFrom maxDepth (number + 1) rest with
      | error error => rfl
      | ok others => cases result <;> rfl

theorem exists_diagnoseFrom_iff {lines : List Text} :
    (∃ found, diagnoseFrom maxDepth number lines = .ok found) ↔
      ∀ line ∈ lines, Checkable maxDepth line := by
  induction lines generalizing number with
  | nil => simp [diagnoseFrom]
  | cons line rest ih =>
    rw [List.forall_mem_cons, ← exists_diagnose_iff, ← ih]
    simp only [diagnoseFrom, bind_eq_ok_iff]
    constructor
    · rintro ⟨-, result, first, others, later, -⟩
      exact ⟨⟨result, first⟩, others, later⟩
    · rintro ⟨⟨result, first⟩, others, later⟩
      exact ⟨_, result, first, others, later, rfl⟩

/-- The diagnostics of lines are those of the lines that break a rule. -/
theorem mem_of_diagnoseFrom {lines : List Text}
    (known : diagnoseFrom maxDepth number lines = .ok found) :
    diagnostic ∈ found ↔ ∃ place line violation, lines[place]? = some line ∧
      Breaks maxDepth line violation ∧ diagnostic = report (number + place) line violation := by
  induction lines generalizing number found with
  | nil =>
    obtain rfl := Except.ok.inj known
    simp
  | cons line rest ih =>
    obtain ⟨result, first, known⟩ := bind_eq_ok_iff.mp known
    obtain ⟨others, later, known⟩ := bind_eq_ok_iff.mp known
    obtain rfl := Except.ok.inj known
    rw [List.mem_append, Option.mem_toList, eq_some_of_diagnose first, ih later]
    constructor
    · rintro (⟨violation, breaks, rfl⟩ | ⟨place, line, violation, stands, breaks, rfl⟩)
      · exact ⟨0, line, violation, rfl, breaks, rfl⟩
      · refine ⟨place + 1, line, violation, stands, breaks, ?_⟩
        rw [Nat.add_right_comm, Nat.add_assoc]
    · rintro ⟨_ | place, line, violation, stands, breaks, rfl⟩
      · obtain rfl := Option.some.inj stands
        exact .inl ⟨violation, breaks, rfl⟩
      · refine .inr ⟨place, line, violation, stands, breaks, ?_⟩
        rw [Nat.add_right_comm, Nat.add_assoc]

/-- Each line comes after those before it. -/
theorem pairwise_of_diagnoseFrom {lines : List Text}
    (known : diagnoseFrom maxDepth number lines = .ok found) :
    found.Pairwise fun earlier later => earlier.range.line < later.range.line := by
  induction lines generalizing number found with
  | nil =>
    obtain rfl := Except.ok.inj known
    exact .nil
  | cons line rest ih =>
    obtain ⟨result, first, known⟩ := bind_eq_ok_iff.mp known
    obtain ⟨others, later, known⟩ := bind_eq_ok_iff.mp known
    obtain rfl := Except.ok.inj known
    cases result with
    | none => exact ih later
    | some diagnostic =>
      refine .cons ?_ (ih later)
      -- What later lines come to is known by their numbers, all of them larger than this one.
      intro other member
      obtain ⟨violation, -, rfl⟩ := (eq_some_of_diagnose first).mp rfl
      obtain ⟨place, line', violation', -, -, rfl⟩ := (mem_of_diagnoseFrom later).mp member
      rw [line_report, line_report]
      omega

theorem lines_append (first second : Text) :
    lines (first ++ '\n' :: second) = lines first ++ lines second := by
  simp [lines, Text.splitOn_join]

theorem infix_of_mem_lines {source : Text} (member : line ∈ lines source) : line <:+: source := by
  have found := Text.infix_intercalate ['\n'] member
  rwa [lines, Text.intercalate_splitOn] at found

/-- The diagnostics of a document are those of its parts, the later ones moved down. -/
theorem diagnostics_append (first second : Text) :
    diagnostics maxDepth (first ++ '\n' :: second) = (do
      let earlier ← diagnostics maxDepth first
      let later ← diagnostics maxDepth second
      return earlier ++ later.map (Diagnostic.shift (lines first).length)) := by
  unfold diagnostics
  rw [lines_append, diagnoseFrom_append, diagnoseFrom_shift]
  cases diagnoseFrom maxDepth 0 (lines first) with
  | error error => rfl
  | ok earlier => cases diagnoseFrom maxDepth 0 (lines second) <;> rfl

/-- A line that is read begins with a tag. -/
theorem isPathLine_of_parse {path : Path} (found : parseLine maxDepth line = .ok path) :
    isPathLine line = true := by
  obtain ⟨-, read⟩ := Path.parse_eq_ok_iff.mp found
  obtain ⟨written, known⟩ := FieldHead.of_parse read.head
  obtain ⟨c, rest, begins, letter⟩ := known.exists_first
  have whole : line.strip = c :: (rest ++ Layer.tailText line.strip) := by
    conv_lhs => rw [← Layer.headText_append_tailText line.strip, ← written, begins]
    rfl
  have comment : c ≠ '#' := by
    rintro rfl
    revert letter
    decide
  rw [isPathLine, whole]
  simpa using comment

theorem lines_of_solid (solid : line.hasBlank = false) : lines line = [line] := by
  have single : '\n' ∉ line := fun member => by
    rw [Text.hasBlank, List.any_eq_false] at solid
    exact solid _ member (by decide)
  rw [lines, Text.splitOn_eq_self single]

theorem diagnostics_of_read {path : Path} (solid : line.hasBlank = false)
    (read : parseLine maxDepth line = .ok path) : diagnostics maxDepth line = .ok [] := by
  rw [diagnostics, lines_of_solid solid]
  simp only [diagnoseFrom, diagnose, isPathLine_of_parse read, read]
  rfl

/-- A line that can neither be read nor breaks a rule fails the whole document. -/
theorem diagnostics_of_numeral {cause : NumeralError} (solid : line.hasBlank = false)
    (path : isPathLine line = true) (failed : parseLine maxDepth line = .error (.numeral cause)) :
    diagnostics maxDepth line = .error (.numeral cause) := by
  rw [diagnostics, lines_of_solid solid]
  simp only [diagnoseFrom, diagnose, path, failed]
  rfl

/-- A document in which no run of digits is too long, be it one of the source or one that a token of a
line is put together with. -/
structure TextAndTokensWithin (limit : Nat) (source : Text) : Prop where
  text : Text.DigitsWithin limit source
  tokens : ∀ line ∈ lines source, Layer.TokensWithin limit line.strip

namespace TextAndTokensWithin

variable {limit : Nat} {source : Text}

theorem of_mem (within : TextAndTokensWithin limit source) (member : line ∈ lines source) :
    Text.DigitsWithin limit line :=
  within.text.of_part (infix_of_mem_lines member)

theorem parseLine_legible (within : TextAndTokensWithin limit source) (positive : 1 ≤ limit)
    (le : limit ≤ Numeral.maxDigits) (member : line ∈ lines source) :
    Outcome (fun path => ∀ inner, Path.IsPart inner path → inner.layer.Legible limit)
      Error.IsInvalid (parseLine maxDepth line) :=
  Path.parse_legible ⟨maxDepth, 0⟩ positive le (within.of_mem member) (within.tokens line member)

theorem checkable (within : TextAndTokensWithin limit source) (positive : 1 ≤ limit)
    (le : limit ≤ Numeral.maxDigits) : ∀ line ∈ lines source, Checkable maxDepth line := by
  intro line member _ error failed
  have outcome : Outcome _ _ (parseLine maxDepth line) := within.parseLine_legible positive le member
  rw [failed] at outcome
  exact outcome

end TextAndTokensWithin

/-- Documents are checked line by line. The diagnostics of a document are those of its parts, one for
each line that breaks a rule and in the order of the lines; a line that is read is never passed over. A
document has its diagnostics if neither its text nor a token of a line has a run of digits that is too
long; of its text alone that is not enough. -/
theorem diagnostics_by_line (maxDepth : Int) (source : Text) :
    (∀ more, diagnostics maxDepth (source ++ '\n' :: more) = (do
        let earlier ← diagnostics maxDepth source
        let later ← diagnostics maxDepth more
        return earlier ++ later.map (Diagnostic.shift (lines source).length))) ∧
      ((∃ found, diagnostics maxDepth source = .ok found) ↔
        ∀ line ∈ lines source, Checkable maxDepth line) ∧
      (TextAndTokensWithin Numeral.maxDigits source →
        ∃ found, diagnostics maxDepth source = .ok found) ∧
      (∀ found, diagnostics maxDepth source = .ok found →
        (found.Pairwise fun earlier later => earlier.range.line < later.range.line) ∧
          ∀ diagnostic, diagnostic ∈ found ↔ ∃ number line violation,
            (lines source)[number]? = some line ∧ Breaks maxDepth line violation ∧
              diagnostic = report number line violation) ∧
      (∀ number line violation,
        (report number line violation).range.Selects number line violation.text) ∧
      ∀ line path, parseLine maxDepth line = .ok path → isPathLine line = true := by
  refine ⟨diagnostics_append source, exists_diagnoseFrom_iff, ?_, ?_,
    fun number line violation => locate_selects line number violation,
    fun line path => isPathLine_of_parse⟩
  · intro within
    exact exists_diagnoseFrom_iff.mpr (within.checkable (by decide) le_rfl)
  · intro found known
    refine ⟨pairwise_of_diagnoseFrom known, ?_⟩
    intro diagnostic
    simpa only [Nat.zero_add] using mem_of_diagnoseFrom known

/-- The first line is too short, and the second one goes on after its group. -/
theorem diagnostics_by_line_of_short_line :
    ∃ found, diagnostics 32 "24\n245$a/0{245}1".toList = .ok found ∧
      report 0 "24".toList ⟨.path, .underThree, "24".toList⟩ ∈ found := by
  have within : TextAndTokensWithin Numeral.maxDigits "24\n245$a/0{245}1".toList := by
    refine ⟨.of_length_le (by decide), ?_⟩
    have both : lines "24\n245$a/0{245}1".toList = ["24".toList, "245$a/0{245}1".toList] := by decide
    rw [both, List.forall_mem_cons, List.forall_mem_singleton]
    constructor
    · intro head tail known
      cases known
    · have cut : Layer.cut (Text.strip "245$a/0{245}1".toList) =
          .ok (⟨"245".toList, none, .all⟩, ⟨[], [⟨"$a/01".toList, ["{245}".toList]⟩]⟩) := by decide
      intro head tail known segment source
      obtain ⟨rfl, rfl⟩ := Prod.mk.inj (Except.ok.inj (cut.symm.trans known))
      obtain rfl := List.mem_singleton.mp source
      exact .of_length_le (by decide)
  obtain ⟨-, -, total, listed, -⟩ := diagnostics_by_line 32 "24\n245$a/0{245}1".toList
  obtain ⟨found, known⟩ := total within
  refine ⟨found, known, ((listed found known).2 _).mpr ⟨0, _, _, rfl, ⟨rfl, rfl⟩, rfl⟩⟩

/-- The range of the second line has too many digits, so even the first line is not reported. -/
theorem no_diagnostics_of_joined_digits :
    let line := joinedText ('0' :: '-' :: List.replicate 4299 '1') ['1', '1']
    Text.DigitsWithin 4300 ("24".toList ++ '\n' :: line) ∧
      Breaks 32 "24".toList ⟨.path, .underThree, "24".toList⟩ ∧
      diagnostics 32 ("24".toList ++ '\n' :: line) = .error (.numeral (.tooManyDigits 4301)) := by
  intro line
  have ones := all_replicate 4299
  have ones' : ['1', '1'].all isDigit = true := by decide
  refine ⟨?_, ⟨rfl, rfl⟩, ?_⟩
  · have zero : Text.DigitsWithin 4300 ['0'] := .of_length_le (by decide)
    have final : Text.DigitsWithin 4300 (List.replicate 4299 '1') :=
      .of_length_le (by rw [List.length_replicate]; decide)
    have range := zero.append_cons (by decide : isDigit '-' = false) final
    have behind : Text.DigitsWithin 4300 ['1', '1'] := .of_length_le (by decide)
    have joined := Text.digitsWithin_joined (by decide) range behind
    exact .append_cons (.of_length_le (by decide)) (by decide) joined
  · have failed : parseLine 32 line = .error (.numeral (.tooManyDigits 4301)) := by
      have room : Nesting.top.depth ≤ Nesting.top.maxDepth := by decide
      have long := Path.parse_joined_of_long room ones ones' (by
        rw [List.length_replicate]
        decide)
      rwa [List.length_replicate] at long
    have solid := solid_joinedRange ones ones'
    have path : isPathLine line = true := by
      rw [isPathLine, Text.strip_eq_self solid]
      rfl
    have first : diagnostics 32 "24".toList =
        .ok [report 0 "24".toList ⟨.path, .underThree, "24".toList⟩] := rfl
    rw [diagnostics_append, first, diagnostics_of_numeral solid path failed]
    rfl

end Document
end MarcPath
