import MarcPath.Proofs.Located

/-! Documents whose lines end with a carriage return and a line feed. The return is left at the end of
its line, where it is dropped before the path is read, and no error names it. So the diagnostics are the
same, but that the line is one character longer where all of it is reported. -/
namespace MarcPath

namespace Text

variable {part text : Text} {c : Char}

theorem strip_append_blank (blank : isBlank c = true) (text : Text) :
    strip (text ++ [c]) = strip text := by
  rw [strip, strip, trim, trim, List.dropWhile_append]
  split
  · rename_i none
    rw [List.isEmpty_iff.mp none]
    simp [blank]
  · rw [List.reverse_append, List.reverse_singleton, List.singleton_append,
      List.dropWhile_cons_of_pos blank]

/-- A part is found at the same column if the text ends in a character that it does not have. -/
theorem columnOf?_append_other (nonempty : part ≠ []) (absent : c ∉ part) (text : Text) :
    columnOf? part (text ++ [c]) = columnOf? part text := by
  -- Where the part reaches to the end, it would have to end in that character.
  have other {text : Text} : part ≠ text ++ [c] := by
    rintro rfl
    simp at absent
  have front (text : Text) : part.isPrefixOf (text ++ [c]) = part.isPrefixOf text := by
    rw [Bool.eq_iff_iff, List.isPrefixOf_iff_prefix, List.isPrefixOf_iff_prefix, List.prefix_concat_iff]
    exact or_iff_right other
  induction text with
  | nil =>
    have single := front []
    rw [List.nil_append] at single
    simp [columnOf?, single, nonempty]
  | cons first rest ih =>
    rw [List.cons_append, columnOf?, columnOf?, ih, ← List.cons_append, front]

end Text

namespace Layer

variable {text : Text}

theorem admits_solid (solid : text.hasBlank = false) :
    Admits (Error.Names fun part => part.hasBlank = false) text :=
  admits_names (fun _ inside => Text.hasBlank_of_infix inside solid)
    fun _ _ known _ source _ inside => Text.hasBlank_of_infix inside (solid_of_segment known source)

/-- A text with a blank is refused as a whole. -/
theorem cut_of_blank (blank : text.hasBlank = true) : ∃ fault, cut text = violates .path fault text := by
  unfold cut
  rw [blank]
  split
  · exact ⟨_, rfl⟩
  · split
    · exact ⟨_, rfl⟩
    · exact ⟨_, rfl⟩

end Layer

namespace Path

variable {nesting : Nesting} {text : Text} {violation : Violation} {c : Char}

/-- Blanks behind a path are not read, unless it is nested too deep to be read at all. -/
theorem parse_append_blank (room : nesting.depth ≤ nesting.maxDepth) (blank : isBlank c = true)
    (text : Text) : Path.parse nesting (text ++ [c]) = Path.parse nesting text := by
  have within : ¬ nesting.maxDepth < nesting.depth := by omega
  rw [parse_eq, parse_eq, if_neg within, if_neg within, Text.strip_append_blank blank]

/-- An error names the whole path, without the blanks around it, or nothing that has a blank. -/
theorem offending_of_parse (room : nesting.depth ≤ nesting.maxDepth)
    (failed : Path.parse nesting text = .error (.invalid violation)) :
    violation.text = text.strip ∨ violation.text.hasBlank = false := by
  have within : ¬ nesting.maxDepth < nesting.depth := by omega
  -- Nested paths are only read if there is no blank, and then there is none in them either.
  cases solid : text.strip.hasBlank with
  | true =>
    obtain ⟨fault, refused⟩ := Layer.cut_of_blank solid
    rw [parse_eq, if_neg within, Layer.parseStripped_eq, refused] at failed
    obtain rfl := Error.invalid.inj (Except.error.inj failed)
    exact .inl rfl
  | false =>
    have outcome : Outcome (fun path => ∀ inner ∈ path.layer.paths, True)
        (Error.Names fun part => part.hasBlank = false) (Path.parse nesting text) := by
      apply parse_outcome (fun beyond => absurd beyond within) (Layer.admits_solid solid)
      intro asked asks
      exact (parse_asked_outcome asks (fun _ => .of_invalid asks.solid)
        (Layer.admits_solid asks.solid)).mono fun _ _ => trivial
    rw [failed] at outcome
    exact .inr (outcome violation rfl)

/-- A blank that the text does not have is not named either. -/
theorem not_mem_offending (room : nesting.depth ≤ nesting.maxDepth) (blank : isBlank c = true)
    (absent : c ∉ text) (failed : Path.parse nesting text = .error (.invalid violation)) :
    c ∉ violation.text := by
  rcases offending_of_parse room failed with whole | solid
  · rw [whole]
    exact fun member => absent ((Text.infix_of_strip text).subset member)
  · intro member
    rw [Text.solid_iff.mp solid c member] at blank
    cases blank

end Path

/-- The same range with one more character. -/
def Range.widen (range : Range) : Range :=
  { range with stop := range.stop + 1 }

namespace Document

/-- A document with a carriage return put in front of each line feed. -/
def withReturns (source : Text) : Text :=
  source.flatMap fun c => if c == '\n' then ['\r', '\n'] else [c]

/-- A line gains a return if others follow it. -/
def followed (line : Text) (rest : List Text) : Text :=
  if rest.isEmpty then line else line ++ ['\r']

/-- The lines of a document once all but the last have gained their returns. -/
def returned : List Text → List Text
  | [] => []
  | line :: rest => followed line rest :: returned rest

theorem lines_ne_nil (source : Text) : lines source ≠ [] :=
  List.cons_ne_nil _ _

theorem lines_cons {c : Char} (other : c ≠ '\n') (rest : Text) :
    ∃ first others, lines rest = first :: others ∧ lines (c :: rest) = (c :: first) :: others := by
  refine ⟨(Text.splitOn '\n' rest).1, (Text.splitOn '\n' rest).2, rfl, ?_⟩
  rw [lines, Text.splitOn_cons, if_neg (by simpa using other)]

theorem followed_of_ne_nil {rest : List Text} (more : rest ≠ []) (line : Text) :
    followed line rest = line ++ ['\r'] :=
  if_neg (by simpa using more)

theorem followed_cons (c : Char) (line : Text) (rest : List Text) :
    followed (c :: line) rest = c :: followed line rest := by
  unfold followed
  split <;> rfl

/-- The lines of the document with returns are the lines of the document, with theirs. -/
theorem lines_withReturns (source : Text) : lines (withReturns source) = returned (lines source) := by
  induction source with
  | nil => rfl
  | cons c rest ih =>
    by_cases feed : c = '\n'
    · subst feed
      have whole : lines ('\n' :: rest) = [] :: lines rest := lines_append [] rest
      calc lines (withReturns ('\n' :: rest))
        _ = lines (['\r'] ++ '\n' :: withReturns rest) := rfl
        _ = ['\r'] :: lines (withReturns rest) := by rw [lines_append]; rfl
        _ = followed [] (lines rest) :: returned (lines rest) := by
          rw [ih, followed_of_ne_nil (lines_ne_nil rest), List.nil_append]
        _ = returned (lines ('\n' :: rest)) := by rw [whole, returned]
    · obtain ⟨first, others, whole, longer⟩ := lines_cons feed rest
      obtain ⟨first', others', whole', longer'⟩ := lines_cons feed (withReturns rest)
      have kept : withReturns (c :: rest) = c :: withReturns rest := by
        simp [withReturns, feed]
      rw [whole, whole', returned, List.cons.injEq] at ih
      rw [kept, longer', longer, returned, followed_cons, ih.1, ih.2]

variable {maxDepth : Int} {number : Nat} {line : Text} {rest : List Text} {violation : Violation}

theorem isPathLine_followed (line : Text) (rest : List Text) :
    isPathLine (followed line rest) = isPathLine line := by
  unfold followed
  split
  · rfl
  · rw [isPathLine, isPathLine, Text.strip_append_blank rfl]

theorem parseLine_followed (room : 0 ≤ maxDepth) (line : Text) (rest : List Text) :
    parseLine maxDepth (followed line rest) = parseLine maxDepth line := by
  unfold followed
  split
  · rfl
  · exact Path.parse_append_blank room rfl line

theorem fallsBack_append_return (absent : '\r' ∉ violation.text) :
    FallsBack (line ++ ['\r']) violation ↔ FallsBack line violation := by
  by_cases none : violation.text = []
  · simp [FallsBack, none]
  · rw [FallsBack, FallsBack, Text.columnOf?_append_other none absent]

/-- With a return, a line that is reported as a whole is so again, and no other is reported elsewhere. -/
theorem locate_append_return (place : Int) (absent : '\r' ∉ violation.text) :
    locate (line ++ ['\r']) place violation =
      if FallsBack line violation then (locate line place violation).widen
      else locate line place violation := by
  have same : FallsBack (line ++ ['\r']) violation ↔ _ := fallsBack_append_return absent
  by_cases back : FallsBack line violation
  · rw [if_pos back, locate_of_fallsBack place back, locate_of_fallsBack place (same.mpr back)]
    simp [wholeLine, Range.widen]
  · obtain ⟨start, found, located⟩ := locate_of_not_fallsBack place back
    obtain ⟨start', found', located'⟩ := locate_of_not_fallsBack place (mt same.mp back)
    have nonempty : violation.text ≠ [] := fun none => back (.inl none)
    rw [Text.columnOf?_append_other nonempty absent, found] at found'
    obtain rfl := Option.some.inj found'
    rw [if_neg back, located, located']

/-- The diagnostics of one line of a document, and of the same document with returns. They are on the
same line and have the same message, and the later range is one character longer if all of the line is
reported and the line has gained a return; else the ranges are the same. -/
def Resembles (maxDepth : Int) (number : Nat) (lines : List Text) (earlier later : Diagnostic) : Prop :=
  ∃ place line violation, lines[place]? = some line ∧ Breaks maxDepth line violation ∧
    earlier = report (number + place) line violation ∧ later.message = earlier.message ∧
    later.range = if FallsBack line violation ∧ place + 1 < lines.length then earlier.range.widen
      else earlier.range

theorem Resembles.cons {lines : List Text} {earlier later : Diagnostic}
    (resembles : Resembles maxDepth (number + 1) lines earlier later) (line : Text) :
    Resembles maxDepth number (line :: lines) earlier later := by
  obtain ⟨place, other, violation, stands, breaks, report, message, range⟩ := resembles
  refine ⟨place + 1, other, violation, stands, breaks, ?_, message, ?_⟩
  · rwa [Nat.add_assoc, Nat.add_comm 1] at report
  · simpa only [List.length_cons, Nat.add_lt_add_iff_right] using range

/-- The first of several lines is reported as before if it gains a return. -/
theorem resembles_followed (breaks : Breaks maxDepth line violation) (absent : '\r' ∉ violation.text)
    (rest : List Text) :
    Resembles maxDepth number (line :: rest) (report number line violation)
      (report number (followed line rest) violation) := by
  refine ⟨0, line, violation, rfl, breaks, rfl, rfl, ?_⟩
  by_cases last : rest = []
  · subst last
    simp [report, followed]
  · have more : 0 + 1 < (line :: rest).length := by
      simpa using List.length_pos_iff.mpr last
    simp only [report, more, and_true, followed_of_ne_nil last]
    exact locate_append_return number absent

/-- Skipping, reading and failing are as before; only the report may change. -/
theorem diagnose_followed (room : 0 ≤ maxDepth) (number : Nat) (absent : '\r' ∉ line)
    (rest : List Text) :
    Outcome (fun first => ∃ first', diagnose maxDepth number (followed line rest) = .ok first' ∧
        List.Forall₂ (Resembles maxDepth number (line :: rest)) first.toList first'.toList)
      (fun error => diagnose maxDepth number (followed line rest) = .error error)
      (diagnose maxDepth number line) := by
  have skipped := isPathLine_followed line rest
  have same := parseLine_followed room line rest
  unfold diagnose
  rw [skipped, same]
  split
  · exact ⟨none, rfl, .nil⟩
  · rename_i path
    split
    · exact ⟨none, rfl, .nil⟩
    · rename_i violation failed
      have absent' := Path.not_mem_offending room (by decide) absent failed
      have breaks : Breaks maxDepth line violation := ⟨by simpa using path, failed⟩
      exact ⟨_, rfl, .cons (resembles_followed breaks absent' rest) .nil⟩
    · rfl

theorem diagnoseFrom_returned (room : 0 ≤ maxDepth) (number : Nat) {lines : List Text}
    (absent : ∀ line ∈ lines, '\r' ∉ line) :
    Outcome (fun found => ∃ found', diagnoseFrom maxDepth number (returned lines) = .ok found' ∧
        List.Forall₂ (Resembles maxDepth number lines) found found')
      (fun error => diagnoseFrom maxDepth number (returned lines) = .error error)
      (diagnoseFrom maxDepth number lines) := by
  induction lines generalizing number with
  | nil => exact ⟨[], rfl, .nil⟩
  | cons line rest ih =>
    rw [List.forall_mem_cons] at absent
    have current := diagnose_followed room number absent.1 rest
    have others := ih (number + 1) absent.2
    simp only [returned, diagnoseFrom]
    cases first : diagnose maxDepth number line with
    | error cause =>
      rw [first] at current
      have failed : diagnose maxDepth number (followed line rest) = .error cause := current
      rw [failed]
      rfl
    | ok result =>
      rw [first] at current
      obtain ⟨result', first', resembles⟩ := current
      rw [first']
      cases later : diagnoseFrom maxDepth (number + 1) rest with
      | error cause =>
        rw [later] at others
        have failed : diagnoseFrom maxDepth (number + 1) (returned rest) = .error cause := others
        rw [failed]
        rfl
      | ok found =>
        rw [later] at others
        obtain ⟨found', later', related⟩ := others
        rw [later']
        exact ⟨_, rfl, List.rel_append resembles (related.imp fun _ _ next => next.cons line)⟩

/-- A document in which each line feed follows a carriage return has the diagnostics of the document
without the returns: on the same lines, with the same messages and, where not all of a line is reported,
with the same ranges. It has none if that has none, for the same cause; and that has its own if neither
the source nor a token of a line has a run of digits that is too long. -/
theorem diagnostics_withReturns {source : Text} (room : 0 ≤ maxDepth) (absent : '\r' ∉ source) :
    (∀ found, diagnostics maxDepth source = .ok found →
        ∃ found', diagnostics maxDepth (withReturns source) = .ok found' ∧
          List.Forall₂ (Resembles maxDepth 0 (lines source)) found found') ∧
      (∀ error, diagnostics maxDepth source = .error error →
        diagnostics maxDepth (withReturns source) = .error error) ∧
      (TextAndTokensWithin Numeral.maxDigits source →
        ∃ found, diagnostics maxDepth source = .ok found) := by
  have within : ∀ line ∈ lines source, '\r' ∉ line :=
    fun line member inside => absent ((infix_of_mem_lines member).subset inside)
  have outcome : Outcome _ _ (diagnostics maxDepth source) := diagnoseFrom_returned room 0 within
  rw [← lines_withReturns] at outcome
  refine ⟨?_, ?_, ?_⟩
  · intro found known
    rw [known] at outcome
    exact outcome
  · intro error failed
    rw [failed] at outcome
    exact outcome
  · intro digits
    exact exists_diagnoseFrom_iff.mpr (digits.checkable (by decide) le_rfl)

/-- All of the first line is reported, for what offends is put together with the context of the group;
of the second line a part is; and the third has no return. -/
theorem diagnostics_withReturns_of_context :
    ∃ found found', diagnostics 32 "245$a{[1}\n24 \n245[]".toList = .ok found ∧
      diagnostics 32 (withReturns "245$a{[1}\n24 \n245[]".toList) = .ok found' ∧
      List.Forall₂ (Resembles 32 0 (lines "245$a{[1}\n24 \n245[]".toList)) found found' ∧
      found.map (·.range) = [⟨0, 0, 9⟩, ⟨1, 0, 2⟩, ⟨2, 0, 5⟩] ∧
      found'.map (·.range) = [⟨0, 0, 10⟩, ⟨1, 0, 2⟩, ⟨2, 0, 5⟩] := by
  obtain ⟨found, found', known, known', ranges⟩ : ∃ found found',
      diagnostics 32 "245$a{[1}\n24 \n245[]".toList = .ok found ∧
        diagnostics 32 (withReturns "245$a{[1}\n24 \n245[]".toList) = .ok found' ∧
        found.map (·.range) = [⟨0, 0, 9⟩, ⟨1, 0, 2⟩, ⟨2, 0, 5⟩] ∧
        found'.map (·.range) = [⟨0, 0, 10⟩, ⟨1, 0, 2⟩, ⟨2, 0, 5⟩] := ⟨_, _, rfl, rfl, rfl, rfl⟩
  obtain ⟨other, same, related⟩ :=
    (diagnostics_withReturns (by decide) (by decide)).1 found known
  obtain rfl := Except.ok.inj (same.symm.trans known')
  exact ⟨found, other, known, known', related, ranges⟩

end Document
end MarcPath
