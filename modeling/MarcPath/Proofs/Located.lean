import MarcPath.Proofs.Diagnostics

/-! Where an error is located. A token is put together across its groups, and a nested path is put
together from a term and its context, so what an error names need not be a part of the text. Without
groups it always is, and then the range of a diagnostic is exactly what offends. -/
namespace MarcPath

/-- What an error names has a property. -/
def Error.Names (property : Text → Prop) (error : Error) : Prop :=
  ∀ violation, error = .invalid violation → property violation.text

variable {property : Text → Prop} {text : Text}

theorem Error.Names.of_invalid {violation : Violation} (known : property violation.text) :
    Names property (.invalid violation) := by
  intro other same
  obtain rfl := Error.invalid.inj same
  exact known

theorem Misread.names {error : Error} (misread : Misread text error)
    (parts : ∀ part, part <:+: text → property part) : error.Names property := by
  cases misread with
  | invalid inside ordinary => exact .of_invalid (parts _ inside)
  | numeral cause long =>
    intro violation same
    cases same

namespace Layer

variable {asked : Text} {head : FieldHead} {tail : Tail}

/-- What is named is a part of the text or of a token. -/
theorem admits_names (parts : ∀ part, part <:+: text → property part)
    (tokens : ∀ head tail, cut text = .ok (head, tail) → ∀ segment ∈ tail.segments,
      ∀ part, part <:+: segment.token → property part) :
    Admits (Error.Names property) text := by
  refine ⟨?_, ?_, ?_⟩
  · intro part fault offending ordinary inside
    exact .of_invalid (parts offending inside)
  · intro error misread
    exact misread.names fun part inside =>
      parts part (inside.trans (List.takeWhile_prefix _).isInfix)
  · intro head tail known segment source error misread
    exact misread.names (tokens head tail known segment source)

/-- Where no bracket opens, a tail holds no group. -/
theorem not_holds_of_absent {group : Text} (known : cut text = .ok (head, tail))
    (absent : '{' ∉ text) : ¬ tail.Holds group := by
  obtain ⟨-, -, -, rest⟩ := cut_eq_ok_iff.mp known
  exact Tail.not_holds_of_absent rest fun member =>
    absent ((List.dropWhile_suffix _).isInfix.subset member)

theorem not_asks_of_absent (absent : '{' ∉ text) : ¬ Asks text asked := by
  rintro ⟨known, attached, -⟩
  exact not_holds_of_absent known absent attached.holds

end Layer

/-- Where no bracket opens, a path is read alone, and each error names a part of its text. -/
theorem Path.parse_names_infix (nesting : Nesting) (absent : '{' ∉ text) :
    Outcome (fun _ => True) (Error.Names (· <:+: text)) (Path.parse nesting text) := by
  have inside := Text.infix_of_strip text
  have absent' : '{' ∉ text.strip := fun member => absent (inside.subset member)
  have admits : Layer.Admits (Error.Names (· <:+: text)) text.strip := by
    apply Layer.admits_names fun part within => within.trans inside
    intro head tail known segment source part within
    have token := Layer.infix_of_segment known
      (fun _ => Layer.not_holds_of_absent known absent') source
    exact (within.trans token).trans inside
  have outcome : Outcome (fun path => ∀ inner ∈ path.layer.paths, True) (Error.Names (· <:+: text))
      (Path.parse nesting text) :=
    parse_outcome (fun _ => .of_invalid List.infix_rfl) admits fun asked asks =>
      absurd asks (Layer.not_asks_of_absent absent')
  exact outcome.mono fun _ _ => trivial

/-- What a range selects of its line. -/
def Range.selected (range : Range) (line : Text) : Text :=
  (line.drop range.start).take (range.stop - range.start)

theorem Range.Selects.selected_eq {range : Range} {place : Int} {written part : Text}
    (selects : range.Selects place written part) (nonempty : part ≠ []) (inside : part <:+: written) :
    range.selected written = part := by
  obtain ⟨first, stop⟩ := selects.first nonempty inside
  obtain ⟨before, after, whole, start⟩ := first.stands
  rw [selected, stop, ← start, whole]
  simp

namespace Document

variable {line : Text} {violation : Violation}

/-- No part of the line can be reported for the violation, only the line as a whole. -/
def FallsBack (line : Text) (violation : Violation) : Prop :=
  violation.text = [] ∨ Text.columnOf? violation.text line = none

instance (line : Text) (violation : Violation) : Decidable (FallsBack line violation) :=
  inferInstanceAs (Decidable (_ ∨ _))

theorem locate_of_fallsBack (place : Int) (back : FallsBack line violation) :
    locate line place violation = wholeLine place line := by
  unfold locate
  rcases back with none | missing
  · rw [none]
    rfl
  · rw [missing, ite_self]

theorem locate_of_not_fallsBack (place : Int) (located : ¬ FallsBack line violation) :
    ∃ start, Text.columnOf? violation.text line = some start ∧
      locate line place violation = ⟨place, start, start + violation.text.length⟩ := by
  rw [FallsBack, not_or] at located
  obtain ⟨start, found⟩ := Option.ne_none_iff_exists'.mp located.2
  refine ⟨start, found, ?_⟩
  rw [locate, found, if_neg (by simpa using located.1)]

theorem fallsBack_iff : FallsBack line violation ↔ violation.text = [] ∨ ¬ violation.text <:+: line := by
  rw [FallsBack, Text.columnOf?_eq_none_iff]

/-- A line in which no bracket opens is reported exactly. What offends is a part of the line, and unless
it is empty it is what the range selects, at its first occurrence. -/
theorem locate_exact {maxDepth : Int} (place : Int) (absent : '{' ∉ line)
    (failed : parseLine maxDepth line = .error (.invalid violation)) :
    violation.text <:+: line ∧
      (violation.text ≠ [] → (locate line place violation).selected line = violation.text ∧
        Text.IsFirst violation.text line (locate line place violation).start) ∧
      (FallsBack line violation ↔ violation.text = []) ∧
      (violation.text = [] → locate line place violation = wholeLine place line) := by
  have outcome : Outcome _ (Error.Names (· <:+: line)) (parseLine maxDepth line) :=
    Path.parse_names_infix ⟨maxDepth, 0⟩ absent
  rw [failed] at outcome
  have inside : violation.text <:+: line := outcome violation rfl
  have selects := locate_selects line place violation
  refine ⟨inside, ?_, ?_, ?_⟩
  · intro nonempty
    exact ⟨selects.selected_eq nonempty inside, (selects.first nonempty inside).1⟩
  · rw [fallsBack_iff]
    exact or_iff_left (not_not_intro inside)
  · intro none
    exact locate_of_fallsBack place (.inl none)

/-- The positions are reversed, and the first of them also stands in front of them, as a code. -/
theorem locate_exact_of_reversed :
    ∃ violation, parseLine 32 "  245$3$a/3-1$b".toList = .error (.invalid violation) ∧
      violation.text = "3-1".toList ∧
      (locate "  245$3$a/3-1$b".toList 0 violation).selected "  245$3$a/3-1$b".toList =
        violation.text := by
  obtain ⟨violation, failed, same⟩ : ∃ violation,
      parseLine 32 "  245$3$a/3-1$b".toList = .error (.invalid violation) ∧
        violation.text = "3-1".toList := ⟨_, rfl, rfl⟩
  obtain ⟨-, selects, -⟩ := locate_exact 0 (by decide) failed
  exact ⟨violation, failed, same, (selects (by rw [same]; decide)).1⟩

end Document
end MarcPath
