import MarcPath.Proofs.Head
import MarcPath.Proofs.Strip

/-! How the reading of heads fails. Beside the rules that a text can break there is one cause only, a
run of digits that is too long to be read as a number. -/
namespace MarcPath

/-- Not the limit on nesting, and none of the checks that an earlier check leaves nothing to find. -/
def Fault.isOrdinary (part : Part) (fault : Fault) : Bool :=
  fault != .tooDeep &&
    !List.contains [(.condition, unknownOperator), (.condition, unbalanced),
      (.condition, missingField), (.literal, blank), (.field, blank)] (part, fault)

/-- The errors that a text without blanks can lead to. What offends is a part of the text. -/
inductive Misread (text : Text) : Error → Prop where
  | invalid {part : Part} {fault : Fault} {offending : Text} (inside : offending <:+: text)
      (ordinary : fault.isOrdinary part = true) : Misread text (.invalid ⟨part, fault, offending⟩)
  | numeral (cause : NumeralError) (long : ¬ Text.DigitsWithin Numeral.maxDigits text) :
      Misread text (.numeral cause)

namespace Misread

variable {text : Text} {error : Error}

theorem of_part {part : Text} (misread : Misread part error) (inside : part <:+: text) :
    Misread text error := by
  cases misread with
  | invalid within ordinary => exact .invalid (within.trans inside) ordinary
  | numeral cause long => exact .numeral cause fun within => long (within.of_part inside)

theorem violates_outcome {α : Type} {value : α → Prop} {part : Part} {fault : Fault}
    {offending : Text} (inside : offending <:+: text) (ordinary : fault.isOrdinary part = true) :
    Outcome value (Misread text) (violates part fault offending) :=
  Misread.invalid inside ordinary

end Misread

/-- A numeral of digits alone is read unless it has too many of them. -/
theorem numberOf_digits {digits : Text} (all : digits.all isDigit = true) (nonempty : digits ≠ []) :
    numberOf digits =
      if Numeral.maxDigits < digits.length then .error (.numeral (.tooManyDigits digits.length))
      else .ok (Numeral.digitsValue digits) := by
  rw [numberOf, Numeral.read_digits all nonempty]
  split <;> rfl

theorem numberOf_outcome {digits text : Text} (all : digits.all isDigit = true)
    (nonempty : digits ≠ []) (inside : digits <:+: text) :
    Outcome (fun number => number = (Numeral.digitsValue digits : Int)) (Misread text)
      (numberOf digits) := by
  rw [numberOf_digits all nonempty]
  by_cases long : Numeral.maxDigits < digits.length
  · rw [if_pos long]
    apply Misread.numeral
    intro within
    have short := within digits inside all
    omega
  · rw [if_neg long]
    rfl

namespace Span

variable {text : Text} {span : Span}

/-- Without blanks a position is the last one or a run of digits. -/
theorem position_cases {position : Text} (known : isPosition position = true)
    (solid : position.hasBlank = false) :
    isLast position = true ∨ (position ≠ [] ∧ position.all isDigit = true) := by
  rw [isPosition, Text.chomp_eq_self solid, Bool.or_eq_true] at known
  exact known.imp_right fun digits => by simpa using digits

theorem isReversed_outcome (span : Span) (start : isPosition span.start = true)
    (stop : ∀ stop ∈ span.stop, isPosition stop = true) (solid : span.render.hasBlank = false) :
    Outcome (fun _ => True) (Misread span.render) span.isReversed := by
  rcases span with ⟨first, _ | final⟩
  · trivial
  · simp only [render, Text.hasBlank, List.any_append, List.any_cons, Bool.or_eq_false_iff] at solid
    simp only [isReversed]
    split
    · trivial
    · rename_i numbered
      rw [Bool.or_eq_true, not_or] at numbered
      obtain ⟨nonempty, digits⟩ := (position_cases start solid.1).resolve_left numbered.1
      obtain ⟨nonempty', digits'⟩ :=
        (position_cases (stop final rfl) solid.2.2).resolve_left numbered.2
      have behind : final <:+: render ⟨first, some final⟩ := ⟨first ++ ['-'], [], by simp [render]⟩
      have front : first <:+: render ⟨first, some final⟩ := ⟨[], '-' :: final, by simp [render]⟩
      refine (numberOf_outcome digits' nonempty' behind).bind fun _ _ => ?_
      exact (numberOf_outcome digits nonempty front).bind fun _ _ => trivial

theorem parse_outcome (solid : text.hasBlank = false) :
    Outcome (fun _ => True) (Misread text) (Span.parse text) := by
  have whole := Text.intercalate_splitOn '-' text
  unfold Span.parse
  generalize text.splitOn '-' = pieces at whole
  obtain ⟨start, others⟩ := pieces
  simp only at whole ⊢
  split
  · exact Misread.violates_outcome List.infix_rfl rfl
  · rename_i accepted
    simp only [Bool.or_eq_true, decide_eq_true_eq, Bool.not_eq_true', not_or, Bool.not_eq_false,
      List.all_cons, Bool.and_eq_true] at accepted
    obtain ⟨few, position, rest⟩ := accepted
    have written : render ⟨start, others.head?⟩ = text := by
      rcases others with _ | ⟨stop, _ | ⟨more, others⟩⟩
      · simpa [render] using whole
      · simpa [render, List.intercalate] using whole
      · simp at few
    have ordered := isReversed_outcome ⟨start, others.head?⟩ position
      (fun stop member => List.all_eq_true.mp rest stop (List.mem_of_mem_head? member))
      (written.symm ▸ solid)
    rw [written] at ordered
    apply ordered.bind
    intro reversed _
    split
    · exact Misread.violates_outcome List.infix_rfl rfl
    · trivial

variable {whole rest : Text}

/-- Inside of a text without blanks. -/
theorem parse_outcome_within (solid : whole.hasBlank = false) (inside : text <:+: whole) :
    Outcome (fun _ => True) (Misread whole) (Span.parse text) := by
  have outcome := parse_outcome (Text.hasBlank_of_infix inside solid)
  exact outcome.imp fun error misread => misread.of_part inside

theorem splitIndex_outcome (part : Part) (solid : whole.hasBlank = false) (inside : rest <:+: whole)
    (ordinary : Fault.isOrdinary part .index = true) :
    Outcome (fun result => result.2 <:+: whole) (Misread whole) (splitIndex part whole rest) := by
  unfold splitIndex
  split
  · split
    · exact Misread.violates_outcome List.infix_rfl ordinary
    · rename_i inner position after cut
      obtain ⟨rfl, -⟩ := Text.cutFirst?_eq_some_iff.mp cut
      have front : position <:+: '[' :: (position ++ ']' :: after) := ⟨['['], ']' :: after, by simp⟩
      have back : after <:+: '[' :: (position ++ ']' :: after) :=
        ⟨'[' :: position ++ [']'], [], by simp⟩
      exact (parse_outcome_within solid (front.trans inside)).map fun _ _ => back.trans inside
  · exact inside

end Span

theorem FieldHead.parseSelection_outcome {whole rest : Text} (solid : whole.hasBlank = false)
    (inside : rest <:+: whole) :
    Outcome (fun _ => True) (Misread whole) (parseSelection whole rest) := by
  unfold parseSelection
  split
  · trivial
  · have behind := (List.suffix_cons _ _).isInfix.trans inside
    exact (Span.parse_outcome_within solid behind).map fun _ _ => trivial
  · split
    · trivial
    · exact Misread.violates_outcome List.infix_rfl rfl
  · exact Misread.violates_outcome List.infix_rfl rfl

theorem FieldHead.parse_outcome {text : Text} (solid : text.hasBlank = false) :
    Outcome (fun _ => True) (Misread text) (FieldHead.parse text) := by
  unfold FieldHead.parse
  rw [solid]
  split
  · exact Misread.violates_outcome List.infix_rfl rfl
  · simp only [Bool.false_eq_true, ↓reduceIte]
    split
    · exact Misread.violates_outcome List.infix_rfl rfl
    · have index := Span.splitIndex_outcome .field solid
        (List.drop_suffix 3 text).isInfix rfl
      exact index.bind fun _ inside =>
        (parseSelection_outcome solid inside).bind fun _ _ => trivial

theorem SubfieldHead.parseCharacters_outcome {whole rest : Text} (solid : whole.hasBlank = false)
    (inside : rest <:+: whole) :
    Outcome (fun _ => True) (Misread whole) (parseCharacters whole rest) := by
  unfold parseCharacters
  split
  · trivial
  · have behind := (List.suffix_cons _ _).isInfix.trans inside
    exact (Span.parse_outcome_within solid behind).map fun _ _ => trivial
  · exact Misread.violates_outcome List.infix_rfl rfl

theorem SubfieldHead.parse_outcome {text : Text} (solid : text.hasBlank = false) :
    Outcome (fun _ => True) (Misread text) (SubfieldHead.parse text) := by
  unfold SubfieldHead.parse
  split
  · rename_i dollar code rest
    split
    · exact Misread.violates_outcome List.infix_rfl rfl
    · split
      · exact Misread.violates_outcome List.infix_rfl rfl
      · have index := Span.splitIndex_outcome .subfield solid
          (List.suffix_append [dollar, code] rest).isInfix rfl
        exact index.bind fun _ inside =>
          (parseCharacters_outcome solid inside).bind fun _ _ => trivial
  · exact Misread.violates_outcome List.infix_rfl rfl

end MarcPath
