import MarcPath.Proofs.Condition
import MarcPath.Proofs.TermSet

/-! The spelling of a text as a literal. It is undone by reading it, it is solid where the text has no
other blanks than spaces, and nothing in it is a bracket, an operator or a bar of the condition it stands
in, whatever stands before it. Only at its end it is as open as the text: a shield there shields what
follows. -/
namespace MarcPath

namespace Literal

/-- A character is spelled with a backslash in front, or as it is and has no meaning then. -/
theorem escapeChar_cases (c : Char) :
    (∃ spelled, escapeChar c = ['\\', spelled]) ∨ (escapeChar c = [c] ∧ isSpecial c = false) := by
  unfold escapeChar
  split
  · exact .inl ⟨c, rfl⟩
  · rename_i plain
    split
    · exact .inl ⟨'s', rfl⟩
    · exact .inr ⟨rfl, by simpa using plain⟩

theorem unescape_escape (text : Text) : unescape (escape text) = text := by
  induction text with
  | nil => rfl
  | cons c rest ih =>
    rw [escape, List.flatMap_cons, ← escape]
    unfold escapeChar
    split
    · rename_i special
      have other : c ≠ 's' := by
        rintro rfl
        cases special
      simp [unescape, other, ih]
    · rename_i plain
      split
      · rename_i space
        simp [unescape, beq_iff_eq.mp space, ih]
      · have other : c ≠ '\\' := by
          rintro rfl
          exact plain rfl
        rw [List.singleton_append, unescape, ih]
        · rintro rfl
          exact absurd rfl other
        · rintro next more rfl
          exact absurd rfl other

theorem solid_escape {text : Text} (spaces : ∀ c ∈ text, isBlank c = true → c = ' ') :
    (escape text).hasBlank = false := by
  rw [Text.hasBlank, List.any_eq_false]
  intro c member
  obtain ⟨source, inside, member⟩ := List.mem_flatMap.mp member
  unfold escapeChar at member
  have backslash : isBlank '\\' = false := by decide
  have letter : isBlank 's' = false := by decide
  split at member
  · rename_i special
    have solid : isBlank source = false := by
      by_contra blank
      rw [Bool.not_eq_false] at blank
      rw [spaces source inside blank] at special
      cases special
    simp only [List.mem_cons, List.not_mem_nil, or_false] at member
    rcases member with rfl | rfl <;> simp_all
  · split at member
    · simp only [List.mem_cons, List.not_mem_nil, or_false] at member
      rcases member with rfl | rfl <;> simp_all
    · rename_i other
      obtain rfl := List.mem_singleton.mp member
      intro blank
      exact other (beq_iff_eq.mpr (spaces _ inside blank))

/-- No character of the spelling is a bracket to what it stands in. -/
theorem flat_escape (before : Option Char) (text : Text) :
    ∀ mark ∈ Mark.ofText before (escape text), mark.isBracket = false := by
  induction text generalizing before with
  | nil => simp [escape, Mark.ofText]
  | cons c rest ih =>
    rw [escape, List.flatMap_cons, ← escape]
    rcases escapeChar_cases c with ⟨spelled, same⟩ | ⟨same, plain⟩
    · have first : (Mark.ofChar before '\\').isBracket = false := by
        rw [Mark.ofChar_eq_plain_iff.mpr (.inr (by decide))]
        rfl
      have second : (Mark.ofChar (some '\\') spelled).isBracket = false := by
        rw [Mark.ofChar_shielded rfl]
        rfl
      simpa [same, Mark.ofText, first, second] using ih (some spelled)
    · have flat : (Mark.ofChar before c).isBracket = false := by
        unfold Mark.ofChar
        repeat' split
        all_goals simp_all [Mark.isBracket, isSpecial]
      simpa [same, Mark.ofText, flat] using ih (some c)

/-- No character of the spelling stands for an operator. -/
theorem cells_escape (before : Option Char) (text : Text) :
    ∀ cell ∈ TermSet.cells before (escape text), TermSet.isOperator cell = false := by
  induction text generalizing before with
  | nil => simp [escape, TermSet.cells]
  | cons c rest ih =>
    rw [escape, List.flatMap_cons, ← escape]
    rcases escapeChar_cases c with ⟨spelled, same⟩ | ⟨same, plain⟩
    · have first : Operator.ofChar? '\\' = none := rfl
      have shielded : isShielded (some '\\') = true := rfl
      simpa [same, TermSet.cells, first, shielded, TermSet.isOperator] using ih (some spelled)
    · have free : Operator.ofChar? c = none := by
        unfold Operator.ofChar? Operator.ofText?
        split <;> simp_all [isSpecial]
      simpa [same, TermSet.cells, free, TermSet.isOperator] using ih (some c)

/-- No character of the spelling is a bar between alternatives. -/
theorem splitAfter_escape (before : Option Char) (text : Text) :
    Text.splitAfter (fun before c => c == '|' && before != some '\\') before (escape text) =
      (escape text, []) := by
  induction text generalizing before with
  | nil => rfl
  | cons c rest ih =>
    rw [escape, List.flatMap_cons, ← escape]
    rcases escapeChar_cases c with ⟨spelled, same⟩ | ⟨same, plain⟩
    · simp [same, Text.splitAfter, ih]
    · have other : (c == '|') = false := by
        rw [beq_eq_false_iff_ne]
        rintro rfl
        cases plain
      simp [same, Text.splitAfter, ih, other]

/-- The spelling ends in a shield where the text does. -/
theorem isShielded_escape {text : Text} (nonempty : text ≠ []) :
    isShielded (escape text).getLast? = isShielded text.getLast? := by
  obtain ⟨front, c, rfl⟩ := List.eq_nil_or_concat' text |>.resolve_left nonempty
  have last : isShielded (escapeChar c).getLast? = isShield c := by
    unfold escapeChar
    split
    · rfl
    · split
      · rename_i space
        rw [beq_iff_eq.mp space]
        rfl
      · rfl
  have spelled : escapeChar c ≠ [] := by
    rcases escapeChar_cases c with ⟨_, same⟩ | ⟨same, -⟩ <;> simp [same]
  rw [escape, List.flatMap_append, List.flatMap_singleton, List.getLast?_append_of_ne_nil _ spelled, last]
  simp [isShielded]

end Literal
end MarcPath
