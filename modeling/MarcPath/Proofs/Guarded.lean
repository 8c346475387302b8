import MarcPath.Proofs.Condition
import MarcPath.Proofs.Head
import MarcPath.Proofs.TermSet

/-! Texts in which the codes of subfields are the only characters that could mean anything. Each code
follows its dollar, so none of them is a bracket or an operator; but a bar among them still parts a group,
which only a backslash keeps it from. -/
namespace MarcPath

/-- Every character is one that heads are written with, a dollar, or shielded by the one before it. -/
def Text.Guarded (before : Option Char) : Text → Prop
  | [] => True
  | c :: rest =>
    (isShielded before = true ∨ isHeadChar c = true ∨ c = '$') ∧ Guarded (some c) rest

theorem Operator.mem_of_ofChar? {c : Char} (known : (ofChar? c).isSome = true) :
    c ∈ ['=', '~', '?', '!'] := by
  unfold ofChar? ofText? at known
  split at known <;> simp_all

namespace Text.Guarded

variable {before : Option Char} {first second text : Text}

theorem append (front : Guarded before first) (back : Guarded (lastFrom before first) second) :
    Guarded before (first ++ second) := by
  induction first generalizing before with
  | nil => exact back
  | cons c rest ih => exact ⟨front.1, ih front.2 back⟩

theorem of_append_left (whole : Guarded before (first ++ second)) : Guarded before first := by
  induction first generalizing before with
  | nil => trivial
  | cons c rest ih => exact ⟨whole.1, ih whole.2⟩

theorem of_isHeadChar (known : ∀ c ∈ text, isHeadChar c = true) (before : Option Char) :
    Guarded before text := by
  induction text generalizing before with
  | nil => trivial
  | cons c rest ih =>
    exact ⟨.inr (.inl (known c (by simp))), ih (fun other member => known other (by simp [member])) _⟩

theorem flat (guarded : Guarded before text) :
    ∀ mark ∈ Mark.ofText before text, mark.isBracket = false := by
  induction text generalizing before with
  | nil => simp [Mark.ofText]
  | cons c rest ih =>
    obtain ⟨known, later⟩ := guarded
    intro mark member
    rcases List.mem_cons.mp member with rfl | member
    · rcases known with shielded | headChar | rfl
      · rw [Mark.ofChar_shielded shielded]
        rfl
      · rw [Mark.ofChar_inert (isInert_of_isHeadChar headChar)]
        rfl
      · cases shielded : isShielded before <;> simp [Mark.ofChar, shielded, Mark.isBracket]
    · exact ih later mark member

theorem not_operator (guarded : Guarded before text) :
    ∀ cell ∈ TermSet.cells before text, TermSet.isOperator cell = false := by
  induction text generalizing before with
  | nil => simp [TermSet.cells]
  | cons c rest ih =>
    obtain ⟨known, later⟩ := guarded
    intro cell member
    rcases List.mem_cons.mp member with rfl | member
    · rcases known with shielded | other
      · simp [TermSet.isOperator, shielded]
      · have plain : ¬ (Operator.ofChar? c).isSome = true := by
          intro spells
          have symbol := Operator.mem_of_ofChar? spells
          revert other
          simp only [List.mem_cons, List.not_mem_nil, or_false] at symbol
          rcases symbol with rfl | rfl | rfl | rfl <;> decide
        cases shielded : isShielded before <;> simp_all [TermSet.isOperator]
    · exact ih later cell member

end Text.Guarded

namespace Group

private theorem splitAfter_bar (before : Option Char) {text : Text} (absent : '|' ∉ text) (rest : Text) :
    let cuts := fun before c => c == '|' && before != some '\\'
    Text.splitAfter cuts before text = (text, []) ∧
      (Text.lastFrom before text ≠ some '\\' →
        (Text.splitAfter cuts before (text ++ '|' :: rest)).1 = text) := by
  induction text generalizing before with
  | nil =>
    refine ⟨rfl, ?_⟩
    intro apart
    have cut : (before != some '\\') = true := by simpa [Text.lastFrom] using apart
    simp [Text.splitAfter, cut]
  | cons c text ih =>
    rw [List.mem_cons, not_or] at absent
    have other : (c == '|') = false := by simpa using Ne.symm absent.1
    obtain ⟨whole, front⟩ := ih (some c) absent.2
    refine ⟨by simp [Text.splitAfter, other, whole], ?_⟩
    intro apart
    simp [Text.splitAfter, other, front apart]

/-- A group without bars has one alternative. -/
theorem alternatives_eq_self {inner : Text} (absent : '|' ∉ inner) : alternatives inner = (inner, []) :=
  (splitAfter_bar none absent []).1

/-- The first alternative of a group ends at its first bar, unless a backslash stands before that. -/
theorem first_alternative {front : Text} (absent : '|' ∉ front)
    (apart : Text.lastFrom none front ≠ some '\\') (rest : Text) :
    (alternatives (front ++ '|' :: rest)).1 = front :=
  (splitAfter_bar none absent rest).2 apart

end Group
end MarcPath
