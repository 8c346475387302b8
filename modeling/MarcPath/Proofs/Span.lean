import MarcPath.Proofs.Digits
import MarcPath.Proofs.Mark
import MarcPath.Proofs.Outcome

/-! What the reader of spans accepts: one or two positions of which the second is not before the
first, written with a dash between them. -/
namespace MarcPath

namespace Text

theorem splitOn_cons (separator c : Char) (rest : Text) :
    splitOn separator (c :: rest) =
      if c == separator then ([], (splitOn separator rest).1 :: (splitOn separator rest).2)
      else (c :: (splitOn separator rest).1, (splitOn separator rest).2) := by
  have same : splitAfter (fun _ c => c == separator) (some c) rest = splitOn separator rest := by
    cases rest <;> rfl
  rw [splitOn, splitAfter, same]

theorem splitOn_eq_self {separator : Char} {text : Text} (absent : separator ∉ text) :
    splitOn separator text = (text, []) := by
  induction text with
  | nil => rfl
  | cons c rest ih =>
    rw [List.mem_cons, not_or] at absent
    simp [splitOn_cons, ih absent.2, Ne.symm absent.1]

/-- A separator ends a piece and begins another, whatever is on either side of it. -/
theorem splitOn_join (separator : Char) (first rest : Text) :
    splitOn separator (first ++ separator :: rest) =
      ((splitOn separator first).1,
        (splitOn separator first).2 ++ (splitOn separator rest).1 :: (splitOn separator rest).2) := by
  induction first with
  | nil =>
    have none : splitOn separator [] = ([], []) := rfl
    simp [splitOn_cons, none]
  | cons c first ih =>
    rw [List.cons_append, splitOn_cons, splitOn_cons separator c first, ih]
    split <;> rfl

/-- The first piece ends at the first separator. -/
theorem splitOn_append {separator : Char} {first : Text} (absent : separator ∉ first) (rest : Text) :
    splitOn separator (first ++ separator :: rest) =
      (first, (splitOn separator rest).1 :: (splitOn separator rest).2) := by
  rw [splitOn_join, splitOn_eq_self absent]
  rfl

theorem intercalate_splitOn (separator : Char) (text : Text) :
    List.intercalate [separator] ((splitOn separator text).1 :: (splitOn separator text).2) = text :=
  intercalate_splitAfter separator _ (by simp) none text

theorem mem_chomp_or {c : Char} {text : Text} (member : c ∈ text) : c ∈ text.chomp ∨ c = '\n' := by
  by_cases ends : (text.getLast? == some '\n') = true
  · rw [chomp, if_pos ends]
    obtain ⟨front, rfl⟩ := List.getLast?_eq_some_iff.mp (beq_iff_eq.mp ends)
    simpa using member
  · rw [chomp, if_neg ends]
    exact .inl member

/-- A text without blanks has no line feed to lose. -/
theorem chomp_eq_self {text : Text} (solid : text.hasBlank = false) : text.chomp = text := by
  by_cases ends : (text.getLast? == some '\n') = true
  · obtain ⟨front, rfl⟩ := List.getLast?_eq_some_iff.mp (beq_iff_eq.mp ends)
    simp [hasBlank, isBlank] at solid
  · rw [chomp, if_neg ends]

end Text

namespace Span

/-- The characters of spans. -/
def IsSpanChar (c : Char) : Prop :=
  isDigit c = true ∨ c = '#' ∨ c = '-' ∨ c = '\n'

theorem IsSpanChar.isInert {c : Char} (known : IsSpanChar c) : isInert c = true := by
  rcases known with digit | rfl | rfl | rfl
  · exact isInert_of_holds digit (by decide)
  all_goals decide

theorem mem_of_isPosition {text : Text} (position : isPosition text = true) {c : Char}
    (member : c ∈ text) : isDigit c = true ∨ c = '#' ∨ c = '\n' := by
  rcases Text.mem_chomp_or member with member | feed
  · rw [isPosition, Bool.or_eq_true, isLast, beq_iff_eq, Bool.and_eq_true] at position
    rcases position with last | ⟨-, digits⟩
    · rw [last, List.mem_singleton] at member
      exact .inr (.inl member)
    · exact .inl (List.all_eq_true.mp digits c member)
  · exact .inr (.inr feed)

theorem dash_not_mem {text : Text} (position : isPosition text = true) : '-' ∉ text := by
  intro member
  have known := mem_of_isPosition position member
  revert known
  decide

private theorem isSpanChar_of_isPosition {text : Text} (position : isPosition text = true) {c : Char}
    (member : c ∈ text) : IsSpanChar c :=
  (mem_of_isPosition position member).imp_right (.imp_right .inr)

/-- A span as the reader gives one. -/
structure WellFormed (span : Span) : Prop where
  start : isPosition span.start = true
  stop : ∀ stop ∈ span.stop, isPosition stop = true
  ordered : span.isReversed = .ok false

variable {text : Text} {span : Span}

theorem parse_render (known : span.WellFormed) : Span.parse span.render = .ok span := by
  rcases span with ⟨start, stop⟩
  have first := dash_not_mem known.start
  have ordered := known.ordered
  cases stop with
  | none =>
    simp [render, parse, Text.splitOn_eq_self first, known.start, ordered, bind, Except.bind, pure,
      Except.pure]
  | some stop =>
    have second := dash_not_mem (known.stop stop rfl)
    simp [render, parse, Text.splitOn_append first, Text.splitOn_eq_self second, known.start,
      known.stop stop rfl, ordered, bind, Except.bind, pure, Except.pure]

theorem of_parse (found : Span.parse text = .ok span) : span.render = text ∧ span.WellFormed := by
  have whole := Text.intercalate_splitOn '-' text
  unfold parse at found
  generalize text.splitOn '-' = pieces at found whole
  obtain ⟨start, others⟩ := pieces
  simp only at found whole
  split at found
  · cases found
  · rename_i accepted
    simp only [Bool.or_eq_true, decide_eq_true_eq, Bool.not_eq_true', not_or, Bool.not_eq_false,
      List.all_cons, Bool.and_eq_true] at accepted
    obtain ⟨few, position, rest⟩ := accepted
    obtain ⟨reversed, ordered, found⟩ := bind_eq_ok_iff.mp found
    split at found
    · cases found
    · rename_i forwards
      obtain rfl := Except.ok.inj found
      rw [Bool.not_eq_true] at forwards
      subst forwards
      refine ⟨?_, position, ?_, ordered⟩
      · rcases others with _ | ⟨stop, _ | ⟨more, others⟩⟩
        · simpa [render] using whole
        · simpa [render, List.intercalate] using whole
        · simp at few
      · intro stop member
        exact List.all_eq_true.mp rest stop (List.mem_of_mem_head? member)

/-- The reader gives back exactly the well-formed spans, each for its own text. -/
theorem parse_eq_ok_iff : Span.parse text = .ok span ↔ span.render = text ∧ span.WellFormed :=
  ⟨of_parse, fun known => known.1 ▸ parse_render known.2⟩

theorem WellFormed.isSpanChar (known : span.WellFormed) : ∀ c ∈ span.render, IsSpanChar c := by
  rcases span with ⟨start, _ | stop⟩
  · intro c member
    exact isSpanChar_of_isPosition known.start member
  · intro c member
    rcases List.mem_append.mp member with member | member
    · exact isSpanChar_of_isPosition known.start member
    · rcases List.mem_cons.mp member with dash | member
      · exact .inr (.inr (.inl dash))
      · exact isSpanChar_of_isPosition (known.stop stop rfl) member

theorem WellFormed.not_mem {c : Char} (known : span.WellFormed) (other : ¬ IsSpanChar c) :
    c ∉ span.render :=
  fun member => other (known.isSpanChar c member)

end Span
end MarcPath
