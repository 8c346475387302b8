import MarcPath.Condition
import MarcPath.Proofs.Bracket
import MarcPath.Proofs.Outcome
import MarcPath.Proofs.Strip

/-! Conditions and groups as they are read. A group is written as the text it was read from, whatever
its nested paths are, and those are read from terms of the group or from terms behind the start of
its context. -/
namespace MarcPath

variable {ρ : Type} {nested : Text → Except Error ρ} {context : Text}

theorem Literal.ofRaw_eq_ok_iff {raw : Text} {literal : Literal} :
    Literal.ofRaw raw = .ok literal ↔ raw.hasBlank = false ∧ literal = ⟨raw⟩ := by
  unfold Literal.ofRaw
  by_cases blank : raw.hasBlank = true
  · simp [blank, violates]
  · simp [blank, eq_comm]

/-- An operand is written as the term it was read from. -/
theorem Operand.render_of_parse {term : Text} {operand : Operand ρ}
    (found : Operand.parse nested context term = .ok operand) : operand.render = term := by
  unfold Operand.parse at found
  split at found
  · obtain ⟨literal, read, rfl⟩ := map_eq_ok_iff.mp found
    obtain ⟨-, rfl⟩ := Literal.ofRaw_eq_ok_iff.mp read
    rfl
  · have written {reading : Except Error Text}
        (found : (do let text ← reading; return path (← nested text) term) = .ok operand) :
        operand.render = term := by
      obtain ⟨text, -, found⟩ := bind_eq_ok_iff.mp found
      obtain ⟨value, -, found⟩ := bind_eq_ok_iff.mp found
      obtain rfl := Except.ok.inj found
      rfl
    dsimp only at found
    split at found
    · exact written found
    · exact written found

theorem Term.render_of_parse {term : Text} {read : Term ρ}
    (found : Term.parse nested context term = .ok read) : read.render = term := by
  unfold Term.parse at found
  split at found
  · rename_i empty
    obtain rfl := Except.ok.inj found
    exact (List.isEmpty_iff.mp empty).symm
  · obtain ⟨operand, known, rfl⟩ := map_eq_ok_iff.mp found
    exact Operand.render_of_parse known

namespace Condition

/-- The symbol of an operator is one that a condition can be put together with. -/
theorem make_symbol (left : Term ρ) (operator : Operator) (right : Operand ρ) (source : Option Text) :
    make (some left) operator.symbol (some (.given right)) source =
      .ok ⟨left, operator, right, source⟩ := by
  unfold make
  rw [operator.ofText?_symbol]
  rfl

theorem parse_eq (group termSet : Text) :
    Condition.parse nested context group termSet =
      if (Mark.ofText none termSet).any Mark.isBracket then violates .condition .unescaped group
      else if (TermSet.parse termSet).terms.2.isEmpty then
        violates .condition .missingRight (if termSet.isEmpty then group else termSet)
      else do
        let left ← Term.parse nested context (TermSet.parse termSet).terms.1
        let right ← Operand.parse nested context (TermSet.parse termSet).terms.2
        return ⟨left, (TermSet.parse termSet).operator.getD .present, right, some termSet⟩ := by
  unfold Condition.parse
  simp only [make_symbol]
  rfl

/-- A term set with one term and no operator of two asks for the presence of that term. -/
theorem parse_presence {group termSet term : Text} (flat : Text.Unbracketed termSet)
    (cut : (TermSet.parse termSet).terms = ([], term))
    (asks : (TermSet.parse termSet).operator.getD .present = .present) (nonempty : term ≠ []) :
    Condition.parse nested context group termSet = (Operand.parse nested context term).map fun right =>
      ⟨.absent context, .present, right, some termSet⟩ := by
  have unbracketed : (Mark.ofText none termSet).any Mark.isBracket = false :=
    List.any_eq_false.mpr fun mark member => Bool.eq_false_iff.mp (flat mark member)
  have begun : term.isEmpty = false := by simpa using nonempty
  rw [parse_eq, unbracketed, cut, asks]
  simp only [begun, Bool.false_eq_true, ↓reduceIte]
  change (do
    let right ← Operand.parse nested context term
    return Condition.mk (.absent context) .present right (some termSet)) = _
  cases Operand.parse nested context term <;> rfl

/-- What a condition is read from: the terms that its term set is cut into, and its operator. -/
structure Read (nested : Text → Except Error ρ) (context termSet : Text) (condition : Condition ρ) :
    Prop where
  flat : termSet.Unbracketed
  begun : (TermSet.parse termSet).terms.2 ≠ []
  left : Term.parse nested context (TermSet.parse termSet).terms.1 = .ok condition.left
  operator : (TermSet.parse termSet).operator.getD .present = condition.operator
  right : Operand.parse nested context (TermSet.parse termSet).terms.2 = .ok condition.right
  source : condition.source = some termSet

theorem parse_eq_ok_iff {group termSet : Text} {condition : Condition ρ} :
    Condition.parse nested context group termSet = .ok condition ↔
      Read nested context termSet condition := by
  rw [parse_eq]
  constructor
  · intro found
    split at found
    · cases found
    · rename_i flat
      split at found
      · cases found
      · rename_i begun
        obtain ⟨left, first, found⟩ := bind_eq_ok_iff.mp found
        obtain ⟨right, second, found⟩ := bind_eq_ok_iff.mp found
        obtain rfl := Except.ok.inj found
        exact ⟨Text.unbracketed_of_any flat, by simpa using begun, first, rfl, second, rfl⟩
  · intro read
    have flat : (Mark.ofText none termSet).any Mark.isBracket = false :=
      List.any_eq_false.mpr fun mark member => Bool.eq_false_iff.mp (read.flat mark member)
    have begun : (TermSet.parse termSet).terms.2.isEmpty = false := by simpa using read.begun
    obtain ⟨left, operator, right, source⟩ := condition
    obtain rfl : source = some termSet := read.source
    simp only [flat, begun, read.left, read.right, read.operator, Bool.false_eq_true, ↓reduceIte]
    rfl

theorem termSet_of_parse {group termSet : Text} {condition : Condition ρ}
    (found : Condition.parse nested context group termSet = .ok condition) :
    condition.termSet = termSet := by
  rw [Condition.termSet, (parse_eq_ok_iff.mp found).source, Option.getD_some]

end Condition

namespace Group

theorem inner?_eq_some_iff {group inner : Text} :
    inner? group = some inner ↔ group = '{' :: (inner ++ ['}']) := by
  constructor
  · intro found
    unfold inner? at found
    split at found
    · rename_i rest
      split at found
      · rename_i ends
        obtain ⟨front, rfl⟩ := List.getLast?_eq_some_iff.mp (beq_iff_eq.mp ends)
        simpa using found
      · cases found
    · cases found
  · rintro rfl
    simp [inner?]

theorem intercalate_alternatives (inner : Text) :
    List.intercalate ['|'] ((alternatives inner).1 :: (alternatives inner).2) = inner :=
  Text.intercalate_splitAfter '|' _ (by simp_all) none inner

theorem infix_of_mem_alternatives {inner termSet : Text}
    (member : termSet ∈ (alternatives inner).1 :: (alternatives inner).2) : termSet <:+: inner := by
  have found := Text.infix_intercalate ['|'] member
  rwa [intercalate_alternatives] at found

theorem parse_eq (group inner : Text) (cut : inner? group = some inner) :
    Group.parse nested context group = (do
      let first ← Condition.parse nested context group (alternatives inner).1
      let others ← List.mapM (Condition.parse nested context group) (alternatives inner).2
      return ⟨first, others⟩) := by
  rw [Group.parse, cut]

/-- A group with no bar in it holds a single condition. -/
theorem parse_single {inner : Text} (single : alternatives inner = (inner, [])) :
    Group.parse nested context ('{' :: (inner ++ ['}'])) =
      (Condition.parse nested context ('{' :: (inner ++ ['}'])) inner).map fun condition =>
        ⟨condition, []⟩ := by
  rw [parse_eq _ inner (inner?_eq_some_iff.mpr rfl), single]
  cases Condition.parse nested context ('{' :: (inner ++ ['}'])) inner <;> rfl

/-- A group is read between its brackets, one condition from each alternative. -/
theorem exists_of_parse {text : Text} {group : Group ρ}
    (found : Group.parse nested context text = .ok group) :
    ∃ inner, text = '{' :: (inner ++ ['}']) ∧
      Condition.parse nested context text (alternatives inner).1 = .ok group.first ∧
      List.mapM (Condition.parse nested context text) (alternatives inner).2 = .ok group.others := by
  cases cut : inner? text with
  | none =>
    rw [Group.parse, cut] at found
    cases found
  | some inner =>
    rw [parse_eq text inner cut] at found
    obtain ⟨first, read, found⟩ := bind_eq_ok_iff.mp found
    obtain ⟨others, reads, found⟩ := bind_eq_ok_iff.mp found
    obtain rfl := Except.ok.inj found
    exact ⟨inner, inner?_eq_some_iff.mp cut, read, reads⟩

/-- Each condition of a group is read from a term set, all in the context of the group. -/
theorem exists_read {text : Text} {group : Group ρ} {condition : Condition ρ}
    (found : Group.parse nested context text = .ok group) (inside : condition ∈ group.conditions) :
    ∃ termSet, Condition.Read nested context termSet condition := by
  obtain ⟨inner, -, read, reads⟩ := exists_of_parse found
  rcases List.mem_cons.mp inside with rfl | member
  · exact ⟨_, Condition.parse_eq_ok_iff.mp read⟩
  · obtain ⟨termSet, -, read⟩ := exists_of_mem_mapM reads member
    exact ⟨termSet, Condition.parse_eq_ok_iff.mp read⟩

/-- A group of one condition has one alternative, which that is read from. -/
theorem exists_of_parse_single {text : Text} {condition : Condition ρ}
    (found : Group.parse nested context text = .ok ⟨condition, []⟩) :
    ∃ inner, text = '{' :: (inner ++ ['}']) ∧ alternatives inner = (inner, []) ∧
      Condition.Read nested context inner condition := by
  obtain ⟨inner, brackets, read, reads⟩ := exists_of_parse found
  have none : (alternatives inner).2 = [] := by
    cases more : (alternatives inner).2 with
    | nil => rfl
    | cons next rest =>
      rw [more] at reads
      cases mapM_eq_ok_iff.mp reads
  have whole := intercalate_alternatives inner
  rw [none, List.intercalate_singleton] at whole
  rw [whole] at read
  exact ⟨inner, brackets, Prod.ext whole none, Condition.parse_eq_ok_iff.mp read⟩

/-- A group is written as it was read. -/
theorem render_of_parse {text : Text} {group : Group ρ}
    (found : Group.parse nested context text = .ok group) : group.render = text := by
  obtain ⟨inner, brackets, read, reads⟩ := exists_of_parse found
  have rest := map_of_mapM (fun _ _ _ => Condition.termSet_of_parse) reads
  rw [brackets]
  simp only [render, conditions, List.map_cons, Condition.termSet_of_parse read, rest,
    intercalate_alternatives, List.cons_append]

end Group
end MarcPath
