import MarcPath.Proofs.Inside
import MarcPath.Proofs.Recut
import MarcPath.Proofs.Spelling

/-! Conditions written anew, as left term, operator and right term. The text of one that was read is cut
into the same terms again, unless an operator is left in the right term. That takes a literal, and an
operator that was written behind it; in front of it the operator no longer comes last. -/
namespace MarcPath

namespace Text

/-- Every bar follows a backslash and every bracket a shield, so that a group takes the text for a single
term set. -/
def Uncut (before : Option Char) : Text → Prop
  | [] => True
  | c :: rest =>
    (c = '|' → before = some '\\') ∧ (c = '{' ∨ c = '}' → isShielded before = true) ∧
      Uncut (some c) rest

variable {before : Option Char} {first second text : Text}

theorem uncut_append : Uncut before (first ++ second) ↔
    Uncut before first ∧ Uncut (lastFrom before first) second := by
  induction first generalizing before with
  | nil => simp [Uncut, lastFrom]
  | cons c rest ih => simp [Uncut, lastFrom, ih, and_assoc]

/-- A text that nothing shields may stand behind anything. -/
theorem Uncut.behind (uncut : Uncut none text) (other : Option Char) : Uncut other text := by
  cases text with
  | nil => trivial
  | cons c rest =>
    obtain ⟨bar, bracket, later⟩ := uncut
    exact ⟨fun same => absurd (bar same) (by simp), fun same => absurd (bracket same) (by decide), later⟩

/-- What follows a character that is no shield is not shielded. -/
theorem Uncut.of_unshielded (uncut : Uncut before text) (free : isShielded before = false) :
    Uncut none text := by
  cases text with
  | nil => trivial
  | cons c rest =>
    obtain ⟨bar, bracket, later⟩ := uncut
    refine ⟨?_, ?_, later⟩
    · intro same
      rw [bar same] at free
      cases free
    · intro same
      rw [bracket same] at free
      cases free

theorem uncut_iff : Uncut before text ↔
    splitAfter (fun before c => c == '|' && before != some '\\') before text = (text, []) ∧
      ∀ mark ∈ Mark.ofText before text, mark.isBracket = false := by
  induction text generalizing before with
  | nil => simp [Uncut, splitAfter, Mark.ofText]
  | cons c rest ih =>
    have bar : (c == '|' && before != some '\\') = false ↔ (c = '|' → before = some '\\') := by
      rw [Bool.and_eq_false_iff, beq_eq_false_iff_ne, bne_eq_false_iff_eq, ne_eq, imp_iff_not_or]
    have bracket : (Mark.ofChar before c).isBracket = false ↔
        (c = '{' ∨ c = '}' → isShielded before = true) := by
      unfold Mark.ofChar
      repeat' split
      all_goals simp_all [Mark.isBracket]
    rw [Uncut, ih, splitAfter_cons_eq_self_iff, bar, Mark.ofText, List.forall_mem_cons, bracket]
    tauto

theorem uncut_none_iff :
    Uncut none text ↔ Group.alternatives text = (text, []) ∧ text.Unbracketed :=
  uncut_iff

theorem uncut_symbol (operator : Operator) (before : Option Char) : Uncut before operator.symbol := by
  cases operator <;> simp [Operator.symbol, Uncut]

end Text

section

variable {nesting : Nesting} {context text rest : Text} {c : Char}

theorem Condition.exists_violation {group : Text} (symbol : c ∈ ['=', '~', '?', '!'])
    (left : (TermSet.parse text).left = c :: rest) :
    ∃ violation, Condition.parse (Path.parse nesting) context group text = .error (.invalid violation) := by
  obtain ⟨violation, failed⟩ := Operand.exists_violation nesting context symbol rest
  have begun : Term.parse (Path.parse nesting) context (c :: rest) = .error (.invalid violation) := by
    rw [Term.parse, failed]
    rfl
  have terms : (TermSet.parse text).terms = ([], c :: rest) ∨ (TermSet.parse text).terms.1 = c :: rest := by
    rw [← left, TermSet.terms]
    split
    · exact .inl rfl
    · exact .inr rfl
  rw [Condition.parse_eq]
  split
  · exact ⟨_, rfl⟩
  · split
    · exact ⟨_, rfl⟩
    · rcases terms with postfixed | placed
      · rw [postfixed, failed]
        exact ⟨violation, rfl⟩
      · rw [placed, begun]
        exact ⟨violation, rfl⟩

/-- The terms of a text that a group takes for one term set may stand in a text of that kind. -/
theorem Text.Uncut.term {term : Text} (uncut : Text.Uncut none text)
    (member : term = (TermSet.parse text).terms.1 ∨ term = (TermSet.parse text).terms.2) :
    Text.Uncut none term := by
  rcases TermSet.term_cases member with ⟨rest, rfl⟩ | ⟨front, rfl, free⟩
  · exact (Text.uncut_append.mp uncut).1
  · exact (Text.uncut_append.mp uncut).2.of_unshielded free

theorem Text.Uncut.composed {left right : Text} (first : Text.Uncut none left)
    (second : Text.Uncut none right) (operator : Operator) :
    Text.Uncut none (left ++ operator.symbol ++ right) :=
  Text.uncut_append.mpr
    ⟨Text.uncut_append.mpr ⟨first, Text.uncut_symbol operator _⟩, second.behind _⟩

theorem Operator.exists_symbol {operator : Operator} (unary : operator.isUnary = true) :
    ∃ c ∈ ['=', '~', '?', '!'], operator.symbol = [c] := by
  cases operator with
  | present => exact ⟨'?', by simp, rfl⟩
  | missing => exact ⟨'!', by simp, rfl⟩
  | _ => cases unary

namespace Condition

/-- A condition without the text that it was read from. -/
def anew {ρ : Type} (condition : Condition ρ) : Condition ρ :=
  { condition with source := none }

namespace Read

variable {condition : Condition Path}

theorem termSet_anew {ρ : Type} {nested : Text → Except Error ρ} {condition : Condition ρ}
    (read : Read nested context text condition) :
    condition.anew.termSet = (TermSet.parse text).terms.1 ++
      ((TermSet.parse text).operator.getD .present).symbol ++ (TermSet.parse text).terms.2 := by
  have left := Term.render_of_parse read.left
  have right := Operand.render_of_parse read.right
  rw [← left, ← right, read.operator]
  rfl

/-- What is composed without an operator in the right term is read as the same condition. -/
theorem again {ρ : Type} {nested : Text → Except Error ρ} {condition : Condition ρ}
    (read : Read nested context text condition) (flat : condition.anew.termSet.Unbracketed)
    (plain : ∀ place, ¬ TermSet.OperatesAt condition.right.render place) :
    Read nested context condition.anew.termSet
      { condition with source := some condition.anew.termSet } := by
  rw [Operand.render_of_parse read.right, TermSet.forall_not_operatesAt_iff] at plain
  have cut := TermSet.parse_recomposed text plain
  rw [← read.termSet_anew] at cut
  have terms : (TermSet.parse condition.anew.termSet).terms = (TermSet.parse text).terms := by
    have begun : (TermSet.parse text).terms.2.isEmpty = false := by simpa using read.begun
    simp only [cut, TermSet.terms] at begun ⊢
    simp only [begun, Bool.false_and, Bool.false_eq_true, ↓reduceIte]
  exact
    { flat := flat
      begun := by rw [terms]; exact read.begun
      left := by rw [terms]; exact read.left
      operator := by rw [cut]; exact read.operator
      right := by rw [terms]; exact read.right
      source := rfl }

/-- An operator that is left in the right term was written before an operator of one term, and in what is
composed it comes last. -/
theorem exists_violation {value : Literal} {place : Nat}
    (read : Read (Path.parse nesting) context text condition) (literal : condition.right = .literal value)
    (operates : TermSet.OperatesAt value.render place) :
    condition.left = .absent context ∧ condition.operator.isUnary = true ∧
      ∀ group, ∃ violation, Condition.parse (Path.parse nesting) context group condition.anew.termSet =
        .error (.invalid violation) := by
  have right := Operand.render_of_parse read.right
  rw [literal] at right
  have right : '\\' :: value.raw = (TermSet.parse text).terms.2 := right
  obtain ⟨cell, found, known⟩ := TermSet.operatesAt_iff.mp operates
  have more : ∃ cell ∈ TermSet.cells none (TermSet.parse text).terms.2, TermSet.isOperator cell = true :=
    ⟨cell, right ▸ List.mem_of_getElem? found, known⟩
  obtain ⟨postfixed, operator, spelled, unary⟩ := TermSet.terms_of_operator text more
  obtain ⟨c, symbol, one⟩ := Operator.exists_symbol unary
  have begun : ∀ cell ∈ (TermSet.cells none (TermSet.parse text).terms.2).head?,
      TermSet.isOperator cell = false := by
    rw [← right]
    simp [TermSet.cells, TermSet.isOperator, Operator.ofChar?, Operator.ofText?]
  obtain ⟨rest, left⟩ := TermSet.exists_left_of_operator one begun more
  refine ⟨?_, ?_, ?_⟩
  · have absent := read.left
    rw [postfixed] at absent
    exact (Except.ok.inj absent).symm
  · rw [← read.operator, spelled]
    exact unary
  · intro group
    have absent : (TermSet.parse text).terms.1 = [] := by rw [postfixed]
    apply Condition.exists_violation symbol
    rw [read.termSet_anew, absent, spelled, Option.getD_some, one]
    exact left

end Read
end Condition

/-- A condition that was read alone in a group is put together again from its terms and its operator, and
written anew. That is read in the same context as a condition of the same terms and operator, unless an
operator is left in the literal on the right; then the left term was left out, and nothing can be read. -/
theorem Group.recompose {condition : Condition Path}
    (found : parseIn nesting context text = .ok ⟨condition, []⟩) :
    ∃ composed, Condition.make (some condition.left) condition.operator.symbol
        (some (.given condition.right)) none = .ok composed ∧
      ((∀ value place, condition.right = .literal value → ¬ TermSet.OperatesAt value.render place) →
        parseIn nesting context composed.render =
            .ok ⟨{ condition with source := some composed.termSet }, []⟩ ∧
          (({ condition with source := some composed.termSet } : Condition Path) == condition) = true) ∧
      ∀ value place, condition.right = .literal value → TermSet.OperatesAt value.render place →
        condition.left = .absent context ∧ condition.operator.isUnary = true ∧
          ∃ violation, parseIn nesting context composed.render = .error (.invalid violation) := by
  obtain ⟨termSet, rfl, single, read⟩ := exists_of_parse_single found
  have uncut := Text.uncut_none_iff.mpr ⟨single, read.flat⟩
  have whole := (uncut.term (.inl rfl)).composed (uncut.term (.inr rfl))
    ((TermSet.parse termSet).operator.getD .present)
  rw [← read.termSet_anew] at whole
  obtain ⟨alone, flat⟩ := Text.uncut_none_iff.mp whole
  have reading : parseIn nesting context condition.anew.render =
      (Condition.parse (Path.parse nesting.deeper) context condition.anew.render
        condition.anew.termSet).map fun condition => ⟨condition, []⟩ := parse_single alone
  refine ⟨condition.anew, Condition.make_symbol _ _ _ none, ?_, ?_⟩
  · intro plain
    have plain : ∀ place, ¬ TermSet.OperatesAt condition.right.render place := by
      intro place operates
      rw [Operand.render_of_parse read.right] at operates
      have inert := (Text.uncut_none_iff.mp (uncut.term (.inr rfl))).2
      obtain ⟨value, literal⟩ := Operand.exists_literal read.right inert operates
      rw [← Operand.render_of_parse read.right, literal] at operates
      exact plain value place literal operates
    rw [reading, Condition.parse_eq_ok_iff.mpr (read.again flat plain)]
    exact ⟨rfl, Condition.beq_of_parts rfl rfl rfl⟩
  · intro value place literal operates
    obtain ⟨absent, unary, failed⟩ := read.exists_violation literal operates
    obtain ⟨violation, failed⟩ := failed condition.anew.render
    refine ⟨absent, unary, violation, ?_⟩
    rw [reading, failed]
    rfl

/-- The operator is written once where it was repeated, and the one in the literal stays escaped. -/
theorem Group.recompose_of_run :
    ∃ condition composed : Condition Path,
      parseIn .top "245$a".toList "\x7b$b!==\\a\\=b\x7d".toList = .ok ⟨condition, []⟩ ∧
      Condition.make (some condition.left) condition.operator.symbol (some (.given condition.right)) none =
        .ok composed ∧
      composed.render = "\x7b$b!=\\a\\=b\x7d".toList ∧
      parseIn .top "245$a".toList composed.render =
        .ok ⟨{ condition with source := some composed.termSet }, []⟩ ∧
      (({ condition with source := some composed.termSet } : Condition Path) == condition) = true := by
  obtain ⟨condition, found, right, written⟩ : ∃ condition : Condition Path,
      parseIn .top "245$a".toList "\x7b$b!==\\a\\=b\x7d".toList = .ok ⟨condition, []⟩ ∧
        condition.right = .literal ⟨"a\\=b".toList⟩ ∧
        condition.anew.render = "\x7b$b!=\\a\\=b\x7d".toList := ⟨_, rfl, rfl, rfl⟩
  obtain ⟨composed, made, reads, -⟩ := Group.recompose found
  obtain rfl : condition.anew = composed := Except.ok.inj ((Condition.make_symbol _ _ _ none).symm.trans made)
  have plain : ∀ value place, condition.right = .literal value → ¬ TermSet.OperatesAt value.render place := by
    intro value place literal
    rw [right] at literal
    obtain rfl := Operand.literal.inj literal
    exact TermSet.forall_not_operatesAt_iff.mpr (by decide) place
  obtain ⟨again, alike⟩ := reads plain
  exact ⟨condition, condition.anew, found, made, written, again, alike⟩

/-- Before this literal its operator is taken for a part of a left term. -/
theorem Group.no_recompose_of_literal :
    ∃ condition composed : Condition Path,
      parseIn .top "245".toList "\x7b\\a=b!\x7d".toList = .ok ⟨condition, []⟩ ∧
      Condition.make (some condition.left) condition.operator.symbol (some (.given condition.right)) none =
        .ok composed ∧
      composed.render = "\x7b!\\a=b\x7d".toList ∧
      parseIn .top "245".toList composed.render = violates .field .tag "!\\a".toList :=
  ⟨_, _, rfl, rfl, rfl, rfl⟩

end

end MarcPath
