import MarcPath.Proofs.Literal
import MarcPath.Proofs.Single

/-! Conditions that compare a subfield with a text in its spelling as a literal. Whatever the text is, the
condition reads back as that comparison, unless the text ends in a shield: that one shields the bracket
behind it. -/
namespace MarcPath

/-- The term set that compares `$b` with a text. -/
def equation (value : Text) : Text :=
  "$b=\\".toList ++ Literal.escape value

/-- A subfield code with one group, which compares `$b` with a text. -/
def equationTail (code : Char) (value : Text) : Text :=
  ['$', code] ++ '{' :: (equation value ++ "\x7d".toList)

variable {value : Text}

theorem equation_eq (value : Text) :
    equation value = ['$', 'b'] ++ '=' :: Literal.render ⟨Literal.escape value⟩ :=
  rfl

theorem solid_equation (spaces : ∀ c ∈ value, isBlank c = true → c = ' ') :
    (equation value).hasBlank = false := by
  have solid := Literal.solid_escape spaces
  rw [equation, Text.hasBlank, List.any_append, ← Text.hasBlank, ← Text.hasBlank, solid]
  decide

/-- No character of the term set is a bracket, whether it is read alone or in its group. -/
theorem flat_equation {before : Option Char} (free : isShielded before = false) (value : Text) :
    ∀ mark ∈ Mark.ofText before (equation value), mark.isBracket = false := by
  have front : Mark.ofText before "$b=\\".toList = Mark.ofText none "$b=\\".toList :=
    Mark.ofText_congr free _
  have known : ∀ mark ∈ Mark.ofText none "$b=\\".toList, mark.isBracket = false := by decide
  intro mark member
  rw [equation, Mark.ofText_append, front] at member
  rcases List.mem_append.mp member with member | member
  · exact known mark member
  · exact Literal.flat_escape _ value mark member

theorem parse_equation (value : Text) :
    TermSet.parse (equation value) = ⟨['$', 'b'], some .equal, '\\' :: Literal.escape value⟩ := by
  rw [equation_eq, Literal.render]
  refine TermSet.parse_cut rfl rfl (by decide) ?_
  intro cell member
  rcases List.mem_cons.mp member with rfl | member
  · rfl
  · exact Literal.cells_escape _ value cell member

theorem alternatives_equation (value : Text) :
    Group.alternatives (equation value) = (equation value, []) := by
  rw [Group.alternatives, equation]
  simp [Text.splitAfter, Literal.splitAfter_escape]

theorem isShielded_equation (before : Option Char) (nonempty : value ≠ []) :
    isShielded (Text.lastFrom before (equation value)) = isShielded value.getLast? := by
  have spelled : Literal.escape value ≠ [] := by
    intro none
    apply nonempty
    rw [← Literal.unescape_escape value, none]
    rfl
  rw [equation, Text.lastFrom_append, Text.lastFrom_eq_getLast? _ spelled,
    Literal.isShielded_escape nonempty]

section

variable {ρ : Type} {nested : Text → Except Error ρ} {base : Text} {code : Char}

/-- The comparison of `$b` of some field with a text. -/
def equationOf (path : ρ) (value : Text) : Condition ρ :=
  ⟨.given (.path path ['$', 'b']), .equal, .literal ⟨Literal.escape value⟩, some (equation value)⟩

/-- The left term takes the place of the subfield that the condition belongs to. -/
theorem Condition.parse_equation {path : ρ} {group : Text} (begun : base ≠ [])
    (letter : code.isAlphanum = true) (found : nested (base ++ ['$', 'b']) = .ok path)
    (spaces : ∀ c ∈ value, isBlank c = true → c = ' ') :
    Condition.parse nested (base ++ ['$', code]) group (equation value) = .ok (equationOf path value) := by
  have flat : ¬ (Mark.ofText none (equation value)).any Mark.isBracket = true := by
    have known : ∀ mark ∈ Mark.ofText none (equation value), mark.isBracket = false :=
      flat_equation rfl value
    simpa using known
  have resolved : Reference.resolve (base ++ ['$', code]) ['$', 'b'] = .ok (base ++ ['$', 'b']) := by
    have absent : '$' ∉ [code] := by
      intro member
      obtain rfl := List.mem_singleton.mp member
      cases letter
    exact Reference.resolve_of_last begun absent ['b']
  have literal : Literal.ofRaw (Literal.escape value) = .ok ⟨Literal.escape value⟩ :=
    Literal.ofRaw_eq_ok_iff.mpr ⟨Literal.solid_escape spaces, rfl⟩
  rw [Condition.parse_eq, if_neg flat, MarcPath.parse_equation]
  simp [TermSet.terms, Term.parse, Operand.parse, Reference.isMarker, resolved, found, literal,
    Except.map, bind, Except.bind, pure, Except.pure, equationOf]

/-- A group of one comparison. -/
def equationGroup (path : ρ) (value : Text) : Group ρ :=
  ⟨equationOf path value, []⟩

theorem render_equationGroup (path : ρ) (value : Text) :
    (equationGroup path value).render = '{' :: (equation value ++ ['}']) := by
  simp [equationGroup, Group.render, Group.conditions, Condition.termSet, equationOf]

theorem composed_equation {path : ρ} (begun : base ≠ []) (letter : code.isAlphanum = true)
    (found : nested (base ++ ['$', 'b']) = .ok path) (nonempty : value ≠ [])
    (spaces : ∀ c ∈ value, isBlank c = true → c = ' ')
    (free : isShielded value.getLast? = false) :
    Subfield.Composed nested base ⟨⟨code, none, none⟩, [equationGroup path value]⟩ := by
  apply Subfield.composed_of_code letter
  · intro group member
    obtain rfl := List.mem_singleton.mp member
    have solid := solid_equation spaces
    rw [render_equationGroup, Text.hasBlank]
    rw [Text.hasBlank] at solid
    simp only [List.any_cons, List.any_append, solid]
    decide
  · intro group member
    obtain rfl := List.mem_singleton.mp member
    rw [render_equationGroup]
    exact .of_flat (flat_equation rfl value) ((isShielded_equation _ nonempty).trans free)
  · have read : Condition.parse nested (base ++ ['$', code]) ('{' :: (equation value ++ ['}'])) _ = _ :=
      Condition.parse_equation begun letter found spaces
    rw [List.map_singleton, render_equationGroup, List.mapM_cons,
      Group.parse_single (alternatives_equation value), read]
    rfl

end

namespace Tail

/-- Nothing closes a group in a text without brackets. -/
theorem read_flat {inToken : Bool} {depth : Nat} {marks : List Mark}
    (flat : ∀ mark ∈ marks, mark.isBracket = false) :
    read inToken (depth + 1) marks = .error (.path, .unbalanced) := by
  induction marks with
  | nil => rfl
  | cons mark rest ih =>
    have later := ih fun other member => flat other (by simp [member])
    have here := flat mark (by simp)
    cases mark with
    | opening => cases here
    | closing => cases here
    | dollar => simp only [read, later]; rfl
    | plain c => simp only [read, later]; rfl

/-- A shield at the end of the text shields the bracket that would close the group. -/
theorem parse_equationTail {code : Char} (letter : code.isAlphanum = true) (nonempty : value ≠ [])
    (shielded : isShielded value.getLast? = true) :
    Tail.parse (equationTail code value) = violates .path .unbalanced (equationTail code value) := by
  have inert := isInert_of_isAlphanum letter
  have opens : isShielded (some code) = false := isShield_of_isInert inert
  have last : Mark.ofText (Text.lastFrom (some '{') (equation value)) ['}'] = [.plain '}'] := by
    rw [Mark.ofText, Mark.ofChar_shielded ((isShielded_equation _ nonempty).trans shielded)]
    rfl
  have flat : ∀ mark ∈ Mark.ofText (some '{') (equation value ++ ['}']), mark.isBracket = false := by
    intro mark member
    rw [Mark.ofText_append, last] at member
    rcases List.mem_append.mp member with member | member
    · exact flat_equation rfl value mark member
    · obtain rfl := List.mem_singleton.mp member
      rfl
  have marks : Mark.ofText none (equationTail code value) =
      .dollar :: .plain code :: .opening :: Mark.ofText (some '{') (equation value ++ ['}']) := by
    have first : Mark.ofChar none '$' = .dollar := rfl
    have third : Mark.ofChar (some code) '{' = .opening := by simp [Mark.ofChar, opens]
    change Mark.ofChar none '$' :: Mark.ofChar (some '$') code :: Mark.ofChar (some code) '{' :: _ = _
    rw [first, Mark.ofChar_inert inert, third]
    rfl
  unfold Tail.parse
  rw [marks]
  simp only [read, read_flat flat]
  rfl

end Tail

namespace Path

variable {nesting : Nesting} {base : Text} {head : FieldHead} {code : Char}

theorem parse_equationTail (room : nesting.depth < nesting.maxDepth)
    (read : FieldHead.parse base = .ok head) (letter : code.isAlphanum = true) (nonempty : value ≠ [])
    (spaces : ∀ c ∈ value, isBlank c = true → c = ' ') (free : isShielded value.getLast? = false) :
    ∃ left, Path.parse nesting (base ++ equationTail code value) =
      .ok (.mk (.single nesting head ⟨⟨code, none, none⟩, [equationGroup left value]⟩)) := by
  obtain ⟨rfl, -⟩ := FieldHead.of_parse read
  have begun : head.render ≠ [] := by
    have long := FieldHead.length_of_parse read
    intro none
    rw [none] at long
    cases long
  have bare : Subfield.Composed (Path.parse nesting.deeper.deeper) head.render ⟨⟨'b', none, none⟩, []⟩ :=
    Subfield.composed_of_code rfl (by simp) (by simp) rfl
  have deeper : nesting.deeper.depth ≤ nesting.deeper.maxDepth := by
    simp only [Nesting.deeper]
    omega
  have left := parse_single deeper read bare
  have composed := composed_equation begun letter left nonempty spaces free
  have whole : Path.parse nesting _ = _ := parse_single (by omega) read composed
  rw [Subfield.render, List.flatMap_singleton, render_equationGroup] at whole
  exact ⟨_, whole⟩

theorem parse_equationTail_of_shielded (room : nesting.depth ≤ nesting.maxDepth)
    (read : FieldHead.parse base = .ok head) (letter : code.isAlphanum = true) (nonempty : value ≠ [])
    (spaces : ∀ c ∈ value, isBlank c = true → c = ' ') (shielded : isShielded value.getLast? = true) :
    Path.parse nesting (base ++ equationTail code value) =
      violates .path .unbalanced (equationTail code value) := by
  have solid : (equationTail code value).hasBlank = false := by
    have inner := solid_equation spaces
    rw [Text.hasBlank] at inner
    simp only [equationTail, Text.hasBlank, List.any_append, List.any_cons, inner,
      isBlank_of_isAlphanum letter]
    decide
  rw [parse_append room read solid (.inr ⟨'$', _, rfl, rfl⟩),
    Tail.parse_equationTail letter nonempty shielded]
  rfl

/-- A text whose blanks are spaces can be compared with in its spelling as a literal, exactly if it does
not end in a shield. The path then has one subfield with one condition, and what that compares with is the
text. If the text does end in a shield, the brackets of the path are not balanced. -/
theorem compare_with_text (room : nesting.depth < nesting.maxDepth)
    (read : FieldHead.parse base = .ok head) (letter : code.isAlphanum = true) (nonempty : value ≠ [])
    (spaces : ∀ c ∈ value, isBlank c = true → c = ' ') :
    (isShielded value.getLast? = false →
      ∃ path subfield condition literal,
        Path.parse nesting (base ++ equationTail code value) = .ok path ∧
          path.subfields = [subfield] ∧ subfield.groups = [⟨condition, []⟩] ∧
          condition.operator = .equal ∧ condition.right = .literal literal ∧
          literal.raw = Literal.escape value ∧ literal.comparable = value) ∧
      (isShielded value.getLast? = true →
        Path.parse nesting (base ++ equationTail code value) =
          violates .path .unbalanced (equationTail code value)) := by
  constructor
  · intro free
    obtain ⟨left, found⟩ := parse_equationTail room read letter nonempty spaces free
    exact ⟨_, _, _, _, found, rfl, rfl, rfl, rfl, rfl, Literal.unescape_escape value⟩
  · exact parse_equationTail_of_shielded (by omega) read letter nonempty spaces

theorem compare_with_text_of_operator :
    equationTail 'a' "x = y".toList = "$a\x7b$b=\\x\\s\\=\\sy\x7d".toList ∧
      ∃ path subfield condition literal,
        Path.parse .top ("245".toList ++ equationTail 'a' "x = y".toList) = .ok path ∧
          path.subfields = [subfield] ∧ subfield.groups = [⟨condition, []⟩] ∧
          condition.operator = .equal ∧ condition.right = .literal literal ∧
          literal.raw = Literal.escape "x = y".toList ∧ literal.comparable = "x = y".toList := by
  have room : Nesting.top.depth < Nesting.top.maxDepth := by decide
  have read : FieldHead.parse "245".toList = .ok ⟨"245".toList, none, .all⟩ := rfl
  have spaces : ∀ c ∈ "x = y".toList, isBlank c = true → c = ' ' := by simp [isBlank]
  exact ⟨by decide, (compare_with_text room read rfl (by decide) spaces).1 rfl⟩

/-- A dollar is spelled as it is, and shields the bracket here. -/
theorem unbalanced_of_dollar_text :
    Path.parse .top ("245".toList ++ equationTail 'a' "$".toList) =
      violates .path .unbalanced "$a\x7b$b=\\$\x7d".toList := by
  rfl

end Path
end MarcPath
