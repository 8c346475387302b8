import MarcPath.Path.Parse
import MarcPath.Proofs.Place

/-! How the presence of a term is asked for: by the term alone, behind a question mark, or before one. The
question mark changes what stands before the characters of the term, or behind them, but not where the
group is parted or cut, so that all three are read as one condition. -/
namespace MarcPath

namespace Text

theorem before_cons (c : Char) (text : Text) (place : Nat) :
    before (c :: text) (place + 1) = (text.before place).or (some c) := by
  rw [before, List.take_succ_cons, List.getLast?_cons, before]
  cases (text.take place).getLast? <;> rfl

theorem before_append {text : Text} {place : Nat} (inside : place ≤ text.length) (rest : Text) :
    before (text ++ rest) place = text.before place := by
  rw [before, List.take_append_of_le_length inside, before]

/-- A text that a group reads as one term: no character of it stands for an operator, every bar is behind a
backslash, and every bracket is shielded. -/
structure StandsAlone (term : Text) : Prop where
  nonempty : term ≠ []
  operators : ∀ place, ¬ TermSet.OperatesAt term place
  bars : ∀ place, term[place]? = some '|' → term.before place = some '\\'
  brackets : ∀ place c, term[place]? = some c → c = '{' ∨ c = '}' → isShielded (term.before place) = true

end Text

/-- The spellings of the presence of a term. One that ends in a shield would shield a question mark behind
it. -/
inductive AsksPresence (term : Text) : Text → Prop
  | bare : AsksPresence term term
  | front : AsksPresence term ('?' :: term)
  | behind (free : isShielded term.getLast? = false) : AsksPresence term (term ++ ['?'])

namespace AsksPresence

variable {term spelling : Text}

/-- A question mark is neither a bar nor a bracket, and shields nothing behind it. -/
theorem forall_places {P : Option Char → Char → Prop} (mark : ∀ before, P before '?')
    (unshielded : ∀ c, P none c → P (some '?') c) (asks : AsksPresence term spelling)
    (known : ∀ place c, term[place]? = some c → P (term.before place) c) :
    ∀ place c, spelling[place]? = some c → P (spelling.before place) c := by
  intro place c found
  cases asks with
  | bare => exact known place c found
  | front =>
    cases place with
    | zero =>
      obtain rfl := Option.some.inj found
      exact mark _
    | succ place =>
      have here := known place c found
      rw [Text.before_cons]
      cases before : term.before place with
      | none => exact unshielded c (before ▸ here)
      | some other =>
        rw [before] at here
        exact here
  | behind =>
    by_cases inside : place < term.length
    · rw [List.getElem?_append_left inside] at found
      rw [Text.before_append (by omega)]
      exact known place c found
    · rw [List.getElem?_append_right (by omega)] at found
      obtain rfl := List.mem_singleton.mp (List.mem_of_getElem? found)
      exact mark _

theorem alternatives_eq (alone : term.StandsAlone) (asks : AsksPresence term spelling) :
    Group.alternatives spelling = (spelling, []) := by
  rw [Group.alternatives_eq_self_iff]
  intro place bar
  refine forall_places (P := fun before c => c = '|' → before = some '\\') ?_ ?_ asks ?_
    place '|' bar rfl
  · simp
  · simp
  · rintro place c found rfl
    exact alone.bars place found

theorem unbracketed (alone : term.StandsAlone) (asks : AsksPresence term spelling) :
    spelling.Unbracketed := by
  rw [Text.unbracketed_iff]
  apply forall_places (P := fun before c => c = '{' ∨ c = '}' → isShielded before = true) _ _ asks
    alone.brackets
  · simp
  · intro c shielded bracket
    cases shielded bracket

/-- Whichever side of it a question mark is on, the term is the right one. -/
theorem parse_eq (alone : term.StandsAlone) (asks : AsksPresence term spelling) :
    (TermSet.parse spelling).terms = ([], term) ∧
      (TermSet.parse spelling).operator.getD .present = .present := by
  have begun : term.isEmpty = false := by simpa using alone.nonempty
  have plain := TermSet.forall_not_operatesAt_iff.mp alone.operators
  cases asks with
  | bare => simp [TermSet.parse_of_not_operator plain, TermSet.terms]
  | front =>
    have unshielded : isShielded none = isShielded (some '?') := rfl
    rw [TermSet.cells_congr unshielded] at plain
    have cut : TermSet.parse ([] ++ '?' :: term) = ⟨[], some .present, term⟩ :=
      TermSet.parse_cut rfl rfl (by simp [TermSet.cells]) plain
    rw [List.nil_append] at cut
    simp [cut, TermSet.terms, begun]
  | behind free =>
    have unshielded : isShielded (Text.lastFrom none term) = false := by rwa [Text.lastFrom_none]
    have cut : TermSet.parse (term ++ ['?']) = ⟨term, some .present, []⟩ :=
      TermSet.parse_cut rfl unshielded plain (by simp [TermSet.cells])
    simp [cut, TermSet.terms, Operator.isUnary]

end AsksPresence

/-- The condition that a term is present, as it is spelled. -/
def Condition.presence {ρ : Type} (context : Text) (right : Operand ρ) (spelling : Text) : Condition ρ :=
  ⟨.absent context, .present, right, some spelling⟩

section

variable {ρ : Type} {nested : Text → Except Error ρ} {context term first second spelling : Text}

/-- Each spelling makes a group of that one condition, if the term can be read. -/
theorem Group.parse_presence (alone : term.StandsAlone) (asks : AsksPresence term spelling) :
    Group.parse nested context ('{' :: (spelling ++ ['}'])) =
      (Operand.parse nested context term).map fun right =>
        ⟨Condition.presence context right spelling, []⟩ := by
  obtain ⟨terms, operator⟩ := asks.parse_eq alone
  rw [Group.parse_single (asks.alternatives_eq alone),
    Condition.parse_presence (asks.unbracketed alone) terms operator alone.nonempty]
  cases Operand.parse nested context term <;> rfl

theorem Operand.beq_self (operand : Operand Path) : (operand == operand) = true := by
  cases operand with
  | literal value => exact beq_self_eq_true value
  | path value source =>
    have alike : (value == value) = true := beq_self_eq_true value.render
    change ((value == value) && (source == source)) = true
    rw [alike, beq_self_eq_true source]
    rfl

theorem Condition.beq_of_parts {first second : Condition Path} (left : first.left = second.left)
    (operator : first.operator = second.operator) (right : first.right = second.right) :
    (first == second) = true := by
  have term (term : Term Path) : (term == term) = true := by
    cases term with
    | absent context => exact beq_self_eq_true context
    | given operand => exact operand.beq_self
  change (first.left == second.left && first.operator == second.operator &&
    first.right == second.right) = true
  rw [left, operator, right, term, Operand.beq_self, beq_self_eq_true]
  rfl

/-- Two spellings of the presence of a term are two of the same condition. -/
theorem Condition.presence_beq (context : Text) (right : Operand Path) (first second : Text) :
    (presence context right first == presence context right second) = true :=
  beq_of_parts rfl rfl rfl

/-- A term that stands alone is read the same way alone in a group, behind a question mark and before one.
Either each group has one condition, which asks for the presence of the term, and these conditions are
equal; or each fails with the error of the term. -/
theorem Group.presence_spellings (nesting : Nesting) (context : Text) (alone : term.StandsAlone)
    (one : AsksPresence term first) (other : AsksPresence term second) :
    (∃ right, Operand.parse (Path.parse nesting.deeper) context term = .ok right ∧
      parseIn nesting context ('{' :: (first ++ ['}'])) = .ok ⟨.presence context right first, []⟩ ∧
      parseIn nesting context ('{' :: (second ++ ['}'])) = .ok ⟨.presence context right second, []⟩ ∧
      (Condition.presence context right first == .presence context right second) = true) ∨
    ∃ error, Operand.parse (Path.parse nesting.deeper) context term = .error error ∧
      parseIn nesting context ('{' :: (first ++ ['}'])) = .error error ∧
      parseIn nesting context ('{' :: (second ++ ['}'])) = .error error := by
  simp only [parseIn, parse_presence alone one, parse_presence alone other]
  cases Operand.parse (Path.parse nesting.deeper) context term with
  | ok right => exact .inl ⟨right, rfl, rfl, rfl, Condition.presence_beq context right first second⟩
  | error error => exact .inr ⟨error, rfl, rfl, rfl⟩

/-- In this literal an operator, a bar and a bracket are escaped. -/
theorem Group.presence_spellings_of_escapes :
    Text.StandsAlone "\\=\\|\\\x7ds".toList ∧
      AsksPresence "\\=\\|\\\x7ds".toList "?\\=\\|\\\x7ds".toList ∧
      AsksPresence "\\=\\|\\\x7ds".toList "\\=\\|\\\x7ds?".toList ∧
      ∃ right,
        Operand.parse (Path.parse Nesting.top.deeper) "245$a".toList "\\=\\|\\\x7ds".toList = .ok right ∧
        parseIn .top "245$a".toList "\x7b?\\=\\|\\\x7ds\x7d".toList =
          .ok ⟨.presence "245$a".toList right "?\\=\\|\\\x7ds".toList, []⟩ ∧
        parseIn .top "245$a".toList "\x7b\\=\\|\\\x7ds?\x7d".toList =
          .ok ⟨.presence "245$a".toList right "\\=\\|\\\x7ds?".toList, []⟩ ∧
        (Condition.presence "245$a".toList right "?\\=\\|\\\x7ds".toList ==
          .presence "245$a".toList right "\\=\\|\\\x7ds?".toList) = true := by
  have alone : Text.StandsAlone "\\=\\|\\\x7ds".toList :=
    { nonempty := by decide
      operators := TermSet.forall_not_operatesAt_iff.mpr (by decide)
      bars := Group.alternatives_eq_self_iff.mp (by decide)
      brackets := Text.unbracketed_iff.mp (by unfold Text.Unbracketed; decide) }
  have behind : AsksPresence "\\=\\|\\\x7ds".toList "\\=\\|\\\x7ds?".toList := .behind (by decide)
  refine ⟨alone, .front, behind, ?_⟩
  rcases Group.presence_spellings .top "245$a".toList alone .front behind with
    found | ⟨error, failed, -⟩
  · exact found
  · cases failed

end

end MarcPath
