import Mathlib.Data.List.DropRight
import MarcPath.Condition
import MarcPath.Proofs.Mark

/-! Where a term set is cut. The left term is a front part of it, and the right term stands behind an
operator character, which is no shield. A single operator is where it is cut. -/
namespace MarcPath

theorem Operator.ofText?_eq_some_iff {text : Text} {operator : Operator} :
    ofText? text = some operator ↔ operator.symbol = text := by
  constructor
  · intro known
    unfold ofText? at known
    split at known
    all_goals cases known
    all_goals rfl
  · rintro rfl
    exact operator.ofText?_symbol

namespace TermSet

theorem map_fst_cells (before : Option Char) (text : Text) :
    (cells before text).map Prod.fst = text := by
  induction text generalizing before with
  | nil => rfl
  | cons c rest ih => rw [cells, List.map_cons, ih]

theorem cells_append (before : Option Char) (first second : Text) :
    cells before (first ++ second) =
      cells before first ++ cells (Text.lastFrom before first) second := by
  induction first generalizing before with
  | nil => rfl
  | cons c rest ih => simp [cells, Text.lastFrom, ih]

/-- What stands before a text matters to its cells only as a shield. -/
theorem cells_congr {before other : Option Char} (same : isShielded before = isShielded other)
    (text : Text) : cells before text = cells other text := by
  cases text with
  | nil => rfl
  | cons c rest => rw [cells, cells, same]

theorem ofChar?_of_mem_cells {before : Option Char} {text : Text} {cell : Cell}
    (member : cell ∈ cells before text) (known : isOperator cell = true) :
    Operator.ofChar? cell.1 = cell.2 := by
  induction text generalizing before with
  | nil => cases member
  | cons c rest ih =>
    rcases List.mem_cons.mp member with rfl | member
    · simp only [isOperator] at known
      split at known
      · cases known
      · rw [if_neg ‹_›]
    · exact ih member

theorem isShield_of_ofChar? {c : Char} (known : (Operator.ofChar? c).isSome = true) :
    isShield c = false :=
  isShield_of_isInert (@isInert_of_holds (fun c => (Operator.ofChar? c).isSome) c known (by decide))

/-- The cells of a term set in three parts: the operator characters that run up to the last one of it,
and what stands before and behind them. -/
structure Runs (text : Text) (front run right : List Cell) : Prop where
  whole : cells none text = front ++ run ++ right
  operates : ∀ cell ∈ run, isOperator cell = true
  last : ∀ cell ∈ right, isOperator cell = false
  longest : ∀ cell ∈ front.getLast?, isOperator cell = false

/-- A term set has these parts, unless no character of it stands for an operator. -/
theorem exists_runs (text : Text) :
    (∀ cell ∈ cells none text, isOperator cell = false) ∨
      ∃ front earlier last right, Runs text front (earlier ++ [last]) right := by
  have halves := List.rdropWhile_append_rtakeWhile (p := (!isOperator ·)) (l := cells none text)
  have ends := List.rdropWhile_last_not (!isOperator ·) (cells none text)
  have behind (cell : Cell) : cell ∈ (cells none text).rtakeWhile (!isOperator ·) → _ :=
    List.mem_rtakeWhile_imp
  generalize (cells none text).rdropWhile (!isOperator ·) = upToLast at halves ends
  generalize (cells none text).rtakeWhile (!isOperator ·) = right at halves behind
  rcases List.eq_nil_or_concat' upToLast with rfl | ⟨others, last, rfl⟩
  · left
    intro cell member
    rw [← halves] at member
    simpa using behind cell member
  · right
    have parts := List.rdropWhile_append_rtakeWhile (p := isOperator) (l := others)
    refine ⟨others.rdropWhile isOperator, others.rtakeWhile isOperator, last, right, ?_, ?_, ?_, ?_⟩
    · rw [← List.append_assoc, parts, halves]
    · intro cell member
      rcases List.mem_append.mp member with member | member
      · exact List.mem_rtakeWhile_imp member
      · obtain rfl := List.mem_singleton.mp member
        simpa using ends (by simp)
    · intro cell member
      simpa using behind cell member
    · intro cell member
      obtain ⟨nonempty, rfl⟩ := List.mem_getLast?_eq_getLast member
      simpa using List.rdropWhile_last_not isOperator others nonempty

/-- A term set is cut at the whole run if that spells an operator, and otherwise at the end of it. -/
theorem Runs.parse_eq {text : Text} {front earlier right : List Cell} {last : Cell}
    (runs : Runs text front (earlier ++ [last]) right) :
    parse text =
      match Operator.ofText? (fold ((earlier ++ [last]).map Prod.fst)) with
      | some operator => ⟨front.map Prod.fst, some operator, right.map Prod.fst⟩
      | none => ⟨(front ++ earlier).map Prod.fst, last.2, right.map Prod.fst⟩ := by
  have backwards : (cells none text).reverse =
      right.reverse ++ (last :: earlier.reverse ++ front.reverse) := by
    simp [runs.whole]
  have behind : ∀ cell ∈ right.reverse, (!isOperator cell) = true := by
    intro cell member
    simpa using runs.last cell (List.mem_reverse.mp member)
  have operates : isOperator last = true := runs.operates last (by simp)
  have run : ∀ cell ∈ last :: earlier.reverse, isOperator cell = true := by
    intro cell member
    exact runs.operates cell (by simpa [or_comm] using member)
  have begins : (last :: earlier.reverse ++ front.reverse).takeWhile (!isOperator ·) = [] ∧
      (last :: earlier.reverse ++ front.reverse).dropWhile (!isOperator ·) =
        last :: earlier.reverse ++ front.reverse := by
    simp [operates]
  have alone : front.reverse.takeWhile isOperator = [] ∧
      front.reverse.dropWhile isOperator = front.reverse := by
    rcases List.eq_nil_or_concat' front with rfl | ⟨others, cell, rfl⟩
    · exact ⟨rfl, rfl⟩
    · have other := runs.longest cell (by simp)
      simp [other]
  unfold parse
  simp only [backwards, List.takeWhile_append_of_pos behind, List.dropWhile_append_of_pos behind,
    begins.1, begins.2, List.takeWhile_append_of_pos run, List.dropWhile_append_of_pos run,
    alone.1, alone.2]
  cases known : Operator.ofText? (fold ((earlier ++ [last]).map Prod.fst)) <;>
    simp only [List.append_nil, List.cons_append, List.reverse_append, List.reverse_cons,
      List.reverse_reverse, known]

/-- Without an operator all of a term set is the right term. -/
theorem parse_of_not_operator {text : Text}
    (plain : ∀ cell ∈ cells none text, isOperator cell = false) : parse text = ⟨[], none, text⟩ := by
  have none : (cells none text).reverse.dropWhile (!isOperator ·) = [] := by
    apply List.dropWhile_eq_nil_iff.mpr
    intro cell member
    simpa using plain cell (List.mem_reverse.mp member)
  unfold parse
  simp only [none]

/-- A term set is a right term alone, or it is cut behind the last operator character in it. -/
theorem parse_cases (text : Text) :
    ((parse text).left = [] ∧ (parse text).right = text) ∨
      ∃ run c, (parse text).left ++ run ++ [c] ++ (parse text).right = text ∧
        (Operator.ofChar? c).isSome = true := by
  rcases exists_runs text with plain | ⟨front, earlier, last, right, runs⟩
  · left
    simp [parse_of_not_operator plain]
  · right
    have whole : (front ++ (earlier ++ [last]) ++ right).map Prod.fst = text := by
      rw [← runs.whole, map_fst_cells]
    have operates := runs.operates last (by simp)
    have member : last ∈ cells none text := by simp [runs.whole]
    have spells : (Operator.ofChar? last.1).isSome = true := by
      rwa [ofChar?_of_mem_cells member operates]
    rw [runs.parse_eq]
    split
    · exact ⟨earlier.map Prod.fst, last.1, by simpa using whole, spells⟩
    · exact ⟨[], last.1, by simpa using whole, spells⟩

theorem prefix_of_left (text : Text) : (parse text).left <+: text := by
  rcases parse_cases text with ⟨none, -⟩ | ⟨run, c, whole, -⟩
  · rw [none]
    exact List.nil_prefix
  · exact ⟨run ++ [c] ++ (parse text).right, by simpa using whole⟩

/-- Nothing that stands before the right term shields its first character. -/
theorem exists_append_right (text : Text) :
    ∃ front, front ++ (parse text).right = text ∧
      isShielded (Text.lastFrom none front) = false := by
  rcases parse_cases text with ⟨-, all⟩ | ⟨run, c, whole, spells⟩
  · exact ⟨[], all, rfl⟩
  · refine ⟨(parse text).left ++ run ++ [c], whole, ?_⟩
    rw [Text.lastFrom_append]
    exact isShield_of_ofChar? spells

/-- A term is a front part of its term set, or stands behind something that shields nothing. -/
theorem term_cases {text term : Text}
    (member : term = (parse text).terms.1 ∨ term = (parse text).terms.2) :
    term <+: text ∨ ∃ front, front ++ term = text ∧
      isShielded (Text.lastFrom none front) = false := by
  unfold terms at member
  split at member
  · rcases member with rfl | rfl
    · exact .inl List.nil_prefix
    · exact .inl (prefix_of_left text)
  · rcases member with rfl | rfl
    · exact .inl (prefix_of_left text)
    · exact .inr (exists_append_right text)

theorem fold_symbol (operator : Operator) : fold operator.symbol = operator.symbol := by
  cases operator <;> rfl

theorem isOperator_of_mem_symbol (operator : Operator) {before : Option Char}
    (free : isShielded before = false) : ∀ cell ∈ cells before operator.symbol, isOperator cell = true := by
  have unshielded : isShielded (some '!') = false := rfl
  cases operator <;>
    simp [Operator.symbol, cells, free, unshielded, isOperator, Operator.ofChar?, Operator.ofText?]

/-- Two terms with an operator between them are cut there, if no other operator runs up to it or comes
after it. -/
theorem parse_composed {left right : Text} (free : isShielded (Text.lastFrom none left) = false)
    (apart : ∀ cell ∈ (cells none left).getLast?, isOperator cell = false)
    (plain : ∀ cell ∈ cells none right, isOperator cell = false) (operator : Operator) :
    parse (left ++ operator.symbol ++ right) = ⟨left, some operator, right⟩ := by
  have operates := isOperator_of_mem_symbol operator free
  have spelled := map_fst_cells (Text.lastFrom none left) operator.symbol
  have begun : isShielded (Text.lastFrom none (left ++ operator.symbol)) = isShielded none := by
    cases operator <;> simp [Operator.symbol, Text.lastFrom, isShielded, isShield]
  have whole : cells none (left ++ operator.symbol ++ right) =
      cells none left ++ cells (Text.lastFrom none left) operator.symbol ++ cells none right := by
    rw [cells_append, cells_append, cells_congr begun]
  rcases List.eq_nil_or_concat' (cells (Text.lastFrom none left) operator.symbol) with
    none | ⟨earlier, last, run⟩
  · rw [none] at spelled
    cases operator <;> cases spelled
  · rw [run] at operates spelled whole
    have runs : Runs (left ++ operator.symbol ++ right) (cells none left) (earlier ++ [last])
        (cells none right) := ⟨whole, operates, plain, apart⟩
    rw [runs.parse_eq, spelled, fold_symbol, operator.ofText?_symbol, map_fst_cells, map_fst_cells]

/-- A term set with a single operator in it is cut there. -/
theorem parse_cut {left right : Text} {c : Char} {operator : Operator}
    (spells : Operator.ofChar? c = some operator)
    (free : isShielded (Text.lastFrom none left) = false)
    (front : ∀ cell ∈ cells none left, isOperator cell = false)
    (back : ∀ cell ∈ cells (some c) right, isOperator cell = false) :
    parse (left ++ c :: right) = ⟨left, some operator, right⟩ := by
  have symbol : operator.symbol = [c] := Operator.ofText?_eq_some_iff.mp spells
  have shield : isShielded (some c) = isShielded none := isShield_of_ofChar? (by rw [spells]; rfl)
  rw [cells_congr shield] at back
  have last : ∀ cell ∈ (cells none left).getLast?, isOperator cell = false :=
    fun cell member => front cell (List.mem_of_mem_getLast? member)
  simpa [symbol] using parse_composed free last back operator

end TermSet
end MarcPath
