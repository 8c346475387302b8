import MarcPath.Proofs.TermSet

/-! Term sets that are cut anew. Put together of the terms and the operator that it was cut into, a text is
cut into them again, unless an operator is left in the right term; the cut is then at that one. -/
namespace MarcPath

namespace TermSet

variable {text right : Text} {front behind : List Cell}

theorem length_cells (before : Option Char) (text : Text) : (cells before text).length = text.length := by
  rw [← List.length_map Prod.fst, map_fst_cells]

/-- A text whose cells are in two parts is in two parts itself. -/
theorem cells_parts (whole : cells none text = front ++ behind) :
    cells none (front.map Prod.fst) = front ∧
      cells (Text.lastFrom none (front.map Prod.fst)) (behind.map Prod.fst) = behind := by
  have parts : front.map Prod.fst ++ behind.map Prod.fst = text := by
    rw [← List.map_append, ← whole, map_fst_cells]
  rw [← parts, cells_append] at whole
  exact List.append_inj whole (by rw [length_cells, List.length_map])

theorem parse_prefixed (plain : ∀ cell ∈ cells none right, isOperator cell = false) (operator : Operator) :
    parse (operator.symbol ++ right) = ⟨[], some operator, right⟩ := by
  have free : isShielded (Text.lastFrom none []) = false := rfl
  exact parse_composed free (by simp [cells]) plain operator

theorem unshielded_of_isOperator {before : Option Char} {cell : Cell} {rest : List Cell}
    (begins : cells before text = cell :: rest) (operates : isOperator cell = true) :
    isShielded before = false := by
  cases text with
  | nil => cases begins
  | cons c others =>
    obtain ⟨rfl, -⟩ := List.cons.inj begins
    cases shielded : isShielded before with
    | false => rfl
    | true => simp [isOperator, shielded] at operates

/-- What stands on either side of a run has the cells of a text of its own, and ends in no shield. -/
theorem Runs.sides {earlier : List Cell} {last : Cell}
    (runs : Runs text front (earlier ++ [last]) behind) :
    cells none (front.map Prod.fst) = front ∧ isShielded (Text.lastFrom none (front.map Prod.fst)) = false ∧
      cells none (behind.map Prod.fst) = behind := by
  have operates := runs.operates last (by simp)
  have member : last ∈ cells none text := by simp [runs.whole]
  have whole : cells none text = front ++ ((earlier ++ [last]) ++ behind) := by
    rw [runs.whole, List.append_assoc]
  obtain ⟨begins, later⟩ := cells_parts whole
  obtain ⟨-, ends⟩ := cells_parts runs.whole
  refine ⟨begins, ?_, ?_⟩
  · obtain ⟨cell, rest, run⟩ := List.exists_cons_of_ne_nil (by simp : earlier ++ [last] ≠ [])
    rw [run] at later
    exact unshielded_of_isOperator later (runs.operates cell (by simp [run]))
  · have shield : isShield last.1 = false :=
      isShield_of_ofChar? (by rwa [ofChar?_of_mem_cells member operates])
    have free : isShielded (Text.lastFrom none ((front ++ (earlier ++ [last])).map Prod.fst)) =
        isShielded none := by
      simpa [Text.lastFrom, isShielded] using shield
    rwa [cells_congr free] at ends

/-- A text without an operator is its right term. Of any other, the right term has none, and the text is cut
as it was when it is put together again. -/
theorem parse_again (text : Text) :
    parse text = ⟨[], none, text⟩ ∧ (∀ cell ∈ cells none text, isOperator cell = false) ∨
      ∃ operator, (parse text).operator = some operator ∧
        (∀ cell ∈ cells none (parse text).right, isOperator cell = false) ∧
        parse ((parse text).left ++ operator.symbol ++ (parse text).right) = parse text := by
  rcases exists_runs text with whole | ⟨front, earlier, last, behind, runs⟩
  · exact .inl ⟨parse_of_not_operator whole, whole⟩
  · obtain ⟨begins, free, ends⟩ := runs.sides
    have plain : ∀ cell ∈ cells none (behind.map Prod.fst), isOperator cell = false := by
      rw [ends]
      exact runs.last
    have cut := runs.parse_eq
    cases spelled : Operator.ofText? (fold ((earlier ++ [last]).map Prod.fst)) with
    | some operator =>
      simp only [spelled] at cut
      rw [cut]
      refine .inr ⟨operator, rfl, plain, parse_composed free ?_ plain operator⟩
      rw [begins]
      exact runs.longest
    | none =>
      -- The operator is the last character of the run, so nothing in the text is left out.
      simp only [spelled] at cut
      have member : last ∈ cells none text := by simp [runs.whole]
      have operates := runs.operates last (by simp)
      obtain ⟨operator, known⟩ := Option.isSome_iff_exists.mp operates
      have symbol : operator.symbol = [last.1] :=
        Operator.ofText?_eq_some_iff.mp ((ofChar?_of_mem_cells member operates).trans known)
      have whole : (front ++ earlier).map Prod.fst ++ operator.symbol ++ behind.map Prod.fst = text := by
        rw [symbol, ← map_fst_cells none text, runs.whole]
        simp
      rw [cut]
      exact .inr ⟨operator, known, plain, by rw [whole, cut]⟩

/-- An operator in the right term was before the one that the text is cut at, which asks for one term. -/
theorem terms_of_operator (text : Text)
    (more : ∃ cell ∈ cells none (parse text).terms.2, isOperator cell = true) :
    (parse text).terms = ([], (parse text).left) ∧
      ∃ operator, (parse text).operator = some operator ∧ operator.isUnary = true := by
  obtain ⟨cell, member, operates⟩ := more
  by_cases unary : ((parse text).right.isEmpty && (parse text).operator.any Operator.isUnary) = true
  · rw [terms, if_pos unary]
    rw [Bool.and_eq_true, Option.any_eq_true] at unary
    exact ⟨rfl, unary.2⟩
  · rw [terms, if_neg unary] at member
    rcases parse_again text with ⟨whole, plain⟩ | ⟨-, -, plain, -⟩
    · rw [whole] at member
      rw [plain cell member] at operates
      cases operates
    · rw [plain cell member] at operates
      cases operates

/-- The terms and the operator of a text are those of the text that is composed of them, if no operator is
left in the right term. -/
theorem parse_recomposed (text : Text)
    (plain : ∀ cell ∈ cells none (parse text).terms.2, isOperator cell = false) :
    parse ((parse text).terms.1 ++ ((parse text).operator.getD .present).symbol ++
      (parse text).terms.2) =
        ⟨(parse text).terms.1, some ((parse text).operator.getD .present), (parse text).terms.2⟩ := by
  by_cases unary : ((parse text).right.isEmpty && (parse text).operator.any Operator.isUnary) = true
  · have postfixed : (parse text).terms = ([], (parse text).left) := by rw [terms, if_pos unary]
    rw [postfixed] at plain ⊢
    exact parse_prefixed plain _
  · have placed : (parse text).terms = ((parse text).left, (parse text).right) := by
      rw [terms, if_neg unary]
    rw [placed]
    rcases parse_again text with ⟨whole, plain⟩ | ⟨operator, known, -, again⟩
    · rw [whole]
      exact parse_prefixed plain .present
    · rw [known, Option.getD_some, again, ← known]

/-- Behind an operator that asks for one term, a right term with an operator in it is cut at that. -/
theorem exists_left_of_operator {c : Char} {operator : Operator} (symbol : operator.symbol = [c])
    (begun : ∀ cell ∈ (cells none right).head?, isOperator cell = false)
    (more : ∃ cell ∈ cells none right, isOperator cell = true) :
    ∃ rest, (parse (c :: right)).left = c :: rest := by
  have spells : Operator.ofChar? c = some operator := Operator.ofText?_eq_some_iff.mpr symbol
  have free : isShielded (some c) = isShielded none := isShield_of_ofChar? (by rw [spells]; rfl)
  have whole : cells none (c :: right) = (c, some operator) :: cells none right := by
    rw [cells, spells, cells_congr free]
    rfl
  obtain ⟨cell, member, operates⟩ := more
  rcases exists_runs (c :: right) with plain | ⟨front, earlier, last, behind, runs⟩
  · rw [plain cell (by simp [whole, member])] at operates
    cases operates
  · have parts := runs.whole
    rw [whole] at parts
    cases front with
    | nil =>
      -- The run would begin with the operator and stop before the right term, which begins otherwise.
      cases earlier with
      | nil =>
        have same : cells none right = behind := (List.cons.inj parts).2
        rw [same] at member
        rw [runs.last cell member] at operates
        cases operates
      | cons first earlier =>
        have same : cells none right = earlier ++ [last] ++ behind := (List.cons.inj parts).2
        obtain ⟨next, rest, run⟩ := List.exists_cons_of_ne_nil (by simp : earlier ++ [last] ≠ [])
        have operates := runs.operates next (List.mem_cons_of_mem first (by simp [run]))
        rw [begun next (by simp [same, run])] at operates
        cases operates
    | cons first front =>
      obtain ⟨rfl, -⟩ := List.cons.inj parts
      rw [runs.parse_eq]
      split
      · exact ⟨_, rfl⟩
      · exact ⟨_, rfl⟩

end TermSet

end MarcPath
