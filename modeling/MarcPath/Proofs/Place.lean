import MarcPath.Proofs.Guarded

/-! The places of a text. What a character stands for is seen from it and from the character before it, so
that each scan over a term set or a group says the same of a text as a condition on all of its places. -/
namespace MarcPath

namespace Text

/-- The character before a place. -/
def before (text : Text) (place : Nat) : Option Char :=
  (text.take place).getLast?

theorem lastFrom_take (text : Text) (place : Nat) :
    lastFrom none (text.take place) = text.before place :=
  lastFrom_none _

theorem splitAfter_cons_eq_self_iff {cuts : Option Char → Char → Bool} {first : Option Char} {c : Char}
    {rest : Text} : splitAfter cuts first (c :: rest) = (c :: rest, []) ↔
      cuts first c = false ∧ splitAfter cuts (some c) rest = (rest, []) := by
  rw [splitAfter]
  cases cuts first c <;> simp [Prod.ext_iff]

/-- A text is left in one piece if it is cut at none of its places. -/
theorem splitAfter_eq_self_iff {cuts : Option Char → Char → Bool} {first : Option Char} {text : Text} :
    splitAfter cuts first text = (text, []) ↔
      ∀ place c, text[place]? = some c → cuts (lastFrom first (text.take place)) c = false := by
  induction text generalizing first with
  | nil => simp [splitAfter]
  | cons c rest ih =>
    rw [splitAfter_cons_eq_self_iff, ih]
    constructor
    · rintro ⟨here, later⟩ place other found
      cases place with
      | zero =>
        obtain rfl := Option.some.inj found
        exact here
      | succ place => exact later place other found
    · intro none
      exact ⟨none 0 c rfl, fun place other found => none (place + 1) other found⟩

end Text

/-- A group has one alternative if each bar in it stands behind a backslash. -/
theorem Group.alternatives_eq_self_iff {inner : Text} :
    alternatives inner = (inner, []) ↔
      ∀ place, inner[place]? = some '|' → inner.before place = some '\\' := by
  rw [alternatives, Text.splitAfter_eq_self_iff]
  simp only [Text.lastFrom_take, Bool.and_eq_false_iff, beq_eq_false_iff_ne, bne_eq_false_iff_eq]
  constructor
  · intro kept place bar
    exact (kept place '|' bar).resolve_left (by simp)
  · intro kept place c found
    by_cases bar : c = '|'
    · exact .inr (kept place (bar ▸ found))
    · exact .inl bar

theorem Mark.getElem?_ofText (first : Option Char) (text : Text) (place : Nat) :
    (ofText first text)[place]? =
      text[place]?.map (ofChar (Text.lastFrom first (text.take place))) := by
  induction text generalizing first place with
  | nil => rfl
  | cons c rest ih =>
    cases place with
    | zero => rfl
    | succ place => simpa [ofText, Text.lastFrom] using ih (some c) place

/-- Brackets mean nothing in a text in which each of them is shielded. -/
theorem Text.unbracketed_iff {text : Text} :
    Unbracketed text ↔
      ∀ place c, text[place]? = some c → c = '{' ∨ c = '}' → isShielded (text.before place) = true := by
  have marks (place : Nat) : (Mark.ofText none text)[place]? = _ := Mark.getElem?_ofText none text place
  constructor
  · intro flat place c found bracket
    have mark := flat (Mark.ofChar (text.before place) c)
      (List.mem_of_getElem? (by rw [marks, found, lastFrom_take]; rfl))
    by_contra free
    rcases bracket with rfl | rfl <;> simp [Mark.ofChar, free, Mark.isBracket] at mark
  · intro shielded mark member
    obtain ⟨place, found⟩ := List.mem_iff_getElem?.mp member
    rw [marks, lastFrom_take] at found
    obtain ⟨c, here, rfl⟩ := Option.map_eq_some_iff.mp found
    by_cases bracket : c = '{' ∨ c = '}'
    · rw [Mark.ofChar_shielded (shielded place c here bracket)]
      rfl
    · rw [not_or] at bracket
      unfold Mark.ofChar
      repeat' split
      all_goals simp_all [Mark.isBracket]

namespace TermSet

/-- The character at a place stands for an operator: it can spell one, and neither a dollar nor a
backslash stands before it. -/
def OperatesAt (text : Text) (place : Nat) : Prop :=
  ∃ c, text[place]? = some c ∧ c ∈ ['=', '~', '?', '!'] ∧ isShielded (text.before place) = false

theorem getElem?_cells (first : Option Char) (text : Text) (place : Nat) :
    (cells first text)[place]? = text[place]?.map fun c =>
      (c, if isShielded (Text.lastFrom first (text.take place)) then none else Operator.ofChar? c) := by
  induction text generalizing first place with
  | nil => rfl
  | cons c rest ih =>
    cases place with
    | zero => rfl
    | succ place => simpa [cells, Text.lastFrom] using ih (some c) place

theorem operatesAt_iff {text : Text} {place : Nat} :
    OperatesAt text place ↔ ∃ cell, (cells none text)[place]? = some cell ∧ isOperator cell = true := by
  rw [getElem?_cells, Text.lastFrom_take]
  constructor
  · rintro ⟨c, found, symbol, free⟩
    refine ⟨_, by rw [found]; rfl, ?_⟩
    have spells : ∀ c ∈ ['=', '~', '?', '!'], (Operator.ofChar? c).isSome = true := by
      simp [Operator.ofChar?, Operator.ofText?]
    simpa [isOperator, free] using spells c symbol
  · rintro ⟨cell, found, operates⟩
    obtain ⟨c, here, rfl⟩ := Option.map_eq_some_iff.mp found
    cases free : isShielded (text.before place) with
    | true => simp [isOperator, free] at operates
    | false => exact ⟨c, here, Operator.mem_of_ofChar? (by simpa [isOperator, free] using operates), free⟩

/-- A text has no operator if none of its characters stands for one. -/
theorem forall_not_operatesAt_iff {text : Text} :
    (∀ place, ¬ OperatesAt text place) ↔ ∀ cell ∈ cells none text, isOperator cell = false := by
  simp only [operatesAt_iff, not_exists, not_and, Bool.not_eq_true]
  constructor
  · intro none cell member
    obtain ⟨place, found⟩ := List.mem_iff_getElem?.mp member
    exact none place cell found
  · intro none place cell found
    exact none cell (List.mem_of_getElem? found)

end TermSet

end MarcPath
