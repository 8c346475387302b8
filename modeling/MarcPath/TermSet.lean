import MarcPath.Mark
import MarcPath.Operator

/-! A term set is a condition without its brackets: a left term, an operator and a right term, run
together. The last operator character that is not shielded decides where it is cut. -/
namespace MarcPath

/-- A term set cut at its operator; without one, all of it is the right term. -/
structure TermSet where
  left : Text
  operator : Option Operator
  right : Text
  deriving Repr, DecidableEq

namespace TermSet

/-- A character with the operator it spells, if it stands for one. -/
abbrev Cell := Char × Option Operator

def cells (before : Option Char) : Text → List Cell
  | [] => []
  | c :: rest =>
    (c, if isShielded before then none else Operator.ofChar? c) :: cells (some c) rest

def isOperator (cell : Cell) : Bool :=
  cell.2.isSome

/-- A text with adjacent repeats folded into one. -/
def fold : Text → Text
  | [] => []
  | [c] => [c]
  | c :: next :: rest => if c == next then fold (next :: rest) else c :: fold (next :: rest)

/-- Cuts a term set. The operator characters that run up to the last one are one operator if they
spell one once repeats are folded; otherwise the last one stands alone. -/
def parse (text : Text) : TermSet :=
  let backwards := (cells none text).reverse
  let right := (backwards.takeWhile (!isOperator ·)).reverse.map Prod.fst
  let upToLast := backwards.dropWhile (!isOperator ·)
  let run := (upToLast.takeWhile isOperator).reverse.map Prod.fst
  let left := (upToLast.dropWhile isOperator).reverse.map Prod.fst
  match upToLast with
  | [] => ⟨[], none, text⟩
  | (_, last) :: earlier =>
    match Operator.ofText? (fold run) with
    | some operator => ⟨left, some operator, right⟩
    | none => ⟨earlier.reverse.map Prod.fst, last, right⟩

end TermSet
end MarcPath
