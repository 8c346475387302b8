import MarcPath.Text.Basic

/-! The six operators of a condition. -/
namespace MarcPath

inductive Operator where
  | equal
  | unequal
  | similar
  | dissimilar
  | present
  | missing
  deriving Repr, DecidableEq

namespace Operator

def symbol : Operator → Text
  | equal => ['=']
  | unequal => ['!', '=']
  | similar => ['~']
  | dissimilar => ['!', '~']
  | present => ['?']
  | missing => ['!']

def ofText? : Text → Option Operator
  | ['='] => some equal
  | ['!', '='] => some unequal
  | ['~'] => some similar
  | ['!', '~'] => some dissimilar
  | ['?'] => some present
  | ['!'] => some missing
  | _ => none

/-- Every operator is known by its symbol. -/
theorem ofText?_symbol (operator : Operator) : ofText? operator.symbol = some operator := by
  cases operator <;> rfl

/-- The operator that one character spells. -/
def ofChar? (c : Char) : Option Operator :=
  ofText? [c]

/-- The operators that say something of a single term. -/
def isUnary : Operator → Bool
  | present | missing => true
  | _ => false

end Operator
end MarcPath
