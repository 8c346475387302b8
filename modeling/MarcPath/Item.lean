import MarcPath.Condition
import MarcPath.Path.Basic

/-! Items are any values of the notation, side by side. Items of different kinds are never equal, and
a list of alternatives is no item of a set. -/
namespace MarcPath

inductive Item where
  | path (value : Path)
  | field (value : Field Path)
  | subfield (value : Subfield Path)
  | span (value : Span)
  | literal (value : Literal)
  /-- A term, or the place of one that was not given. -/
  | term (value : Option (Term Path))
  | condition (value : Condition Path)
  | alternatives (values : List (Condition Path))
  | text (value : Text)
  deriving BEq

namespace Item

/-- A group with one condition is that condition. -/
def ofGroup (group : Group Path) : Item :=
  if group.others.isEmpty then condition group.first else alternatives group.conditions

def isAlternatives : Item → Bool
  | alternatives _ => true
  | _ => false

/-- Which items equal which. -/
def matrix (items : List Item) : List (List Bool) :=
  items.map fun item => items.map (item == ·)

/-- How many different items there are, lists of alternatives left out. -/
def distinct (items : List Item) : Nat :=
  ((items.filter (!·.isAlternatives)).foldl
    (fun known item => if known.any (· == item) then known else item :: known) []).length

end Item
end MarcPath
